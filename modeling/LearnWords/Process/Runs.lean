import LearnWords.Bot.Replies
import LearnWords.Process.Stage

/-!
# LearnWords.Process.Runs

What holds of the program over its runs: it asks Telegram for nothing and works
on nothing before its connections are up and its statements prepared
(`orderly_of_runs`); its exit code is explained by what it was started in and by
the tables it found (`ending_of_runs`), and its event loop never ends by itself.

But for its start-up it is the bot: a run of the program is one of the bot, in
which a start is a restart (`bot_of_runs`).
-/

namespace LearnWords

open Machine Coro

variable {lib : Platform} {mode : SqlMode} {p : Process}

/-! ## in the event loop -/

/-- What holds of a program in its event loop. -/
structure Orderly (p : Process) (r : Running) : Prop where
  /-- before the poll begins nothing is asked for, handed over or worked on -/
  quiet : r.polling = false →
    p.bot.wire = .idle ∧ p.bot.handed = [] ∧ p.bot.tasks.fibers = []
  /-- when it begins Telegram is connected and the database is ready -/
  ready : r.polling = true → p.backend.stream = .secured ∧ p.backend.Ready
  /-- the inventory is reloaded once, when all its services are initialized -/
  reloads : r.reloads = 0 ∨
    (r.reloads = 1 ∧ r.polling = true ∧ r.coroutine = none ∧ r.posted = [])
  /-- there is always something to wait for -/
  hasWork : r.hasWork p.bot = true

theorem Fresh.quiet {bot : BotState} (h : Fresh bot) :
    bot.wire = .idle ∧ bot.handed = [] ∧ bot.tasks.fibers = [] := by
  obtain ⟨server, world, earlier, rfl⟩ := h
  exact ⟨rfl, rfl, rfl⟩

/-- A poll none of whose failures was delivered is outstanding. -/
theorem resumes_of_steady {bot : BotState} (h : Steady defaultPoll bot) (hlive : bot.failed = false) :
    bot.resumes = 1 := by
  obtain ⟨got, left, -, hst⟩ := h
  rw [hst.resumes_eq, hlive]
  rfl

theorem orderly_of_sound {r : Running} (hp : Sound p) (hrunning : p.program = .running r) :
    Orderly p r := by
  obtain ⟨c, hstage⟩ := hp.stage r hrunning
  cases hstage with
  | starting svc made left coro log inventory coroutine posted polling reloads fresh =>
      exact ⟨fun _ => fresh.quiet, by simp [polling], .inl reloads, by simp [Running.hasWork, coroutine]⟩
  | raised svc e log inventory coroutine posted polling reloads fresh =>
      exact ⟨fun _ => fresh.quiet, by simp [polling], .inl reloads, by simp [Running.hasWork, coroutine]⟩
  | failing e coroutine posted polling reloads fresh =>
      exact ⟨fun _ => fresh.quiet, by simp [polling], .inl reloads, by simp [Running.hasWork, posted]⟩
  | resumed log inventory coroutine posted polling reloads serving
    | initialized log inventory coroutine posted polling reloads serving =>
      exact ⟨by simp [polling], fun _ => ⟨serving.secured, serving.ready⟩, .inl reloads,
        by simp [Running.hasWork, posted]⟩
  | atWork coroutine posted polling reloads serving =>
      have hresumes := resumes_of_steady hp.steady serving.live
      exact ⟨by simp [polling], fun _ => ⟨serving.secured, serving.ready⟩,
        .inr ⟨reloads, polling, coroutine, posted⟩, by simp [Running.hasWork, polling, hresumes]⟩

/-- **Start-up**: whatever fails and whenever the program is killed, a program
in its event loop is orderly. -/
theorem orderly_of_runs (lib : Platform) (mode : SqlMode) (backend : Backend) (server : Server)
    (world : World) (es : List ProcessEvent) (p : Process) (r : Running)
    (h : runs (Process.step lib mode) (.initial backend server world) es = some p)
    (hrunning : p.program = .running r) : Orderly p r :=
  orderly_of_sound (sound_of_runs h) hrunning

/-- The program, if it is in its event loop. -/
def Program.running? : Program → Option Running
  | .running r => some r
  | _ => none

theorem Program.running?_eq_some {program : Program} {r : Running} :
    program.running? = some r ↔ program = .running r := by
  cases program <;> simp [running?]

/-- Every credential is `/1`, with a newline behind it. -/
def completeEnvironment : Environment :=
  ⟨.ok ⟨false, .require⟩, .directory fun _ => .mapped [47, 49, 10], .ok (), none⟩

/-- The arguments as they are written. -/
def writtenOrder : EvaluationOrder :=
  ⟨[.botToken, .mysqlUser, .mysqlPassword, .mysqlSocket], .refl _⟩

/-- A start-up in which nothing fails. -/
def comesUp : List ProcessEvent :=
  .start completeEnvironment writtenOrder :: List.replicate 3 (.reply .served) ++
    .completed :: List.replicate 9 (.reply .served) ++ [.completed, .posted, .posted]

/-- A server on which nothing exists yet, and all is granted. -/
def emptyBackend : Backend := ⟨[], .closed, ⟨.empty, fun _ => true, none⟩⟩

theorem orderly_of_runs_comesUp : ∃ p r,
    runs (Process.step plainPlatform .strict)
      (.initial emptyBackend Server.empty ⟨⟨[], by decide⟩, []⟩) comesUp = some p ∧
    p.program = .running r ∧ Orderly p r := by
  have hrun : ((runs (Process.step plainPlatform .strict)
      (.initial emptyBackend Server.empty ⟨⟨[], by decide⟩, []⟩) comesUp).bind
        fun p => p.program.running?).isSome = true := by
    decide +kernel
  obtain ⟨r, hr⟩ := Option.isSome_iff_exists.mp hrun
  obtain ⟨p, hp, hrunning⟩ := Option.bind_eq_some_iff.mp hr
  have hprogram := Program.running?_eq_some.mp hrunning
  exact ⟨p, r, hp, hprogram, orderly_of_runs plainPlatform .strict emptyBackend Server.empty
    ⟨⟨[], by decide⟩, []⟩ comesUp p r hp hprogram⟩

/-! ## the server it talks to -/

/-- What makes a server fit outlives every event. -/
theorem fitFact_step {p p' : Process} {e : ProcessEvent} {f : StartFact} (hf : f ∈ fitFacts)
    (hp : Sound p) (h : p.step lib mode e = some p') (hhas : p.backend.Has f) : p'.backend.Has f := by
  cases Process.change_of_step h with
  | start stopped launched =>
      rw [(launch_cases launched).1]
      simp only [fitFacts, List.mem_cons, List.not_mem_nil, or_false] at hf
      rcases hf with rfl | rfl <;> exact hhas
  | reply program coroutine ended => exact callStep_keeps keeps (breaks_fitFacts hf) ended hhas
  | posted program posted invoked =>
      obtain ⟨c, hstage⟩ := hp.stage _ program
      rw [(stage_posted hstage posted invoked).1]
      exact hhas
  | bot notRestart polling stepped =>
      rw [(Process.botStep_cases stepped).2.1]
      exact hhas
  | kill | returned | raised | idle | misread => exact hhas

theorem fitFact_of_runs {backend : Backend} {server : Server} {world : World}
    {es : List ProcessEvent} {f : StartFact} (hf : f ∈ fitFacts)
    (h : runs (Process.step lib mode) (.initial backend server world) es = some p)
    (hhas : backend.Has f) : p.backend.Has f :=
  (runs_invariant (I := fun p => Sound p ∧ p.backend.Has f)
    (fun _ _ _ hp hstep => ⟨sound_step hp.1 hstep, fitFact_step hf hp.1 hstep hp.2⟩) h
    ⟨sound_initial backend server world, hhas⟩).2

theorem fit_of_runs {backend : Backend} {server : Server} {world : World} {es : List ProcessEvent}
    (h : runs (Process.step lib mode) (.initial backend server world) es = some p)
    (hfit : backend.Fit) : p.backend.Fit :=
  fit_iff.mpr fun f hf => fitFact_of_runs hf h (fit_iff.mp hfit f hf)

/-- No task misreads a state, if the tables are the program's own. -/
theorem misreads_of_own {r : Running} {i : Nat} (hp : Sound p) (hprogram : p.program = .running r)
    (hown : p.backend.mysql.Has .own) : p.misreads i = false := by
  unfold Process.misreads
  split
  · next op k hi =>
      -- there is a task, so the database is ready
      have horderly := orderly_of_sound hp hprogram
      have hpolling : r.polling = true := by
        by_contra hnot
        obtain ⟨-, -, hnone⟩ := horderly.quiet (by simpa using hnot)
        simp [hnone] at hi
      have htable : p.backend.mysql.Has (.table .settings) :=
        (horderly.ready hpolling).2.tables .settings
      rw [hown.statesAreBytes htable]
      rfl
  · rfl

/-! ## how it ends -/

/-- What the program was started in the last time. -/
def lastStart (es : List ProcessEvent) : Option (Environment × EvaluationOrder) :=
  (es.filterMap fun
    | .start env order => some (env, order)
    | _ => none).getLast?

/-- The exception that says that a state is not a byte. -/
def inconsistent (lib : Platform) : Ending := .ofThrown (Misread.notUint8.thrown lib)

/-- An exception leaves the event loop, and the program ends so.  It can complain
of the database only if there are tables that are not the program's. -/
def Escapes (lib : Platform) (backend : Backend) (e : Ending) : Prop :=
  (∃ what, e = .exits .caughtException (some what)) ∨
    (e = inconsistent lib ∧ ¬ backend.mysql.Has .own)

/-- An ending is explained: it came before the event loop, and tells about the
environment; or an exception left the loop. -/
def Explained (lib : Platform) (backend : Backend) (env : Environment) (order : EvaluationOrder)
    (e : Ending) : Prop :=
  (startUp lib env order = .error e ∧ Tells lib env e) ∨
    ((∃ params, startUp lib env order = .ok params) ∧ Escapes lib backend e)

/-- The program's last start leads to where it is. -/
structure Accounted (lib : Platform) (backend : Backend) (es : List ProcessEvent) (p : Process) :
    Prop where
  ended : ∀ e, p.program = .ended e →
    ∃ env order, lastStart es = some (env, order) ∧ Explained lib backend env order e
  running : ∀ r, p.program = .running r →
    ∃ env order params, lastStart es = some (env, order) ∧ startUp lib env order = .ok params

/-- An event that is no start leaves the last one. -/
theorem lastStart_concat {es : List ProcessEvent} {e : ProcessEvent}
    (he : ∀ env order, e ≠ .start env order) : lastStart (es ++ [e]) = lastStart es := by
  cases e with
  | start env order => exact absurd rfl (he env order)
  | kill | reply | completed | posted | bot | idle | misread => simp [lastStart]

theorem lastStart_start (es : List ProcessEvent) (env : Environment) (order : EvaluationOrder) :
    lastStart (es ++ [.start env order]) = some (env, order) := by simp [lastStart]

/-- What becomes of the program by an event that does not start it. -/
theorem program_of_step {p p' : Process} {e : ProcessEvent} (hp : Sound p)
    (he : ∀ env order, e ≠ .start env order) (h : p.step lib mode e = some p') :
    p'.program = .absent ∨ p'.program = p.program ∨
      ∃ r, p.program = .running r ∧
        ((∃ r', p'.program = .running r') ∨
          ∃ ending, p'.program = .ended ending ∧ Escapes lib p.backend ending) := by
  cases Process.change_of_step h with
  | start => exact absurd rfl (he _ _)
  | kill => exact .inl rfl
  | reply program | returned program | raised program =>
      exact .inr (.inr ⟨_, program, .inl ⟨_, rfl⟩⟩)
  | posted program posted invoked =>
      obtain ⟨c, hstage⟩ := hp.stage _ program
      obtain ⟨-, -, hcases⟩ := stage_posted hstage posted invoked
      refine .inr (.inr ⟨_, program, ?_⟩)
      rcases hcases with ⟨n, r', -, hrunning, -⟩ | ⟨-, what, hended⟩
      · exact .inl ⟨r', hrunning⟩
      · exact .inr ⟨_, hended, .inl ⟨what, rfl⟩⟩
  | idle program nothing =>
      -- the loop never runs dry
      rw [(orderly_of_sound hp program).hasWork] at nothing
      contradiction
  | bot notRestart polling stepped =>
      obtain ⟨-, -, ⟨ex, rfl, -, hended⟩ | ⟨-, hsame⟩⟩ := Process.botStep_cases stepped
      · obtain ⟨r, hr, -⟩ := polling rfl
        exact .inr (.inr ⟨r, hr, .inr ⟨_, hended, .inl ⟨_, rfl⟩⟩⟩)
      · exact .inr (.inl hsame)
  | @misread r i m program misreads =>
      refine .inr (.inr ⟨r, program, .inr ⟨_, rfl, ?_⟩⟩)
      cases m with
      | notUint64 => exact .inl ⟨_, rfl⟩
      | notUint8 =>
          refine .inr ⟨rfl, fun hown => ?_⟩
          rw [misreads_of_own hp program hown] at misreads
          contradiction

/-- A start is accounted for by the environment. -/
theorem accounted_start {backend : Backend} {es : List ProcessEvent} {p p' : Process}
    {env : Environment} {order : EvaluationOrder} (h : p.launch lib env order = some p') :
    Accounted lib backend (es ++ [.start env order]) p' := by
  obtain ⟨-, -, hcases⟩ := launch_cases h
  rcases hcases with ⟨e, hstart, hended⟩ | ⟨params, r, hstart, -, hrunning⟩
  · refine ⟨fun e' he' => ?_, fun r hr => by simp [hended] at hr⟩
    rw [hended, Program.ended.injEq] at he'
    subst he'
    exact ⟨env, order, lastStart_start .., .inl ⟨hstart, tells_of_startUp hstart⟩⟩
  · exact ⟨fun e he => by simp [hrunning] at he, fun r' _ =>
      ⟨env, order, params, lastStart_start .., hstart⟩⟩

/-- Every event keeps the account. -/
theorem accounted_step {backend : Backend} {es : List ProcessEvent} {p p' : Process}
    {e : ProcessEvent} (hp : Sound p) (hown : backend.mysql.Has .own → p.backend.mysql.Has .own)
    (ha : Accounted lib backend es p) (h : p.step lib mode e = some p') :
    Accounted lib backend (es ++ [e]) p' := by
  by_cases he : ∃ env order, e = .start env order
  · obtain ⟨env, order, rfl⟩ := he
    cases Process.change_of_step h with
    | start stopped launched => exact accounted_start launched
  · have hnot : ∀ env order, e ≠ .start env order := fun env order heq => he ⟨env, order, heq⟩
    have hlast : lastStart (es ++ [e]) = lastStart es := lastStart_concat hnot
    rcases program_of_step hp hnot h with habsent | hsame | ⟨r, hr, hcases⟩
    · exact ⟨by simp [habsent], by simp [habsent]⟩
    · exact ⟨by rw [hsame, hlast]; exact ha.ended, by rw [hsame, hlast]; exact ha.running⟩
    · obtain ⟨env, order, params, hstart, hok⟩ := ha.running r hr
      rcases hcases with ⟨r', hrunning⟩ | ⟨ending, hended, hescapes⟩
      · exact ⟨by simp [hrunning], fun _ _ => ⟨env, order, params, by rw [hlast, hstart], hok⟩⟩
      · refine ⟨fun e' he' => ?_, by simp [hended]⟩
        rw [hended, Program.ended.injEq] at he'
        subst he'
        refine ⟨env, order, by rw [hlast, hstart], .inr ⟨⟨params, hok⟩, ?_⟩⟩
        exact hescapes.imp id fun hescapes => ⟨hescapes.1, fun h => hescapes.2 (hown h)⟩

theorem accounted_of_runs {backend : Backend} {server : Server} {world : World}
    {es : List ProcessEvent}
    (h : runs (Process.step lib mode) (.initial backend server world) es = some p) :
    Accounted lib backend es p := by
  induction es using List.reverseRecOn generalizing p with
  | nil =>
      obtain rfl := Option.some.inj h
      exact ⟨by simp [Process.initial], by simp [Process.initial]⟩
  | append_singleton es e ih =>
      rw [runs_concat] at h
      obtain ⟨q, hq, hstep⟩ := Option.bind_eq_some_iff.mp h
      have hown : backend.mysql.Has .own → q.backend.mysql.Has .own :=
        fitFact_of_runs (f := .db .own) (by simp [fitFacts]) hq
      exact accounted_step (sound_of_runs hq) hown (ih hq) hstep

/-- How the program ended, if it did. -/
def Program.ended? : Program → Option Ending
  | .ended e => some e
  | _ => none

theorem Program.ended?_eq_some {program : Program} {e : Ending} :
    program.ended? = some e ↔ program = .ended e := by
  cases program <;> simp [ended?]

/-- A server on which somebody else has made the table `settings`, with numbers of
another type for the states. -/
def foreignBackend : Backend :=
  ⟨[], .closed, ⟨⟨true, fun t => if t = .settings then some ⟨[("tg_user_id", .bigintUnsigned),
    ("state", .other)], ["tg_user_id"]⟩ else none, fun _ _ => rfl⟩, fun _ => true, none⟩⟩

/-- The program comes up there, and the task of a command reads a large one. -/
def misreadState : List ProcessEvent :=
  comesUp ++ [.bot (.arrive firstUpdate), .bot .resume, .bot (.serve 1), .bot .receive,
    .bot .onUpdate, .bot (.task (.initiate 0)), .misread 0 .notUint8]

/-- The event of the bot: a start of the program is a restart. -/
def ProcessEvent.toBot : ProcessEvent → Option BotEvent
  | .start _ _ => some .restart
  | .bot e => some e
  | _ => none

/-- Each event of the program is the bot's, or none. -/
theorem toBot_step {p p' : Process} {e : ProcessEvent} (hp : Sound p)
    (h : p.step lib mode e = some p') :
    runs (BotState.step defaultPoll mode) p.bot e.toBot.toList = some p'.bot := by
  cases Process.change_of_step h with
  | start stopped launched =>
      obtain ⟨-, hbot, -⟩ := launch_cases launched
      rw [hbot]
      rfl
  | kill | reply | returned | raised | idle | misread => rfl
  | posted program posted invoked =>
      obtain ⟨c, hstage⟩ := hp.stage _ program
      obtain ⟨-, hbot, -⟩ := stage_posted hstage posted invoked
      rw [hbot]
      rfl
  | bot notRestart polling stepped =>
      obtain ⟨hbot, -, -⟩ := Process.botStep_cases stepped
      simp only [ProcessEvent.toBot, Option.toList_some, runs_cons, hbot, Option.bind_some, runs_nil]

/-- A run of the program is a run of the bot. -/
theorem bot_of_runs {backend : Backend} {server : Server} {world : World} {es : List ProcessEvent}
    (h : runs (Process.step lib mode) (.initial backend server world) es = some p) :
    runs (BotState.step defaultPoll mode) (.start server world []) (es.filterMap (·.toBot)) =
      some p.bot := by
  have hstep : ∀ s s' e t, (Sound s ∧ s.bot = s') → Process.step lib mode s e = some t →
      ∃ t', runs (BotState.step defaultPoll mode) s' e.toBot.toList = some t' ∧
        (Sound t ∧ t.bot = t') := by
    rintro s _ e t ⟨hs, rfl⟩ hst
    exact ⟨t.bot, toBot_step hs hst, sound_step hs hst, rfl⟩
  obtain ⟨w, hruns, -, rfl⟩ := runs_simulates hstep h ⟨sound_initial backend server world, rfl⟩
  exact hruns

end LearnWords

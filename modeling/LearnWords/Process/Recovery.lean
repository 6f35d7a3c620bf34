import LearnWords.Bot.Poll
import LearnWords.Process.Runs

/-!
# LearnWords.Process.Recovery

Where the program gets when nothing fails from now on, in every run.

A program in its event loop in which a failure is on its way exits.  One in
which none is, over a server that is fit, comes up and hands over everything
that has arrived (`settles_of_runs`); so does one that is started anew in an
environment that has what it needs, wherever it was before (`recovers_of_runs`).

The bot is the one each of whose requests gets the response to it: no call
reads another's.

Each event of a start-up brings the program nearer to where it leads
(`Rising`, `Falling`), and each of the poll to the updates that have arrived; and
as long as it has not got there one of these events is possible.
-/

namespace LearnWords

open Machine Coro

variable {lib : Platform} {mode : SqlMode} {p q : Process} {r : Running}

/-- Nothing fails, and the program is not stopped: the servers serve its calls,
and Telegram answers with updates. -/
def Undisturbed (p : Process) : ProcessEvent → Prop
  | .reply reply => reply = .served
  | .completed | .posted | .idle => True
  | .bot e => Eager p.bot e
  | .start _ _ | .kill | .misread _ _ => False

instance (p : Process) (e : ProcessEvent) : Decidable (Undisturbed p e) := by
  cases e <;> unfold Undisturbed <;> infer_instance

namespace ProcessEvent

/-- Is it an event of the start-up? -/
def isStartUp : ProcessEvent → Bool
  | .reply _ | .completed | .posted => true
  | _ => false

/-- Is it an event of the poll, or an answer of Telegram? -/
def isPoll : ProcessEvent → Bool
  | .bot e => e.isPoll
  | _ => false

/-- Is it one of these? -/
def isOwn (e : ProcessEvent) : Bool := e.isStartUp || e.isPoll

end ProcessEvent

/-- A failure is on its way. -/
def Failing (p : Process) (r : Running) : Prop :=
  (∃ e, r.coroutine = some (.raise e)) ∨ (∃ e, .onInit (some e) ∈ r.posted) ∨
    ∃ ex, p.bot.completion = some (.error ex)

/-- Some event of the kind is possible, and disturbs nothing. -/
def Possible (lib : Platform) (mode : SqlMode) (kind : ProcessEvent → Bool) (p : Process) : Prop :=
  ∃ e p', kind e = true ∧ Undisturbed p e ∧ p.step lib mode e = some p'

/-! ## one event -/

theorem eq_of_running {r' : Running} (h : p.program = .running r) (h' : p.program = .running r') :
    r' = r := by
  rw [h, Program.running.injEq] at h'
  exact h'.symm

/-- The event loop of a program does not run dry. -/
theorem not_idle (hp : Sound p) (hprogram : p.program = .running r) : r.hasWork p.bot ≠ false := by
  rw [(orderly_of_sound hp hprogram).hasWork]
  decide

section

variable (lib mode)

theorem step_completed {result : Start Unit} {r' : Running} (hprogram : p.program = .running r)
    (hcoro : r.coroutine = some result) (ep : Option StartError)
    (hresult : result = match ep with
      | none => .ret ()
      | some e => .raise e)
    (h : { r with coroutine := none }.onInventory (.initDone 0 ep) = some r') :
    p.step lib mode .completed = some { p with program := .running r' } := by
  subst hresult
  cases ep <;> simp only [Process.step, hprogram, hcoro, h, Option.map_some]

theorem step_posted {handler : Handler} {handlers : List Handler} (hprogram : p.program = .running r)
    (hposted : r.posted = handler :: handlers) :
    p.step lib mode .posted = p.invoke lib { r with posted := handlers } handler := by
  simp only [Process.step, hprogram, hposted]

theorem step_bot {e : BotEvent} (hprogram : p.program = .running r) (hpolling : r.polling = true)
    (he : e.isPoll = true) : p.step lib mode (.bot e) = p.botStep lib mode e := by
  cases e <;> simp_all [Process.step, BotEvent.isPoll]

/-- An event of the poll that is possible for the bot is one of the program. -/
theorem possible_poll {e : BotEvent} {w : BotState} {kind : ProcessEvent → Bool}
    (hprogram : p.program = .running r) (hpolling : r.polling = true) (he : e.isPoll = true)
    (hkind : kind (.bot e) = true) (heager : Eager p.bot e)
    (h : p.bot.step defaultPoll mode e = some w) : Possible lib mode kind p := by
  have hstep : ∃ p', p.step lib mode (.bot e) = some p' := by
    rw [step_bot lib mode hprogram hpolling he, Process.botStep, h]
    exact ⟨_, rfl⟩
  obtain ⟨p', hp'⟩ := hstep
  exact ⟨.bot e, p', hkind, heager, hp'⟩

end

/-! ## coming up -/

/-- No failure is on its way, the server is fit, and `n` events of the start-up
are to come. -/
structure Rising (p : Process) (r : Running) (n : Nat) : Prop where
  sound : Sound p
  fit : p.backend.Fit
  program : p.program = .running r
  stage : LoopStage p.backend p.bot r (.rises n)
  live : p.bot.Live

/-- A program that rises is not failing. -/
theorem Rising.healthy {n : Nat} (h : Rising p r n) : ¬ Failing p r := by
  rintro (⟨e, hcoro⟩ | ⟨e, hmem⟩ | ⟨ex, hcompletion⟩)
  · cases h.stage with
    | starting svc made left coro log inventory coroutine posted polling reloads fresh script =>
        rw [coroutine, Option.some.injEq] at hcoro
        exact not_script_raise (hcoro ▸ script)
    | resumed log inventory coroutine | initialized log inventory coroutine | atWork coroutine =>
        simp [coroutine] at hcoro
  · cases h.stage with
    | starting svc made left coro log inventory coroutine posted => simp [posted] at hmem
    | resumed log inventory coroutine posted | initialized log inventory coroutine posted
      | atWork coroutine posted => simp [posted] at hmem
  · exact h.live.unraised ex hcompletion

/-- One that is not failing rises. -/
theorem exists_rising (hp : Sound p) (hfit : p.backend.Fit) (hprogram : p.program = .running r)
    (hnot : ¬ Failing p r) : ∃ n, n ≤ 16 ∧ Rising p r n := by
  have hunraised : ∀ ex, p.bot.completion ≠ some (.error ex) := fun ex hex =>
    hnot (.inr (.inr ⟨ex, hex⟩))
  obtain ⟨c, hstage⟩ := hp.stage r hprogram
  have hrising : ∀ n, LoopStage p.backend p.bot r (.rises n) → p.bot.failed = false →
      n ≤ 16 → ∃ n, n ≤ 16 ∧ Rising p r n := fun n hs hlive hn =>
    ⟨n, hn, hp, hfit, hprogram, hs, hlive, hunraised⟩
  cases id hstage with
  | starting svc made left coro log inventory coroutine posted polling reloads fresh script calls =>
      refine hrising _ hstage ?_ ?_
      · obtain ⟨server, world, earlier, hbot⟩ := fresh
        rw [hbot]
        rfl
      · have hlen := congrArg List.length calls
        simp only [List.length_append] at hlen
        cases svc <;> simp [StartedService.rest, StartedService.after, startScript, connectScript,
          initScript] at hlen ⊢ <;> omega
  | raised svc e log inventory coroutine => exact absurd (.inl ⟨e, coroutine⟩) hnot
  | failing e coroutine posted =>
      exact absurd (.inr (.inl ⟨e, by rw [posted]; exact List.mem_singleton_self _⟩)) hnot
  | resumed log inventory coroutine posted polling reloads serving
    | initialized log inventory coroutine posted polling reloads serving =>
      exact hrising _ hstage serving.live (by omega)
  | atWork coroutine posted polling reloads serving => exact hrising _ hstage serving.live (by omega)

/-- An undisturbed event of the start-up brings the program nearer; no other one
takes it back. -/
theorem rising_step {p' : Process} {e : ProcessEvent} {n : Nat} (h : Rising p r n)
    (he : Undisturbed p e) (hstep : p.step lib mode e = some p') :
    ∃ r' m, Rising p' r' m ∧ m + (if e.isStartUp then 1 else 0) = n := by
  have hsound : Sound p' := sound_step h.sound hstep
  have hfit : p'.backend.Fit := fit_iff.mpr fun f hf =>
    fitFact_step hf h.sound hstep (fit_iff.mp h.fit f hf)
  cases Process.change_of_step hstep with
  | start | kill | misread => exact he.elim
  | reply program coroutine ended =>
      obtain rfl := eq_of_running h.program program
      obtain ⟨m, hm, hstage | ⟨-, hnot⟩⟩ := stage_reply h.stage coroutine ended
      · rw [Course.rises.injEq] at hm
        exact ⟨_, m, ⟨hsound, hfit, rfl, hstage, h.live⟩, hm.symm⟩
      · exact absurd he (hnot h.fit)
  | returned program coroutine invoked =>
      obtain rfl := eq_of_running h.program program
      obtain ⟨m, hm, hstage⟩ := stage_returned h.stage coroutine invoked
      rw [Course.rises.injEq] at hm
      exact ⟨_, m, ⟨hsound, hfit, rfl, hstage, h.live⟩, hm.symm⟩
  | raised program coroutine invoked =>
      obtain rfl := eq_of_running h.program program
      exact nomatch (stage_raised h.stage coroutine invoked).1
  | posted program posted invoked =>
      obtain rfl := eq_of_running h.program program
      obtain ⟨hbackend, hbot, ⟨m, r', hm, hrunning, hstage⟩ | ⟨hfalls, -⟩⟩ :=
        stage_posted h.stage posted invoked
      · rw [Course.rises.injEq] at hm
        refine ⟨r', m, ⟨hsound, hfit, hrunning, ?_, hbot ▸ h.live⟩, hm.symm⟩
        rw [hbackend, hbot]
        exact hstage
      · contradiction
  | idle program nothing => exact absurd nothing (not_idle h.sound program)
  | bot notRestart polling stepped =>
      obtain ⟨hbot, hbackend, ⟨ex, -, hcompletion, -⟩ | ⟨hnot, hprogram⟩⟩ :=
        Process.botStep_cases stepped
      · exact absurd hcompletion (h.live.unraised ex)
      · refine ⟨r, n, ⟨hsound, hfit, hprogram.trans h.program, ?_,
          (toGo_step 0 h.sound.steady h.live he hbot).1⟩, rfl⟩
        rw [hbackend]
        refine stage_bot h.stage (fun hown => ?_) hnot hbot
        obtain ⟨r₁, hr₁, hon⟩ := polling hown
        exact eq_of_running h.program hr₁ ▸ hon

/-- And while some are to come, one of them is possible. -/
theorem Rising.possible_startUp {n : Nat} (lib : Platform) (mode : SqlMode)
    (h : Rising p r (n + 1)) : Possible lib mode (·.isStartUp) p := by
  have hstage := h.stage
  generalize hc : Course.rises (n + 1) = c at hstage
  cases hstage with
  | starting svc made left coro log inventory coroutine posted polling reloads fresh script calls facts =>
      cases left with
      | nil =>
          have hreturn : coro = .ret () := by
            cases script
            rfl
          subst hreturn
          cases svc with
          | tg => exact ⟨.completed, _, rfl, trivial, step_completed lib mode h.program coroutine
              none rfl (Running.initDone_tg (r := { r with coroutine := none }) inventory)⟩
          | db => exact ⟨.completed, _, rfl, trivial, step_completed lib mode h.program coroutine
              none rfl (Running.initDone_db (r := { r with coroutine := none }) inventory)⟩
      | cons k left =>
          obtain ⟨coro', b, hcall, -⟩ := script.step (r := .served) keeps facts
          have hstep : p.step lib mode (.reply .served) = some { p with
              backend := b
              program := .running { r with coroutine := some coro' } } := by
            simp only [Process.step, h.program, coroutine, Option.bind_some, hcall, Option.map_some]
          exact ⟨.reply .served, _, rfl, rfl, hstep⟩
  | raised | failing => contradiction
  | resumed log inventory coroutine posted =>
      have hstep := step_posted lib mode h.program posted
      rw [Process.invoke, Running.initDone_userDialog (r := { r with posted := [] }) inventory] at hstep
      exact ⟨.posted, _, rfl, trivial, hstep⟩
  | initialized log inventory coroutine posted =>
      have hstep := step_posted lib mode h.program posted
      rw [Process.invoke, Running.onInit_eq (r := { r with posted := [] }) inventory] at hstep
      exact ⟨.posted, _, rfl, trivial, hstep⟩
  | atWork => simp at hc

/-- When none is to come the program is up. -/
theorem Rising.up {n : Nat} (h : Rising p r n) (hn : n = 0) : r.polling = true ∧ r.reloads = 1 := by
  cases h.stage with
  | starting svc made left =>
      cases svc <;> simp [StartedService.after] at hn
  | resumed | initialized => simp at hn
  | atWork coroutine posted polling reloads => exact ⟨polling, reloads⟩

/-- Once it polls, the poll can go on. -/
theorem Rising.possible_poll {n : Nat} (lib : Platform) (mode : SqlMode) (h : Rising p r n)
    (hpolling : r.polling = true) : Possible lib mode (·.isPoll) p := by
  obtain ⟨e, w, he, heager, hstep⟩ := exists_poll defaultPoll mode (by decide)
    h.sound.steady h.live
  exact LearnWords.possible_poll lib mode h.program hpolling he he heager hstep

/-! ## the bot in the program -/

/-- An undisturbed run of a program that rises is an eager one of its bot. -/
theorem Rising.run_bot {n : Nat} {fs : List ProcessEvent} (h : Rising p r n)
    (hrun : Run (Process.step lib mode) Undisturbed p fs q) :
    Run (BotState.step defaultPoll mode) Eager p.bot (fs.filterMap (·.toBot)) q.bot ∧
      fs.countP (·.isPoll) = (fs.filterMap (·.toBot)).countP BotEvent.isPoll := by
  have hstep : ∀ s w e t, ((∃ r n, Rising s r n) ∧ s.bot = w) → Undisturbed s e →
      Process.step lib mode s e = some t →
      ∃ w', Run (BotState.step defaultPoll mode) Eager w e.toBot.toList w' ∧
        ((∃ r n, Rising t r n) ∧ t.bot = w') := by
    rintro s _ e t ⟨⟨r₁, m, hs⟩, rfl⟩ he hst
    obtain ⟨r₂, k, ht, -⟩ := rising_step hs he hst
    have hbot := toBot_step hs.sound hst
    refine ⟨t.bot, ?_, ⟨r₂, k, ht⟩, rfl⟩
    cases e with
    | bot e =>
        have hbot' : s.bot.step defaultPoll mode e = some t.bot := by
          simpa [ProcessEvent.toBot] using hbot
        exact Run.next .start he hbot'
    | start | kill | misread => exact he.elim
    | reply | completed | posted | idle =>
        obtain hsame := Option.some.inj hbot
        rw [← hsame]
        exact .start
  obtain ⟨w, hw, -, rfl⟩ := hrun.simulates hstep ⟨⟨r, n, h⟩, rfl⟩
  refine ⟨hw, ?_⟩
  rw [List.countP_filterMap]
  congr 1
  funext e
  cases e <;> rfl

/-! ## on a failure -/

/-- The program has exited with a failure. -/
def Exited (p : Process) : Prop := ∃ what, p.program = .ended (.exits .caughtException (some what))

/-- A failure is on its way, and `n` events of the program at most bring it to its
end. -/
inductive Falling (p : Process) : Nat → Prop
  /-- it is one of the start-up -/
  | startUp {r : Running} {n : Nat} (sound : Sound p) (program : p.program = .running r)
      (stage : LoopStage p.backend p.bot r (.falls n)) : Falling p n
  /-- it is one of the poll -/
  | poll {r : Running} {n : Nat} {ex : Exn} (sound : Sound p) (program : p.program = .running r)
      (stage : LoopStage p.backend p.bot r (.rises n))
      (completion : p.bot.completion = some (.error ex)) : Falling p (n + 1)

/-- While the poll's failure is on its way, the program polls. -/
theorem polling_of_completion {b : Backend} {bot : BotState} {c : Course} {ex : Exn}
    (h : LoopStage b bot r c) (hcompletion : bot.completion = some (.error ex)) :
    r.coroutine = none ∧ r.polling = true ∧ ∃ n, n ≤ 2 ∧ c = .rises n := by
  have hnot : ¬ Fresh bot := by
    rintro ⟨server, world, earlier, rfl⟩
    simp [BotState.start] at hcompletion
  cases h with
  | starting _ _ _ _ _ _ _ _ _ _ fresh | raised _ _ _ _ _ _ _ _ fresh | failing _ _ _ _ _ fresh =>
      exact absurd fresh hnot
  | resumed log inventory coroutine posted polling => exact ⟨coroutine, polling, 2, by omega, rfl⟩
  | initialized log inventory coroutine posted polling => exact ⟨coroutine, polling, 1, by omega, rfl⟩
  | atWork coroutine posted polling => exact ⟨coroutine, polling, 0, by omega, rfl⟩

/-- A failing program falls. -/
theorem exists_falling (hp : Sound p) (hprogram : p.program = .running r) (h : Failing p r) :
    ∃ n, n ≤ 3 ∧ Falling p n := by
  obtain ⟨c, hstage⟩ := hp.stage r hprogram
  rcases h with ⟨e, hcoro⟩ | ⟨e, hmem⟩ | ⟨ex, hcompletion⟩
  · cases id hstage with
    | starting svc made left coro log inventory coroutine posted polling reloads fresh script =>
        rw [coroutine, Option.some.injEq] at hcoro
        exact absurd (hcoro ▸ script) not_script_raise
    | raised => exact ⟨2, by omega, .startUp hp hprogram hstage⟩
    | failing e coroutine | resumed log inventory coroutine | initialized log inventory coroutine
      | atWork coroutine => simp [coroutine] at hcoro
  · cases id hstage with
    | failing => exact ⟨1, by omega, .startUp hp hprogram hstage⟩
    | starting _ _ _ _ _ _ _ posted | raised _ _ _ _ _ posted | resumed _ _ _ posted
      | initialized _ _ _ posted | atWork _ posted => simp [posted] at hmem
  · obtain ⟨-, -, n, hn, rfl⟩ := polling_of_completion hstage hcompletion
    exact ⟨n + 1, by omega, .poll hp hprogram hstage hcompletion⟩

theorem Falling.pos {n : Nat} (h : Falling p n) : 0 < n := by
  cases h with
  | startUp sound program stage => cases stage <;> omega
  | poll => omega

/-- An eager event of a bot whose poll has raised: the failure is delivered, or is
still on its way. -/
theorem completion_step {w w' : BotState} {e : BotEvent} {ex : Exn} (hw : Steady defaultPoll w)
    (hcompletion : w.completion = some (.error ex)) (he : Eager w e)
    (h : w.step defaultPoll mode e = some w') :
    e = .onUpdate ∨ (e.isPoll = false ∧ w'.completion = some (.error ex)) := by
  have hwire : w.wire = .idle := by
    obtain ⟨got, left, -, hst⟩ := hw
    cases hst with
    | suspended _ completion wire => exact wire
    | sent _ _ completion | answered _ _ _ completion => simp [hcompletion] at completion
    | raised _ _ _ _ wire | ended _ _ _ wire => exact wire
  cases e with
  | arrive u =>
      obtain ⟨hu, rfl⟩ := BotState.step_arrive h
      exact .inr ⟨rfl, hcompletion⟩
  | task e =>
      obtain ⟨tasks, -, rfl⟩ := BotState.step_task h
      exact .inr ⟨rfl, hcompletion⟩
  | resume =>
      obtain ⟨r, hnone, -⟩ := BotState.step_resume h
      simp [hcompletion] at hnone
  | serve n =>
      obtain ⟨params, limit, server, hsent, -⟩ := BotState.step_serve h
      simp [hwire] at hsent
  | receive =>
      obtain ⟨batch, hanswered, -⟩ := BotState.step_receive h
      simp [hwire] at hanswered
  | onUpdate => exact .inl rfl
  | fail | refuse | restart => exact he.elim

/-- While a failure of the start-up is on its way, nothing has happened to the bot. -/
theorem quiet_of_falls {b : Backend} {bot : BotState} {n : Nat} (h : LoopStage b bot r (.falls n)) :
    r.polling = false ∧ Fresh bot := by
  cases h with
  | raised svc e log inventory coroutine posted polling reloads fresh => exact ⟨polling, fresh⟩
  | failing e coroutine posted polling reloads fresh => exact ⟨polling, fresh⟩

/-- An undisturbed event of the program brings it nearer to its end, if the
failure is one of the start-up. -/
theorem falling_startUp {p' : Process} {e : ProcessEvent} {n : Nat} (hp : Sound p)
    (hprogram : p.program = .running r) (hstage : LoopStage p.backend p.bot r (.falls n))
    (he : Undisturbed p e) (hstep : p.step lib mode e = some p') :
    Exited p' ∨ ∃ m, Falling p' m ∧ m + (if e.isOwn then 1 else 0) ≤ n := by
  have hsound := sound_step hp hstep
  cases Process.change_of_step hstep with
  | start | kill | misread => exact he.elim
  | reply program coroutine ended =>
      obtain rfl := eq_of_running hprogram program
      obtain ⟨m, hm, -⟩ := stage_reply hstage coroutine ended
      contradiction
  | returned program coroutine invoked =>
      obtain rfl := eq_of_running hprogram program
      obtain ⟨m, hm, -⟩ := stage_returned hstage coroutine invoked
      contradiction
  | raised program coroutine invoked =>
      obtain rfl := eq_of_running hprogram program
      obtain ⟨hn, hstage'⟩ := stage_raised hstage coroutine invoked
      rw [Course.falls.injEq] at hn
      subst hn
      exact .inr ⟨1, .startUp hsound rfl hstage', le_rfl⟩
  | posted program posted invoked =>
      obtain rfl := eq_of_running hprogram program
      obtain ⟨-, -, ⟨m, r', hm, -⟩ | ⟨-, what, hended⟩⟩ := stage_posted hstage posted invoked
      · contradiction
      · exact .inl ⟨what, hended⟩
  | idle program nothing => exact absurd nothing (not_idle hp program)
  | @bot e _ notRestart polling stepped =>
      obtain ⟨hoff, hfresh⟩ := quiet_of_falls hstage
      have hown : e.ofProgram = false := by
        by_contra hown
        obtain ⟨r', hr', hon⟩ := polling (by simpa using hown)
        rw [eq_of_running hprogram hr', hoff] at hon
        contradiction
      obtain ⟨hbot, hbackend, ⟨ex, rfl, -⟩ | ⟨hnot, hsame⟩⟩ := Process.botStep_cases stepped
      · simp [BotEvent.ofProgram] at hown
      · -- no request is on its way that Telegram could answer
        have hpoll : e.isPoll = false := by
          cases e with
          | serve n =>
              obtain ⟨params, limit, server, hsent, -⟩ := BotState.step_serve hbot
              simp [hfresh.quiet.1] at hsent
          | arrive => rfl
          | resume | receive | fail | refuse | onUpdate | task | restart =>
              simp [BotEvent.ofProgram] at hown
        refine .inr ⟨n, .startUp hsound (hsame.trans hprogram) ?_, ?_⟩
        · rw [hbackend]
          exact stage_bot hstage (fun h => by simp [hown] at h) hnot hbot
        · simp [ProcessEvent.isOwn, ProcessEvent.isStartUp, ProcessEvent.isPoll, hpoll]

/-- So it does if the failure is one of the poll. -/
theorem falling_poll {p' : Process} {e : ProcessEvent} {n : Nat} {ex : Exn} (hp : Sound p)
    (hprogram : p.program = .running r) (hstage : LoopStage p.backend p.bot r (.rises n))
    (hcompletion : p.bot.completion = some (.error ex)) (he : Undisturbed p e)
    (hstep : p.step lib mode e = some p') :
    Exited p' ∨ ∃ m, Falling p' m ∧ m + (if e.isOwn then 1 else 0) ≤ n + 1 := by
  have hsound := sound_step hp hstep
  obtain ⟨hcoro, hpolling, -⟩ := polling_of_completion hstage hcompletion
  cases Process.change_of_step hstep with
  | start | kill | misread => exact he.elim
  | reply program coroutine | returned program coroutine | raised program coroutine =>
      obtain rfl := eq_of_running hprogram program
      simp [hcoro] at coroutine
  | posted program posted invoked =>
      obtain rfl := eq_of_running hprogram program
      obtain ⟨hbackend, hbot, ⟨m, r', hm, hrunning, hstage'⟩ | ⟨hfalls, -⟩⟩ :=
        stage_posted hstage posted invoked
      · rw [Course.rises.injEq] at hm
        subst hm
        rw [← hbackend, ← hbot] at hstage'
        exact .inr ⟨m + 1, .poll hsound hrunning hstage' (hbot ▸ hcompletion), le_rfl⟩
      · contradiction
  | idle program nothing => exact absurd nothing (not_idle hp program)
  | @bot e _ notRestart polling stepped =>
      obtain ⟨hbot, hbackend, hcases⟩ := Process.botStep_cases stepped
      rcases completion_step hp.steady hcompletion he hbot with rfl | ⟨hpoll, hcompletion'⟩
      · rcases hcases with ⟨ex', -, -, hended⟩ | ⟨hnot, -⟩
        · exact .inl ⟨_, hended⟩
        · exact absurd hcompletion (hnot ex rfl)
      · rcases hcases with ⟨ex', rfl, -⟩ | ⟨hnot, hsame⟩
        · simp [BotEvent.isPoll] at hpoll
        · refine .inr ⟨n + 1, .poll hsound (hsame.trans hprogram) ?_ hcompletion', ?_⟩
          · rw [hbackend]
            exact stage_bot hstage (fun _ => hpolling) hnot hbot
          · simp [ProcessEvent.isOwn, ProcessEvent.isStartUp, ProcessEvent.isPoll, hpoll]

/-- And such an event is possible. -/
theorem Falling.possible {n : Nat} (lib : Platform) (mode : SqlMode) (h : Falling p n) :
    Possible lib mode (·.isOwn) p := by
  cases h with
  | @startUp r _ sound program stage =>
      cases stage with
      | raised svc e log inventory coroutine =>
          exact ⟨.completed, _, rfl, trivial, step_completed lib mode program coroutine (some e)
            rfl (Running.initDone_error (r := { r with coroutine := none }) inventory e)⟩
      | failing e coroutine posted => exact ⟨.posted, _, rfl, trivial, step_posted lib mode program posted⟩
  | poll sound program stage completion =>
      obtain ⟨-, hpolling, -⟩ := polling_of_completion stage completion
      exact possible_poll lib mode program hpolling (e := .onUpdate) rfl rfl trivial
        (onUpdate_possible defaultPoll mode completion)

/-- Nothing undisturbed happens to a program that has exited. -/
theorem exited_step {p' : Process} {e : ProcessEvent} (h : Exited p) (he : Undisturbed p e)
    (hstep : p.step lib mode e = some p') : Exited p' := by
  obtain ⟨what, hended⟩ := h
  cases Process.change_of_step hstep with
  | start | kill | misread => exact he.elim
  | reply program | returned program | raised program | posted program | idle program =>
      simp [hended] at program
  | bot notRestart polling stepped =>
      obtain ⟨-, -, ⟨ex, rfl, -⟩ | ⟨-, hsame⟩⟩ := Process.botStep_cases stepped
      · obtain ⟨r, hr, -⟩ := polling rfl
        simp [hended] at hr
      · exact ⟨what, hsame.trans hended⟩

/-! ## runs -/

/-- What becomes of a failing program by some undisturbed events. -/
structure Exits (lib : Platform) (mode : SqlMode) (fs : List ProcessEvent) (q : Process) : Prop where
  /-- it exits, or can go on -/
  goesOn : Exited q ∨ Possible lib mode (·.isOwn) q
  /-- and has exited after three of its events -/
  exited : 3 ≤ fs.countP (·.isOwn) → Exited q

/-- What becomes of any other one; when the program was started for the first
time `origin` updates were forgotten. -/
structure Thrives (lib : Platform) (mode : SqlMode) (origin : Nat) (p : Process)
    (fs : List ProcessEvent) (q : Process) (r : Running) : Prop where
  /-- it runs, and does not fail -/
  program : q.program = .running r
  healthy : ¬ Failing q r
  /-- its start-up can go on until it is up -/
  rises : (r.polling = true ∧ r.reloads = 1) ∨ Possible lib mode (·.isStartUp) q
  /-- and it is after sixteen events of it -/
  up : 16 ≤ fs.countP (·.isStartUp) → r.polling = true ∧ r.reloads = 1
  /-- from its beginning the poll can go on -/
  polls : r.polling = true → Possible lib mode (·.isPoll) q
  /-- after four events of it for each update, what had arrived is handed over -/
  handed : 4 * (p.bot.sequence.length - p.bot.handed.length) ≤ fs.countP (·.isPoll) →
    p.bot.sequence.map Update.fields <+: q.bot.handed ∧
      ∀ u ∈ p.bot.server.updates.drop origin, u.fields ∈ q.bot.earlier ++ q.bot.handed

theorem exits_of_failing {fs : List ProcessEvent} (hp : Sound p) (hprogram : p.program = .running r)
    (hfailing : Failing p r) (hrun : Run (Process.step lib mode) Undisturbed p fs q) :
    Exits lib mode fs q := by
  obtain ⟨n, hn, hfalling⟩ := exists_falling hp hprogram hfailing
  have hcountdown := hrun.countdown (R := Falling) (G := Exited) (·.isOwn)
    (fun s e t hs he hstep => exited_step hs he hstep)
    (fun s n e t hs _ he hstep => by
      cases hs with
      | startUp sound program stage => exact falling_startUp sound program stage he hstep
      | poll sound program stage completion =>
          exact falling_poll sound program stage completion he hstep)
    hfalling
  rcases hcountdown with hexited | ⟨m, hm, hle⟩
  · exact ⟨.inl hexited, fun _ => hexited⟩
  · refine ⟨.inr (hm.possible lib mode), fun hcount => ?_⟩
    have hpos := hm.pos
    omega

theorem thrives_of_rising {fs : List ProcessEvent} {origin n : Nat} (h : Rising p r n) (hn : n ≤ 16)
    (hkept : Kept origin p.bot) (hrun : Run (Process.step lib mode) Undisturbed p fs q) :
    ∃ r', Thrives lib mode origin p fs q r' := by
  obtain ⟨hbot, hcount⟩ := h.run_bot hrun
  have hcountdown := hrun.countdown (R := fun s n => ∃ r, Rising s r n) (G := fun _ => False)
    (·.isStartUp) (fun _ _ _ hs _ _ => hs.elim)
    (fun s n e t hs _ he hstep => by
      obtain ⟨r, hs⟩ := hs
      obtain ⟨r', m, ht, hm⟩ := rising_step hs he hstep
      exact .inr ⟨m, ⟨r', ht⟩, hm.le⟩)
    ⟨r, h⟩
  obtain ⟨m, ⟨r', hq⟩, hle⟩ := hcountdown.resolve_left id
  refine ⟨r', hq.program, hq.healthy, ?_, fun hstarted => hq.up (by omega),
    hq.possible_poll lib mode, fun hpolled => ?_⟩
  · cases m with
    | zero => exact .inl (hq.up rfl)
    | succ m => exact .inr (hq.possible_startUp lib mode)
  · have hhanded := handed_of_run h.sound.steady h.live hbot (hcount ▸ hpolled)
    obtain ⟨-, -, hon⟩ := onward_of_run h.sound.steady h.live hbot
    refine ⟨hhanded, ?_⟩
    rw [hon.earlier]
    exact hkept.complete hhanded

/-- The poll begins, and its first request fails before `on_init` is called. -/
def pollFails : List ProcessEvent :=
  comesUp.take 15 ++ [.bot .resume, .bot (.fail (.network 104))]

/-- Has the poll raised? -/
def BotState.raised? (w : BotState) : Option Exn :=
  match w.completion with
  | some (.error ex) => some ex
  | _ => none

theorem BotState.raised?_eq_some {w : BotState} {ex : Exn} :
    w.raised? = some ex ↔ w.completion = some (.error ex) := by
  unfold BotState.raised?
  split <;> simp_all

/-- Stop the program if it runs, and start it. -/
def restart (p : Process) (env : Environment) (order : EvaluationOrder) : List ProcessEvent :=
  match p.program with
  | .running _ => [.kill, .start env order]
  | _ => [.start env order]

/-- A start in an environment that has what the program needs. -/
theorem launch_of_startUp {env : Environment} {order : EvaluationOrder} {params : ConnectParams}
    (p : Process) (hstart : startUp lib env order = .ok params) :
    p.launch lib env order = some
      { backend := p.backend.disconnect
        bot := .start p.bot.server p.bot.tasks.world (p.bot.earlier ++ p.bot.handed)
        program := .running ⟨params, inventoryAt (some 1) (some 0) [.asyncInit 0],
          some (rethrow asyncConnect), [], false, 0⟩ } := by
  simp only [Process.launch, hstart, Running.enter_eq, Option.map_some]

/-- Wherever the program is, it can be started anew, and is not failing then. -/
theorem exists_restart (mode : SqlMode) {env : Environment} {order : EvaluationOrder}
    {params : ConnectParams} (p : Process) (hstart : startUp lib env order = .ok params) :
    ∃ q r, runs (Process.step lib mode) p (restart p env order) = some q ∧
      q.program = .running r ∧ ¬ Failing q r ∧ q.bot.server = p.bot.server := by
  have hruns : runs (Process.step lib mode) p (restart p env order) = p.launch lib env order := by
    cases hprogram : p.program with
    | running r =>
        have hkill : p.step lib mode .kill = some { p with program := .absent } := by
          simp only [Process.step, hprogram]
        rw [restart, hprogram, runs_cons, hkill, Option.bind_some]
        show (Process.launch lib { p with program := .absent } env order).bind _ = _
        rw [launch_of_startUp _ hstart, launch_of_startUp _ hstart]
        rfl
    | absent | ended =>
        rw [restart, hprogram, runs_cons]
        have hfirst : p.step lib mode (.start env order) = p.launch lib env order := by
          simp only [Process.step, hprogram]
        rw [hfirst, launch_of_startUp _ hstart]
        rfl
  refine ⟨_, _, hruns.trans (launch_of_startUp p hstart), rfl, ?_, rfl⟩
  rintro (⟨e, hcoro⟩ | ⟨e, hmem⟩ | ⟨ex, hcompletion⟩)
  · have hscript := script_asyncConnect
    rw [Option.some.inj hcoro] at hscript
    exact not_script_raise hscript
  · simp at hmem
  · simp [BotState.start] at hcompletion

theorem fit_emptyBackend : emptyBackend.Fit :=
  ⟨fun _ => rfl, fun _ _ h => by cases h⟩

/-- An update arrives while a failure is on its way. -/
def arrivesLate : List ProcessEvent := pollFails ++ [.bot (.arrive firstUpdate)]

/-- The program comes up, and hands it over. -/
def handsOverLate : List ProcessEvent :=
  comesUp.tail ++ [.bot .resume, .bot (.serve 1), .bot .receive, .bot .onUpdate]

end LearnWords

import LearnWords.Process

/-!
# LearnWords.Process.Stage

Where a program in its event loop stands.

The services come up one after the other: `service::tg` connects, `service::db`
connects and prepares the database, and `service::user_dialog` starts the poll.
Together the first two make the calls of `startScript`; on a server that is fit
each of them finds what it needs among what the calls before it left.  As long
as they are under way the bot is as it was launched; when they have been served
the poll begins, and `on_init` is called while it may already be working.  A
failure is posted to `on_init`, which throws.  Every event of a start-up brings
the program one nearer to where it leads (`Course`).

`Sound` says this of a process, and every event keeps it (`sound_step`).
-/

namespace LearnWords

open Machine Coro

/-! ## the stages -/

/-- A service whose `async_init` spawns a coroutine. -/
inductive StartedService where
  | tg
  | db

namespace StartedService

def addr : StartedService → Nat
  | tg => 0
  | db => 1

/-- Where the initializer stands while it waits for the service. -/
def next : StartedService → Iterator
  | tg => some 1
  | db => some 2

/-- The calls that come after those of the service. -/
def rest : StartedService → List StartKind
  | tg => .connectMysql :: initScript
  | db => []

/-- The events of a start-up that come after them: of `service::db` its end, of
`service::user_dialog` its handler, and `on_init`. -/
def after : StartedService → Nat
  | tg => 1 + (.connectMysql :: initScript).length + 3
  | db => 3

end StartedService

/-- The calls of a start-up. -/
def startScript : List StartKind := connectScript ++ .connectMysql :: initScript

/-- The facts that some calls left hold. -/
def Made (b : Backend) (made : List StartKind) : Prop :=
  ∀ f ∈ startEffects.afterAll [] made, b.Has f

/-- The bot as it was launched; something may have arrived since. -/
def Fresh (bot : BotState) : Prop :=
  ∃ server world earlier, bot = .start server world earlier

/-- The connections are up, and no failure of the poll was delivered. -/
structure Serving (b : Backend) (bot : BotState) : Prop where
  ready : b.Ready
  secured : b.stream = .secured
  live : bot.failed = false

/-- Where a start-up leads to, and in how many events, if nothing fails from now
on. -/
inductive Course where
  /-- the program comes up -/
  | rises (n : Nat)
  /-- it exits -/
  | falls (n : Nat)

/-- Where a program in its event loop stands. -/
inductive LoopStage (b : Backend) (bot : BotState) (r : Running) : Course → Prop
  /-- a service's coroutine made the calls up to `left` -/
  | starting (svc : StartedService) (made left : List StartKind) (coro : Start Unit)
      (log : List (Entry StartError))
      (inventory : r.inventory = inventoryAt svc.next (some svc.addr) log)
      (coroutine : r.coroutine = some coro) (posted : r.posted = [])
      (polling : r.polling = false) (reloads : r.reloads = 0) (fresh : Fresh bot)
      (script : Script StartOp.kind left coro) (calls : made ++ left ++ svc.rest = startScript)
      (facts : Made b made) : LoopStage b bot r (.rises (left.length + svc.after))
  /-- one of its calls failed -/
  | raised (svc : StartedService) (e : StartError) (log : List (Entry StartError))
      (inventory : r.inventory = inventoryAt svc.next (some svc.addr) log)
      (coroutine : r.coroutine = some (.raise e)) (posted : r.posted = [])
      (polling : r.polling = false) (reloads : r.reloads = 0) (fresh : Fresh bot) :
      LoopStage b bot r (.falls 2)
  /-- and the failure is on its way to `on_init` -/
  | failing (e : StartError) (coroutine : r.coroutine = none) (posted : r.posted = [.onInit (some e)])
      (polling : r.polling = false) (reloads : r.reloads = 0) (fresh : Fresh bot) :
      LoopStage b bot r (.falls 1)
  /-- the poll has begun -/
  | resumed (log : List (Entry StartError)) (inventory : r.inventory = inventoryAt none (some 2) log)
      (coroutine : r.coroutine = none) (posted : r.posted = [.initDone none])
      (polling : r.polling = true) (reloads : r.reloads = 0) (serving : Serving b bot) :
      LoopStage b bot r (.rises 2)
  /-- and success is on its way to `on_init` -/
  | initialized (log : List (Entry StartError)) (inventory : r.inventory = inventoryAt none none log)
      (coroutine : r.coroutine = none) (posted : r.posted = [.onInit none])
      (polling : r.polling = true) (reloads : r.reloads = 0) (serving : Serving b bot) :
      LoopStage b bot r (.rises 1)
  /-- the program is at work -/
  | atWork (coroutine : r.coroutine = none) (posted : r.posted = []) (polling : r.polling = true)
      (reloads : r.reloads = 1) (serving : Serving b bot) : LoopStage b bot r (.rises 0)

/-- The bot is in order, and a running program stands somewhere. -/
structure Sound (p : Process) : Prop where
  steady : Steady defaultPoll p.bot
  stage : ∀ r, p.program = .running r → ∃ c, LoopStage p.backend p.bot r c

/-! ## the calls of a start-up -/

theorem ordered_startScript : startEffects.Ordered fitFacts startScript := by decide

/-- On a server that is fit the next call finds what it needs. -/
theorem needs_of_fit {b : Backend} {made left rest : List StartKind} {c : StartKind} (hfit : b.Fit)
    (hmade : Made b made) (hcalls : made ++ c :: left ++ rest = startScript) :
    ∀ f ∈ startEffects.needs c, b.Has f := by
  have hall : startEffects.Ordered fitFacts (made ++ (c :: left ++ rest)) := by
    rw [← List.append_assoc, hcalls]
    exact ordered_startScript
  obtain ⟨hneeds, -⟩ := (Effects.ordered_append _ |>.mp hall).2
  intro f hf
  have hleft : f ∈ startEffects.afterAll (fitFacts ++ []) made := by
    rw [List.append_nil]
    exact hneeds f hf
  rcases startEffects.mem_afterAll_append hleft with hf | hf
  · exact fit_iff.mp hfit f hf
  · exact hmade f hf

/-- All calls made, the connections are up. -/
theorem ready_of_made {b : Backend} (h : Made b startScript) : b.Ready ∧ b.stream = .secured := by
  refine ⟨⟨fun q => h _ ?_, fun t => h _ ?_⟩, h .secured ?_⟩
  · cases q <;> decide
  · cases t <;> decide
  · decide

/-- A call of a start-up ends; it is served, or fails, and on a server that is fit
it does so by a failure from outside. -/
theorem script_reply {b : Backend} {made left rest : List StartKind} {coro : Start Unit}
    {reply : Reply StartError} {x : Start Unit × Backend}
    (hscript : Script StartOp.kind left coro) (hcalls : made ++ left ++ rest = startScript)
    (hmade : Made b made) (h : callStep Backend.serve (coro, b) reply = some x) :
    ∃ c left', left = c :: left' ∧
      ((Script StartOp.kind left' x.1 ∧ Made x.2 (made ++ [c])) ∨
        ∃ e, x.1 = .raise e ∧ (b.Fit → reply.failure = some e)) := by
  cases left with
  | nil =>
      cases hscript
      simp [callStep] at h
  | cons c left =>
      obtain ⟨q, t, hstep, hcases⟩ := hscript.step (r := reply) keeps hmade
      rw [h, Option.some.injEq] at hstep
      subst hstep
      refine ⟨c, left, rfl, ?_⟩
      rcases hcases with ⟨-, hq, hfacts⟩ | ⟨e, hq, hfailure⟩
      · refine .inl ⟨hq, ?_⟩
        rw [Made, Effects.afterAll, List.foldl_append]
        exact hfacts
      · exact .inr ⟨e, hq, fun hfit => hfailure accepts (needs_of_fit hfit hmade hcalls)⟩

/-! ## the events -/

section

variable {lib : Platform} {mode : SqlMode} {p p' : Process} {r r' : Running}
variable {b : Backend} {bot : BotState} {c : Course}

/-- The loop is entered with `service::tg` connecting. -/
theorem stage_enter (b : Backend) (hfresh : Fresh bot) {params : ConnectParams}
    (h : Running.enter params = some r) : LoopStage b bot r (.rises 16) := by
  rw [Running.enter_eq, Option.some.injEq] at h
  subst h
  exact .starting .tg [] connectScript _ _ rfl rfl rfl rfl rfl hfresh script_asyncConnect rfl
    fun f hf => absurd hf List.not_mem_nil

/-- A call is served, or fails; the latter only from outside, if the server is
fit. -/
theorem stage_reply {coro : Start Unit} {reply : Reply StartError} {x : Start Unit × Backend}
    (hstage : LoopStage b bot r c) (hcoro : r.coroutine = some coro)
    (h : callStep Backend.serve (coro, b) reply = some x) :
    ∃ n, c = .rises (n + 1) ∧
      (LoopStage x.2 bot { r with coroutine := some x.1 } (.rises n) ∨
        LoopStage x.2 bot { r with coroutine := some x.1 } (.falls 2) ∧
          (b.Fit → reply ≠ .served)) := by
  cases hstage with
  | starting svc made left coro' log inventory coroutine posted polling reloads fresh script calls facts =>
      rw [hcoro, Option.some.injEq] at coroutine
      subst coroutine
      obtain ⟨k, left', rfl, hcases⟩ := script_reply script calls facts h
      refine ⟨left'.length + svc.after, by rw [List.length_cons, Nat.add_right_comm], ?_⟩
      rcases hcases with ⟨hscript, hmade⟩ | ⟨e, hraise, hfailure⟩
      · refine .inl (.starting svc (made ++ [k]) left' x.1 log inventory rfl posted polling reloads
          fresh hscript ?_ hmade)
        simpa using calls
      · refine .inr ⟨.raised svc e log inventory (by rw [hraise]) posted polling reloads fresh, ?_⟩
        rintro hfit rfl
        have hnone := hfailure hfit
        simp [Reply.failure] at hnone
  | raised svc e log inventory coroutine =>
      rw [hcoro, Option.some.injEq] at coroutine
      subst coroutine
      simp [callStep] at h
  | failing e coroutine | resumed log inventory coroutine | initialized log inventory coroutine
    | atWork coroutine => simp [hcoro] at coroutine

/-- The calls of a service made, the next one begins. -/
theorem stage_returned (hstage : LoopStage b bot r c) (hcoro : r.coroutine = some (.ret ()))
    (h : { r with coroutine := none }.onInventory (.initDone 0 none) = some r') :
    ∃ n, c = .rises (n + 1) ∧ LoopStage b bot r' (.rises n) := by
  cases hstage with
  | starting svc made left coro log inventory coroutine posted polling reloads fresh script calls facts =>
      rw [hcoro, Option.some.injEq] at coroutine
      subst coroutine
      obtain rfl := script.of_ret
      rw [List.append_nil] at calls
      cases svc with
      | tg =>
          rw [Running.initDone_tg (r := { r with coroutine := none }) inventory,
            Option.some.injEq] at h
          subst h
          have hmade : made = connectScript := List.append_cancel_right calls
          subst hmade
          exact ⟨_, rfl, .starting .db connectScript (.connectMysql :: initScript) _ _ rfl rfl posted
            polling reloads fresh (script_initializeDb _) rfl facts⟩
      | db =>
          rw [Running.initDone_db (r := { r with coroutine := none }) inventory,
            Option.some.injEq] at h
          subst h
          have hmade : made = startScript := by simpa [StartedService.rest] using calls
          subst hmade
          obtain ⟨hready, hsecured⟩ := ready_of_made facts
          obtain ⟨server, world, earlier, rfl⟩ := fresh
          refine ⟨2, rfl, .resumed _ rfl rfl ?_ rfl reloads ⟨hready, hsecured, rfl⟩⟩
          rw [posted, List.nil_append]
  | raised svc e log inventory coroutine => simp [hcoro] at coroutine
  | failing e coroutine | resumed log inventory coroutine | initialized log inventory coroutine
    | atWork coroutine => simp [hcoro] at coroutine

/-- The failure of a service is posted. -/
theorem stage_raised {e : StartError} (hstage : LoopStage b bot r c)
    (hcoro : r.coroutine = some (.raise e))
    (h : { r with coroutine := none }.onInventory (.initDone 0 (some e)) = some r') :
    c = .falls 2 ∧ LoopStage b bot r' (.falls 1) := by
  cases hstage with
  | starting svc made left coro log inventory coroutine posted polling reloads fresh script =>
      rw [hcoro, Option.some.injEq] at coroutine
      subst coroutine
      exact absurd script not_script_raise
  | raised svc e' log inventory coroutine posted polling reloads fresh =>
      rw [Running.initDone_error (r := { r with coroutine := none }) inventory,
        Option.some.injEq] at h
      subst h
      refine ⟨rfl, .failing e rfl ?_ polling reloads fresh⟩
      rw [posted, List.nil_append]
  | failing e coroutine | resumed log inventory coroutine | initialized log inventory coroutine
    | atWork coroutine => simp [hcoro] at coroutine

/-- A handler is invoked: the loop goes on, or ends with the exception that
`on_init` was given. -/
theorem stage_posted {handler : Handler} {handlers : List Handler}
    (hstage : LoopStage p.backend p.bot r c) (hposted : r.posted = handler :: handlers)
    (h : p.invoke lib { r with posted := handlers } handler = some p') :
    p'.backend = p.backend ∧ p'.bot = p.bot ∧
      ((∃ n r', c = .rises (n + 1) ∧ p'.program = .running r' ∧
          LoopStage p.backend p.bot r' (.rises n)) ∨
        c = .falls 1 ∧ ∃ what, p'.program = .ended (.ofThrown (.std what))) := by
  cases hstage with
  | starting _ _ _ _ _ _ _ posted | raised _ _ _ _ _ posted | atWork _ posted =>
      simp [hposted] at posted
  | failing e coroutine posted polling reloads fresh =>
      rw [hposted, List.cons.injEq] at posted
      obtain ⟨rfl, rfl⟩ := posted
      obtain rfl := Option.some.inj h
      exact ⟨rfl, rfl, .inr ⟨rfl, lib.startWhat e, rfl⟩⟩
  | resumed log inventory coroutine posted polling reloads serving =>
      rw [hposted, List.cons.injEq] at posted
      obtain ⟨rfl, rfl⟩ := posted
      rw [Process.invoke, Running.initDone_userDialog (r := { r with posted := [] }) inventory] at h
      obtain rfl := Option.some.inj h
      exact ⟨rfl, rfl, .inl ⟨1, _, rfl, rfl, .initialized _ rfl coroutine rfl polling reloads serving⟩⟩
  | initialized log inventory coroutine posted polling reloads serving =>
      rw [hposted, List.cons.injEq] at posted
      obtain ⟨rfl, rfl⟩ := posted
      rw [Process.invoke, Running.onInit_eq (r := { r with posted := [] }) inventory] at h
      obtain rfl := Option.some.inj h
      refine ⟨rfl, rfl, .inl ⟨0, _, rfl, rfl, .atWork coroutine rfl polling ?_ serving⟩⟩
      show r.reloads + 1 = 1
      rw [reloads]

/-- Without the program, updates arrive and nothing else happens to a fresh bot. -/
theorem fresh_step {cfg : PollConfig} {bot' : BotState} {e : BotEvent} (hfresh : Fresh bot)
    (he : e.ofProgram = false) (h : bot.step cfg mode e = some bot') : Fresh bot' := by
  obtain ⟨server, world, earlier, rfl⟩ := hfresh
  cases e with
  | arrive u =>
      obtain ⟨hu, rfl⟩ := BotState.step_arrive h
      exact ⟨server.arrive u hu, world, earlier, rfl⟩
  | serve n =>
      obtain ⟨params, limit, server', hwire, -⟩ := BotState.step_serve h
      simp [BotState.start] at hwire
  | resume | receive | fail | refuse | onUpdate | task | restart => simp [BotEvent.ofProgram] at he

/-- Only the delivery of a failure fails. -/
theorem live_step {cfg : PollConfig} {bot' : BotState} {e : BotEvent} (hlive : bot.failed = false)
    (hnot : ∀ ex, e = .onUpdate → bot.completion ≠ some (.error ex))
    (h : bot.step cfg mode e = some bot') : bot'.failed = false := by
  cases BotState.change_of_step h with
  | arrive | serve | task => exact hlive
  | goOn e x =>
      obtain ⟨poll, output⟩ := x
      cases output <;> exact hlive
  | onUpdate result hresult =>
      cases result with
      | ok update => exact hlive
      | error ex => exact absurd hresult (hnot ex rfl)
  | restart => rfl

/-- The bot works without moving the program from its stage. -/
theorem stage_bot {e : BotEvent} {bot' : BotState} (hstage : LoopStage b bot r c)
    (hpolling : e.ofProgram = true → r.polling = true)
    (hnot : ∀ ex, e = .onUpdate → bot.completion ≠ some (.error ex))
    (h : bot.step defaultPoll mode e = some bot') : LoopStage b bot' r c := by
  have hfresh : Fresh bot → r.polling = false → Fresh bot' := by
    intro hbot hoff
    refine fresh_step hbot ?_ h
    by_contra hon
    rw [hpolling (by simpa using hon)] at hoff
    contradiction
  have hserving : Serving b bot → Serving b bot' := fun hs =>
    ⟨hs.ready, hs.secured, live_step hs.live hnot h⟩
  cases hstage with
  | starting svc made left coro log inventory coroutine posted polling reloads fresh script calls facts =>
      exact .starting svc made left coro log inventory coroutine posted polling reloads
        (hfresh fresh polling) script calls facts
  | raised svc e log inventory coroutine posted polling reloads fresh =>
      exact .raised svc e log inventory coroutine posted polling reloads (hfresh fresh polling)
  | failing e coroutine posted polling reloads fresh =>
      exact .failing e coroutine posted polling reloads (hfresh fresh polling)
  | resumed log inventory coroutine posted polling reloads serving =>
      exact .resumed log inventory coroutine posted polling reloads (hserving serving)
  | initialized log inventory coroutine posted polling reloads serving =>
      exact .initialized log inventory coroutine posted polling reloads (hserving serving)
  | atWork coroutine posted polling reloads serving =>
      exact .atWork coroutine posted polling reloads (hserving serving)

/-! ## runs -/

/-- What `launch` leaves. -/
theorem launch_cases {env : Environment} {order : EvaluationOrder}
    (h : p.launch lib env order = some p') :
    p'.backend = p.backend.disconnect ∧
      p'.bot = .start p.bot.server p.bot.tasks.world (p.bot.earlier ++ p.bot.handed) ∧
      ((∃ e, startUp lib env order = .error e ∧ p'.program = .ended e) ∨
        ∃ params r, startUp lib env order = .ok params ∧ Running.enter params = some r ∧
          p'.program = .running r) := by
  unfold Process.launch at h
  split at h
  · next e hstart =>
      obtain rfl := Option.some.inj h
      exact ⟨rfl, rfl, .inl ⟨e, hstart, rfl⟩⟩
  · next params hstart =>
      obtain ⟨r, hr, rfl⟩ := Option.map_eq_some_iff.mp h
      exact ⟨rfl, rfl, .inr ⟨params, r, hstart, hr, rfl⟩⟩

/-- Every event leaves the process in order. -/
theorem sound_step {e : ProcessEvent} (hp : Sound p) (h : p.step lib mode e = some p') : Sound p' := by
  cases Process.change_of_step h with
  | start stopped launched =>
      obtain ⟨hbackend, hbot, hcases⟩ := launch_cases launched
      refine ⟨hbot ▸ steady_start _ _ _, fun r hr => ?_⟩
      rcases hcases with ⟨e, -, hended⟩ | ⟨params, r', -, henter, hrunning⟩
      · simp [hended] at hr
      · rw [hrunning, Program.running.injEq] at hr
        exact ⟨_, stage_enter _ ⟨_, _, _, hbot⟩ (hr ▸ henter)⟩
  | kill => exact ⟨hp.steady, fun r hr => by simp at hr⟩
  | reply program coroutine ended =>
      refine ⟨hp.steady, fun r hr => ?_⟩
      cases hr
      obtain ⟨c, hstage⟩ := hp.stage _ program
      obtain ⟨n, -, hstage' | ⟨hstage', -⟩⟩ := stage_reply hstage coroutine ended
      · exact ⟨_, hstage'⟩
      · exact ⟨_, hstage'⟩
  | returned program coroutine invoked =>
      refine ⟨hp.steady, fun r hr => ?_⟩
      cases hr
      obtain ⟨c, hstage⟩ := hp.stage _ program
      obtain ⟨n, -, hstage'⟩ := stage_returned hstage coroutine invoked
      exact ⟨_, hstage'⟩
  | raised program coroutine invoked =>
      refine ⟨hp.steady, fun r hr => ?_⟩
      cases hr
      obtain ⟨c, hstage⟩ := hp.stage _ program
      exact ⟨_, (stage_raised hstage coroutine invoked).2⟩
  | posted program posted invoked =>
      obtain ⟨c, hstage⟩ := hp.stage _ program
      obtain ⟨hbackend, hbot, hcases⟩ := stage_posted hstage posted invoked
      refine ⟨hbot ▸ hp.steady, fun r hr => ?_⟩
      rcases hcases with ⟨n, r', -, hrunning, hstage'⟩ | ⟨-, what, hended⟩
      · rw [hrunning, Program.running.injEq] at hr
        rw [hbackend, hbot]
        exact ⟨_, hr ▸ hstage'⟩
      · simp [hended] at hr
  | idle => exact ⟨hp.steady, fun r hr => by simp at hr⟩
  | bot notRestart polling stepped =>
      obtain ⟨hbot, hbackend, hcases⟩ := Process.botStep_cases stepped
      refine ⟨steady_step hp.steady hbot, fun r hr => ?_⟩
      rcases hcases with ⟨ex, -, -, hended⟩ | ⟨hnot, hsame⟩
      · simp [hended] at hr
      · rw [hsame] at hr
        rw [hbackend]
        obtain ⟨c, hstage⟩ := hp.stage r hr
        refine ⟨c, stage_bot hstage (fun he => ?_) hnot hbot⟩
        obtain ⟨r', hr', hon⟩ := polling he
        rw [hr, Program.running.injEq] at hr'
        exact hr' ▸ hon
  | misread => exact ⟨hp.steady, fun r hr => by simp [Process.leave] at hr⟩

/-- Before the program is started for the first time. -/
def Process.initial (backend : Backend) (server : Server) (world : World) : Process :=
  ⟨backend, .start server world [], .absent⟩

theorem sound_initial (backend : Backend) (server : Server) (world : World) :
    Sound (.initial backend server world) :=
  ⟨steady_start server world [], fun r hr => by simp [Process.initial] at hr⟩

theorem sound_of_runs {backend : Backend} {server : Server} {world : World}
    {es : List ProcessEvent} (h : runs (Process.step lib mode) (.initial backend server world) es = some p) :
    Sound p :=
  runs_invariant (fun _ _ _ hp hstep => sound_step hp hstep) h (sound_initial backend server world)

end

end LearnWords

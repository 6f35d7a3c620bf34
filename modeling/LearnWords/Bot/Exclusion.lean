import LearnWords.Lib.Exclusion
import LearnWords.Bot.Delivery

/-!
# LearnWords.Bot.Exclusion

The tasks share one connection to the database, on which one operation at a
time may be in flight.

A task makes its database calls before it sends anything (`first_update`).
Hence at most one is in flight in every run in which an update that needs the
database is handed over only while no task is at such a call
(`oneOperation_of_run`).  The bot hands over updates as they come, and every
time it does so too early the calls can overlap.
-/

namespace LearnWords

open Machine Fiber

variable {cfg : PollConfig} {mode : SqlMode}

/-- How many operations are in flight on the database connection. -/
def BotState.operations (w : BotState) : Nat :=
  w.tasks.fibers.countP (inFlight DialogOp.isDb)

/-- An update whose task begins with a database call is handed over only while
no task is at one. -/
def Spaced (w : BotState) : BotEvent → Prop
  | .onUpdate => ∀ update, w.completion = some (.ok update) →
      (ready (processUpdate update)).busy DialogOp.isDb = true →
      ∀ f ∈ w.tasks.fibers, f.busy DialogOp.isDb = false
  | _ => True

instance (w : BotState) : (e : BotEvent) → Decidable (Spaced w e)
  | .onUpdate =>
      match h : w.completion with
      | some (.ok update) =>
          decidable_of_iff ((ready (processUpdate update)).busy DialogOp.isDb = true →
            ∀ f ∈ w.tasks.fibers, f.busy DialogOp.isDb = false) (by simp [Spaced, h])
      | some (.error _) => isTrue (by simp [Spaced, h])
      | none => isTrue (by simp [Spaced, h])
  | .arrive _ | .resume | .serve _ | .receive | .fail _ | .refuse _ | .task _ | .restart =>
      isTrue trivial

/-! ## tasks -/

/-- A command reads, writes if it has to, and then replies. -/
theorem first_command (userId : UInt64) (cmd : Bytes) :
    Coro.First DialogOp.isDb (processCommand userId cmd) := by
  have hsend : ∀ json, Coro.Without DialogOp.isDb
      (.call (.sendMessage json) .ret : Dialog Unit) :=
    fun json => .call rfl fun _ => .ret ()
  rw [processCommand_eq]
  refine .call rfl fun raw => ?_
  cases newState (DialogState.decode raw) with
  | some next => exact .call rfl fun _ => .without (hsend _)
  | none => exact .without (hsend _)

/-- A task makes its database calls first. -/
theorem first_update (update : Object) : Coro.First DialogOp.isDb (processUpdate update) := by
  rcases processUpdate_cases update with h | ⟨e, h⟩ | ⟨userId, text, h⟩ | ⟨userId, cmd, h⟩
  · rw [h]
    exact .without (.ret ())
  · rw [h]
    exact .without (.raise e)
  · rw [h]
    exact .call rfl fun _ => .without (.ret ())
  · rw [h]
    exact first_command userId cmd

/-! ## runs -/

/-- A spaced event keeps at most one task at a database call. -/
theorem atMostOne_step {w w' : BotState} {e : BotEvent}
    (hw : Pool.AtMostOne DialogOp.isDb w.tasks) (he : Spaced w e)
    (h : w.step cfg mode e = some w') : Pool.AtMostOne DialogOp.isDb w'.tasks := by
  cases BotState.change_of_step h with
  | arrive | serve => exact hw
  | goOn e r =>
      rw [(BotState.goOn_frame w r).2.2.2]
      exact hw
  | onUpdate r hr =>
      cases r with
      | error e => exact hw
      | ok update =>
          have hspawn : Pool.step (handler mode) w.tasks (.spawn (processUpdate update)) =
              some (w.onUpdate (.ok update)).tasks := rfl
          refine Pool.step_atMostOne hw (fun q hq => ?_) hspawn
          cases hq
          exact ⟨first_update update, he update hr⟩
  | task e' tasks htasks =>
      refine Pool.step_atMostOne hw (fun q hq => ?_) htasks
      cases e' <;> contradiction
  | restart => refine ⟨?_, ?_⟩ <;> simp [BotState.start]

/-- The tasks' steps, as events of the bot. -/
theorem runs_tasks {w : BotState} {tasks : DialogPool} {is : List Nat}
    (h : runs (Pool.step (handler mode)) w.tasks (is.map .initiate) = some tasks) :
    runs (BotState.step cfg mode) w (is.map fun i => .task (.initiate i)) =
      some { w with tasks := tasks } := by
  induction is generalizing w with
  | nil =>
      simp only [List.map_nil, runs_nil, Option.some.injEq] at h
      subst h
      rfl
  | cons i is ih =>
      simp only [List.map_cons, runs_cons] at h ⊢
      obtain ⟨u, hu, hrest⟩ := Option.bind_eq_some_iff.mp h
      have hstep : w.step cfg mode (.task (.initiate i)) = some { w with tasks := u } := by
        simp [BotState.step, TaskEvent.toPool, hu]
      rw [hstep, Option.bind_some]
      exact ih hrest

/-- **One operation at a time**: in every run in which updates are handed over
spaced out, at most one operation is in flight on the database connection; and
whenever one is handed over too early, the calls overlap in some continuation
of the run. -/
theorem oneOperation_of_run (cfg : PollConfig) (mode : SqlMode) (server : Server) (world : World)
    (es : List BotEvent) (w : BotState)
    (h : Run (BotState.step cfg mode) Spaced (.start server world []) es w) :
    w.operations ≤ 1 ∧
    ∀ e w', ¬ Spaced w e → w.step cfg mode e = some w' →
      ∃ fs w'', runs (BotState.step cfg mode) w' fs = some w'' ∧ 2 ≤ w''.operations := by
  have hstart : Pool.AtMostOne DialogOp.isDb (BotState.start server world []).tasks :=
    ⟨by simp [BotState.start], by simp [BotState.start]⟩
  have hone : Pool.AtMostOne DialogOp.isDb w.tasks :=
    h.invariant (I := fun w => Pool.AtMostOne DialogOp.isDb w.tasks)
      (fun _ _ _ hw he hstep => atMostOne_step hw he hstep) hstart
  refine ⟨hone.inFlight_le, fun e w' hnot hstep => ?_⟩
  cases e with
  | onUpdate =>
      simp only [Spaced, not_forall, Bool.not_eq_false] at hnot
      obtain ⟨update, hupdate, hnew, f, hf, hbusy⟩ := hnot
      obtain ⟨r, hr, rfl⟩ := BotState.step_onUpdate hstep
      rw [hupdate, Option.some.injEq] at hr
      subst hr
      have hoverlap : ∃ (is : List Nat) (tasks : DialogPool),
          runs (Pool.step (handler mode)) (w.onUpdate (.ok update)).tasks (is.map .initiate) =
            some tasks ∧ 2 ≤ tasks.fibers.countP (inFlight DialogOp.isDb) :=
        Pool.exists_overlap rfl hnew hf hbusy
      obtain ⟨is, tasks, hrun, htwo⟩ := hoverlap
      exact ⟨_, _, runs_tasks hrun, htwo⟩
  | arrive | resume | serve | receive | fail | refuse | task | restart =>
      exact absurd trivial hnot

/-- Two commands that arrive together. -/
def together : List BotEvent :=
  [.arrive firstUpdate, .arrive secondUpdate, .resume, .serve 2, .receive, .onUpdate, .resume,
    .onUpdate, .task (.initiate 0), .task (.initiate 1)]

/-- Both read their user's state at the same time. -/
theorem operations_together : ∃ w, runs (BotState.step defaultPoll .strict)
    (.start Server.empty ⟨⟨[], by decide⟩, []⟩ []) together = some w ∧ ¬ w.operations ≤ 1 :=
  ⟨_, rfl, by decide⟩

/-- The second command is handed over when the first one has its state. -/
def apart : List BotEvent :=
  [.arrive firstUpdate, .arrive secondUpdate, .resume, .serve 2, .receive, .onUpdate,
    .task (.initiate 0), .task (.complete 0), .resume, .onUpdate, .task (.initiate 1),
    .task (.initiate 0)]

theorem oneOperation_apart : ∃ w, runs (BotState.step defaultPoll .strict)
      (.start Server.empty ⟨⟨[], by decide⟩, []⟩ []) apart = some w ∧ w.operations ≤ 1 := by
  have hrun : (runs (guarded (BotState.step defaultPoll .strict) Spaced)
      (.start Server.empty ⟨⟨[], by decide⟩, []⟩ []) apart).isSome = true := by
    decide +kernel
  obtain ⟨w, hw⟩ := Option.isSome_iff_exists.mp hrun
  have hspaced := run_of_guarded hw
  exact ⟨w, hspaced.runs,
    (oneOperation_of_run defaultPoll .strict Server.empty _ apart w hspaced).1⟩

end LearnWords

import Mathlib.Data.List.Perm.Subperm
import Mathlib.Data.List.ReduceOption
import LearnWords.Lib.Typestate
import LearnWords.Bot.Delivery
import LearnWords.UserDialog.Concurrent

/-!
# LearnWords.Bot.Replies

What the bot writes, to its users and to the table `settings`, over whole runs:
however its tasks interleave, whichever of their calls fail, and however often
the program is restarted.

Every task follows a protocol (`taskProtocol`): it may answer the command it
was spawned for once, after it read its user's byte, and must have done so when
it returns; and the only byte it stores is 0.  As `set_state` takes the byte for the key, no row but the one of
user 0 is ever written (`table_of_runs`); so the bytes the other users are
answered by are those of the first start, and every message is the answer to a
command of its own (`answered_of_runs`).
-/

namespace LearnWords

open Machine DialogState

/-! ## the protocol of a task -/

/-- Where a task stands: its update, and the message it has written. -/
structure Tasked where
  update : Object
  written : Option Object

/-- A byte the bot can read for the user `u`, the table having been `t`. -/
def ReadableByte (t : Table) (u : UInt64) (raw : UInt8) : Prop := u ≠ 0 → raw = t.stateOf u

/-- The message `json` answers the command `update`. -/
def Answers (t : Table) (json update : Object) : Prop :=
  ∃ u raw, CommandOf u update ∧ ReadableByte t u raw ∧ json = message u (reply (decode raw))

/-- The calls of a task. -/
inductive TaskAllows (t : Table) : Tasked → DialogOp → Tasked → Prop
  | getState (q : Tasked) (u : UInt64) : TaskAllows t q (.getState u) q
  | setState {q : Tasked} {u : UInt64} {raw : UInt8} (hcommand : CommandOf u q.update)
      (hraw : ReadableByte t u raw) (herror : decode raw = .error) :
      TaskAllows t q (.setState u 0) q
  | sendMessage {json update : Object} (h : Answers t json update) :
      TaskAllows t ⟨update, none⟩ (.sendMessage json) ⟨update, some json⟩

/-- What a call of a task is answered. -/
def taskAnswers (t : Table) : (op : DialogOp) → op.Res → Prop
  | .getState u, raw => ReadableByte t u raw
  | .setState _ _, _ => True
  | .sendMessage _, _ => True

/-- The protocol of the tasks, the table having been `t`: that of a command
returns only after it has answered. -/
def taskProtocol (t : Table) : Protocol DialogOp DialogOp.Res Tasked where
  allows := TaskAllows t
  answers := taskAnswers t
  returns q := ∀ u, CommandOf u q.update → q.written.isSome
  raises q := ∀ u, ¬ CommandOf u q.update

/-- A command follows the protocol. -/
theorem follows_processCommand (t : Table) {u : UInt64} {cmd : Bytes} {update : Object}
    (hcommand : CommandOf u update) :
    (processCommand u cmd).Follows (taskProtocol t) ⟨update, none⟩ := by
  rw [processCommand_eq]
  refine .call (.getState _ u) fun raw hraw => ?_
  have hsend : Coro.Follows (taskProtocol t) ⟨update, none⟩
      (.call (.sendMessage (message u (reply (decode raw)))) .ret : Dialog Unit) :=
    .call (.sendMessage ⟨u, raw, hcommand, hraw, rfl⟩) fun r _ => .ret (fun _ _ => rfl) r
  cases hdecode : decode raw with
  | error =>
      rw [hdecode] at hsend
      exact .call (.setState hcommand hraw hdecode) fun _ _ => hsend
  | initial | setRemindTime | addSentence =>
      rw [hdecode] at hsend
      exact hsend

/-- Handling a text is not handling a command, which answers. -/
theorem processText_ne (u v : UInt64) (text cmd : Bytes) : processText u text ≠ processCommand v cmd := by
  intro h
  have hgoesOn : Coro.call (.getState u) (fun _ => .ret ()) = processCommand v cmd := h
  rw [processCommand_eq, Coro.call.injEq] at hgoesOn
  obtain ⟨hop, hk⟩ := hgoesOn
  obtain rfl := DialogOp.getState.inj hop
  exact absurd (congrFun (eq_of_heq hk) (0 : UInt8)) nofun

/-- So does the task of every update. -/
theorem follows_processUpdate (t : Table) (update : Object) :
    (processUpdate update).Follows (taskProtocol t) ⟨update, none⟩ := by
  have hcall : ∀ {u cmd}, processUpdate update = processCommand u cmd →
      ∃ k, processUpdate update = .call (.getState u) k :=
    fun h => ⟨_, h.trans (processCommand_eq _ _)⟩
  rcases processUpdate_cases update with hp | ⟨e, hp⟩ | ⟨u, text, hp⟩ | ⟨u, cmd, hp⟩
  · rw [hp]
    refine .ret (fun u ⟨cmd, hcmd⟩ => ?_) ()
    obtain ⟨k, hk⟩ := hcall hcmd
    rw [hp] at hk
    contradiction
  · rw [hp]
    refine .raise (fun u ⟨cmd, hcmd⟩ => ?_) e
    obtain ⟨k, hk⟩ := hcall hcmd
    rw [hp] at hk
    contradiction
  · rw [hp]
    refine .call (.getState _ u) fun _ _ => .ret (fun v ⟨cmd, hcmd⟩ => ?_) ()
    exact absurd (hp.symm.trans hcmd) (processText_ne u v text cmd)
  · rw [hp]
    exact follows_processCommand t ⟨cmd, hp⟩

/-! ## the account of the world -/

/-- Only the row of user 0 may differ. -/
structure KeepsRows (t t' : Table) : Prop where
  keys : t'.rows.map Row.tgUserId = t.rows.map Row.tgUserId
  others : ∀ u, u ≠ 0 → t'.lookup u = t.lookup u

theorem KeepsRows.readableByte {t t' : Table} (h : KeepsRows t t') (u : UInt64) :
    ReadableByte t u (t'.stateOf u) := by
  intro hu
  rw [Table.stateOf, h.others u hu, Table.stateOf]

/-- Storing the byte 0 writes to the row of user 0, if to any. -/
theorem KeepsRows.setState {mode : SqlMode} {t t' t'' : Table} {u : UInt64} (h : KeepsRows t t')
    (hset : asyncSetState mode t' u 0 = .ok t'') : KeepsRows t t'' := by
  have hkey : (0 : UInt8).toUInt64 = 0 := rfl
  rcases asyncSetState_ok hset with ⟨-, rfl⟩ | ⟨c, b, -, -, rfl⟩
  · exact h
  · refine ⟨(map_tgUserId_putRow _ _ _).trans h.keys, fun w hw => ?_⟩
    rw [Table.lookup_put, hkey, if_neg hw]
    exact h.others w hw

/-- The updates handed over since the program was started have tasks, which
stand at `qs`.  The messages written since the table was `t` are theirs, and
older ones that answer some of the `earlier` updates. -/
structure Account (t : Table) (before earlier handed : List Object) (w : World)
    (qs : List Tasked) : Prop where
  rows : KeepsRows t w.table
  updates : qs.map Tasked.update = handed
  answers : ∀ q ∈ qs, ∀ json ∈ q.written, Answers t json q.update
  written : ∃ old past messages, List.Forall₂ (Answers t) old past ∧ past.Subperm earlier ∧
    w.sent = before ++ messages ∧ messages.Perm (old ++ (qs.map Tasked.written).reduceOption)

/-- The task at place `i` is that of the update at place `i`. -/
theorem Account.update_eq {t : Table} {before earlier handed : List Object} {w : World}
    {qs : List Tasked} {i : Nat} {q : Tasked} {update : Object}
    (h : Account t before earlier handed w qs) (hq : qs[i]? = some q)
    (hi : handed[i]? = some update) : q.update = update := by
  rw [← h.updates, List.getElem?_map, hq, Option.map_some, Option.some.injEq] at hi
  exact hi

/-- A task writes its message. -/
theorem perm_reduceOption_set {os : List (Option Object)} {i : Nat} (json : Object)
    (hi : os[i]? = some none) : (os.set i (some json)).reduceOption.Perm (json :: os.reduceOption) := by
  induction os generalizing i with
  | nil => simp at hi
  | cons o os ih =>
      cases i with
      | zero =>
          simp only [List.getElem?_cons_zero, Option.some.injEq] at hi
          subst hi
          simp [List.reduceOption_cons_of_none, List.reduceOption_cons_of_some]
      | succ i =>
          have hrest := ih (by simpa using hi)
          cases o with
          | none => simpa [List.reduceOption_cons_of_none] using hrest
          | some v =>
              simp only [List.set_cons_succ, List.reduceOption_cons_of_some]
              exact (hrest.cons v).trans (List.Perm.swap json v _)

/-- Every call of a task keeps the account, and is answered as relied on. -/
theorem account_call {mode : SqlMode} {t : Table} {before earlier handed : List Object}
    {w w' : World} {qs : List Tasked} {i : Nat} {q q' : Tasked} {op : DialogOp} {r : op.Res}
    (h : Account t before earlier handed w qs) (hi : qs[i]? = some q)
    (hallowed : (taskProtocol t).allows q op q') (hr : handler mode w op = some (r, w')) :
    (taskProtocol t).answers op r ∧ Account t before earlier handed w' (qs.set i q') := by
  have hkeep : ∀ {α : Type} (f : Tasked → α), f q' = f q → (qs.set i q').map f = qs.map f := by
    intro α f hf
    have hmap : (qs.map f)[i]? = some (f q) := by rw [List.getElem?_map, hi, Option.map_some]
    rw [List.map_set, hf, Pool.set_eq_of_getElem? hmap]
  have hsame : q' = q → qs.set i q' = qs := by
    rintro rfl
    exact Pool.set_eq_of_getElem? hi
  cases hallowed with
  | getState _ u =>
      rw [handler_getState, Option.some.injEq, Prod.mk.injEq] at hr
      obtain ⟨rfl, rfl⟩ := hr
      exact ⟨h.rows.readableByte u, by rwa [hsame rfl]⟩
  | setState =>
      obtain ⟨t', ht', rfl⟩ := handler_setState hr
      rw [hsame rfl]
      exact ⟨trivial, h.rows.setState ht', h.updates, h.answers, h.written⟩
  | @sendMessage json update hanswers =>
      rw [handler_sendMessage, Option.some.injEq, Prod.mk.injEq] at hr
      obtain ⟨-, rfl⟩ := hr
      obtain ⟨old, past, messages, hold, hpast, hsent, hperm⟩ := h.written
      refine ⟨trivial, h.rows, (hkeep Tasked.update rfl).trans h.updates, fun p hp json' hjson => ?_,
        old, past, messages ++ [json], hold, hpast, by simp [hsent], ?_⟩
      · rcases List.mem_or_eq_of_mem_set hp with hp | rfl
        · exact h.answers p hp json' hjson
        · obtain rfl := Option.some.inj hjson
          exact hanswers
      · have hnone : (qs.map Tasked.written)[i]? = some none := by
          rw [List.getElem?_map, hi, Option.map_some]
        rw [List.map_set]
        calc List.Perm (messages ++ [json]) (json :: messages) := List.perm_append_singleton json messages
          List.Perm _ (json :: (old ++ (qs.map Tasked.written).reduceOption)) := hperm.cons json
          List.Perm _ (old ++ (json :: (qs.map Tasked.written).reduceOption)) := List.perm_middle.symm
          List.Perm _ (old ++ ((qs.map Tasked.written).set i (some json)).reduceOption) :=
            (perm_reduceOption_set json hnone).symm.append_left old

/-- A task is spawned for an update that was just handed over. -/
theorem Account.spawn {t : Table} {before earlier handed : List Object} {w : World}
    {qs : List Tasked} (h : Account t before earlier handed w qs) (update : Object) :
    Account t before earlier (handed ++ [update]) w (qs ++ [⟨update, none⟩]) := by
  obtain ⟨old, past, messages, hold, hpast, hsent, hperm⟩ := h.written
  refine ⟨h.rows, by simp [h.updates], fun q hq json hjson => ?_, old, past, messages, hold, hpast,
    hsent, ?_⟩
  · rcases List.mem_append.mp hq with hq | hq
    · exact h.answers q hq json hjson
    · rw [List.mem_singleton.mp hq] at hjson
      contradiction
  · rw [List.map_append, List.reduceOption_append]
    simpa using hperm

/-- The messages of the tasks answer some of their updates. -/
theorem exists_answered {t : Table} {qs : List Tasked}
    (h : ∀ q ∈ qs, ∀ json ∈ q.written, Answers t json q.update) :
    ∃ us, List.Forall₂ (Answers t) (qs.map Tasked.written).reduceOption us ∧
      us.Sublist (qs.map Tasked.update) := by
  induction qs with
  | nil => exact ⟨[], .nil, .slnil⟩
  | cons q qs ih =>
      obtain ⟨us, hus, hsub⟩ := ih fun p hp => h p (List.mem_cons_of_mem q hp)
      obtain ⟨update, written⟩ := q
      cases written with
      | none => exact ⟨us, hus, hsub.cons update⟩
      | some json => exact ⟨update :: us, .cons (h _ List.mem_cons_self json rfl) hus, hsub.cons_cons update⟩

/-- Each message answers an update of its own. -/
theorem Account.answered {t : Table} {before earlier handed : List Object} {w : World}
    {qs : List Tasked} (h : Account t before earlier handed w qs) :
    ∃ messages answered, w.sent = before ++ messages ∧
      List.Forall₂ (Answers t) messages answered ∧ answered.Subperm (earlier ++ handed) := by
  obtain ⟨old, past, messages, hold, hpast, hsent, hperm⟩ := h.written
  obtain ⟨us, hus, hsub⟩ := exists_answered h.answers
  obtain ⟨answered, hall, hanswered⟩ := List.perm_comp_forall₂ hperm (List.rel_append hold hus)
  refine ⟨messages, answered, hsent, hall, hanswered.subperm.trans ?_⟩
  rw [← h.updates]
  exact List.Subperm.append hpast hsub.subperm

/-- When the program stops its tasks are gone. -/
theorem Account.restart {t : Table} {before earlier handed : List Object} {w : World}
    {qs : List Tasked} (h : Account t before earlier handed w qs) :
    Account t before (earlier ++ handed) [] w [] := by
  obtain ⟨messages, answered, hsent, hall, hsub⟩ := h.answered
  exact ⟨h.rows, rfl, by simp, messages, answered, messages, hall, hsub, hsent, by simp⟩

/-! ## runs of the bot -/

variable {cfg : PollConfig} {mode : SqlMode}

/-- The bot's tasks follow their protocol, and its world has its account. -/
def InAccount (t : Table) (before : List Object) (w : BotState) : Prop :=
  ∃ qs, List.Forall₂ (fun f q => Fiber.Follows (taskProtocol t) q f) w.tasks.fibers qs ∧
    Account t before w.earlier w.handed w.tasks.world qs

/-- Every event keeps it so. -/
theorem inAccount_step {t : Table} {before : List Object} {w w' : BotState} {e : BotEvent}
    (hw : InAccount t before w) (h : w.step cfg mode e = some w') : InAccount t before w' := by
  obtain ⟨qs, hfollows, haccount⟩ := hw
  cases BotState.change_of_step h with
  | arrive u hu => exact ⟨qs, hfollows, haccount⟩
  | goOn e r =>
      obtain ⟨poll, output⟩ := r
      cases output <;> exact ⟨qs, hfollows, haccount⟩
  | serve n offset wire => exact ⟨qs, hfollows, haccount⟩
  | onUpdate r hr =>
      cases r with
      | error e => exact ⟨qs, hfollows, haccount⟩
      | ok update =>
          refine ⟨qs ++ [⟨update, none⟩], ?_, ?_⟩
          · exact List.rel_append hfollows (.cons (.ready (follows_processUpdate t update)) .nil)
          · exact haccount.spawn update
  | task e tasks htasks =>
      have hnone : e.toPool.spawned = none := by cases e <;> rfl
      exact Pool.step_protocol (fun _ _ _ _ _ _ _ _ hI hi hallowed hr =>
        account_call hI hi hallowed hr) hfollows haccount hnone htasks
  | restart => exact ⟨[], .nil, haccount.restart⟩

/-- The first start of the program. -/
theorem inAccount_start (server : Server) (world : World) :
    InAccount world.table world.sent (.start server world []) :=
  ⟨[], .nil, ⟨rfl, fun _ _ => rfl⟩, rfl, by simp, [], [], [], .nil, List.nil_subperm,
    (List.append_nil _).symm, .nil⟩

/-- A run of the bot keeps its account. -/
theorem inAccount_of_runs {server : Server} {world : World} {es : List BotEvent} {w : BotState}
    (h : runs (BotState.step cfg mode) (.start server world []) es = some w) :
    InAccount world.table world.sent w :=
  runs_invariant (I := InAccount world.table world.sent) (fun _ _ _ => inAccount_step) h
    (inAccount_start server world)

/-- **Rows**: whatever is handed over, however its tasks interleave and fail,
and however often the program is restarted, no row is ever added or removed,
and only the row of user 0 ever changes. -/
theorem table_of_runs (cfg : PollConfig) (mode : SqlMode) (server : Server) (world : World)
    (es : List BotEvent) (w : BotState)
    (h : runs (BotState.step cfg mode) (.start server world []) es = some w) :
    KeepsRows world.table w.tasks.world.table := by
  obtain ⟨qs, -, haccount⟩ := inAccount_of_runs h
  exact haccount.rows

/-- The command of user 7, its task run to its end. -/
def answeredStart : List BotEvent :=
  [.arrive firstUpdate, .resume, .serve 1, .receive, .onUpdate, .task (.initiate 0),
    .task (.complete 0), .task (.initiate 0), .task (.complete 0), .task (.initiate 0),
    .task (.complete 0)]

/-- Users 0 and 7, both with a byte that does not decode. -/
def twoErroneous : World := ⟨⟨[⟨0, 200⟩, ⟨7, 200⟩], by decide⟩, []⟩

/-- The recovery of user 7 writes to the row of user 0. -/
theorem table_of_runs_recovery : ∃ w,
    runs (BotState.step defaultPoll .strict) (.start Server.empty twoErroneous []) answeredStart =
      some w ∧ w.tasks.world.table.rows = [⟨0, 7⟩, ⟨7, 200⟩] ∧
      KeepsRows twoErroneous.table w.tasks.world.table :=
  ⟨_, rfl, rfl, table_of_runs defaultPoll .strict Server.empty twoErroneous answeredStart _ rfl⟩

/-- **Replies**: over any run, the messages written answer commands handed over,
each command at most once; and the answer to a user other than user 0 is the
one for the byte that was stored for it when the bot was first started. -/
theorem answered_of_runs (cfg : PollConfig) (mode : SqlMode) (server : Server) (world : World)
    (es : List BotEvent) (w : BotState)
    (h : runs (BotState.step cfg mode) (.start server world []) es = some w) :
    ∃ messages answered, w.tasks.world.sent = world.sent ++ messages ∧
      List.Forall₂ (Answers world.table) messages answered ∧
      answered.Subperm (w.earlier ++ w.handed) := by
  obtain ⟨qs, -, haccount⟩ := inAccount_of_runs h
  exact haccount.answered

/-- User 7 is answered once, by the error its byte stands for. -/
theorem answered_of_runs_recovery : ∃ w,
    runs (BotState.step defaultPoll .strict) (.start Server.empty twoErroneous []) answeredStart =
      some w ∧ w.tasks.world.sent = [message 7 internalError] ∧
      ∃ messages answered, w.tasks.world.sent = twoErroneous.sent ++ messages ∧
        List.Forall₂ (Answers twoErroneous.table) messages answered ∧
        answered.Subperm (w.earlier ++ w.handed) :=
  ⟨_, rfl, rfl, answered_of_runs defaultPoll .strict Server.empty twoErroneous answeredStart _ rfl⟩

end LearnWords

import LearnWords.Lib.Interleaving
import LearnWords.UserDialog

/-!
# LearnWords.UserDialog.Concurrent

`user_dialog::on_update` starts `process_update` for each update without
waiting for the updates before it, so the tasks interleave at their calls.

A command reads its user's byte, and writes only to recover from an erroneous
one.  The tasks are a crew of readers, and of one writer if one command of
user 0 recovers (`OneRecovery`): every interleaving has the outcome of the
sequential handling (`concurrent_eq_sequential`).  Two commands of one
erroneous user race between the read and the write
(`concurrent_ne_sequential`).
-/

namespace LearnWords

open Machine DialogState

/-- What happens to `user_dialog`: an update is delivered to `on_update`, or a
task makes its next call. -/
inductive DialogEvent where
  | deliver (update : Object)
  | advance (i : Nat)

/-- `on_update` spawns `process_update`, detached. -/
def DialogEvent.toAtomic : DialogEvent → AtomicEvent DialogOp DialogOp.Res Exn
  | deliver update => .spawn (processUpdate update)
  | advance i => .advance i

/-- The update an event delivers. -/
def DialogEvent.delivered : DialogEvent → Option Object
  | deliver update => some update
  | advance _ => none

/-- Run deliveries and task steps in the given order, every call an atomic
step. -/
def runDialog (mode : SqlMode) (t : Table) (es : List DialogEvent) : Option DialogPool :=
  runs (Pool.atomicStep (handler mode)) ⟨⟨t, []⟩, []⟩ (es.map DialogEvent.toAtomic)

/-- Handle updates one at a time, each to its end. -/
def runSequential (mode : SqlMode) (t : Table) (updates : List Object) : Option World :=
  Coro.execAll (handler mode) (updates.map processUpdate) ⟨t, []⟩

/-- The user a message goes to. -/
def recipient (json : Object) : Option UInt64 :=
  match ifContains json "chat_id" with
  | some (.uint64 u) => some u
  | _ => none

/-- The replies one user receives, in order. -/
def repliesTo (u : UInt64) (sent : List Object) : List Object :=
  sent.filter fun json => recipient json = some u

/-- Two worlds no user and no reader of the table can tell apart. -/
def SameOutcome (w w' : World) : Prop :=
  w.table = w'.table ∧ ∀ u, repliesTo u w.sent = repliesTo u w'.sent

@[simp] theorem recipient_message (u : UInt64) (text : String) :
    recipient (message u text) = some u := rfl

/-! ## who recovers -/

/-- The update is handled as a command of the user `u`. -/
def CommandOf (u : UInt64) (update : Object) : Prop :=
  ∃ cmd, processUpdate update = processCommand u cmd

/-- It is a command of one user only. -/
theorem CommandOf.eq {u v : UInt64} {update : Object} (hu : CommandOf u update)
    (hv : CommandOf v update) : u = v := by
  obtain ⟨cmd, hcmd⟩ := hu
  obtain ⟨cmd', hcmd'⟩ := hv
  rw [hcmd, processCommand_eq, processCommand_eq, Coro.call.injEq] at hcmd'
  exact DialogOp.getState.inj hcmd'.1

/-- At most one of the commands recovers from an erroneous byte, and it is one
of user 0, whose byte recovery stores. -/
structure OneRecovery (t : Table) (updates : List Object) : Prop where
  /-- the bytes of the other users decode -/
  others : ∀ update ∈ updates, ∀ u, CommandOf u update → u ≠ 0 → decode (t.stateOf u) ≠ .error
  /-- user 0 sends at most one command if its byte does not -/
  once : decode (t.stateOf 0) = .error →
    updates.Pairwise fun a b => ¬ (CommandOf 0 a ∧ CommandOf 0 b)

/-- The table after the recovery, if there is one. -/
def recovered (t : Table) : Table := if decode (t.stateOf 0) = .error then t.put 0 0 else t

/-- The table is the first one, or the one after the recovery. -/
def Within (t t' : Table) : Prop := t' = t ∨ t' = recovered t

/-- A byte that decodes is not touched by the recovery. -/
theorem Within.stateOf_eq {t t' : Table} {u : UInt64} (h : Within t t')
    (hu : decode (t.stateOf u) ≠ .error) : t'.stateOf u = t.stateOf u := by
  rcases h with rfl | rfl
  · rfl
  · unfold recovered
    split
    · next hzero =>
        have hne : u ≠ 0 := by
          rintro rfl
          exact hu hzero
        simp [Table.stateOf, hne]
    · rfl

/-- The place of the command that recovers. -/
theorem OneRecovery.exists_writer {t : Table} {updates : List Object} (h : OneRecovery t updates) :
    ∃ writer : Option Nat, ∀ i update, updates[i]? = some update →
      (writer = some i ↔ decode (t.stateOf 0) = .error ∧ CommandOf 0 update) := by
  by_cases hex : ∃ (i : Nat) (update : Object), updates[i]? = some update ∧
      decode (t.stateOf 0) = .error ∧ CommandOf 0 update
  · obtain ⟨i, a, ha, herror, hcommand⟩ := hex
    refine ⟨some i, fun j b hb => ⟨?_, ?_⟩⟩
    · rintro ⟨⟩
      rw [ha, Option.some.injEq] at hb
      exact hb ▸ ⟨herror, hcommand⟩
    · rintro ⟨-, hcommand'⟩
      have hpair := List.pairwise_iff_getElem.mp (h.once herror)
      obtain ⟨hi, rfl⟩ := List.getElem?_eq_some_iff.mp ha
      obtain ⟨hj, rfl⟩ := List.getElem?_eq_some_iff.mp hb
      rcases Nat.lt_trichotomy i j with hlt | rfl | hlt
      · exact absurd ⟨hcommand, hcommand'⟩ (hpair i j hi hj hlt)
      · rfl
      · exact absurd ⟨hcommand', hcommand⟩ (hpair j i hj hi hlt)
  · refine ⟨none, fun i update hi => ⟨fun hnone => by contradiction, fun hboth => ?_⟩⟩
    exact absurd ⟨i, update, hi, hboth⟩ hex

/-! ## what a task sends -/

section Sends

variable (mode : SqlMode) (t : Table)

/-- The reply to a command of `u` under the table `t`. -/
def replyTo (u : UInt64) : Object := message u (reply (decode (t.stateOf u)))

/-- What a coroutine sends when it runs alone over the table `t`. -/
def sends (p : Dialog Unit) : List Object :=
  ((p.exec (handler mode) ⟨t, []⟩).map fun r => r.2.sent).getD []

/-- `p` leaves the table alone and sends `ws`, recovered or not. -/
abbrev Sends (p : Dialog Unit) (ws : List Object) : Prop :=
  Coro.Reads (handler mode) World.table (Within t) World.sent p ws

/-- `p` recovers, and sends `ws`. -/
abbrev Repairs (p : Dialog Unit) (ws : List Object) : Prop :=
  Coro.Writes (handler mode) World.table (Within t) World.sent (recovered t) t p ws

variable {mode t}

/-- A text only reads. -/
theorem sends_text (u : UInt64) (text : Bytes) : Sends mode t (processText u text) [] :=
  .call (fun _ => True) [] []
    (fun w _ => ⟨_, w, handler_getState mode w u, trivial, rfl, (List.append_nil _).symm⟩)
    fun _ _ => .ret ()

/-- A command whose user's byte decodes sends its reply. -/
theorem sends_command {u : UInt64} (cmd : Bytes) (h : decode (t.stateOf u) ≠ .error) :
    Sends mode t (processCommand u cmd) [replyTo t u] := by
  rw [processCommand_eq]
  refine .call (fun raw => raw = t.stateOf u) [] [replyTo t u] (fun w hw => ?_) ?_
  · exact ⟨_, w, handler_getState mode w u, hw.stateOf_eq h, rfl, (List.append_nil _).symm⟩
  · rintro _ rfl
    simp only [newState_eq_none.mpr h]
    refine .call (fun _ => True) [replyTo t u] [] (fun w _ => ?_) fun _ _ => .ret ()
    exact ⟨(), _, handler_sendMessage mode w _, trivial, rfl, rfl⟩

/-- A command of user 0 whose byte does not decode recovers, and sends its
reply. -/
theorem repairs_command (cmd : Bytes) (h : decode (t.stateOf 0) = .error) :
    Repairs mode t (processCommand 0 cmd) [replyTo t 0] := by
  have hrecovered : recovered t = t.put 0 0 := if_pos h
  have hnew : newState (decode (t.stateOf 0)) = some .initial := by rw [h]; rfl
  rw [processCommand_eq]
  refine .call (t.stateOf 0) [] [replyTo t 0] (fun w hw => ?_) (.inl rfl) ?_
  · exact ⟨w, by rw [handler_getState, hw], hw, (List.append_nil _).symm⟩
  · simp only [hnew]
    refine .call () [] [replyTo t 0] (fun w hw => ?_) (.inr rfl) ?_
    · refine ⟨{ w with table := recovered t }, ?_, rfl, (List.append_nil _).symm⟩
      have hset := asyncSetState_zero mode t
      simp only [handler, DialogState.toUnderlying, hw, hset, hrecovered]
    · refine .call () [replyTo t 0] [] (fun w hw => ?_) (.inr rfl) (.ret ())
      exact ⟨_, handler_sendMessage mode w _, hw, rfl⟩

/-- What a task sends in the company of others is what it sends alone. -/
theorem Sends.eq_sends {p : Dialog Unit} {ws : List Object} (h : Sends mode t p ws) :
    sends mode t p = ws := by
  obtain ⟨r, w, hexec, -, hsent⟩ := h.exec (s := ⟨t, []⟩) (.inl rfl)
  rw [sends, hexec]
  simpa using hsent

theorem Repairs.eq_sends {p : Dialog Unit} {ws : List Object} (h : Repairs mode t p ws) :
    sends mode t p = ws := by
  obtain ⟨r, w, hexec, -, hsent⟩ := h.exec (s := ⟨t, []⟩) rfl
  rw [sends, hexec]
  simpa using hsent

/-- Where no recovery is needed, the handling of an update leaves the table
alone and sends, if anything, the reply to its user. -/
theorem sends_processUpdate {update : Object}
    (h : ∀ u, CommandOf u update → decode (t.stateOf u) ≠ .error) :
    ∃ ws, Sends mode t (processUpdate update) ws ∧ ∀ json ∈ ws, ∃ u, json = replyTo t u := by
  rcases processUpdate_cases update with hp | ⟨e, hp⟩ | ⟨u, text, hp⟩ | ⟨u, cmd, hp⟩
  · exact ⟨[], by rw [hp]; exact .ret (), by simp⟩
  · exact ⟨[], by rw [hp]; exact .raise e, by simp⟩
  · exact ⟨[], by rw [hp]; exact sends_text u text, by simp⟩
  · refine ⟨[replyTo t u], by rw [hp]; exact sends_command cmd (h u ⟨cmd, hp⟩), ?_⟩
    intro json hjson
    exact ⟨u, List.mem_singleton.mp hjson⟩

/-- The part of an update's task among the others: the writer's if it
recovers, a reader's otherwise. -/
theorem OneRecovery.plays {updates : List Object} (hok : OneRecovery t updates)
    {writer : Option Nat} {i : Nat} {update : Object} (hmem : update ∈ updates)
    (hwriter : writer = some i ↔ decode (t.stateOf 0) = .error ∧ CommandOf 0 update) :
    Coro.Plays (handler mode) World.table (Within t) World.sent writer (recovered t) t i
        (processUpdate update) (sends mode t (processUpdate update)) ∧
      ∀ json ∈ sends mode t (processUpdate update), ∃ u, json = replyTo t u := by
  unfold Coro.Plays
  split
  · next hw =>
      obtain ⟨herror, cmd, hp⟩ := hwriter.mp hw
      have hrepairs : Repairs mode t (processUpdate update) [replyTo t 0] := by
        rw [hp]
        exact repairs_command cmd herror
      rw [hrepairs.eq_sends]
      exact ⟨hrepairs, fun json hjson => ⟨0, List.mem_singleton.mp hjson⟩⟩
  · next hw =>
      have hdecodes : ∀ u, CommandOf u update → decode (t.stateOf u) ≠ .error := by
        intro u hcommand herror
        by_cases hu : u = 0
        · subst hu
          exact hw (hwriter.mpr ⟨herror, hcommand⟩)
        · exact hok.others update hmem u hcommand hu herror
      obtain ⟨ws, hws, hreply⟩ : ∃ ws, Sends mode t (processUpdate update) ws ∧
          ∀ json ∈ ws, ∃ u, json = replyTo t u := sends_processUpdate hdecodes
      rw [hws.eq_sends]
      exact ⟨hws, hreply⟩

/-- Lists of such replies that hold the same entries look the same to every
user. -/
theorem repliesTo_of_perm {l l' : List Object} (hperm : l.Perm l')
    (hl : ∀ json ∈ l, ∃ u, json = replyTo t u) (u : UInt64) :
    repliesTo u l = repliesTo u l' := by
  have hconst : ∀ json ∈ repliesTo u l, json = replyTo t u := by
    intro json hjson
    obtain ⟨hmem, hto⟩ := List.mem_filter.mp hjson
    obtain ⟨v, rfl⟩ := hl json hmem
    simp only [replyTo, recipient_message, Option.some.injEq, decide_eq_true_eq] at hto
    rw [hto]
  have hfilter : (repliesTo u l).Perm (repliesTo u l') := hperm.filter _
  rw [List.eq_replicate_of_mem hconst] at hfilter ⊢
  exact List.replicate_perm.mp hfilter

end Sends

/-! ## interleavings -/

theorem filterMap_spawned (es : List DialogEvent) :
    (es.map DialogEvent.toAtomic).filterMap AtomicEvent.spawned =
      (es.filterMap DialogEvent.delivered).map processUpdate := by
  rw [List.filterMap_map, List.map_filterMap]
  apply List.filterMap_congr
  intro e _
  cases e <;> rfl

/-- **Concurrent handling**: while at most one command recovers, every
interleaving of the tasks has the outcome of handling the updates one at a
time. -/
theorem concurrent_eq_sequential (mode : SqlMode) (t : Table) (es : List DialogEvent)
    (p : DialogPool) (hrun : runDialog mode t es = some p)
    (hend : ∀ x ∈ p.fibers, x.finished = true)
    (hok : OneRecovery t (es.filterMap DialogEvent.delivered)) :
    ∃ w, runSequential mode t (es.filterMap DialogEvent.delivered) = some w ∧
      SameOutcome p.world w := by
  obtain ⟨writer, hwriter⟩ := hok.exists_writer
  have hplays : ∀ i q, ((es.filterMap DialogEvent.delivered).map processUpdate)[i]? = some q →
      Coro.Plays (handler mode) World.table (Within t) World.sent writer (recovered t) t i q
        (sends mode t q) := by
    intro i q hq
    rw [List.getElem?_map] at hq
    obtain ⟨update, hupdate, rfl⟩ := Option.map_eq_some_iff.mp hq
    exact (hok.plays (List.mem_of_getElem? hupdate) (hwriter i update hupdate)).1
  have hreplies : ∀ q ∈ (es.filterMap DialogEvent.delivered).map processUpdate,
      ∀ json ∈ sends mode t q, ∃ u, json = replyTo t u := by
    intro q hq
    obtain ⟨update, hmem, rfl⟩ := List.mem_map.mp hq
    obtain ⟨i, hi⟩ := List.getElem?_of_mem hmem
    exact (hok.plays hmem (hwriter i update hi)).2
  have hnew : ∀ i q, ((es.map DialogEvent.toAtomic).filterMap AtomicEvent.spawned)[i]? = some q →
      Coro.Plays (handler mode) World.table (Within t) World.sent writer (recovered t) t i q
        (sends mode t q) := by
    rw [filterMap_spawned]
    exact hplays
  have hruns : runs (Pool.atomicStep (handler mode)) ⟨⟨t, []⟩, []⟩ (es.map DialogEvent.toAtomic) =
      some p := hrun
  have hstart : World.table ⟨t, []⟩ = t := rfl
  have hbefore : Within t t := .inl rfl
  have hafter : Within t (recovered t) := .inr rfl
  obtain ⟨htable, hperm⟩ := Pool.runs_crew_finished rfl hstart hbefore hnew hruns hend
  obtain ⟨w, hw, hwtable, hwsent⟩ := Coro.execAll_crew hbefore hafter hplays hstart
  rw [filterMap_spawned] at htable hperm
  refine ⟨w, hw, htable.trans hwtable.symm, fun u => ?_⟩
  have hsame : w.sent.Perm p.world.sent := by
    rw [hwsent]
    exact hperm.symm
  refine (repliesTo_of_perm (t := t) hsame (fun json hjson => ?_) u).symm
  rw [hwsent, List.nil_append] at hjson
  obtain ⟨ws, hws, hmem⟩ := List.mem_flatten.mp hjson
  obtain ⟨q, hq, rfl⟩ := List.mem_map.mp hws
  exact hreplies q hq json hmem

/-- Two commands of a user whose byte is erroneous: both read it before either
writes, so both are answered with the internal error, while one at a time the
second is greeted. -/
theorem concurrent_ne_sequential : ¬ ∀ mode t es p, runDialog mode t es = some p →
    (∀ x ∈ p.fibers, x.finished = true) →
    ∃ w, runSequential mode t (es.filterMap DialogEvent.delivered) = some w ∧
      SameOutcome p.world w := by
  intro hall
  have hrun : runDialog .strict ⟨[⟨0, 200⟩], by decide⟩
      [.deliver (startCommand 1 0), .deliver (startCommand 2 0), .advance 0, .advance 1,
        .advance 0, .advance 1, .advance 0, .advance 1] =
      some ⟨⟨⟨[⟨0, 0⟩], by decide⟩, [message 0 internalError, message 0 internalError]⟩,
        [.ready (.ret ()), .ready (.ret ())]⟩ := rfl
  have hseq : runSequential .strict ⟨[⟨0, 200⟩], by decide⟩ [startCommand 1 0, startCommand 2 0] =
      some ⟨⟨[⟨0, 0⟩], by decide⟩, [message 0 internalError, message 0 "Greetings!"]⟩ := rfl
  obtain ⟨w, hw, -, hreplies⟩ := hall _ _ _ _ hrun (by simp [Fiber.finished, Coro.finished])
  have hworld : w = ⟨⟨[⟨0, 0⟩], by decide⟩, [message 0 internalError, message 0 "Greetings!"]⟩ :=
    Option.some.inj (hw.symm.trans hseq)
  have hzero := hreplies 0
  subst hworld
  simp [repliesTo, message, recipient, ifContains, internalError] at hzero

/-- A command of user 0, which recovers, and one of user 7, their calls
interleaved. -/
theorem concurrent_eq_sequential_two :
    ∃ w, runSequential .strict ⟨[⟨0, 200⟩], by decide⟩ [startCommand 1 0, startCommand 2 7] = some w ∧
      SameOutcome
        ⟨⟨[⟨0, 0⟩], by decide⟩, [message 7 "Greetings!", message 0 internalError]⟩ w := by
  have hcommand : CommandOf 7 (startCommand 2 7) := ⟨bytesOf "/start", rfl⟩
  have hok : OneRecovery ⟨[⟨0, 200⟩], by decide⟩ [startCommand 1 0, startCommand 2 7] := by
    refine ⟨fun update _ u _ hu => ?_, fun _ => ?_⟩
    · have hstate : (⟨[⟨0, 200⟩], by decide⟩ : Table).stateOf u = 0 := by
        simp [Table.stateOf, Table.lookup, lookupRow, Ne.symm hu]
      rw [hstate]
      decide
    · rw [List.pairwise_pair]
      rintro ⟨-, hzero⟩
      exact absurd (hcommand.eq hzero) (by decide)
  have hrun : runDialog .strict ⟨[⟨0, 200⟩], by decide⟩
      [.deliver (startCommand 1 0), .deliver (startCommand 2 7), .advance 0, .advance 1,
        .advance 0, .advance 1, .advance 0] =
      some ⟨⟨⟨[⟨0, 0⟩], by decide⟩, [message 7 "Greetings!", message 0 internalError]⟩,
        [.ready (.ret ()), .ready (.ret ())]⟩ := rfl
  exact concurrent_eq_sequential _ _ _ _ hrun (by simp [Fiber.finished, Coro.finished]) hok

end LearnWords

import LearnWords.UserDialog

/-!
# LearnWords.UserDialog.Recovery

Commands handled one after the other, and the recovery from an erroneous
state.

Recovery stores the byte 0 for the user of the command; but
`async_set_state` uses the byte as the key, so it is the row of *user 0*
that is written.  The row of every other user is never written at all
(`lookup_of_runs`), and an erroneous byte stays where it is: recovery works
exactly when no user but user 0 needs it (`recovers_iff`).
-/

namespace LearnWords

open Machine DialogState

/-- A handled command: its user, the messages sent for it, and the table it
left. -/
structure Handled where
  user : UInt64
  sent : List Object
  table : Table

/-- The table, and the commands handled so far. -/
structure History where
  table : Table
  handled : List Handled

/-- Handle one command `(user, text)`, every call succeeding. -/
def commandStep (mode : SqlMode) (h : History) (c : UInt64 × Bytes) : Option History :=
  ((processCommand c.1 c.2).exec (handler mode) ⟨h.table, []⟩).map fun r =>
    { table := r.2.table, handled := h.handled ++ [⟨c.1, r.2.sent, r.2.table⟩] }

/-- Recovery works, and is local. -/
structure Recovers (t : Table) (handled : List Handled) : Prop where
  /-- after a user's command, its byte decodes -/
  decodes : ∀ s ∈ handled, decode (s.table.stateOf s.user) ≠ .error
  /-- and keeps decoding after every later command -/
  stays : handled.Pairwise fun a b => decode (b.table.stateOf a.user) ≠ .error
  /-- no later command of that user is answered with the internal error -/
  noError : handled.Pairwise fun a b =>
    a.user = b.user → message b.user internalError ∉ b.sent
  /-- a command sends one message, not empty, to its own user -/
  oneMessage : ∀ s ∈ handled, ∃ text, text ≠ "" ∧ s.sent = [message s.user text]
  /-- the row of a user who sent no command is unchanged -/
  frame : ∀ u, (∀ s ∈ handled, s.user ≠ u) → ∀ s ∈ handled, s.table.lookup u = t.lookup u

/-! ## one command -/

/-- What one command can do. -/
theorem commandStep_cases {mode : SqlMode} {h h' : History} {c : UInt64 × Bytes}
    (hstep : commandStep mode h c = some h') :
    ∃ t, h' = { table := t, handled := h.handled ++
        [⟨c.1, [message c.1 (reply (decode (h.table.stateOf c.1)))], t⟩] } ∧
      ((decode (h.table.stateOf c.1) ≠ .error ∧ t = h.table) ∨
        (decode (h.table.stateOf c.1) = .error ∧ asyncSetState mode h.table c.1 0 = .ok t)) := by
  obtain ⟨⟨r, w⟩, hexec, rfl⟩ := Option.map_eq_some_iff.mp hstep
  by_cases hd : decode (h.table.stateOf c.1) = .error
  · obtain ⟨t, ht, rfl⟩ := exec_processCommand_error (w := ⟨h.table, []⟩) hd hexec
    have hreply : reply .error = internalError := rfl
    exact ⟨t, by simp [hd, hreply], .inr ⟨hd, ht⟩⟩
  · rw [exec_processCommand (w := ⟨h.table, []⟩) c.2 hd, Option.some.injEq, Prod.mk.injEq] at hexec
    obtain ⟨_, rfl⟩ := hexec
    exact ⟨h.table, by simp, .inl ⟨hd, rfl⟩⟩

/-- Recovery touches the row of user 0 only. -/
theorem lookup_of_setState_zero {mode : SqlMode} {t t' : Table} {u w : UInt64}
    (h : asyncSetState mode t u 0 = .ok t') (hw : w ≠ 0) : t'.lookup w = t.lookup w := by
  have hzero : (0 : UInt8).toUInt64 = 0 := rfl
  rcases asyncSetState_ok h with ⟨_, rfl⟩ | ⟨c, b, _, _, rfl⟩
  · rfl
  · rw [hzero, Table.lookup_put, if_neg hw]

/-- For user 0 itself recovery works. -/
theorem stateOf_of_setState_zero {mode : SqlMode} {t t' : Table}
    (h : asyncSetState mode t 0 0 = .ok t') : t'.stateOf 0 = 0 := by
  rw [asyncSetState_zero, Except.ok.injEq] at h
  subst h
  cases hl : t.lookup 0 <;> simp [Table.stateOf, hl]

/-- A command of user 0, or of a user whose byte decodes, leaves that user
with a byte that decodes and every other row alone. -/
theorem commandStep_settles {mode : SqlMode} {h : History} {t : Table} {u : UInt64}
    (hok : u ≠ 0 → decode (h.table.stateOf u) ≠ .error)
    (ht : (decode (h.table.stateOf u) ≠ .error ∧ t = h.table) ∨
      (decode (h.table.stateOf u) = .error ∧ asyncSetState mode h.table u 0 = .ok t)) :
    decode (t.stateOf u) ≠ .error ∧ ∀ w, w ≠ u → t.lookup w = h.table.lookup w := by
  rcases ht with ⟨hd, rfl⟩ | ⟨hd, hset⟩
  · exact ⟨hd, fun _ _ => rfl⟩
  · have hu : u = 0 := by
      by_contra hne
      exact hok hne hd
    subst hu
    refine ⟨?_, fun w hw => lookup_of_setState_zero hset hw⟩
    rw [stateOf_of_setState_zero hset]
    decide

/-! ## sequences of commands -/

/-- Whatever is handled, the row of a user other than 0 is never written. -/
theorem lookup_of_runs {mode : SqlMode} {t : Table} {cs : List (UInt64 × Bytes)} {h : History}
    (hruns : runs (commandStep mode) ⟨t, []⟩ cs = some h) {w : UInt64} (hw : w ≠ 0) :
    h.table.lookup w = t.lookup w ∧ ∀ s ∈ h.handled, s.table.lookup w = t.lookup w := by
  refine runs_invariant (I := fun h : History =>
    h.table.lookup w = t.lookup w ∧ ∀ s ∈ h.handled, s.table.lookup w = t.lookup w)
    ?_ hruns ⟨rfl, by simp⟩
  intro h c h' ⟨htable, hhandled⟩ hstep
  obtain ⟨t', rfl, ht'⟩ := commandStep_cases hstep
  have hlookup : t'.lookup w = t.lookup w := by
    rcases ht' with ⟨_, rfl⟩ | ⟨_, hset⟩
    · exact htable
    · rw [lookup_of_setState_zero hset hw, htable]
  refine ⟨hlookup, fun s hs => ?_⟩
  rcases List.mem_append.mp hs with hs | hs
  · exact hhandled s hs
  · rw [List.mem_singleton.mp hs]
    exact hlookup

/-- The users of the handled commands are those of the commands. -/
theorem map_user_of_runs {mode : SqlMode} {t : Table} {cs : List (UInt64 × Bytes)} {h : History}
    (hruns : runs (commandStep mode) ⟨t, []⟩ cs = some h) :
    h.handled.map Handled.user = cs.map Prod.fst := by
  induction cs using List.reverseRecOn generalizing h with
  | nil =>
      simp only [runs_nil, Option.some.injEq] at hruns
      simp [← hruns]
  | append_singleton cs c ih =>
      rw [runs_concat] at hruns
      obtain ⟨h₁, h₁runs, hstep⟩ := Option.bind_eq_some_iff.mp hruns
      obtain ⟨t', rfl, _⟩ := commandStep_cases hstep
      simp [ih h₁runs]

/-- The invariant of a sequence in which recovery works: besides `Recovers`,
what it says of the current table. -/
structure Settled (t : Table) (h : History) : Prop where
  recovers : Recovers t h.handled
  current : ∀ s ∈ h.handled, decode (h.table.stateOf s.user) ≠ .error
  untouched : ∀ u, (∀ s ∈ h.handled, s.user ≠ u) → h.table.lookup u = t.lookup u

/-- Every reply has a text. -/
theorem reply_ne_empty (s : DialogState) : reply s ≠ "" := by
  cases s <;> decide

/-- Only an erroneous state is answered with the internal error. -/
theorem reply_ne_internalError {s : DialogState} (h : s ≠ .error) : reply s ≠ internalError := by
  cases s
  case error => exact absurd rfl h
  all_goals decide

theorem message_injective {u : UInt64} {a b : String} (h : message u a = message u b) : a = b := by
  simpa [message] using h

/-- One more command that recovers. -/
theorem Recovers.concat {t : Table} {handled : List Handled} {b : Handled} (h : Recovers t handled)
    (hdecodes : decode (b.table.stateOf b.user) ≠ .error)
    (hstays : ∀ a ∈ handled, decode (b.table.stateOf a.user) ≠ .error)
    (hreply : ∀ a ∈ handled, a.user = b.user → message b.user internalError ∉ b.sent)
    (hmessage : ∃ text, text ≠ "" ∧ b.sent = [message b.user text])
    (hframe : ∀ u, (∀ s ∈ handled, s.user ≠ u) → b.user ≠ u → b.table.lookup u = t.lookup u) :
    Recovers t (handled ++ [b]) where
  decodes := List.forall_mem_append.mpr ⟨h.decodes, List.forall_mem_singleton.mpr hdecodes⟩
  stays := List.pairwise_append.mpr ⟨h.stays, List.pairwise_singleton _ _,
    fun a ha => List.forall_mem_singleton.mpr (hstays a ha)⟩
  noError := List.pairwise_append.mpr ⟨h.noError, List.pairwise_singleton _ _,
    fun a ha => List.forall_mem_singleton.mpr (hreply a ha)⟩
  oneMessage := List.forall_mem_append.mpr ⟨h.oneMessage, List.forall_mem_singleton.mpr hmessage⟩
  frame := by
    intro u hall
    obtain ⟨hbefore, hb⟩ := List.forall_mem_append.mp hall
    rw [List.forall_mem_singleton] at hb
    exact List.forall_mem_append.mpr
      ⟨h.frame u hbefore, List.forall_mem_singleton.mpr (hframe u hbefore hb)⟩

/-- Rows that agree stand for the same state. -/
theorem stateOf_congr {t t' : Table} {u : UInt64} (h : t'.lookup u = t.lookup u) :
    t'.stateOf u = t.stateOf u := by
  unfold Table.stateOf
  rw [h]

/-- One command of user 0, or of a user whose byte decodes, keeps the
invariant. -/
theorem settled_step {mode : SqlMode} {t : Table} {h h' : History} {c : UInt64 × Bytes}
    (hs : Settled t h) (hok : c.1 ≠ 0 → decode (h.table.stateOf c.1) ≠ .error)
    (hstep : commandStep mode h c = some h') : Settled t h' := by
  obtain ⟨t', rfl, ht'⟩ := commandStep_cases hstep
  obtain ⟨hdec, hframe⟩ := commandStep_settles hok ht'
  -- bytes that decoded before the command still decode after it
  have hkeep : ∀ a ∈ h.handled, decode (t'.stateOf a.user) ≠ .error := by
    intro a ha
    by_cases huser : a.user = c.1
    · rw [huser]
      exact hdec
    · rw [stateOf_congr (hframe a.user huser)]
      exact hs.current a ha
  have huntouched : ∀ u, (∀ s ∈ h.handled, s.user ≠ u) → c.1 ≠ u →
      t'.lookup u = t.lookup u := by
    intro u hall hne
    rw [hframe u (Ne.symm hne), hs.untouched u hall]
  refine ⟨hs.recovers.concat hdec hkeep (fun a ha huser hmem => ?_) ⟨_, reply_ne_empty _, rfl⟩
    huntouched, List.forall_mem_append.mpr ⟨hkeep, List.forall_mem_singleton.mpr hdec⟩,
    fun u hall => ?_⟩
  · have hcurrent : decode (h.table.stateOf c.1) ≠ .error := by
      have hdecoded := hs.current a ha
      rwa [huser] at hdecoded
    have heq := message_injective (List.mem_singleton.mp hmem)
    exact reply_ne_internalError hcurrent heq.symm
  · obtain ⟨hbefore, hlast⟩ := List.forall_mem_append.mp hall
    exact huntouched u hbefore (hlast _ List.mem_cons_self)

/-- The invariant along commands of user 0 and of users whose byte decodes. -/
theorem settled_of_runs {mode : SqlMode} {t : Table} {cs : List (UInt64 × Bytes)} {h : History}
    (hruns : runs (commandStep mode) ⟨t, []⟩ cs = some h)
    (hok : ∀ c ∈ cs, c.1 ≠ 0 → decode (t.stateOf c.1) ≠ .error) : Settled t h := by
  induction cs using List.reverseRecOn generalizing h with
  | nil =>
      simp only [runs_nil, Option.some.injEq] at hruns
      subst hruns
      exact ⟨⟨by simp, .nil, .nil, by simp, by simp⟩, by simp, fun _ _ => rfl⟩
  | append_singleton cs c ih =>
      rw [runs_concat] at hruns
      obtain ⟨h₁, h₁runs, hstep⟩ := Option.bind_eq_some_iff.mp hruns
      have hs := ih h₁runs fun c hc => hok c (List.mem_append_left _ hc)
      refine settled_step hs (fun hne => ?_) hstep
      rw [stateOf_congr (lookup_of_runs h₁runs hne).1]
      exact hok c (by simp) hne

/-- **Recovery**: handled one after the other, commands recover locally
exactly when no user but user 0 has an erroneous byte to recover from. -/
theorem recovers_iff (mode : SqlMode) (t : Table) (cs : List (UInt64 × Bytes)) (h : History)
    (hruns : runs (commandStep mode) ⟨t, []⟩ cs = some h) :
    Recovers t h.handled ↔ ∀ c ∈ cs, c.1 ≠ 0 → decode (t.stateOf c.1) ≠ .error := by
  constructor
  · intro hrec c hc hne
    have huser : c.1 ∈ h.handled.map Handled.user := by
      rw [map_user_of_runs hruns]
      exact List.mem_map_of_mem hc
    obtain ⟨s, hs, hsu⟩ := List.mem_map.mp huser
    have hlookup := (lookup_of_runs hruns hne).2 s hs
    have hdec := hrec.decodes s hs
    rwa [hsu, stateOf_congr hlookup] at hdec
  · intro hok
    exact (settled_of_runs hruns hok).recovers

/-- A table and a command on which recovery fails: user 7 is told that the
bot recovers, and its byte is still 200 afterwards. -/
theorem recovers_fails : ¬ ∀ mode t cs h, runs (commandStep mode) ⟨t, []⟩ cs = some h →
    Recovers t h.handled := by
  intro hall
  have hrec := hall .strict ⟨[⟨7, 200⟩], by decide⟩ [(7, [])]
    ⟨⟨[⟨7, 200⟩], by decide⟩, [⟨7, [message 7 internalError], ⟨[⟨7, 200⟩], by decide⟩⟩]⟩ rfl
  exact absurd (hrec.decodes _ List.mem_cons_self) (by decide)

/-- Recovery on a table with an erroneous byte: user 0 recovers. -/
theorem recovers_iff_zero :
    Recovers ⟨[⟨0, 200⟩], by decide⟩
      [⟨0, [message 0 internalError], ⟨[⟨0, 0⟩], by decide⟩⟩,
        ⟨0, [message 0 "Greetings!"], ⟨[⟨0, 0⟩], by decide⟩⟩] ↔
    ∀ c ∈ [((0 : UInt64), ([] : Bytes)), (0, [])], c.1 ≠ 0 →
      decode ((⟨[⟨0, 200⟩], by decide⟩ : Table).stateOf c.1) ≠ .error :=
  recovers_iff .strict ⟨[⟨0, 200⟩], by decide⟩ [(0, []), (0, [])]
    ⟨⟨[⟨0, 0⟩], by decide⟩, _⟩ rfl

end LearnWords

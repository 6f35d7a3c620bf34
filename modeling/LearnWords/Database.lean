import LearnWords.Settings
import LearnWords.Lib.Machine
import Mathlib.Logic.Function.Basic

/-!
# LearnWords.Database

`database::async_get_state` and `database::async_set_state` over the table
`settings`, and what a sequence of them amounts to.

`set_state` binds `(tg_user_id, state)` to a statement whose placeholders
stand for `(state, tg_user_id)`, so the byte is used as the key and the user
id as the value (`asyncSetState_eq`); and no statement of the program inserts
a row.  `bindingHarmless_iff` says exactly for which tables, users and bytes
this still has the effect of a map update, and `refines_iff` what it means
for whole sequences of operations.
-/

namespace LearnWords

open Machine

/-- How a database operation can fail. -/
inductive DbError where
  | sql (ec : SqlError)
  | inconsistentDb
  | outOfRange
deriving DecidableEq

/-- `raw_result.rows().at(0).at(0).as_uint64()`, 0 where there is no row. -/
def firstField : List (List UInt64) → Except DbError UInt64
  | [] => .ok 0
  | (n :: _) :: _ => .ok n
  | [] :: _ => .error .outOfRange

/-- `database::async_get_state`. -/
def asyncGetState (mode : SqlMode) (t : Table) (tgUserId : UInt64) :
    Except DbError (UInt8 × Table) :=
  match execute mode t Query.getState [tgUserId] with
  | .error ec => .error (.sql ec)
  | .ok (rows, t') =>
      match firstField rows with
      | .error e => .error e
      | .ok ret => if 255 < ret.toNat then .error .inconsistentDb else .ok (ret.toUInt8, t')

/-- `database::async_set_state`. -/
def asyncSetState (mode : SqlMode) (t : Table) (tgUserId : UInt64) (state : UInt8) :
    Except DbError Table :=
  match execute mode t Query.setState [tgUserId, state.toUInt64] with
  | .error ec => .error (.sql ec)
  | .ok (_, t') => .ok t'

/-! ## what the operations do -/

/-- Reading a state never fails and yields the total map's byte. -/
theorem asyncGetState_eq (mode : SqlMode) (t : Table) (u : UInt64) :
    asyncGetState mode t u = .ok (t.stateOf u, t) := by
  unfold asyncGetState Table.stateOf
  rw [execute_getState]
  cases h : t.lookup u with
  | none => simp [firstField]
  | some b =>
      have hb : b.toNat ≤ 255 := by have := b.toNat_lt; omega
      simp [firstField, hb]

/-- Storing a state writes the *user id* into the row whose key is the
*state*. -/
theorem asyncSetState_eq (mode : SqlMode) (t : Table) (u : UInt64) (v : UInt8) :
    asyncSetState mode t u v =
      match t.lookup v.toUInt64 with
      | none => .ok t
      | some _ =>
          match storeTinyint mode u with
          | none => .error (.sql .outOfRange)
          | some b => .ok (t.put v.toUInt64 b) := by
  unfold asyncSetState
  rw [execute_setState]
  cases t.lookup v.toUInt64 with
  | none => rfl
  | some c => cases storeTinyint mode u <;> rfl

/-- What a successful `async_set_state` can do. -/
theorem asyncSetState_ok {mode : SqlMode} {t t' : Table} {u : UInt64} {v : UInt8}
    (h : asyncSetState mode t u v = .ok t') :
    (t.lookup v.toUInt64 = none ∧ t' = t) ∨
    (∃ c b, t.lookup v.toUInt64 = some c ∧ storeTinyint mode u = some b ∧
      t' = t.put v.toUInt64 b) := by
  rw [asyncSetState_eq] at h
  cases hl : t.lookup v.toUInt64 with
  | none =>
      simp only [hl, Except.ok.injEq] at h
      exact .inl ⟨rfl, h.symm⟩
  | some c =>
      simp only [hl] at h
      cases hs : storeTinyint mode u with
      | none => simp only [hs] at h; contradiction
      | some b =>
          simp only [hs, Except.ok.injEq] at h
          exact .inr ⟨c, b, rfl, rfl, h.symm⟩

/-- The total map after a `put` into an existing row. -/
theorem stateOf_put {t : Table} {u : UInt64} {c : UInt8} (h : t.lookup u = some c) (b : UInt8) :
    (t.put u b).stateOf = Function.update t.stateOf u b := by
  funext w
  by_cases hw : w = u
  · subst hw
    simp [Table.stateOf, h]
  · simp [Table.stateOf, hw]

/-- A user id that is itself a byte is stored as that byte. -/
theorem storeTinyint_toUInt64 (mode : SqlMode) (v : UInt8) :
    storeTinyint mode v.toUInt64 = some v := by
  have hv : v.toNat ≤ 255 := by have := v.toNat_lt; omega
  simp [storeTinyint, hv]

/-- For user 0 and the byte 0 the swapped parameters are the same. -/
theorem asyncSetState_zero (mode : SqlMode) (t : Table) :
    asyncSetState mode t 0 0 = .ok (t.put 0 0) := by
  have hkey : (0 : UInt8).toUInt64 = 0 := rfl
  have hstore := storeTinyint_toUInt64 mode 0
  rw [hkey] at hstore
  rw [asyncSetState_eq, hkey]
  cases hl : t.lookup 0 with
  | none => simp [Table.put_of_lookup_none hl]
  | some c => simp [hstore]

/-- The condition under which the swapped parameters do no harm: the user id
*is* the byte and names an existing row, or the user is in that state
already and the row that is hit keeps its byte. -/
def BindingHarmless (mode : SqlMode) (t : Table) (u : UInt64) (v : UInt8) : Prop :=
  (u = v.toUInt64 ∧ t.lookup u ≠ none) ∨
  (t.stateOf u = v ∧ ∀ c, t.lookup v.toUInt64 = some c → storeTinyint mode u = some c)

/-- A successful `async_set_state` updates the total map exactly when its
parameters were harmless. -/
theorem bindingHarmless_iff {mode : SqlMode} {t t' : Table} {u : UInt64} {v : UInt8}
    (h : asyncSetState mode t u v = .ok t') :
    t'.stateOf = Function.update t.stateOf u v ↔ BindingHarmless mode t u v := by
  rcases asyncSetState_ok h with ⟨hnone, rfl⟩ | ⟨c, b, hc, hb, rfl⟩
  · constructor
    · intro heq
      refine .inr ⟨?_, fun c hc => by rw [hnone] at hc; contradiction⟩
      rw [heq, Function.update_self]
    · rintro (⟨rfl, hrow⟩ | ⟨hv, _⟩)
      · exact absurd hnone hrow
      · rw [← hv, Function.update_eq_self]
  · rw [stateOf_put hc b]
    by_cases hu : u = v.toUInt64
    · subst hu
      rw [storeTinyint_toUInt64, Option.some.injEq] at hb
      subst hb
      simp [BindingHarmless, hc]
    · constructor
      · intro heq
        have hat := congrFun heq u
        have hkey := congrFun heq v.toUInt64
        rw [Function.update_of_ne hu, Function.update_self] at hat
        rw [Function.update_self, Function.update_of_ne (Ne.symm hu), Table.stateOf, hc,
          Option.getD_some] at hkey
        refine .inr ⟨hat, fun c' hc' => ?_⟩
        rw [hc, Option.some.injEq] at hc'
        rw [hb, hkey, hc']
      · rintro (⟨heq, _⟩ | ⟨hv, hkeep⟩)
        · exact absurd heq hu
        · have hbc := hkeep c hc
          rw [hb, Option.some.injEq] at hbc
          have hcur : t.stateOf v.toUInt64 = c := by simp [Table.stateOf, hc]
          rw [hbc, ← hcur, ← hv, Function.update_eq_self, hv, ← hv, Function.update_eq_self]

/-! ## sequences of operations -/

/-- One operation on the state map. -/
inductive StateOp where
  | get (u : UInt64)
  | set (u : UInt64) (v : UInt8)
deriving DecidableEq

/-- The table, and what the `get`s answered so far. -/
structure Session where
  table : Table
  answers : List UInt8

/-- One successful operation. -/
def stateStep (mode : SqlMode) (s : Session) : StateOp → Option Session
  | .get u =>
      match asyncGetState mode s.table u with
      | .ok (v, t) => some { table := t, answers := s.answers ++ [v] }
      | .error _ => none
  | .set u v =>
      match asyncSetState mode s.table u v with
      | .ok t => some { s with table := t }
      | .error _ => none

/-- What the total map holds for `u` after `ops`: the byte of the latest `set`
of `u`, or the initial byte. -/
def latest (initial : UInt64 → UInt8) (ops : List StateOp) (u : UInt64) : UInt8 :=
  (ops.reverse.findSome? fun
    | .set w v => if w = u then some v else none
    | .get _ => none).getD (initial u)

theorem latest_get (initial : UInt64 → UInt8) (ops : List StateOp) (w : UInt64) :
    latest initial (ops ++ [.get w]) = latest initial ops := by
  funext u
  simp [latest]

theorem latest_set (initial : UInt64 → UInt8) (ops : List StateOp) (w : UInt64) (v : UInt8) :
    latest initial (ops ++ [.set w v]) = Function.update (latest initial ops) w v := by
  funext u
  by_cases hu : w = u
  · subst hu
    simp [latest]
  · simp [latest, hu, Function.update_of_ne (Ne.symm hu)]

/-- The operations refine the total map: at every point of `ops`, a `get` of
any user answers with the latest byte set for that user. -/
def Refines (mode : SqlMode) (t : Table) (ops : List StateOp) : Prop :=
  ∀ pre u s, pre <+: ops → runs (stateStep mode) ⟨t, []⟩ (pre ++ [.get u]) = some s →
    s.answers.getLast? = some (latest t.stateOf pre u)

/-- Every `set` of the run is harmless in the table it meets. -/
def SetHarmless (mode : SqlMode) (s : Session) : StateOp → Prop
  | .get _ => True
  | .set u v => BindingHarmless mode s.table u v

theorem stateStep_get (mode : SqlMode) (s : Session) (u : UInt64) :
    stateStep mode s (.get u) =
      some { s with answers := s.answers ++ [s.table.stateOf u] } := by
  simp [stateStep, asyncGetState_eq]

/-- What a successful `set` can do. -/
theorem stateStep_set {mode : SqlMode} {s s' : Session} {u : UInt64} {v : UInt8}
    (h : stateStep mode s (.set u v) = some s') :
    ∃ t, asyncSetState mode s.table u v = .ok t ∧ s' = { s with table := t } := by
  simp only [stateStep] at h
  split at h
  · next t ht => exact ⟨t, ht, (Option.some.inj h).symm⟩
  · contradiction

/-- A `get` after `ops` answers with the byte of the table reached. -/
theorem answers_get {mode : SqlMode} {s₀ s s' : Session} {ops : List StateOp} {u : UInt64}
    (h : runs (stateStep mode) s₀ ops = some s)
    (h' : runs (stateStep mode) s₀ (ops ++ [.get u]) = some s') :
    s'.answers.getLast? = some (s.table.stateOf u) := by
  rw [runs_concat, h, Option.bind_some, stateStep_get, Option.some.injEq] at h'
  simp [← h']

/-- Along harmless operations the table stands for the map. -/
theorem stateOf_of_run {mode : SqlMode} {t : Table} {s : Session} {ops : List StateOp}
    (h : Run (stateStep mode) (SetHarmless mode) ⟨t, []⟩ ops s) :
    s.table.stateOf = latest t.stateOf ops := by
  induction h with
  | start => rfl
  | @next ops s s' op _ allowed taken ih =>
      cases op with
      | get u =>
          rw [stateStep_get, Option.some.injEq] at taken
          rw [← taken, latest_get, ih]
      | set u v =>
          obtain ⟨t', ht', rfl⟩ := stateStep_set taken
          rw [latest_set, ← ih]
          exact (bindingHarmless_iff ht').mpr allowed

/-- **The state map**: a successful sequence of operations refines the total
map from users to bytes exactly when every `set` in it was harmless. -/
theorem refines_iff (mode : SqlMode) (t : Table) (ops : List StateOp) (s : Session)
    (h : runs (stateStep mode) ⟨t, []⟩ ops = some s) :
    Refines mode t ops ↔ Run (stateStep mode) (SetHarmless mode) ⟨t, []⟩ ops s := by
  constructor
  · intro href
    induction ops using List.reverseRecOn generalizing s with
    | nil =>
        simp only [runs_nil, Option.some.injEq] at h
        exact h ▸ .start
    | append_singleton ops op ih =>
        have hfull := h
        rw [runs_concat] at h
        obtain ⟨s₁, h₁, hstep⟩ := Option.bind_eq_some_iff.mp h
        have hrun := ih s₁ h₁ fun pre u s' hp => href pre u s' (hp.trans (List.prefix_append _ _))
        refine .next hrun ?_ hstep
        cases op with
        | get u => trivial
        | set u v =>
            obtain ⟨t', ht', rfl⟩ := stateStep_set hstep
            refine (bindingHarmless_iff ht').mp ?_
            funext w
            have hget : runs (stateStep mode) ⟨t, []⟩ (ops ++ [.set u v] ++ [.get w]) = some
                { table := t', answers := s₁.answers ++ [t'.stateOf w] } := by
              rw [runs_concat, hfull, Option.bind_some, stateStep_get]
            have hlast := href _ w _ List.prefix_rfl hget
            rw [answers_get hfull hget, Option.some.injEq] at hlast
            rw [hlast, latest_set, stateOf_of_run hrun]
  · intro hrun pre u s' hp hget
    obtain ⟨s₁, h₁⟩ := hrun.exists_of_isPrefix hp
    rw [answers_get h₁.runs hget, stateOf_of_run h₁]

/-- A table and two operations on which the law fails: user 5 stores the byte
1 and reads back 0, because the row of user 1 was addressed. -/
theorem refines_fails : ¬ ∀ mode t ops s, runs (stateStep mode) ⟨t, []⟩ ops = some s →
    Refines mode t ops := by
  intro h
  have href := h .strict ⟨[⟨5, 0⟩], by decide⟩ [.set 5 1, .get 5]
    ⟨⟨[⟨5, 0⟩], by decide⟩, [0]⟩ rfl [.set 5 1] 5 ⟨⟨[⟨5, 0⟩], by decide⟩, [0]⟩ ⟨[.get 5], rfl⟩ rfl
  exact absurd href (by decide)

/-- The law on a harmless sequence: user 1, whose id is the byte it stores. -/
theorem refines_iff_self :
    Refines .strict ⟨[⟨1, 0⟩], by decide⟩ [.set 1 1, .get 1] ↔
      Run (stateStep .strict) (SetHarmless .strict) ⟨⟨[⟨1, 0⟩], by decide⟩, []⟩
        [.set 1 1, .get 1] ⟨⟨[⟨1, 1⟩], by decide⟩, [1]⟩ :=
  refines_iff _ _ _ _ rfl

end LearnWords

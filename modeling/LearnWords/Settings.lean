import Mathlib.Data.List.Nodup

/-!
# LearnWords.Settings

The table `settings` and the two statements the program prepares for it.

```
CREATE TABLE IF NOT EXISTS `settings`(
    `tg_user_id` BIGINT UNSIGNED NOT NULL,
    `state` TINYINT UNSIGNED DEFAULT(0) NOT NULL,
    PRIMARY KEY(`tg_user_id`)
)
```

A statement keeps its columns and the order of its `?` placeholders, which is
the order of the SQL text: in an `UPDATE` the placeholder of `SET` comes
before the placeholder of `WHERE`.  `execute` binds the parameters to the
placeholders by position, as the MySQL client does.

The table is a list of rows whose keys are distinct; everything after the
first section reads it through `Table.lookup` only.
-/

namespace LearnWords

/-- A row of `settings`. -/
structure Row where
  tgUserId : UInt64
  state : UInt8
deriving DecidableEq

/-- The columns of `settings` that statements name. -/
inductive Column where
  | tgUserId
  | state
deriving DecidableEq

/-- What the server does with a value that does not fit its column. -/
inductive SqlMode where
  | strict
  | lenient
deriving DecidableEq

/-- The errors a statement can end with. -/
inductive SqlError where
  | wrongNumParams
  | outOfRange
  | duplicateKey
deriving DecidableEq

/-- Storing into a `TINYINT UNSIGNED` column: a value above 255 is refused in
strict mode and clamped otherwise. -/
def storeTinyint (mode : SqlMode) (n : UInt64) : Option UInt8 :=
  if n.toNat ≤ 255 then some n.toUInt8
  else match mode with
    | .strict => none
    | .lenient => some 255

namespace Row

/-- The value of a column, as the client receives it. -/
def field (r : Row) : Column → UInt64
  | .tgUserId => r.tgUserId
  | .state => r.state.toUInt64

/-- Assign a value to a column. -/
def assign (mode : SqlMode) (r : Row) : Column → UInt64 → Option Row
  | .tgUserId, n => some { r with tgUserId := n }
  | .state, n => (storeTinyint mode n).map fun b => { r with state := b }

end Row

/-- The content of `settings`; the primary key admits one row per user. -/
structure Table where
  rows : List Row
  primaryKey : (rows.map Row.tgUserId).Nodup

/-- A prepared statement on `settings`. -/
inductive Statement where
  /-- ``SELECT `column` FROM `settings` WHERE `key` = ?`` -/
  | select (column key : Column)
  /-- ``UPDATE `settings` SET `column` = ? WHERE `key` = ?`` -/
  | update (column key : Column)

namespace Query

/-- `query::get_state`. -/
def getState : Statement := .select .state .tgUserId

/-- `query::set_state`. -/
def setState : Statement := .update .state .tgUserId

end Query

/-- The rows after an `UPDATE`, if every matching row can be assigned. -/
def updateRows (mode : SqlMode) (rows : List Row) (column : Column) (value : UInt64)
    (key : Column) (wanted : UInt64) : Option (List Row) :=
  rows.mapM fun r => if r.field key = wanted then r.assign mode column value else some r

/-- Execute a statement with its parameters bound by position: the rows it
yields, and the table it leaves. -/
def execute (mode : SqlMode) (t : Table) :
    Statement → List UInt64 → Except SqlError (List (List UInt64) × Table)
  | .select column key, [wanted] =>
      .ok ((t.rows.filter fun r => r.field key = wanted).map fun r => [r.field column], t)
  | .update column key, [value, wanted] =>
      match updateRows mode t.rows column value key wanted with
      | none => .error .outOfRange
      | some rows =>
          if h : (rows.map Row.tgUserId).Nodup then .ok ([], ⟨rows, h⟩)
          else .error .duplicateKey
  | _, _ => .error .wrongNumParams

/-! ## the table as a map -/

/-- The byte stored under a key in a list of rows. -/
def lookupRow (rows : List Row) (u : UInt64) : Option UInt8 :=
  (rows.find? fun r => r.tgUserId = u).map Row.state

/-- The row list with the byte under `u` replaced. -/
def putRow (rows : List Row) (u : UInt64) (b : UInt8) : List Row :=
  rows.map fun r => if r.tgUserId = u then { r with state := b } else r

theorem lookupRow_cons (r : Row) (rows : List Row) (u : UInt64) :
    lookupRow (r :: rows) u = if r.tgUserId = u then some r.state else lookupRow rows u := by
  unfold lookupRow
  by_cases h : r.tgUserId = u <;> simp [h]

/-- Replacing bytes changes no key. -/
theorem map_tgUserId_putRow (rows : List Row) (u : UInt64) (b : UInt8) :
    (putRow rows u b).map Row.tgUserId = rows.map Row.tgUserId := by
  simp only [putRow, List.map_map]
  apply List.map_congr_left
  intro r _
  simp only [Function.comp_apply]
  split <;> rfl

theorem lookupRow_putRow (rows : List Row) (u w : UInt64) (b : UInt8) :
    lookupRow (putRow rows u b) w =
      if w = u then (lookupRow rows u).map fun _ => b else lookupRow rows w := by
  induction rows with
  | nil => simp [putRow, lookupRow]
  | cons r rows ih =>
      simp only [putRow, List.map_cons, lookupRow_cons] at ih ⊢
      by_cases hr : r.tgUserId = u
      · by_cases hw : w = u
        · simp [hr, hw]
        · have hne : ¬ u = w := fun h => hw h.symm
          simp [hr, hw, hne, ih]
      · by_cases hw : w = u
        · subst hw
          simp [hr, ih]
        · simp [hr, hw, ih]

/-- Without a row for `u`, replacing its byte does nothing. -/
theorem putRow_of_lookupRow_none {rows : List Row} {u : UInt64} (b : UInt8)
    (h : lookupRow rows u = none) : putRow rows u b = rows := by
  have hne : ∀ r ∈ rows, ¬ r.tgUserId = u := by
    simpa [lookupRow] using h
  unfold putRow
  calc rows.map (fun r => if r.tgUserId = u then { r with state := b } else r)
      = rows.map id := List.map_congr_left fun r hr => by simp [hne r hr]
    _ = rows := List.map_id rows

theorem updateRows_cons (mode : SqlMode) (r : Row) (rows : List Row) (value wanted : UInt64) :
    updateRows mode (r :: rows) .state value .tgUserId wanted =
      (if r.tgUserId = wanted then (storeTinyint mode value).map fun b => { r with state := b }
        else some r).bind fun r' =>
          (updateRows mode rows .state value .tgUserId wanted).bind fun rows' =>
            some (r' :: rows') := by
  by_cases h : r.tgUserId = wanted <;> simp [updateRows, Row.field, Row.assign, h]

/-- What the `UPDATE` of `set_state` does to the rows: a value is stored only
if some row matches. -/
theorem updateRows_state (mode : SqlMode) (rows : List Row) (value wanted : UInt64) :
    updateRows mode rows .state value .tgUserId wanted =
      match lookupRow rows wanted with
      | none => some rows
      | some _ => (storeTinyint mode value).map fun b => putRow rows wanted b := by
  induction rows with
  | nil => rfl
  | cons r rows ih =>
      rw [updateRows_cons, ih, lookupRow_cons]
      by_cases hr : r.tgUserId = wanted
      · rw [if_pos hr, if_pos hr]
        cases hs : storeTinyint mode value with
        | none => rfl
        | some b =>
            cases hl : lookupRow rows wanted with
            | none =>
                have hput := putRow_of_lookupRow_none b hl
                simp only [putRow] at hput
                simp [putRow, hr, hput]
            | some c => simp [putRow, hr]
      · rw [if_neg hr, if_neg hr]
        cases hl : lookupRow rows wanted with
        | none => rfl
        | some c => cases hs : storeTinyint mode value <;> simp [putRow, hr]

/-- With distinct keys at most one row matches a key. -/
theorem filter_tgUserId (rows : List Row) (h : (rows.map Row.tgUserId).Nodup) (u : UInt64) :
    (rows.filter fun r => r.tgUserId = u).map Row.state = (lookupRow rows u).toList := by
  induction rows with
  | nil => rfl
  | cons r rows ih =>
      obtain ⟨hnot, hrest⟩ := List.nodup_cons.mp h
      rw [lookupRow_cons, List.filter_cons]
      by_cases hr : r.tgUserId = u
      · have hnone : rows.filter (fun r => decide (r.tgUserId = u)) = [] := by
          rw [List.filter_eq_nil_iff]
          intro x hx hxu
          simp only [decide_eq_true_eq] at hxu
          exact hnot (List.mem_map.mpr ⟨x, hx, hxu.trans hr.symm⟩)
        simp [hr, hnone]
      · simp [hr, ih hrest]

namespace Table

/-- The byte stored for a user. -/
def lookup (t : Table) (u : UInt64) : Option UInt8 := lookupRow t.rows u

/-- The table with the byte of a user replaced, if the user has a row. -/
def put (t : Table) (u : UInt64) (b : UInt8) : Table where
  rows := putRow t.rows u b
  primaryKey := by rw [map_tgUserId_putRow]; exact t.primaryKey

@[simp] theorem lookup_put (t : Table) (u w : UInt64) (b : UInt8) :
    (t.put u b).lookup w = if w = u then (t.lookup u).map fun _ => b else t.lookup w :=
  lookupRow_putRow t.rows u w b

/-- Without a row for the user there is nothing to replace. -/
theorem put_of_lookup_none {t : Table} {u : UInt64} (h : t.lookup u = none) (b : UInt8) :
    t.put u b = t := by
  have hrows := putRow_of_lookupRow_none b h
  cases t
  simpa [put] using hrows

/-- The total map that the table stands for: a user without a row is in
state 0. -/
def stateOf (t : Table) (u : UInt64) : UInt8 := (t.lookup u).getD 0

end Table

/-! ## the two statements -/

/-- `get_state` yields the byte of the one row of its user. -/
theorem execute_getState (mode : SqlMode) (t : Table) (u : UInt64) :
    execute mode t Query.getState [u] =
      .ok ((t.lookup u).toList.map fun b => [b.toUInt64], t) := by
  simp only [execute, Query.getState, Table.lookup, ← filter_tgUserId t.rows t.primaryKey u,
    List.map_map]
  rfl

/-- `set_state` stores its *first* parameter in the row whose key is its
*second* parameter; it does nothing where no row has that key. -/
theorem execute_setState (mode : SqlMode) (t : Table) (value wanted : UInt64) :
    execute mode t Query.setState [value, wanted] =
      match t.lookup wanted with
      | none => .ok ([], t)
      | some _ =>
          match storeTinyint mode value with
          | none => .error .outOfRange
          | some b => .ok ([], t.put wanted b) := by
  simp only [execute, Query.setState, updateRows_state, Table.lookup]
  cases hl : lookupRow t.rows wanted with
  | none => simp [t.primaryKey]
  | some c =>
      cases hs : storeTinyint mode value with
      | none => simp
      | some b => simp [map_tgUserId_putRow, t.primaryKey, Table.put]

end LearnWords

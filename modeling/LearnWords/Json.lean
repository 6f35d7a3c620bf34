import Mathlib.Data.List.Basic

/-!
# LearnWords.Json

The JSON values the program exchanges with Telegram (`boost::json::value`),
and the two ways in which its code reads them:

* the *conditional* accessors of `util::json` (`if_contains`, `if_object`, …),
  which answer with an optional and are chained with `and_then`;
* the *throwing* accessors of the JSON library (`at`, `as_object`, …), whose
  failures are the exceptions of `JsonError`.

A string is kept as a `String`: the parser accepts valid UTF-8 only, so the
bytes of a parsed string are always `String.toUTF8` of its characters.
-/

namespace LearnWords

/-- The bytes of a string, as `std::string_view` sees them. -/
abbrev Bytes := List UInt8

/-- The UTF-8 bytes of a JSON string. -/
def bytesOf (s : String) : Bytes := s.toUTF8.data.toList

/-- `boost::json::value`; a `double` is kept as its bit pattern. -/
inductive Value where
  | null
  | bool (b : Bool)
  | int64 (i : Int64)
  | uint64 (u : UInt64)
  | double (bits : UInt64)
  | string (s : String)
  | array (vs : List Value)
  | object (o : List (String × Value))

/-- `boost::json::object`: members in insertion order, looked up by key. -/
abbrev Object := List (String × Value)

/-- The failures of the throwing accessors, each a `boost::system::system_error`. -/
inductive JsonError where
  | notArray
  | notBool
  | notInt64
  | notObject
  | notString
  | outOfRange
deriving DecidableEq

/-! ## conditional accessors -/

/-- `util::json::if_contains` at an object. -/
def ifContains (o : Object) (key : String) : Option Value := o.lookup key

/-- `util::json::if_array`. -/
def ifArray : Value → Option (List Value)
  | .array vs => some vs
  | _ => none

/-- `util::json::if_int64`. -/
def ifInt64 : Value → Option Int64
  | .int64 i => some i
  | _ => none

/-- `util::json::if_object`. -/
def ifObject : Value → Option Object
  | .object o => some o
  | _ => none

/-- `util::json::if_string`. -/
def ifString : Value → Option String
  | .string s => some s
  | _ => none

/-! ## throwing accessors -/

/-- A missing value is the exception `e`. -/
def orThrow {ε α : Type} (e : ε) : Option α → Except ε α
  | some a => .ok a
  | none => .error e

/-- `boost::json::object::at`. -/
def Object.at (o : Object) (key : String) : Except JsonError Value :=
  orThrow .outOfRange (o.lookup key)

namespace Value

/-- `boost::json::value::as_array`. -/
def asArray (v : Value) : Except JsonError (List Value) := orThrow .notArray (ifArray v)

/-- `boost::json::value::as_bool`. -/
def asBool : Value → Except JsonError Bool
  | .bool b => .ok b
  | _ => .error .notBool

/-- `boost::json::value::as_int64`. -/
def asInt64 (v : Value) : Except JsonError Int64 := orThrow .notInt64 (ifInt64 v)

/-- `boost::json::value::as_object`. -/
def asObject (v : Value) : Except JsonError Object := orThrow .notObject (ifObject v)

/-- `boost::json::value::as_string`. -/
def asString (v : Value) : Except JsonError String := orThrow .notString (ifString v)

end Value

/-! ## simplification lemmas -/

@[simp] theorem orThrow_some {ε α : Type} (e : ε) (a : α) : orThrow e (some a) = .ok a := rfl

@[simp] theorem orThrow_none {ε α : Type} (e : ε) :
    orThrow e (none : Option α) = .error e := rfl

@[simp] theorem ok_bind {ε α β : Type} (a : α) (f : α → Except ε β) :
    (Except.ok a >>= f) = f a := rfl

@[simp] theorem ifArray_array (vs : List Value) : ifArray (.array vs) = some vs := rfl

@[simp] theorem ifInt64_int64 (i : Int64) : ifInt64 (.int64 i) = some i := rfl

@[simp] theorem ifObject_object (o : Object) : ifObject (.object o) = some o := rfl

@[simp] theorem ifString_string (s : String) : ifString (.string s) = some s := rfl

@[simp] theorem asArray_array (vs : List Value) : (Value.array vs).asArray = .ok vs := rfl

@[simp] theorem asBool_bool (b : Bool) : (Value.bool b).asBool = .ok b := rfl

@[simp] theorem asInt64_int64 (i : Int64) : (Value.int64 i).asInt64 = .ok i := rfl

@[simp] theorem asObject_object (o : Object) : (Value.object o).asObject = .ok o := rfl

@[simp] theorem asString_string (s : String) : (Value.string s).asString = .ok s := rfl

/-! ## what the accessors find -/

theorem ifArray_eq_some {v : Value} {vs : List Value} : ifArray v = some vs ↔ v = .array vs := by
  cases v <;> simp [ifArray]

theorem ifInt64_eq_some {v : Value} {i : Int64} : ifInt64 v = some i ↔ v = .int64 i := by
  cases v <;> simp [ifInt64]

theorem ifObject_eq_some {v : Value} {o : Object} : ifObject v = some o ↔ v = .object o := by
  cases v <;> simp [ifObject]

theorem ifString_eq_some {v : Value} {s : String} : ifString v = some s ↔ v = .string s := by
  cases v <;> simp [ifString]

theorem asBool_eq_ok {v : Value} {b : Bool} : v.asBool = .ok b ↔ v = .bool b := by
  cases v <;> simp [Value.asBool]

theorem orThrow_eq_ok {ε α : Type} {e : ε} {x : Option α} {a : α} :
    orThrow e x = .ok a ↔ x = some a := by
  cases x <;> simp [orThrow]

/-- What a computation that does not raise has done. -/
theorem bind_eq_ok {ε α β : Type} {x : Except ε α} {f : α → Except ε β} {b : β} :
    (x >>= f) = .ok b ↔ ∃ a, x = .ok a ∧ f a = .ok b := by
  cases x with
  | ok a => simp
  | error e =>
      have herror : (Except.error e >>= f) = .error e := rfl
      simp [herror]

/-- A member of the kind an accessor reads. -/
theorem ifContains_bind_eq_some {α : Type} {f : Value → Option α} {kind : α → Value}
    (hf : ∀ {v a}, f v = some a ↔ v = kind a) {o : Object} {key : String} {a : α} :
    (ifContains o key).bind f = some a ↔ o.lookup key = some (kind a) := by
  rw [Option.bind_eq_some_iff]
  constructor
  · rintro ⟨v, hv, ha⟩
    rw [hf.mp ha] at hv
    exact hv
  · intro h
    exact ⟨kind a, h, hf.mpr rfl⟩

theorem ifContains_array {o : Object} {key : String} {vs : List Value} :
    (ifContains o key).bind ifArray = some vs ↔ o.lookup key = some (.array vs) :=
  ifContains_bind_eq_some ifArray_eq_some

theorem ifContains_int64 {o : Object} {key : String} {i : Int64} :
    (ifContains o key).bind ifInt64 = some i ↔ o.lookup key = some (.int64 i) :=
  ifContains_bind_eq_some ifInt64_eq_some

theorem ifContains_object {o p : Object} {key : String} :
    (ifContains o key).bind ifObject = some p ↔ o.lookup key = some (.object p) :=
  ifContains_bind_eq_some ifObject_eq_some

theorem ifContains_string {o : Object} {key s : String} :
    (ifContains o key).bind ifString = some s ↔ o.lookup key = some (.string s) :=
  ifContains_bind_eq_some ifString_eq_some

/-! ## equality -/

mutual

/-- Are two values the same? -/
def Value.same : Value → Value → Bool
  | .null, .null => true
  | .bool b, .bool b' => b = b'
  | .int64 i, .int64 i' => i = i'
  | .uint64 u, .uint64 u' => u = u'
  | .double d, .double d' => d = d'
  | .string s, .string s' => s = s'
  | .array vs, .array vs' => sameValues vs vs'
  | .object o, .object o' => sameMembers o o'
  | _, _ => false

def sameValues : List Value → List Value → Bool
  | [], [] => true
  | v :: vs, v' :: vs' => v.same v' && sameValues vs vs'
  | _, _ => false

def sameMembers : List (String × Value) → List (String × Value) → Bool
  | [], [] => true
  | (k, v) :: o, (k', v') :: o' => k = k' && v.same v' && sameMembers o o'
  | _, _ => false

end

mutual

theorem Value.same_iff : (v v' : Value) → v.same v' = true ↔ v = v'
  | .null, v' => by cases v' <;> simp [Value.same]
  | .bool b, v' => by cases v' <;> simp [Value.same]
  | .int64 i, v' => by cases v' <;> simp [Value.same]
  | .uint64 u, v' => by cases v' <;> simp [Value.same]
  | .double d, v' => by cases v' <;> simp [Value.same]
  | .string s, v' => by cases v' <;> simp [Value.same]
  | .array vs, v' => by cases v' <;> simp [Value.same, sameValues_iff vs]
  | .object o, v' => by cases v' <;> simp [Value.same, sameMembers_iff o]

theorem sameValues_iff : (vs vs' : List Value) → sameValues vs vs' = true ↔ vs = vs'
  | [], vs' => by cases vs' <;> simp [sameValues]
  | v :: vs, vs' => by cases vs' <;> simp [sameValues, Value.same_iff v, sameValues_iff vs]

theorem sameMembers_iff : (o o' : List (String × Value)) → sameMembers o o' = true ↔ o = o'
  | [], o' => by cases o' <;> simp [sameMembers]
  | (k, v) :: o, o' => by
      cases o' with
      | nil => simp [sameMembers]
      | cons p o' =>
          obtain ⟨k', v'⟩ := p
          simp [sameMembers, Value.same_iff v, sameMembers_iff o]

end

instance : DecidableEq Value := fun v v' => decidable_of_iff _ (Value.same_iff v v')

end LearnWords

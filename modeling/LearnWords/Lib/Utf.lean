import Mathlib.Data.List.Infix

/-!
# LearnWords.Lib.Utf

A sequence of characters in two encodings, UTF-8 and UTF-16, and what comes of
positions counted in the units of one of them being used in the other.  Nothing
here mentions a particular program.

No character takes more units in UTF-16 than in UTF-8, and the ASCII characters
are the ones that take as many; so a range counted in UTF-16 lies inside the
text in UTF-8 too, but too far to the front (`window_eq_iff`).
-/

namespace Utf

/-! ## stretches of an append -/

/-- A stretch that begins too early and is no longer than `m` is `m` exactly if
it is as long, and `m` continues what precedes it. -/
theorem take_drop_eq_iff {α : Type*} {p m s : List α} {o n : Nat} (ho : o ≤ p.length)
    (hn : n ≤ m.length) :
    ((p ++ m ++ s).drop o).take n = m ↔ n = m.length ∧ m <+: p.drop o ++ m := by
  have hdrop : (p ++ m ++ s).drop o = (p.drop o ++ m) ++ s := by
    rw [List.append_assoc, List.drop_append_of_le_length ho, List.append_assoc]
  have hfits : n ≤ (p.drop o ++ m).length := by
    rw [List.length_append]
    omega
  rw [hdrop, List.take_append_of_le_length hfits, List.prefix_iff_eq_take]
  constructor
  · intro h
    have hlen : n = m.length := by
      rw [← h, List.length_take]
      omega
    subst hlen
    exact ⟨rfl, h.symm⟩
  · rintro ⟨rfl, h⟩
    exact h.symm

/-! ## characters -/

/-- The code units of a character in UTF-16. -/
def utf16EncodeChar (c : Char) : List UInt16 :=
  if c.val ≤ 0xffff then [c.val.toUInt16]
  else
    let v := c.val - 0x10000
    [(0xd800 : UInt16) + (v >>> 10).toUInt16, (0xdc00 : UInt16) + (v &&& 0x3ff).toUInt16]

/-- An ASCII character. -/
def IsAscii (c : Char) : Prop := c.val ≤ 127

instance : DecidablePred IsAscii := fun c => inferInstanceAs (Decidable (c.val ≤ 127))

/-- The characters of a text, checked one after the other. -/
theorem forall_isAscii_iff (cs : List Char) :
    (∀ c ∈ cs, IsAscii c) ↔ cs.all (fun c => decide (IsAscii c)) = true := by
  simp only [List.all_eq_true, decide_eq_true_eq]

theorem length_utf16EncodeChar (c : Char) :
    (utf16EncodeChar c).length = if c.val ≤ 0xffff then 1 else 2 := by
  unfold utf16EncodeChar
  split <;> rfl

/-- A character outside the basic plane takes four units in UTF-8. -/
theorem utf8Size_of_not_le {c : Char} (h : ¬ c.val ≤ 0xffff) : c.utf8Size = 4 := by
  rw [Char.utf8Size_eq_four_iff]
  exact UInt32.not_le.mp h

theorem length_utf16EncodeChar_le (c : Char) :
    (utf16EncodeChar c).length ≤ (String.utf8EncodeChar c).length := by
  rw [length_utf16EncodeChar, String.length_utf8EncodeChar]
  split
  · exact c.utf8Size_pos
  · next h => rw [utf8Size_of_not_le h]; decide

theorem length_utf16EncodeChar_eq_iff (c : Char) :
    (utf16EncodeChar c).length = (String.utf8EncodeChar c).length ↔ IsAscii c := by
  rw [length_utf16EncodeChar, String.length_utf8EncodeChar, IsAscii, ← Char.utf8Size_eq_one_iff]
  split
  · exact eq_comm
  · next h => rw [utf8Size_of_not_le h]; decide

/-! ## texts -/

/-- The bytes of a text in UTF-8. -/
def utf8 (cs : List Char) : List UInt8 := cs.flatMap String.utf8EncodeChar

/-- The code units of a text in UTF-16. -/
def utf16 (cs : List Char) : List UInt16 := cs.flatMap utf16EncodeChar

@[simp] theorem utf8_append (cs ds : List Char) : utf8 (cs ++ ds) = utf8 cs ++ utf8 ds :=
  List.flatMap_append

theorem length_utf16_le (cs : List Char) : (utf16 cs).length ≤ (utf8 cs).length := by
  induction cs with
  | nil => exact Nat.le_refl 0
  | cons c cs ih =>
      have hc := length_utf16EncodeChar_le c
      simp only [utf16, utf8, List.flatMap_cons, List.length_append] at ih ⊢
      omega

/-- A text takes as many units in both encodings exactly if it is ASCII. -/
theorem length_utf16_eq_iff (cs : List Char) :
    (utf16 cs).length = (utf8 cs).length ↔ ∀ c ∈ cs, IsAscii c := by
  induction cs with
  | nil => simp [utf16, utf8]
  | cons c cs ih =>
      have hc := length_utf16EncodeChar_le c
      have hcs := length_utf16_le cs
      rw [List.forall_mem_cons, ← ih, ← length_utf16EncodeChar_eq_iff]
      simp only [utf16, utf8, List.flatMap_cons, List.length_append] at hcs ⊢
      omega

/-- The bytes of `pre` that its length in UTF-16 does not count. -/
def excess (pre : List Char) : List UInt8 := (utf8 pre).drop (utf16 pre).length

theorem excess_eq_nil_iff (pre : List Char) : excess pre = [] ↔ ∀ c ∈ pre, IsAscii c := by
  have hle := length_utf16_le pre
  rw [excess, List.drop_eq_nil_iff, ← length_utf16_eq_iff]
  omega

/-- The bytes that stand where UTF-16 has `mid` are those of `mid` exactly if
`mid` is ASCII and what precedes it is ASCII too, or ends such that `mid`
recurs. -/
theorem window_eq_iff (pre mid post : List Char) :
    ((utf8 (pre ++ mid ++ post)).drop (utf16 pre).length).take (utf16 mid).length = utf8 mid ↔
      (∀ c ∈ mid, IsAscii c) ∧
        ((∀ c ∈ pre, IsAscii c) ∨ utf8 mid <+: excess pre ++ utf8 mid) := by
  rw [utf8_append, utf8_append, take_drop_eq_iff (length_utf16_le pre) (length_utf16_le mid),
    length_utf16_eq_iff, ← excess_eq_nil_iff pre]
  refine and_congr_right fun _ => ⟨.inr, ?_⟩
  rintro (h | h)
  · rw [excess] at h
    rw [h]
    exact List.prefix_rfl
  · exact h

/-- A stretch whose first byte does not occur before it recurs only if nothing
is left uncounted. -/
theorem excess_eq_nil_of_isPrefix {pre : List Char} {b : UInt8} {m : List UInt8}
    (hb : b ∉ utf8 pre) (h : b :: m <+: excess pre ++ b :: m) : excess pre = [] := by
  cases hex : excess pre with
  | nil => rfl
  | cons x xs =>
      rw [hex, List.cons_append, List.cons_prefix_cons] at h
      have hx : x ∈ excess pre := by rw [hex]; exact List.mem_cons_self
      exact absurd (List.mem_of_mem_drop hx) (h.1 ▸ hb)

end Utf

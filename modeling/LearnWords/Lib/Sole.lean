import Mathlib.Data.List.Basic

/-!
# LearnWords.Lib.Sole

Lists of parties of which at most one is in the middle of something.  Nothing
here mentions a particular program.

`f i x` is what party `x`, the one with the number `i`, holds.  It may take
more, or begin, as long as no other one holds anything (`sole_set`); what all
others hold together is then what it holds itself (`Sole.eq_of_others`).
-/

section

variable {α β : Type*} {f : Nat → α → List β} {xs : List α} {part : List β}

/-- An entry of a list with a new one is an old one, or the new one. -/
theorem getElem?_concat_or {x y : α} {i : Nat} (h : (xs ++ [x])[i]? = some y) :
    xs[i]? = some y ∨ (i = xs.length ∧ x = y) := by
  by_cases hlt : i < xs.length
  · rw [List.getElem?_append_left hlt] at h
    exact .inl h
  · have hi : i = xs.length := by
      have hle := (List.getElem?_eq_some_iff.mp h).1
      rw [List.length_append, List.length_singleton] at hle
      omega
    rw [hi, List.getElem?_concat_length, Option.some.injEq] at h
    exact .inr ⟨hi, h⟩

/-- An entry of a list with one replaced is the new one, or another one. -/
theorem getElem?_set_or {x y z : α} {i j : Nat} (hx : xs[i]? = some x)
    (h : (xs.set i y)[j]? = some z) : (j = i ∧ z = y) ∨ (j ≠ i ∧ xs[j]? = some z) := by
  by_cases hij : i = j
  · subst hij
    rw [List.getElem?_set_self (List.getElem?_eq_some_iff.mp hx).1, Option.some.injEq] at h
    exact .inl ⟨rfl, h.symm⟩
  · rw [List.getElem?_set_ne hij] at h
    exact .inr ⟨Ne.symm hij, h⟩

/-- At most one entry of the list holds something, and that is `part`. -/
inductive Sole (f : Nat → α → List β) (xs : List α) : List β → Prop
  | none (h : ∀ i x, xs[i]? = some x → f i x = []) : Sole f xs []
  | one (i : Nat) (x : α) (hx : xs[i]? = some x)
      (h : ∀ j y, xs[j]? = some y → j ≠ i → f j y = []) : Sole f xs (f i x)

/-- If no other entry holds anything, it is this one. -/
theorem Sole.eq_of_others {i : Nat} {x : α} (hs : Sole f xs part) (hx : xs[i]? = some x)
    (h : ∀ j y, xs[j]? = some y → j ≠ i → f j y = []) : part = f i x := by
  cases hs with
  | none hnone => exact (hnone i x hx).symm
  | one j y hy hothers =>
      by_cases hij : j = i
      · subst hij
        rw [hx, Option.some.injEq] at hy
        rw [hy]
      · rw [h j y hy hij, hothers i x hx (Ne.symm hij)]

/-- An entry is replaced while no other one holds anything. -/
theorem sole_set {i : Nat} {x : α} (y : α) (hx : xs[i]? = some x)
    (h : ∀ j y, xs[j]? = some y → j ≠ i → f j y = []) : Sole f (xs.set i y) (f i y) := by
  have hlt := (List.getElem?_eq_some_iff.mp hx).1
  refine .one i y (List.getElem?_set_self hlt) fun j z hz hne => ?_
  rw [List.getElem?_set_ne (Ne.symm hne)] at hz
  exact h j z hz hne

/-- An entry is replaced by one that holds the same. -/
theorem Sole.set {i : Nat} {x y : α} (hs : Sole f xs part) (hx : xs[i]? = some x)
    (hsame : f i y = f i x) : Sole f (xs.set i y) part := by
  have hlt := (List.getElem?_eq_some_iff.mp hx).1
  have hentry : ∀ j z, (xs.set i y)[j]? = some z → ∃ z', xs[j]? = some z' ∧ f j z = f j z' := by
    intro j z hz
    rcases getElem?_set_or hx hz with ⟨rfl, rfl⟩ | ⟨-, hz⟩
    · exact ⟨x, hx, hsame⟩
    · exact ⟨z, hz, rfl⟩
  cases hs with
  | none hnone =>
      refine .none fun j z hz => ?_
      obtain ⟨z', hz', hf⟩ := hentry j z hz
      rw [hf, hnone j z' hz']
  | one j z hz hothers =>
      have hnew : ∃ z', (xs.set i y)[j]? = some z' ∧ f j z' = f j z := by
        by_cases hij : i = j
        · subst hij
          rw [hx, Option.some.injEq] at hz
          exact ⟨y, List.getElem?_set_self hlt, by rw [hsame, hz]⟩
        · exact ⟨z, by rw [List.getElem?_set_ne hij, hz], rfl⟩
      obtain ⟨z', hz', hf⟩ := hnew
      rw [← hf]
      refine .one j z' hz' fun k u hu hne => ?_
      obtain ⟨u', hu', hf'⟩ := hentry k u hu
      rw [hf', hothers k u' hu' hne]

/-- A new entry holds nothing. -/
theorem Sole.append {x : α} (hs : Sole f xs part) (hx : f xs.length x = []) :
    Sole f (xs ++ [x]) part := by
  have hentry : ∀ j y, (xs ++ [x])[j]? = some y → xs[j]? = some y ∨ f j y = [] := by
    intro j y hy
    rcases getElem?_concat_or hy with hy | ⟨rfl, rfl⟩
    · exact .inl hy
    · exact .inr hx
  cases hs with
  | none hnone => exact .none fun j y hy => (hentry j y hy).elim (hnone j y) id
  | one j y hy hothers =>
      refine .one j y ?_ fun k z hz hne => (hentry k z hz).elim (fun h => hothers k z h hne) id
      rw [List.getElem?_append_left (List.getElem?_eq_some_iff.mp hy).1]
      exact hy

end

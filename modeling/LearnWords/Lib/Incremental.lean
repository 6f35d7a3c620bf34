import Mathlib.Data.List.Infix

/-!
# LearnWords.Lib.Incremental

A text that passes in pieces: a producer that is asked for the next piece until
it says that there is no more, and a consumer that is fed piece after piece.
Nothing here mentions a particular program.

What a state knows about the text is a relation `Has s a`: it has passed on, or
taken in, the beginning `a` so far.  One step has to extend it; then all the
steps together make up the text, however it is cut.
-/

namespace Incremental

variable {σ β ε : Type*} {t : List β} {Has : σ → List β → Prop}

/-! ## producers -/

/-- Ask for pieces until there are no more; `none` if there is no piece, or if
`n` pieces are not all. -/
def drain (get : σ → Option (List β × Bool) × σ) : Nat → σ → Option (List (List β))
  | 0, _ => none
  | n + 1, s =>
      match get s with
      | (some (piece, true), s') => (drain get n s').map (piece :: ·)
      | (some (piece, false), _) => some [piece]
      | (none, _) => none

/-- A producer that has passed on `a` passes on more of `t`, and says whether
that was all. -/
def Extends (get : σ → Option (List β × Bool) × σ) (Has : σ → List β → Prop) (t : List β) : Prop :=
  ∀ s a, Has s a → ∃ piece more s', get s = (some (piece, more), s') ∧ Has s' (a ++ piece) ∧
    a ++ piece <+: t ∧ (more = true ↔ a ++ piece ≠ t) ∧ (a ≠ t → piece ≠ [])

/-- The pieces of such a producer make up the rest of the text. -/
theorem drain_eq {get : σ → Option (List β × Bool) × σ} (hget : Extends get Has t) {n : Nat}
    {s : σ} {a : List β} (hs : Has s a) (hn : t.length < a.length + n) (ha : a <+: t) :
    ∃ pieces, drain get n s = some pieces ∧ a ++ pieces.flatten = t := by
  induction n generalizing s a with
  | zero =>
      have hle := ha.length_le
      omega
  | succ n ih =>
      obtain ⟨piece, more, s', hpiece, hs', hpart, hmore, hne⟩ := hget s a hs
      cases more with
      | false =>
          refine ⟨[piece], by rw [drain, hpiece], ?_⟩
          rw [List.flatten_singleton]
          by_contra h
          simpa using hmore.mpr h
      | true =>
          have hrest : a ++ piece ≠ t := hmore.mp rfl
          have hpos : 0 < piece.length := by
            rw [List.length_pos_iff]
            refine hne fun h => hrest ?_
            exact hpart.eq_of_length_le (by rw [h, List.length_append]; omega)
          have hlen : t.length < (a ++ piece).length + n := by
            rw [List.length_append]
            omega
          obtain ⟨pieces, hpieces, hall⟩ := ih hs' hlen hpart
          refine ⟨piece :: pieces, by simp only [drain, hpiece, hpieces, Option.map_some], ?_⟩
          rw [List.flatten_cons, ← List.append_assoc]
          exact hall

/-! ## consumers -/

/-- Feed pieces one after the other; what each call says. -/
def feed (put : σ → List β → ε × σ) : σ → List (List β) → List ε × σ
  | s, [] => ([], s)
  | s, piece :: pieces =>
      let (e, s') := put s piece
      let (es, s'') := feed put s' pieces
      (e :: es, s'')

/-- If every call that continues a beginning of `t` takes in all it is fed, so
does every sequence of calls, however the text is cut. -/
theorem feed_eq {put : σ → List β → ε × σ} {out : List β → ε}
    (hput : ∀ s a b, Has s a → a ++ b <+: t → (put s b).1 = out b ∧ Has (put s b).2 (a ++ b))
    {s : σ} {a : List β} {pieces : List (List β)} (hs : Has s a)
    (hpart : a ++ pieces.flatten <+: t) :
    (feed put s pieces).1 = pieces.map out ∧
      Has (feed put s pieces).2 (a ++ pieces.flatten) := by
  induction pieces generalizing s a with
  | nil =>
      rw [List.flatten_nil, List.append_nil]
      exact ⟨rfl, hs⟩
  | cons piece pieces ih =>
      rw [List.flatten_cons, ← List.append_assoc] at hpart ⊢
      obtain ⟨hout, hs'⟩ := hput s a piece hs ((List.prefix_append _ _).trans hpart)
      obtain ⟨hrest, hall⟩ := ih hs' hpart
      exact ⟨congrArg₂ List.cons hout hrest, hall⟩

end Incremental

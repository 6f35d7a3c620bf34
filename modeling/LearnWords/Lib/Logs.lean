import Mathlib.Data.List.Nodup

/-!
# LearnWords.Lib.Logs

Logs made of blocks: the log of a walk over a list is one block of entries for
each element behind it, followed by what the walk has done of the next one.
The lemmas say what stands before an entry of such a log.  Nothing here
mentions a particular program.
-/

namespace Logs

variable {α β : Type*} {f : α → List β}

/-- An entry of a log made of blocks stands in one of the blocks, behind those
before it, or in the unfinished part, behind them all. -/
theorem flatMap_append_eq {as : List α} {rest pre post : List β} {b : β}
    (h : as.flatMap f ++ rest = pre ++ b :: post) :
    (∃ us a vs p q, as = us ++ a :: vs ∧ f a = p ++ b :: q ∧ pre = us.flatMap f ++ p) ∨
    (∃ mid, pre = as.flatMap f ++ mid ∧ rest = mid ++ b :: post) := by
  induction as generalizing pre with
  | nil => exact .inr ⟨pre, rfl, h⟩
  | cons a as ih =>
      -- the entry is in the first block, or behind it
      have hcases : (∃ q, f a = pre ++ b :: q) ∨
          ∃ c, pre = f a ++ c ∧ as.flatMap f ++ rest = c ++ b :: post := by
        rw [List.flatMap_cons, List.append_assoc, List.append_eq_append_iff] at h
        rcases h with ⟨c, hc, hrest⟩ | ⟨c, hc, hrest⟩
        · exact .inr ⟨c, hc, hrest⟩
        · cases c with
          | nil => exact .inr ⟨[], by simpa using hc.symm, by simpa using hrest.symm⟩
          | cons x c =>
              simp only [List.cons_append, List.cons.injEq] at hrest
              exact .inl ⟨c, by rw [hc, hrest.1]⟩
      rcases hcases with ⟨q, hq⟩ | ⟨c, rfl, hc⟩
      · exact .inl ⟨[], a, as, pre, q, rfl, hq, rfl⟩
      · rcases ih hc with ⟨us, a', vs, p, q, rfl, hq, rfl⟩ | ⟨mid, rfl, hmid⟩
        · exact .inl ⟨a :: us, a', vs, p, q, rfl, hq, by simp⟩
        · exact .inr ⟨mid, by simp, hmid⟩

/-- An entry that is not the first one stands behind it. -/
theorem exists_of_cons_split {x b : β} {log pre post : List β} (hne : x ≠ b)
    (h : x :: log = pre ++ b :: post) : ∃ pre', pre = x :: pre' ∧ log = pre' ++ b :: post := by
  cases pre with
  | nil =>
      simp only [List.nil_append, List.cons.injEq] at h
      exact absurd h.1 hne
  | cons y pre =>
      simp only [List.cons_append, List.cons.injEq] at h
      exact ⟨pre, by rw [h.1], h.2⟩

/-- Without repetitions, a list splits at an element in one way only. -/
theorem eq_of_nodup_split {as us vs us' vs' : List α} {a : α} (hd : as.Nodup)
    (h : as = us ++ a :: vs) (h' : as = us' ++ a :: vs') : us = us' := by
  rw [h] at hd h'
  have hmem : a ∉ us ∧ a ∉ vs := by
    rw [List.nodup_middle, List.nodup_cons, List.mem_append] at hd
    tauto
  exact ((List.append_cons_inj_of_notMem hmem.1 hmem.2).mp h').1

end Logs

import Mathlib.Data.List.Infix

/-!
# LearnWords.Lib.Framing

Self-delimiting messages on a stream: a receiver scans what it has received so
far and learns whether it is the beginning of a message, holds a complete one
at its front, or is neither.  Nothing here mentions a particular program.

The bytes of a stream carry tags (`tagged`): a ghost that says where each of
them comes from, and that no scanner sees.
-/

/-- What a receiver learns from the symbols received so far. -/
inductive Scan where
  | incomplete
  /-- the first `n` symbols are a message -/
  | complete (n : Nat)
  | malformed
deriving DecidableEq

/-- A format of self-delimiting messages. -/
structure Framing (β : Type*) where
  scan : List β → Scan
  scan_nil : scan [] = .incomplete
  /-- what follows a message does not change it -/
  scan_append : ∀ {m : List β}, scan m = .complete m.length →
    ∀ rest, scan (m ++ rest) = .complete m.length
  /-- a proper part of a message is incomplete -/
  scan_part : ∀ {p rest : List β}, scan (p ++ rest) = .complete (p ++ rest).length →
    rest ≠ [] → scan p = .incomplete

namespace Framing

variable {β : Type*}

/-- The well-formed messages of a format. -/
def Message (F : Framing β) : Type _ := {m : List β // F.scan m = .complete m.length}

/-- A message is not empty. -/
theorem Message.ne_nil {F : Framing β} (m : F.Message) : m.val ≠ [] := by
  intro hnil
  have hm := m.property
  rw [hnil, F.scan_nil] at hm
  contradiction

/-! ## tagged symbols -/

/-- The symbols of a source, each with the source's number. -/
def tagged (i : Nat) (bs : List β) : List (Nat × β) := bs.map fun b => (i, b)

/-- The symbols without their tags. -/
def untagged (bs : List (Nat × β)) : List β := bs.map Prod.snd

@[simp] theorem tagged_nil (i : Nat) : tagged i ([] : List β) = [] := rfl

@[simp] theorem tagged_append (i : Nat) (bs cs : List β) :
    tagged i (bs ++ cs) = tagged i bs ++ tagged i cs := by simp [tagged]

@[simp] theorem tagged_take (i n : Nat) (bs : List β) :
    (tagged i bs).take n = tagged i (bs.take n) := by simp [tagged, List.map_take]

@[simp] theorem tagged_drop (i n : Nat) (bs : List β) :
    (tagged i bs).drop n = tagged i (bs.drop n) := by simp [tagged, List.map_drop]

@[simp] theorem untagged_tagged (i : Nat) (bs : List β) : untagged (tagged i bs) = bs := by
  simp [untagged, tagged, Function.comp_def]

@[simp] theorem tagged_eq_nil {i : Nat} {bs : List β} : tagged i bs = [] ↔ bs = [] := by
  simp [tagged]

/-! ## formats given by their messages -/

/-- Scan for one of the messages `ms`. -/
def scanMessages [DecidableEq β] (ms : List (List β)) (bs : List β) : Scan :=
  match ms.find? fun m => decide (m <+: bs) with
  | some m => .complete m.length
  | none => if bs = [] ∨ ∃ m ∈ ms, bs <+: m then .incomplete else .malformed

/-- No message begins with another one. -/
def Unambiguous (ms : List (List β)) : Prop := ∀ m ∈ ms, ∀ m' ∈ ms, m <+: m' → m = m'

variable [DecidableEq β] {ms : List (List β)}

/-- A message at the front is found. -/
theorem scanMessages_of_mem (hms : Unambiguous ms) {m bs : List β} (hm : m ∈ ms)
    (hfront : m <+: bs) : scanMessages ms bs = .complete m.length := by
  unfold scanMessages
  cases hfind : ms.find? fun m => decide (m <+: bs) with
  | none =>
      have hnot := List.find?_eq_none.mp hfind m hm
      simp only [decide_eq_true_eq] at hnot
      exact absurd hfront hnot
  | some m' =>
      have hm' := List.mem_of_find?_eq_some hfind
      have hfront' : m' <+: bs := by simpa using List.find?_some hfind
      have hsame : m' = m := by
        rcases List.prefix_or_prefix_of_prefix hfront hfront' with h | h
        · exact (hms m hm m' hm' h).symm
        · exact hms m' hm' m hm h
      rw [hsame]

/-- What is found is a message. -/
theorem exists_of_scanMessages {bs : List β} {n : Nat} (h : scanMessages ms bs = .complete n) :
    ∃ m ∈ ms, m <+: bs ∧ m.length = n := by
  unfold scanMessages at h
  cases hfind : ms.find? fun m => decide (m <+: bs) with
  | none =>
      simp only [hfind] at h
      split at h <;> contradiction
  | some m =>
      simp only [hfind, Scan.complete.injEq] at h
      exact ⟨m, List.mem_of_find?_eq_some hfind, by simpa using List.find?_some hfind, h⟩

/-- Without a message at the front, part of one is incomplete. -/
theorem scanMessages_of_not {bs : List β} (hnot : ∀ m ∈ ms, ¬ m <+: bs)
    (hpart : bs = [] ∨ ∃ m ∈ ms, bs <+: m) : scanMessages ms bs = .incomplete := by
  have hfind : ms.find? (fun m => decide (m <+: bs)) = none := by
    rw [List.find?_eq_none]
    intro m hm
    simpa using hnot m hm
  rw [scanMessages, hfind]
  exact if_pos hpart

/-- The format whose messages are `ms`. -/
def ofMessages (ms : List (List β)) (hne : [] ∉ ms) (hms : Unambiguous ms) : Framing β where
  scan := scanMessages ms
  scan_nil := by
    refine scanMessages_of_not (fun m hm hpart => ?_) (.inl rfl)
    rw [List.prefix_nil.mp hpart] at hm
    exact hne hm
  scan_append {m} h rest := by
    obtain ⟨m', hm', hfront, hlen⟩ := exists_of_scanMessages h
    have hsame : m' = m := hfront.eq_of_length hlen
    subst hsame
    exact scanMessages_of_mem hms hm' (List.prefix_append m' rest)
  scan_part {p rest} h hrest := by
    obtain ⟨m', hm', hfront, hlen⟩ := exists_of_scanMessages h
    have hsame : m' = p ++ rest := hfront.eq_of_length hlen
    subst hsame
    refine scanMessages_of_not (fun m hm hpart => hrest ?_) (.inr ⟨_, hm', p.prefix_append rest⟩)
    have hwhole : m = p ++ rest := hms m hm _ hm' (hpart.trans (p.prefix_append rest))
    have hle := hpart.length_le
    rw [hwhole, List.length_append] at hle
    exact List.length_eq_zero_iff.mp (by omega)

end Framing

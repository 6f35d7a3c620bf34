import LearnWords.Lib.Machine

/-!
# LearnWords.Lib.Channel

A channel that delivers at least once.  Nothing here mentions a particular
program.

Items are put at the end and delivered in order.  Delivered items are
acknowledged, later and in any portions; when the reader is interrupted it
begins again behind what was acknowledged.  No more than `window` items may be
delivered beyond that.

So everything that was passed has been delivered (`Accounts.complete`), and an
interruption repeats at most a window (`Accounts.bounded`).
-/

/-- A channel: the items ever put, how many of them are acknowledged, and the
place of the next one to deliver; the deliveries and interruptions so far. -/
structure Channel (α : Type*) (window : Nat) where
  items : List α
  acked : Nat
  cursor : Nat
  delivered : List α
  rewinds : Nat
  acked_le : acked ≤ cursor
  cursor_le : cursor ≤ items.length
  within : cursor ≤ acked + window

/-- What happens to a channel. -/
inductive ChannelEvent (α : Type*) where
  | put (a : α)
  | deliver
  | ack (n : Nat)
  | rewind

namespace Channel

open Machine

variable {α : Type*} {window : Nat}

/-- A channel of which the first `acked` items are gone. -/
def make (items : List α) (acked : Nat) (h : acked ≤ items.length) : Channel α window where
  items := items
  acked := acked
  cursor := acked
  delivered := []
  rewinds := 0
  acked_le := le_rfl
  cursor_le := h
  within := Nat.le_add_right _ _

/-- One event. -/
def step (c : Channel α window) : ChannelEvent α → Option (Channel α window)
  | .put a => some { c with
      items := c.items ++ [a]
      cursor_le := by
        rw [List.length_append]
        exact Nat.le_add_right_of_le c.cursor_le }
  | .deliver =>
      if h : c.cursor < c.items.length ∧ c.cursor < c.acked + window then
        some { c with
          cursor := c.cursor + 1
          delivered := c.delivered ++ [c.items.get ⟨c.cursor, h.1⟩]
          acked_le := Nat.le_add_right_of_le c.acked_le
          cursor_le := h.1
          within := h.2 }
      else none
  | .ack n =>
      if h : c.acked ≤ n ∧ n ≤ c.cursor then
        some { c with
          acked := n
          acked_le := h.2
          within := c.within.trans (Nat.add_le_add_right h.1 window) }
      else none
  | .rewind => some { c with
      cursor := c.acked
      rewinds := c.rewinds + 1
      acked_le := le_rfl
      cursor_le := c.acked_le.trans c.cursor_le
      within := Nat.le_add_right _ _ }

/-- The deliveries are accounted for; the first `origin` items were gone from
the beginning. -/
structure Accounts (origin : Nat) (c : Channel α window) : Prop where
  origin_le : origin ≤ c.acked
  /-- every item that was passed has been delivered -/
  complete : ∀ a ∈ (c.items.take c.cursor).drop origin, a ∈ c.delivered
  /-- and an interruption repeats no more than a window -/
  bounded : origin + c.delivered.length ≤ c.cursor + window * c.rewinds

theorem accounts_make (items : List α) (acked : Nat) (h : acked ≤ items.length) :
    Accounts acked (make items acked h : Channel α window) := by
  refine ⟨le_rfl, fun a ha => ?_, le_rfl⟩
  simp [make] at ha

/-- Every event keeps the account. -/
theorem accounts_step {origin : Nat} {c c' : Channel α window} {e : ChannelEvent α}
    (hc : Accounts origin c) (h : c.step e = some c') : Accounts origin c' := by
  obtain ⟨hle, hcomplete, hbounded⟩ := hc
  cases e with
  | put a =>
      obtain rfl := Option.some.inj h
      refine ⟨hle, ?_, hbounded⟩
      show ∀ x ∈ ((c.items ++ [a]).take c.cursor).drop origin, x ∈ c.delivered
      rw [List.take_append_of_le_length c.cursor_le]
      exact hcomplete
  | deliver =>
      simp only [step] at h
      split at h
      · next hcan =>
          obtain rfl := Option.some.inj h
          refine ⟨hle, fun a ha => ?_, ?_⟩
          · have hsplit : c.items.take (c.cursor + 1) =
                c.items.take c.cursor ++ [c.items.get ⟨c.cursor, hcan.1⟩] :=
              (List.take_append_getElem hcan.1).symm
            simp only [hsplit] at ha
            have hmem : a ∈ (c.items.take c.cursor).drop origin ∨
                a = c.items.get ⟨c.cursor, hcan.1⟩ := by
              grind [List.drop_append]
            rcases hmem with hmem | rfl
            · exact List.mem_append_left _ (hcomplete a hmem)
            · exact List.mem_append_right _ (List.mem_singleton_self _)
          · show origin + (c.delivered ++ [_]).length ≤ c.cursor + 1 + window * c.rewinds
            rw [List.length_append, List.length_singleton]
            omega
      · contradiction
  | ack n =>
      simp only [step] at h
      split at h
      · next hcan =>
          obtain rfl := Option.some.inj h
          exact ⟨hle.trans hcan.1, hcomplete, hbounded⟩
      · contradiction
  | rewind =>
      obtain rfl := Option.some.inj h
      have hwithin := c.within
      refine ⟨hle, fun a ha => hcomplete a ?_, ?_⟩
      · exact (((List.take_prefix_take_left c.acked_le).drop origin)).subset ha
      · show origin + c.delivered.length ≤ c.acked + window * (c.rewinds + 1)
        rw [Nat.mul_succ]
        omega

theorem accounts_of_runs {origin : Nat} {c c' : Channel α window} {es : List (ChannelEvent α)}
    (hc : Accounts origin c) (h : runs step c es = some c') : Accounts origin c' :=
  runs_invariant (fun _ _ _ hc hstep => accounts_step hc hstep) h hc

end Channel

import LearnWords.Lib.Coro

/-!
# LearnWords.Lib.Typestate

Protocols that coroutines follow, and pools of coroutines that each follow one.
Nothing here mentions a particular program.

A protocol has states; in a state it allows some calls, each of which leads to
a state, it may allow to return or to raise, and it relies on how calls are
answered.  A coroutine follows it from a state if it only does what is allowed
there, as long as its calls are answered as relied on.  In a pool every fiber
has a state of its own.  `Pool.step_protocol` is the invariant rule: an
invariant of the shared state and the states of all fibers is kept by every
event if it is kept by every allowed call.
-/

/-- Which calls may be made in a state, where they lead, and how they are
answered; and in which states a coroutine may end. -/
structure Protocol (Op : Type) (Res : Op → Type) (Q : Type) where
  allows : Q → Op → Q → Prop
  answers : (op : Op) → Res op → Prop
  returns : Q → Prop
  raises : Q → Prop

variable {Op : Type} {Res : Op → Type} {ε α σ Q : Type}

/-- The coroutine follows the protocol from the state `q`. -/
inductive Coro.Follows (P : Protocol Op Res Q) : Q → Coro Op Res ε α → Prop
  | ret {q : Q} (h : P.returns q) (a : α) : Follows P q (.ret a)
  | raise {q : Q} (h : P.raises q) (e : ε) : Follows P q (.raise e)
  | call {q q' : Q} {op : Op} {k : Res op → Coro Op Res ε α} (allowed : P.allows q op q')
      (goesOn : ∀ r, P.answers op r → Follows P q' (k r)) : Follows P q (.call op k)

/-- The fiber follows the protocol from the state `q`; a call in flight has not
led anywhere yet, and may fail. -/
inductive Fiber.Follows (P : Protocol Op Res Q) : Q → Fiber Op Res ε → Prop
  | ready {q : Q} {p : Coro Op Res ε Unit} (h : p.Follows P q) : Follows P q (.ready p)
  | waiting {q q' : Q} {op : Op} {k : Res op → Coro Op Res ε Unit} (allowed : P.allows q op q')
      (goesOn : ∀ r, P.answers op r → (k r).Follows P q') : Follows P q (.waiting op k)
  | aborted (q : Q) (e : ε) : Follows P q (.ready (.raise e))

namespace Pool

variable {P : Protocol Op Res Q} {handler : σ → (op : Op) → Option (Res op × σ)}

/-- The invariant rule: what every allowed call keeps, and keeps answering as
relied on, every event of a pool keeps. -/
theorem step_protocol {I : σ → List Q → Prop} {s t : Pool Op Res ε σ} {e : PoolEvent Op Res ε}
    {qs : List Q}
    (hcall : ∀ w w' qs i q q' op r, I w qs → qs[i]? = some q → P.allows q op q' →
      handler w op = some (r, w') → P.answers op r ∧ I w' (qs.set i q'))
    (hs : List.Forall₂ (fun f q => Fiber.Follows P q f) s.fibers qs) (hI : I s.world qs)
    (he : e.spawned = none) (h : step handler s e = some t) :
    ∃ qs', List.Forall₂ (fun f q => Fiber.Follows P q f) t.fibers qs' ∧ I t.world qs' := by
  cases e with
  | spawn p => simp [PoolEvent.spawned] at he
  | initiate i =>
      obtain ⟨op, k, hi, rfl⟩ := step_initiate h
      refine ⟨qs, forall₂_keep hs hi fun q hf => ?_, hI⟩
      cases hf with
      | ready hp => cases hp with
        | call allowed goesOn => exact .waiting allowed goesOn
  | complete i =>
      obtain ⟨op, k, ⟨r, w⟩, hi, hr, rfl⟩ := step_complete h
      obtain ⟨q, hq, hf, hreplace⟩ := forall₂_set hs hi
      cases hf with
      | @waiting q' _ _ allowed goesOn =>
          obtain ⟨hanswer, hkept⟩ := hcall _ _ _ _ _ _ _ _ hI hq allowed hr
          exact ⟨qs.set i q', hreplace _ _ (.ready (goesOn r hanswer)), hkept⟩
  | abort i e =>
      obtain ⟨op, k, hi, rfl⟩ := step_abort h
      exact ⟨qs, forall₂_keep hs hi fun q _ => .aborted q e, hI⟩
  | lose i e =>
      obtain ⟨op, k, ⟨r, w⟩, hi, hr, rfl⟩ := step_lose h
      obtain ⟨q, hq, hf, hreplace⟩ := forall₂_set hs hi
      cases hf with
      | @waiting q' _ _ allowed goesOn =>
          obtain ⟨-, hkept⟩ := hcall _ _ _ _ _ _ _ _ hI hq allowed hr
          exact ⟨qs.set i q', hreplace _ _ (.aborted q' e), hkept⟩

end Pool

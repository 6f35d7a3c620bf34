import LearnWords.Lib.Machine
import Mathlib.Data.List.Forall2

/-!
# LearnWords.Lib.Coro

Coroutines that suspend at *calls*, and pools of such coroutines that run
concurrently over one shared state.  Nothing here mentions a particular
program: the calls `Op`, their result types `Res` and the exceptions `ε` are
parameters.

A coroutine is executed in two ways:

* `Coro.exec` runs one coroutine to its end, call after call;
* `Pool.step` interleaves any number of them.  A call is split into its
  *initiation* and its *completion*, so several calls may be in flight; a
  call that is atomic is the two events one after the other
  (`AtomicEvent.expand`).

The last section says where the fibers of a pool come from.
-/

/-- A computation that returns, raises, or waits for the result of a call. -/
inductive Coro (Op : Type) (Res : Op → Type) (ε α : Type) where
  | ret (a : α)
  | raise (e : ε)
  | call (op : Op) (k : Res op → Coro Op Res ε α)

namespace Coro

variable {Op : Type} {Res : Op → Type} {ε α β σ : Type}

/-- Sequencing: run `p`, then `f` on what it returned. -/
def bind (p : Coro Op Res ε α) (f : α → Coro Op Res ε β) : Coro Op Res ε β :=
  match p with
  | ret a => f a
  | raise e => raise e
  | call op k => call op fun r => (k r).bind f

instance : Monad (Coro Op Res ε) where
  pure := ret
  bind := bind

/-- A single call, returning its result. -/
def perform (op : Op) : Coro Op Res ε (Res op) := call op ret

/-- A value that may be missing: its absence raises. -/
def ofExcept : Except ε α → Coro Op Res ε α
  | .ok a => ret a
  | .error e => raise e

@[simp] theorem pure_eq (a : α) : (pure a : Coro Op Res ε α) = ret a := rfl

@[simp] theorem ret_bind (a : α) (f : α → Coro Op Res ε β) : (ret a >>= f) = f a := rfl

@[simp] theorem raise_bind (e : ε) (f : α → Coro Op Res ε β) :
    ((raise e : Coro Op Res ε α) >>= f) = raise e := rfl

@[simp] theorem call_bind (op : Op) (k : Res op → Coro Op Res ε α) (f : α → Coro Op Res ε β) :
    (call op k >>= f) = call op fun r => k r >>= f := rfl

@[simp] theorem perform_bind (op : Op) (f : Res op → Coro Op Res ε β) :
    (perform op >>= f) = call op f := rfl

@[simp] theorem ofExcept_ok (a : α) : (ofExcept (.ok a) : Coro Op Res ε α) = ret a := rfl

@[simp] theorem ofExcept_error (e : ε) : (ofExcept (.error e) : Coro Op Res ε α) = raise e := rfl

/-- Run a coroutine to its end, every call answered by `handler`; `none` if
one of its calls fails. -/
def exec (handler : σ → (op : Op) → Option (Res op × σ)) :
    Coro Op Res ε α → σ → Option (Except ε α × σ)
  | ret a, s => some (.ok a, s)
  | raise e, s => some (.error e, s)
  | call op k, s => (handler s op).bind fun r => (k r.1).exec handler r.2

/-- Run coroutines to their ends, one after the other. -/
def execAll (handler : σ → (op : Op) → Option (Res op × σ)) :
    List (Coro Op Res ε α) → σ → Option σ
  | [], s => some s
  | p :: ps, s => (p.exec handler s).bind fun r => execAll handler ps r.2

/-- A coroutine that has nothing left to do. -/
def finished : Coro Op Res ε α → Bool
  | call _ _ => false
  | _ => true

end Coro

/-! ## pools of coroutines -/

/-- A coroutine in a pool: able to run, or waiting for a call in flight. -/
inductive Fiber (Op : Type) (Res : Op → Type) (ε : Type) where
  | ready (p : Coro Op Res ε Unit)
  | waiting (op : Op) (k : Res op → Coro Op Res ε Unit)

/-- Has the fiber's coroutine ended? -/
def Fiber.finished {Op : Type} {Res : Op → Type} {ε : Type} : Fiber Op Res ε → Bool
  | ready p => p.finished
  | waiting _ _ => false

/-- Fibers over one shared state, in the order in which they were spawned. -/
structure Pool (Op : Type) (Res : Op → Type) (ε σ : Type) where
  world : σ
  fibers : List (Fiber Op Res ε)

/-- What can happen to a pool. -/
inductive PoolEvent (Op : Type) (Res : Op → Type) (ε : Type) where
  /-- a new fiber starts -/
  | spawn (p : Coro Op Res ε Unit)
  /-- fiber `i` initiates its next call -/
  | initiate (i : Nat)
  /-- the call of fiber `i` completes, and the fiber is resumed with its result -/
  | complete (i : Nat)
  /-- the call of fiber `i` fails, and the fiber is resumed by an exception -/
  | abort (i : Nat) (e : ε)
  /-- the call of fiber `i` takes effect, but its answer is lost, and the fiber is
  resumed by an exception -/
  | lose (i : Nat) (e : ε)

namespace Pool

open Machine

variable {Op : Type} {Res : Op → Type} {ε σ : Type}
variable {handler : σ → (op : Op) → Option (Res op × σ)}

/-- The pool after one event. -/
def step (handler : σ → (op : Op) → Option (Res op × σ)) (s : Pool Op Res ε σ) :
    PoolEvent Op Res ε → Option (Pool Op Res ε σ)
  | .spawn p => some { s with fibers := s.fibers ++ [.ready p] }
  | .initiate i =>
      match s.fibers[i]? with
      | some (.ready (.call op k)) => some { s with fibers := s.fibers.set i (.waiting op k) }
      | _ => none
  | .complete i =>
      match s.fibers[i]? with
      | some (.waiting op k) =>
          (handler s.world op).map fun r =>
            { world := r.2, fibers := s.fibers.set i (.ready (k r.1)) }
      | _ => none
  | .abort i e =>
      match s.fibers[i]? with
      | some (.waiting _ _) => some { s with fibers := s.fibers.set i (.ready (.raise e)) }
      | _ => none
  | .lose i e =>
      match s.fibers[i]? with
      | some (.waiting op _) =>
          (handler s.world op).map fun r =>
            { world := r.2, fibers := s.fibers.set i (.ready (.raise e)) }
      | _ => none

/-- What initiating a call can do. -/
theorem step_initiate {s t : Pool Op Res ε σ} {i : Nat}
    (h : step handler s (.initiate i) = some t) :
    ∃ op k, s.fibers[i]? = some (.ready (.call op k)) ∧
      t = { s with fibers := s.fibers.set i (.waiting op k) } := by
  simp only [step] at h
  split at h
  · next op k hi => exact ⟨op, k, hi, (Option.some.inj h).symm⟩
  · contradiction

/-- What the completion of a call can do. -/
theorem step_complete {s t : Pool Op Res ε σ} {i : Nat}
    (h : step handler s (.complete i) = some t) :
    ∃ op k r, s.fibers[i]? = some (.waiting op k) ∧ handler s.world op = some r ∧
      t = { world := r.2, fibers := s.fibers.set i (.ready (k r.1)) } := by
  simp only [step] at h
  split at h
  · next op k hi =>
      obtain ⟨r, hr, ht⟩ := Option.map_eq_some_iff.mp h
      exact ⟨op, k, r, hi, hr, ht.symm⟩
  · contradiction

/-- What a failing call can do. -/
theorem step_abort {s t : Pool Op Res ε σ} {i : Nat} {e : ε}
    (h : step handler s (.abort i e) = some t) :
    ∃ op k, s.fibers[i]? = some (.waiting op k) ∧
      t = { s with fibers := s.fibers.set i (.ready (.raise e)) } := by
  simp only [step] at h
  split at h
  · next op k hi => exact ⟨op, k, hi, (Option.some.inj h).symm⟩
  · contradiction

/-- What a call whose answer is lost can do. -/
theorem step_lose {s t : Pool Op Res ε σ} {i : Nat} {e : ε} (h : step handler s (.lose i e) = some t) :
    ∃ op k r, s.fibers[i]? = some (.waiting op k) ∧ handler s.world op = some r ∧
      t = { world := r.2, fibers := s.fibers.set i (.ready (.raise e)) } := by
  simp only [step] at h
  split at h
  · next op k hi =>
      obtain ⟨r, hr, ht⟩ := Option.map_eq_some_iff.mp h
      exact ⟨op, k, r, hi, hr, ht.symm⟩
  · contradiction

end Pool

/-! ## atomic calls -/

/-- The events of a pool whose calls are atomic. -/
inductive AtomicEvent (Op : Type) (Res : Op → Type) (ε : Type) where
  | spawn (p : Coro Op Res ε Unit)
  | advance (i : Nat)

namespace AtomicEvent

variable {Op : Type} {Res : Op → Type} {ε : Type}

/-- An atomic call completes as soon as it is initiated. -/
def expand : AtomicEvent Op Res ε → List (PoolEvent Op Res ε)
  | spawn p => [.spawn p]
  | advance i => [.initiate i, .complete i]

/-- The coroutine that an event starts, if it starts one. -/
def spawned : AtomicEvent Op Res ε → Option (Coro Op Res ε Unit)
  | spawn p => some p
  | advance _ => none

end AtomicEvent

namespace Pool

open Machine

variable {Op : Type} {Res : Op → Type} {ε σ : Type}
variable {handler : σ → (op : Op) → Option (Res op × σ)}

/-- One atomic event of a pool: its events, one right after the other. -/
def atomicStep (handler : σ → (op : Op) → Option (Res op × σ)) (s : Pool Op Res ε σ)
    (e : AtomicEvent Op Res ε) : Option (Pool Op Res ε σ) :=
  runs (step handler) s e.expand

/-- What an atomic call can do. -/
theorem atomicStep_advance {s t : Pool Op Res ε σ} {i : Nat}
    (h : atomicStep handler s (.advance i) = some t) :
    ∃ op k r, s.fibers[i]? = some (.ready (.call op k)) ∧ handler s.world op = some r ∧
      t = { world := r.2, fibers := s.fibers.set i (.ready (k r.1)) } := by
  simp only [atomicStep, AtomicEvent.expand, runs_cons, runs_nil] at h
  obtain ⟨u, hu, hrest⟩ := Option.bind_eq_some_iff.mp h
  obtain ⟨v, hv, hlast⟩ := Option.bind_eq_some_iff.mp hrest
  cases hlast
  obtain ⟨op, k, hi, rfl⟩ := step_initiate hu
  obtain ⟨op', k', r, hi', hr, rfl⟩ := step_complete hv
  have hlt : i < s.fibers.length := (List.getElem?_eq_some_iff.mp hi).1
  simp only [List.getElem?_set_self hlt, Option.some.injEq, Fiber.waiting.injEq] at hi'
  obtain ⟨rfl, hk⟩ := hi'
  cases hk
  exact ⟨op, k, r, hi, hr, by simp⟩

end Pool

/-! ## where fibers come from -/

/-- The coroutine that an event starts, if it starts one. -/
def PoolEvent.spawned {Op : Type} {Res : Op → Type} {ε : Type} :
    PoolEvent Op Res ε → Option (Coro Op Res ε Unit)
  | spawn p => some p
  | _ => none

/-- What the coroutine `p` can have become in a pool. -/
inductive Fiber.From {Op : Type} {Res : Op → Type} {ε : Type} (p : Coro Op Res ε Unit) :
    Fiber Op Res ε → Prop
  | start : From p (.ready p)
  | initiated {op : Op} {k : Res op → Coro Op Res ε Unit} (h : From p (.ready (.call op k))) :
      From p (.waiting op k)
  | completed {op : Op} {k : Res op → Coro Op Res ε Unit} (r : Res op)
      (h : From p (.waiting op k)) : From p (.ready (k r))
  | aborted {op : Op} {k : Res op → Coro Op Res ε Unit} (e : ε) (h : From p (.waiting op k)) :
      From p (.ready (.raise e))

namespace Pool

variable {Op : Type} {Res : Op → Type} {ε σ : Type}
variable {handler : σ → (op : Op) → Option (Res op × σ)}

section Entries

variable {α γ : Type} {R : α → γ → Prop} {l : List α} {m : List γ}

/-- An entry is replaced by itself. -/
theorem set_eq_of_getElem? {i : Nat} {a : α} (h : l[i]? = some a) : l.set i a = l := by
  obtain ⟨hlt, rfl⟩ := List.getElem?_eq_some_iff.mp h
  exact List.set_getElem_self hlt

/-- Replacing related entries at one place keeps two lists related. -/
theorem forall₂_set (h : List.Forall₂ R l m) {i : Nat} {a : α} (hi : l[i]? = some a) :
    ∃ b, m[i]? = some b ∧ R a b ∧ ∀ a' b', R a' b' → List.Forall₂ R (l.set i a') (m.set i b') := by
  induction h generalizing i with
  | nil => simp at hi
  | cons hab hrest ih =>
      cases i with
      | zero =>
          simp only [List.getElem?_cons_zero, Option.some.injEq] at hi
          subst hi
          exact ⟨_, rfl, hab, fun a' b' hab' => .cons hab' hrest⟩
      | succ i =>
          obtain ⟨b, hb, hR, hset⟩ := ih (by simpa using hi)
          exact ⟨b, by simpa using hb, hR, fun a' b' hab' => .cons hab (hset a' b' hab')⟩

/-- So does replacing an entry by one that is related to whatever it was. -/
theorem forall₂_keep (h : List.Forall₂ R l m) {i : Nat} {a a' : α} (hi : l[i]? = some a)
    (hkeep : ∀ b, R a b → R a' b) : List.Forall₂ R (l.set i a') m := by
  obtain ⟨b, hb, hab, hreplace⟩ := forall₂_set h hi
  have hnew := hreplace a' b (hkeep b hab)
  rwa [set_eq_of_getElem? hb] at hnew

end Entries

/-- Every fiber goes on being the one that was spawned in its place. -/
theorem step_from {s t : Pool Op Res ε σ} {e : PoolEvent Op Res ε}
    {ps : List (Coro Op Res ε Unit)} (hs : List.Forall₂ (fun f p => Fiber.From p f) s.fibers ps)
    (h : step handler s e = some t) :
    List.Forall₂ (fun f p => Fiber.From p f) t.fibers (ps ++ e.spawned.toList) := by
  have hset : ∀ {i : Nat} {f g : Fiber Op Res ε}, s.fibers[i]? = some f →
      (∀ p, Fiber.From p f → Fiber.From p g) →
      List.Forall₂ (fun f p => Fiber.From p f) (s.fibers.set i g) (ps ++ []) := by
    intro i f g hi hfg
    rw [List.append_nil]
    exact forall₂_keep hs hi hfg
  cases e with
  | spawn p =>
      simp only [step, Option.some.injEq] at h
      subst h
      exact List.rel_append hs (.cons .start .nil)
  | initiate i =>
      obtain ⟨op, k, hi, rfl⟩ := step_initiate h
      exact hset hi fun p hp => hp.initiated
  | complete i =>
      obtain ⟨op, k, r, hi, -, rfl⟩ := step_complete h
      exact hset hi fun p hp => hp.completed r.1
  | abort i e =>
      obtain ⟨op, k, hi, rfl⟩ := step_abort h
      exact hset hi fun p hp => hp.aborted e
  | lose i e =>
      obtain ⟨op, k, r, hi, -, rfl⟩ := step_lose h
      exact hset hi fun p hp => hp.aborted e

end Pool

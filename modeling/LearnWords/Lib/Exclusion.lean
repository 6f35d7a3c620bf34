import LearnWords.Lib.Coro

/-!
# LearnWords.Lib.Exclusion

Calls that must not overlap: at most one call with the property `p` may be in
flight in a pool.  Nothing here mentions a particular program.

A coroutine that makes its calls with `p` before all others (`Coro.First`) is
*busy* until the last of them has completed.  If a new coroutine that begins
with such a call is spawned only while no fiber is busy, then at most one
fiber is busy at any time (`step_atMostOne`); and spawned while one is busy,
it can overlap with it (`exists_overlap`).
-/

namespace Coro

variable {Op : Type} {Res : Op → Type} {ε α : Type}

/-- No call of the coroutine has `p`. -/
inductive Without (p : Op → Bool) : Coro Op Res ε α → Prop
  | ret (a : α) : Without p (.ret a)
  | raise (e : ε) : Without p (.raise e)
  | call {op : Op} {k : Res op → Coro Op Res ε α} (hop : p op = false)
      (h : ∀ r, Without p (k r)) : Without p (.call op k)

/-- Calls with `p` come before all others. -/
inductive First (p : Op → Bool) : Coro Op Res ε α → Prop
  | without {q : Coro Op Res ε α} (h : Without p q) : First p q
  | call {op : Op} {k : Res op → Coro Op Res ε α} (hop : p op = true)
      (h : ∀ r, First p (k r)) : First p (.call op k)

end Coro

namespace Fiber

variable {Op : Type} {Res : Op → Type} {ε : Type}

/-- The coroutine a fiber still has to run, the call in flight included. -/
def rest : Fiber Op Res ε → Coro Op Res ε Unit
  | ready q => q
  | waiting op k => .call op k

/-- Is a call with `p` the next one of the fiber, or in flight? -/
def busy (p : Op → Bool) (f : Fiber Op Res ε) : Bool :=
  match f.rest with
  | .call op _ => p op
  | _ => false

/-- Is a call with `p` in flight? -/
def inFlight (p : Op → Bool) : Fiber Op Res ε → Bool
  | ready _ => false
  | waiting op _ => p op

@[simp] theorem rest_ready (q : Coro Op Res ε Unit) : (ready q).rest = q := rfl

@[simp] theorem rest_waiting (op : Op) (k : Res op → Coro Op Res ε Unit) :
    (waiting op k).rest = .call op k := rfl

theorem busy_of_inFlight {p : Op → Bool} {f : Fiber Op Res ε} (h : f.inFlight p = true) :
    f.busy p = true := by
  cases f with
  | ready q => contradiction
  | waiting op k => exact h

/-- A fiber without calls with `p` left is not busy. -/
theorem busy_of_without {p : Op → Bool} {f : Fiber Op Res ε} (h : Coro.Without p f.rest) :
    f.busy p = false := by
  unfold busy
  cases hrest : f.rest with
  | ret | raise => rfl
  | call op k =>
      rw [hrest] at h
      cases h with
      | call hop _ => exact hop

/-- After a call the fiber is busy only if it was, and makes its calls with
`p` first if it did. -/
theorem first_of_call {p : Op → Bool} {op : Op} {k : Res op → Coro Op Res ε Unit}
    (h : Coro.First p (.call op k)) (r : Res op) :
    Coro.First p (k r) ∧ ((ready (k r)).busy p = true → p op = true) := by
  cases h with
  | without h =>
      cases h with
      | call hop hk =>
          refine ⟨.without (hk r), fun hbusy => ?_⟩
          have hidle := busy_of_without (f := ready (k r)) (hk r)
          rw [hidle] at hbusy
          contradiction
  | call hop hk => exact ⟨hk r, fun _ => hop⟩

end Fiber

namespace Pool

open Machine Fiber

variable {Op : Type} {Res : Op → Type} {ε σ : Type}
variable {handler : σ → (op : Op) → Option (Res op × σ)} {p : Op → Bool}

/-- At most one fiber is busy, and all make their calls with `p` first. -/
structure AtMostOne (p : Op → Bool) (s : Pool Op Res ε σ) : Prop where
  first : ∀ f ∈ s.fibers, Coro.First p f.rest
  one : s.fibers.countP (busy p) ≤ 1

/-- Then at most one call with `p` is in flight. -/
theorem AtMostOne.inFlight_le {s : Pool Op Res ε σ} (h : AtMostOne p s) :
    s.fibers.countP (inFlight p) ≤ 1 :=
  (List.countP_mono_left fun _ _ hf => busy_of_inFlight hf).trans h.one

/-- A fiber goes on without becoming busy. -/
theorem AtMostOne.set {s : Pool Op Res ε σ} {world : σ} {i : Nat} {f g : Fiber Op Res ε}
    (hs : AtMostOne p s) (hi : s.fibers[i]? = some f) (hfirst : Coro.First p g.rest)
    (hbusy : g.busy p = true → f.busy p = true) :
    AtMostOne p ⟨world, s.fibers.set i g⟩ := by
  obtain ⟨hlt, rfl⟩ := List.getElem?_eq_some_iff.mp hi
  refine ⟨fun x hx => ?_, ?_⟩
  · rcases List.mem_or_eq_of_mem_set hx with hx | rfl
    · exact hs.first x hx
    · exact hfirst
  · have hone := hs.one
    rw [List.countP_set hlt]
    by_cases hg : g.busy p = true
    · have hf := hbusy hg
      have hpos : 0 < s.fibers.countP (busy p) :=
        List.countP_pos_iff.mpr ⟨_, List.getElem_mem hlt, hf⟩
      rw [if_pos hf, if_pos hg]
      omega
    · rw [if_neg hg]
      omega

/-- Every event keeps at most one fiber busy, if new ones that begin with a
call with `p` are spawned only while none is. -/
theorem step_atMostOne {s t : Pool Op Res ε σ} {e : PoolEvent Op Res ε} (hs : AtMostOne p s)
    (hspawn : ∀ q, e.spawned = some q → Coro.First p q ∧
      ((ready q).busy p = true → ∀ f ∈ s.fibers, f.busy p = false))
    (h : step handler s e = some t) : AtMostOne p t := by
  cases e with
  | spawn q =>
      simp only [step, Option.some.injEq] at h
      subst h
      obtain ⟨hfirst, hidle⟩ := hspawn q rfl
      refine ⟨fun f hf => ?_, ?_⟩
      · rcases List.mem_append.mp hf with hf | hf
        · exact hs.first f hf
        · rw [List.mem_singleton.mp hf]
          exact hfirst
      · rw [List.countP_append, List.countP_singleton]
        by_cases hq : (ready q).busy p = true
        · have hzero : s.fibers.countP (busy p) = 0 := by
            rw [List.countP_eq_zero]
            intro f hf
            rw [hidle hq f hf]
            simp
          rw [hzero, if_pos hq]
        · rw [if_neg hq]
          exact hs.one
  | initiate i =>
      obtain ⟨op, k, hi, rfl⟩ := step_initiate h
      have hfirst : Coro.First p (.call op k) := hs.first _ (List.mem_of_getElem? hi)
      exact hs.set hi hfirst fun hbusy => hbusy
  | complete i =>
      obtain ⟨op, k, r, hi, -, rfl⟩ := step_complete h
      obtain ⟨hfirst, hbusy⟩ := first_of_call (hs.first _ (List.mem_of_getElem? hi)) r.1
      exact hs.set hi hfirst hbusy
  | abort i e =>
      obtain ⟨op, k, hi, rfl⟩ := step_abort h
      exact hs.set hi (.without (.raise e)) fun hbusy => by simp [busy] at hbusy
  | lose i e =>
      obtain ⟨op, k, r, hi, -, rfl⟩ := step_lose h
      exact hs.set hi (.without (.raise e)) fun hbusy => by simp [busy] at hbusy

/-- A fiber before a call can initiate it. -/
theorem step_initiate_of {s : Pool Op Res ε σ} {i : Nat} {op : Op} {k : Res op → Coro Op Res ε Unit}
    (hi : s.fibers[i]? = some (.ready (.call op k))) :
    step handler s (.initiate i) = some ⟨s.world, s.fibers.set i (.waiting op k)⟩ := by
  simp only [step, hi]

/-- A busy fiber has its call in flight, or can initiate it. -/
theorem exists_inFlight {s : Pool Op Res ε σ} {i : Nat} {f : Fiber Op Res ε}
    (hi : s.fibers[i]? = some f) (hbusy : f.busy p = true) :
    ∃ (is : List Nat) (g : Fiber Op Res ε), g.inFlight p = true ∧
      runs (step handler) s (is.map .initiate) = some ⟨s.world, s.fibers.set i g⟩ := by
  cases f with
  | waiting op k =>
      refine ⟨[], .waiting op k, hbusy, ?_⟩
      rw [set_eq_of_getElem? hi]
      rfl
  | ready q =>
      cases q with
      | ret | raise => contradiction
      | call op k => exact ⟨[i], .waiting op k, hbusy, by simp [step_initiate_of hi]⟩

/-- A coroutine that begins with a call with `p`, spawned while a fiber is
busy, overlaps with it once both have initiated their calls. -/
theorem exists_overlap {s : Pool Op Res ε σ} {fs : List (Fiber Op Res ε)}
    {q : Coro Op Res ε Unit} {f : Fiber Op Res ε} (hs : s.fibers = fs ++ [.ready q])
    (hq : (ready q).busy p = true) (hf : f ∈ fs) (hbusy : f.busy p = true) :
    ∃ (is : List Nat) (t : Pool Op Res ε σ), runs (step handler) s (is.map .initiate) = some t ∧
      2 ≤ t.fibers.countP (inFlight p) := by
  obtain ⟨i, hi, rfl⟩ := List.getElem_of_mem hf
  -- first the busy fiber, then the new one
  have hfi : s.fibers[i]? = some fs[i] := by
    rw [hs, List.getElem?_append_left hi, List.getElem?_eq_getElem hi]
  obtain ⟨is, g, hg, hrun⟩ := exists_inFlight hfi hbusy
  have hset : s.fibers.set i g = fs.set i g ++ [.ready q] := by
    rw [hs, List.set_append_left i g hi]
  rw [hset] at hrun
  have hlast : (fs.set i g ++ [Fiber.ready q])[fs.length]? = some (.ready q) := by simp
  obtain ⟨js, g', hg', hrun'⟩ :=
    exists_inFlight (s := ⟨s.world, fs.set i g ++ [.ready q]⟩) hlast hq
  have hset' : (fs.set i g ++ [Fiber.ready q]).set fs.length g' = fs.set i g ++ [g'] := by
    simp [List.set_append_right]
  rw [hset'] at hrun'
  refine ⟨is ++ js, ⟨s.world, fs.set i g ++ [g']⟩, ?_, ?_⟩
  · rw [List.map_append, runs_append, hrun]
    exact hrun'
  · have hlt : i < (fs.set i g).length := by simpa using hi
    have hpos : 0 < (fs.set i g).countP (inFlight p) :=
      List.countP_pos_iff.mpr ⟨_, List.getElem_mem hlt, by simpa using hg⟩
    rw [List.countP_append, List.countP_singleton, if_pos hg']
    omega

end Pool

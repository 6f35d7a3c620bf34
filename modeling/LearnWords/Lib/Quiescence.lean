import LearnWords.Lib.Exclusion

/-!
# LearnWords.Lib.Quiescence

Fibers that are run to their ends.  Nothing here mentions a particular program.

A coroutine is a tree of calls, so the events of its own fiber bring it to its
end: by its own result if the handler answers all of its calls, by an exception
if it refuses one (`runsToEnd`).  No other calls fail in a `Calm` run.
-/

namespace Pool

open Machine

variable {Op : Type} {Res : Op → Type} {ε σ : Type}

/-- Nothing is spawned, and a call fails only if the handler refuses it. -/
def Calm (handler : σ → (op : Op) → Option (Res op × σ)) (s : Pool Op Res ε σ) :
    PoolEvent Op Res ε → Prop
  | .spawn _ | .lose _ _ => False
  | .initiate _ | .complete _ => True
  | .abort i _ => ∃ op k, s.fibers[i]? = some (.waiting op k) ∧ handler s.world op = none

/-- What is left of a coroutine that has ended. -/
def ended : Except ε Unit → Coro Op Res ε Unit
  | .ok _ => .ret ()
  | .error e => .raise e

/-- Calm events run the rest `p` of fiber `i` to its end, which is that of `p`
alone if it has one. -/
def RunsToEnd (handler : σ → (op : Op) → Option (Res op × σ)) (s : Pool Op Res ε σ) (i : Nat)
    (p : Coro Op Res ε Unit) : Prop :=
  ∃ es world q, Run (step handler) (Calm handler) s es ⟨world, s.fibers.set i (.ready q)⟩ ∧
    q.finished = true ∧
    ∀ r world', p.exec handler s.world = some (r, world') → q = ended r ∧ world = world'

variable {handler : σ → (op : Op) → Option (Res op × σ)} {s : Pool Op Res ε σ} {i : Nat}

/-- An event of the fiber comes first. -/
theorem RunsToEnd.after {t : Pool Op Res ε σ} {e : PoolEvent Op Res ε} {f : Fiber Op Res ε}
    {p p' : Coro Op Res ε Unit} (h : RunsToEnd handler t i p') (he : Calm handler s e)
    (hstep : step handler s e = some t) (hfibers : t.fibers = s.fibers.set i f)
    (hexec : p.exec handler s.world = p'.exec handler t.world) : RunsToEnd handler s i p := by
  obtain ⟨es, world, q, hrun, hq, hend⟩ := h
  rw [hfibers, List.set_set] at hrun
  refine ⟨[e] ++ es, world, q, (Run.next .start he hstep).trans hrun, hq, fun r world' hr => ?_⟩
  exact hend r world' (hexec ▸ hr)

/-- The call in flight completes, or is refused and fails. -/
theorem runsToEnd_waiting (ec : ε) {op : Op} {k : Res op → Coro Op Res ε Unit}
    (hi : s.fibers[i]? = some (.waiting op k))
    (hk : ∀ r (t : Pool Op Res ε σ), t.fibers[i]? = some (.ready (k r)) → RunsToEnd handler t i (k r)) :
    RunsToEnd handler s i (.call op k) := by
  cases hr : handler s.world op with
  | none =>
      have hstep : step handler s (.abort i ec) =
          some ⟨s.world, s.fibers.set i (.ready (.raise ec))⟩ := by simp only [step, hi]
      refine ⟨[.abort i ec], s.world, .raise ec, .next .start ⟨op, k, hi, hr⟩ hstep, rfl,
        fun r world' hexec => ?_⟩
      rw [Coro.exec, hr] at hexec
      contradiction
  | some r =>
      have hstep : step handler s (.complete i) =
          some ⟨r.2, s.fibers.set i (.ready (k r.1))⟩ := by simp only [step, hi, hr, Option.map_some]
      have hlt := (List.getElem?_eq_some_iff.mp hi).1
      refine (hk r.1 _ (List.getElem?_set_self hlt)).after (e := .complete i) trivial hstep rfl ?_
      rw [Coro.exec, hr, Option.bind_some]

/-- It has ended. -/
theorem runsToEnd_finished {q : Coro Op Res ε Unit} (hi : s.fibers[i]? = some (.ready q))
    (hq : q.finished = true) : RunsToEnd handler s i q := by
  have hstart : Run (step handler) (Calm handler) s [] ⟨s.world, s.fibers.set i (.ready q)⟩ := by
    rw [set_eq_of_getElem? hi]
    exact .start
  refine ⟨[], s.world, q, hstart, hq, fun r world' h => ?_⟩
  cases q with
  | ret a | raise e =>
      cases h
      exact ⟨rfl, rfl⟩
  | call op k => contradiction

/-- It is able to run: one call after the other. -/
theorem runsToEnd_ready (ec : ε) {p : Coro Op Res ε Unit} (hi : s.fibers[i]? = some (.ready p)) :
    RunsToEnd handler s i p := by
  induction p generalizing s with
  | ret a => exact runsToEnd_finished hi rfl
  | raise e => exact runsToEnd_finished hi rfl
  | call op k ih =>
      have hlt := (List.getElem?_eq_some_iff.mp hi).1
      have hwaiting : RunsToEnd handler { s with fibers := s.fibers.set i (.waiting op k) } i
          (.call op k) :=
        runsToEnd_waiting ec (List.getElem?_set_self hlt) fun r t ht => ih r ht
      exact hwaiting.after (e := .initiate i) trivial (step_initiate_of hi) rfl rfl

/-- Every fiber can be run to its end. -/
theorem runsToEnd (ec : ε) {f : Fiber Op Res ε} (hi : s.fibers[i]? = some f) :
    RunsToEnd handler s i f.rest := by
  cases f with
  | ready p => exact runsToEnd_ready ec hi
  | waiting op k => exact runsToEnd_waiting ec hi fun r t ht => runsToEnd_ready ec ht

end Pool

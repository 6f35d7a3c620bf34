import Mathlib.Data.List.Infix

/-!
# LearnWords.Lib.Machine

Partial step machines and their finite runs.  A machine is a function
`step : σ → ε → Option σ`: the event `e` is possible in `s` exactly when
`step s e` is a state.  Nothing here mentions a particular program.

Two views of a run are kept side by side:

* `runs step s es` *executes* a list of events, so a concrete run can be
  evaluated;
* `Run step guard s es t` is the inductive view, built at its *end*, which
  also says that every event was taken in a state in which `guard` allowed
  it -- the form in which invariants are proved.
-/

namespace Machine

variable {σ ε : Type*} {step : σ → ε → Option σ} {guard : σ → ε → Prop}

/-- Execute a list of events; `none` if one of them is not possible. -/
def runs (step : σ → ε → Option σ) : σ → List ε → Option σ
  | s, [] => some s
  | s, e :: es => (step s e).bind fun t => runs step t es

@[simp] theorem runs_nil (s : σ) : runs step s [] = some s := rfl

@[simp] theorem runs_cons (s : σ) (e : ε) (es : List ε) :
    runs step s (e :: es) = (step s e).bind fun t => runs step t es := rfl

/-- A run splits after any of its events. -/
theorem runs_append (s : σ) (es fs : List ε) :
    runs step s (es ++ fs) = (runs step s es).bind fun t => runs step t fs := by
  induction es generalizing s with
  | nil => simp
  | cons e es ih =>
      simp only [List.cons_append, runs_cons, Option.bind_assoc]
      congr 1
      funext t
      exact ih t

/-- The last event of a run, exposed. -/
theorem runs_concat (s : σ) (es : List ε) (e : ε) :
    runs step s (es ++ [e]) = (runs step s es).bind fun t => step t e := by
  simp [runs_append]

/-- `Run step guard s es t`: the events `es` lead from `s` to `t`, and each of
them was taken in a state in which `guard` allowed it. -/
inductive Run (step : σ → ε → Option σ) (guard : σ → ε → Prop) (s : σ) : List ε → σ → Prop
  | start : Run step guard s [] s
  | next {es : List ε} {t u : σ} {e : ε} (before : Run step guard s es t)
      (allowed : guard t e) (taken : step t e = some u) : Run step guard s (es ++ [e]) u

namespace Run

/-- A guarded run is a run. -/
theorem runs {s t : σ} {es : List ε} (h : Run step guard s es t) :
    Machine.runs step s es = some t := by
  induction h with
  | start => rfl
  | next _ _ taken ih => rw [runs_concat, ih, Option.bind_some, taken]

/-- The last event of a guarded run, exposed. -/
theorem of_concat {s t : σ} {es : List ε} {e : ε} (h : Run step guard s (es ++ [e]) t) :
    ∃ u, Run step guard s es u ∧ guard u e ∧ step u e = some t := by
  generalize hfs : es ++ [e] = fs at h
  cases h with
  | start => simp at hfs
  | next before allowed taken =>
      obtain ⟨rfl, hlast⟩ := List.append_inj' hfs rfl
      cases hlast
      exact ⟨_, before, allowed, taken⟩

/-- A guarded run passes through a state after each of its prefixes. -/
theorem exists_of_isPrefix {s t : σ} {es fs : List ε} (hp : es <+: fs)
    (h : Run step guard s fs t) : ∃ u, Run step guard s es u := by
  obtain ⟨gs, rfl⟩ := hp
  induction gs using List.reverseRecOn generalizing t with
  | nil => exact ⟨t, by simpa using h⟩
  | append_singleton gs e ih =>
      rw [← List.append_assoc] at h
      obtain ⟨u, hu, _⟩ := h.of_concat
      exact ih hu

/-- One guarded run after the other. -/
theorem trans {s t u : σ} {es fs : List ε} (h : Run step guard s es t)
    (h' : Run step guard t fs u) : Run step guard s (es ++ fs) u := by
  induction h' with
  | start => rwa [List.append_nil]
  | next _ allowed taken ih =>
      rw [← List.append_assoc]
      exact .next ih allowed taken

/-- A guard may be weakened. -/
theorem imp {guard' : σ → ε → Prop} {s t : σ} {es : List ε}
    (himp : ∀ s e, guard s e → guard' s e) (h : Run step guard s es t) :
    Run step guard' s es t := by
  induction h with
  | start => exact .start
  | next _ allowed taken ih => exact .next ih (himp _ _ allowed) taken

/-- What holds at the start and is preserved by every allowed step holds at
the end of every run. -/
theorem invariant {I : σ → Prop} {s t : σ} {es : List ε}
    (hstep : ∀ s e t, I s → guard s e → step s e = some t → I t)
    (h : Run step guard s es t) (h0 : I s) : I t := by
  induction h with
  | start => exact h0
  | next _ allowed taken ih => exact hstep _ _ _ ih allowed taken

end Run

/-- A guarded run is an executable run each of whose events was allowed in the
state in which it was taken. -/
theorem run_iff {s t : σ} {es : List ε} :
    Run step guard s es t ↔ runs step s es = some t ∧
      ∀ pre e post u, es = pre ++ e :: post → runs step s pre = some u → guard u e := by
  constructor
  · intro h
    refine ⟨h.runs, ?_⟩
    induction h with
    | start =>
        intro pre e post u hsplit
        simp at hsplit
    | @next es t u' e' before allowed taken ih =>
        intro pre e post u hsplit hpre
        cases post using List.reverseRecOn with
        | nil =>
            obtain ⟨rfl, hlast⟩ := List.append_inj' hsplit rfl
            cases hlast
            rw [before.runs, Option.some.injEq] at hpre
            exact hpre ▸ allowed
        | append_singleton post x =>
            rw [← List.cons_append, ← List.append_assoc] at hsplit
            exact ih pre e post u (List.append_inj' hsplit rfl).1 hpre
  · rintro ⟨h, hall⟩
    induction es using List.reverseRecOn generalizing t with
    | nil =>
        simp only [runs_nil, Option.some.injEq] at h
        subst h
        exact .start
    | append_singleton es e ih =>
        rw [runs_concat] at h
        obtain ⟨u, hu, hstep⟩ := Option.bind_eq_some_iff.mp h
        have hbefore := ih hu fun pre f post v hsplit hpre =>
          hall pre f (post ++ [e]) v (by rw [hsplit]; simp) hpre
        exact .next hbefore (hall es e [] u rfl hu) hstep

/-- An executable run whose events all satisfy `P` is a run guarded by `P`. -/
theorem run_of_runs {P : ε → Prop} {s t : σ} {es : List ε} (hP : ∀ e ∈ es, P e)
    (h : runs step s es = some t) : Run step (fun _ e => P e) s es t := by
  refine run_iff.mpr ⟨h, fun pre e post u hsplit _ => ?_⟩
  exact hP e (by rw [hsplit]; simp)

/-- A machine that takes no step its guard forbids. -/
def guarded (step : σ → ε → Option σ) (guard : σ → ε → Prop) [∀ s e, Decidable (guard s e)]
    (s : σ) (e : ε) : Option σ :=
  if guard s e then step s e else none

/-- Executing such a machine gives a guarded run. -/
theorem run_of_guarded [∀ s e, Decidable (guard s e)] {s t : σ} {es : List ε}
    (h : runs (guarded step guard) s es = some t) : Run step guard s es t := by
  induction es using List.reverseRecOn generalizing t with
  | nil =>
      simp only [runs_nil, Option.some.injEq] at h
      subst h
      exact .start
  | append_singleton es e ih =>
      rw [runs_concat] at h
      obtain ⟨u, hu, hstep⟩ := Option.bind_eq_some_iff.mp h
      unfold guarded at hstep
      split at hstep
      · next he => exact .next (ih hu) he hstep
      · contradiction

/-- The invariant rule for executable runs. -/
theorem runs_invariant {I : σ → Prop} {s t : σ} {es : List ε}
    (hstep : ∀ s e t, I s → step s e = some t → I t)
    (h : runs step s es = some t) (h0 : I s) : I t :=
  (run_of_runs (P := fun _ => True) (fun _ _ => trivial) h).invariant
    (fun s e t hs _ => hstep s e t hs) h0

/-! ## what appears in a run -/

section

variable {α : Type*} {obs : σ → Option α}

/-- What a run makes appear: the values of `obs` after the steps before which
it had none. -/
def appearances (step : σ → ε → Option σ) (obs : σ → Option α) : σ → List ε → List α
  | _, [] => []
  | s, e :: es =>
      match step s e with
      | some t => (if (obs s).isNone then (obs t).toList else []) ++ appearances step obs t es
      | none => []

/-- What stays once it is there appears no second time. -/
theorem appearances_of_some (hstay : ∀ s e t a, step s e = some t → obs s = some a → obs t = some a)
    {s : σ} {es : List ε} {a : α} (hs : obs s = some a) : appearances step obs s es = [] := by
  induction es generalizing s with
  | nil => rfl
  | cons e es ih =>
      rw [appearances]
      cases hstep : step s e with
      | none => rfl
      | some t =>
          simp only [hs, Option.isNone_some, Bool.false_eq_true, if_false, List.nil_append]
          exact ih (hstay s e t a hstep hs)

/-- What stays once it is there appears once if it is there in the end, and
not at all otherwise. -/
theorem appearances_eq (hstay : ∀ s e t a, step s e = some t → obs s = some a → obs t = some a)
    {s t : σ} {es : List ε} (h : runs step s es = some t) (hs : obs s = none) :
    appearances step obs s es = (obs t).toList := by
  induction es generalizing s with
  | nil =>
      obtain rfl := Option.some.inj h
      rw [hs]
      rfl
  | cons e es ih =>
      rw [runs_cons] at h
      obtain ⟨u, hstep, hrest⟩ := Option.bind_eq_some_iff.mp h
      simp only [appearances, hstep, hs, Option.isNone_none, if_true]
      cases hu : obs u with
      | none => exact ih hrest hu
      | some a =>
          have ht : obs t = some a :=
            runs_invariant (I := fun s => obs s = some a)
              (fun s e t hs hstep => hstay s e t a hstep hs) hrest hu
          rw [appearances_of_some hstay hu, ht]
          rfl

end

/-! ## simulations -/

section

variable {τ ε' : Type*} {step' : τ → ε' → Option τ} {R : σ → τ → Prop} {project : ε → Option ε'}

/-- Forward simulation: a machine each of whose events is answered by an event
of another machine, or by none, is followed by it over every run. -/
theorem runs_simulates
    (hstep : ∀ s s' e t, R s s' → step s e = some t →
      ∃ t', runs step' s' (project e).toList = some t' ∧ R t t')
    {s t : σ} {s' : τ} {es : List ε} (h : runs step s es = some t) (hR : R s s') :
    ∃ t', runs step' s' (es.filterMap project) = some t' ∧ R t t' := by
  induction es generalizing s s' with
  | nil =>
      obtain rfl := Option.some.inj h
      exact ⟨s', rfl, hR⟩
  | cons e es ih =>
      rw [runs_cons] at h
      obtain ⟨u, hu, hrest⟩ := Option.bind_eq_some_iff.mp h
      obtain ⟨u', hu', hRu⟩ := hstep s s' e u hR hu
      obtain ⟨t', ht', hRt⟩ := ih hrest hRu
      refine ⟨t', ?_, hRt⟩
      have hsplit : (e :: es).filterMap project = (project e).toList ++ es.filterMap project := by
        cases hproject : project e <;> simp [hproject]
      rw [hsplit, runs_append, hu', Option.bind_some, ht']

/-- So is a guarded machine, by events that the other one's guard allows. -/
theorem Run.simulates {guard' : τ → ε' → Prop}
    (hstep : ∀ s s' e t, R s s' → guard s e → step s e = some t →
      ∃ t', Run step' guard' s' (project e).toList t' ∧ R t t')
    {s t : σ} {s' : τ} {es : List ε} (h : Run step guard s es t) (hR : R s s') :
    ∃ t', Run step' guard' s' (es.filterMap project) t' ∧ R t t' := by
  induction h with
  | start => exact ⟨s', .start, hR⟩
  | @next es u v e before allowed taken ih =>
      obtain ⟨u', hu', hRu⟩ := ih
      obtain ⟨v', hv', hRv⟩ := hstep u u' e v hRu allowed taken
      refine ⟨v', ?_, hRv⟩
      have hsplit : (es ++ [e]).filterMap project = es.filterMap project ++ (project e).toList := by
        cases hproject : project e <;> simp [hproject]
      rw [hsplit]
      exact hu'.trans hv'

end

/-! ## refinement -/

section

variable {τ ε' : Type*} {step' : τ → ε' → Option τ} {R : σ → τ → Prop}

/-- A machine each of whose events is answered by some events of another
machine is followed by it over every run. -/
theorem runs_refines
    (hstep : ∀ s s' e t, R s s' → step s e = some t →
      ∃ es' t', runs step' s' es' = some t' ∧ R t t')
    {s t : σ} {s' : τ} {es : List ε} (h : runs step s es = some t) (hR : R s s') :
    ∃ es' t', runs step' s' es' = some t' ∧ R t t' := by
  refine runs_invariant (I := fun s => ∃ es' t', runs step' s' es' = some t' ∧ R s t') ?_ h
    ⟨[], s', rfl, hR⟩
  rintro s e t ⟨es', u', hu', hRu⟩ hst
  obtain ⟨fs', t', ht', hRt⟩ := hstep s u' e t hRu hst
  exact ⟨es' ++ fs', t', by rw [runs_append, hu', Option.bind_some, ht'], hRt⟩

end

/-- A machine that counts the events of a kind. -/
def counting (step : σ → ε → Option σ) (p : ε → Bool) (s : σ × Nat) (e : ε) : Option (σ × Nat) :=
  (step s.1 e).map fun t => (t, s.2 + if p e then 1 else 0)

theorem runs_counting {p : ε → Bool} {s t : σ} {es : List ε} (h : runs step s es = some t)
    (n : Nat) : runs (counting step p) (s, n) es = some (t, n + es.countP p) := by
  induction es generalizing s n with
  | nil =>
      obtain rfl := Option.some.inj h
      rfl
  | cons e es ih =>
      rw [runs_cons] at h
      obtain ⟨u, hu, hrest⟩ := Option.bind_eq_some_iff.mp h
      rw [runs_cons, counting, hu, Option.map_some, Option.bind_some, ih hrest, List.countP_cons]
      grind

/-! ## reaching a state by events of a kind -/

/-- Some events that satisfy `P` lead from `s` to `t`. -/
def Reaches (step : σ → ε → Option σ) (P : ε → Prop) (s t : σ) : Prop :=
  ∃ es, (∀ e ∈ es, P e) ∧ runs step s es = some t

namespace Reaches

variable {P : ε → Prop} {s t u : σ}

theorem refl (s : σ) : Reaches step P s s := ⟨[], by simp, rfl⟩

theorem trans (h : Reaches step P s t) (h' : Reaches step P t u) : Reaches step P s u := by
  obtain ⟨es, hes, hruns⟩ := h
  obtain ⟨fs, hfs, hruns'⟩ := h'
  exact ⟨es ++ fs, List.forall_mem_append.mpr ⟨hes, hfs⟩, by
    rw [runs_append, hruns, Option.bind_some, hruns']⟩

theorem single {e : ε} (he : P e) (h : step s e = some t) : Reaches step P s t :=
  ⟨[e], by simpa using he, by rw [runs_cons, h]; rfl⟩

/-- What every event preserves is still there. -/
theorem invariant {I : σ → Prop} (hstep : ∀ s e t, I s → step s e = some t → I t)
    (h : Reaches step P s t) (hs : I s) : I t := by
  obtain ⟨es, -, hruns⟩ := h
  exact runs_invariant hstep hruns hs

end Reaches

/-! ## countdowns -/

section

variable {R : σ → Nat → Prop} {G : σ → Prop} {s t : σ} {es : List ε} {n : Nat}

/-- `R s n` says that `n` counted events at most lead from `s` to the goal `G`.
Where every counted event lowers the number, and no other one raises it, every
run that has so many of them has reached the goal. -/
theorem Run.countdown (counted : ε → Bool)
    (hstays : ∀ s e t, G s → guard s e → step s e = some t → G t)
    (hlowers : ∀ s n e t, R s n → ¬ G s → guard s e → step s e = some t →
      G t ∨ ∃ m, R t m ∧ m + (if counted e then 1 else 0) ≤ n)
    (h : Run step guard s es t) (hs : R s n) :
    G t ∨ ∃ m, R t m ∧ m + es.countP counted ≤ n := by
  induction h with
  | start => exact .inr ⟨n, hs, le_rfl⟩
  | @next es u v e before allowed taken ih =>
      rcases ih with hgoal | ⟨m, hu, hm⟩
      · exact .inl (hstays u e v hgoal allowed taken)
      · by_cases hgoal : G u
        · exact .inl (hstays u e v hgoal allowed taken)
        · rcases hlowers u m e v hu hgoal allowed taken with hv | ⟨k, hv, hk⟩
          · exact .inl hv
          · refine .inr ⟨k, hv, ?_⟩
            rw [List.countP_append, List.countP_singleton]
            omega

/-- And where an event that lowers the number is always possible, some run
reaches the goal. -/
theorem exists_run_of_countdown
    (hlowers : ∀ s n, R s n → ¬ G s → ∃ e t m, guard s e ∧ step s e = some t ∧ R t m ∧ m < n)
    (hs : R s n) : ∃ es t m, Run step guard s es t ∧ R t m ∧ G t := by
  induction n using Nat.strongRecOn generalizing s with
  | ind n ih =>
      by_cases hgoal : G s
      · exact ⟨[], s, n, .start, hs, hgoal⟩
      · obtain ⟨e, u, m, he, hstep, hu, hlt⟩ := hlowers s n hs hgoal
        obtain ⟨es, t, k, hrun, ht, hgoal'⟩ := ih m hlt hu
        exact ⟨[e] ++ es, t, k, (Run.next .start he hstep).trans hrun, ht, hgoal'⟩

end

end Machine

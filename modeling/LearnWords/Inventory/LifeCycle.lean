import LearnWords.Inventory.Init
import LearnWords.Inventory.Stop

/-!
# LearnWords.Inventory.LifeCycle

The life cycle the inventory documents: `async_init` once, `reload` any number
of times after it succeeded, then `async_stop` once.

The state variable that is to refuse other calls never changes
(`Inventory.state_of_step`), so no call is ever refused, and the life cycle is
kept exactly by those runs whose calls keep to it by themselves
(`enforced_iff`).  For them `Phase` says where the inventory is; each phase is
one of the walkers' own (`Initializing`, `Stopping`) or has no walker pending.
-/

namespace LearnWords

open Machine NodeList

variable {ε : Type}

/-- The services reloaded, in order. -/
def reloaded (log : List (Entry ε)) : List Nat :=
  log.filterMap fun
    | .reload a => some a
    | _ => none

/-- Is the event in the documented order?  Handlers may be invoked at any
time, and an inventory may be stopped that was never initialised. -/
def InOrder (w : Inventory ε) : InventoryEvent ε → Prop
  /- once, and before stopping -/
  | .asyncInit => w.initializers = [] ∧ w.stoppers = []
  /- after initialisation succeeded, and before stopping -/
  | .reload => .initPosted none ∈ w.log ∧ w.stoppers = []
  /- once, and not while initialisation is running -/
  | .asyncStop => (∀ s ∈ w.initializers, s.waiting = none) ∧ w.stoppers = []
  | .initDone _ _ | .stopDone _ => True

/-- The iterator designates a service that has been erased. -/
def Dangling (w : Inventory ε) (it : Iterator) : Prop :=
  it ≠ none ∧ ¬ w.services.Live it

/-- What the life cycle is to guarantee at any time. -/
structure LifeCycle (w : Inventory ε) : Prop where
  /-- no service is initialised twice -/
  initOnce : (started w.log).Nodup
  /-- no service is stopped twice -/
  stopOnce : (stopped w.log).Nodup
  /-- no service is initialised or reloaded after stopping began -/
  afterStop : ∀ pre post, w.log = pre ++ .stopBegan :: post →
    started post = [] ∧ reloaded post = []
  /-- a pending initializer holds no iterator to an erased service -/
  initializers : ∀ s ∈ w.initializers, s.waiting ≠ none →
    ¬ Dangling w s.begin_ ∧ ¬ Dangling w s.end_
  /-- nor does a pending stopper -/
  stoppers : ∀ s ∈ w.stoppers, s.waiting ≠ none →
    ¬ Dangling w s.begin_.base ∧ ¬ Dangling w s.end_.base

/-- The inventory enforces its life cycle in a run: a call out of order is
refused, and the guarantees hold in every state. -/
structure Enforced (l : NodeList Service) (es : List (InventoryEvent ε)) : Prop where
  refused : ∀ pre e post w, es = pre ++ e :: post →
    runs Inventory.step (Inventory.make l) pre = some w → ¬ InOrder w e → w.refuses e = true
  lifeCycle : ∀ pre w, pre <+: es →
    runs Inventory.step (Inventory.make l) pre = some w → LifeCycle w

/-- Every call of a run is in the documented order. -/
def CallsInOrder (l : NodeList Service) (es : List (InventoryEvent ε)) : Prop :=
  ∀ pre e post w, es = pre ++ e :: post →
    runs Inventory.step (Inventory.make l) pre = some w → InOrder w e

/-! ## the phases -/

/-- No stopper was started, and no initializer is pending. -/
structure Quiet (l : NodeList Service) (w : Inventory ε) : Prop where
  services : w.services = l
  noStopper : w.stoppers = []
  defined : w.undefined = false
  idle : ∀ s ∈ w.initializers, s.waiting = none
  once : (started w.log).Nodup
  noStop : stopped w.log = []
  notBegan : .stopBegan ∉ w.log

/-- Where an inventory is whose calls are in order. -/
inductive Phase (l : NodeList Service) (w : Inventory ε) : Prop
  | quiet (h : Quiet l w) (hinit : w.initializers = [] → w.log = [])
  | initializing (h : Initializing l w) (hpending : ∃ s ∈ w.initializers, s.waiting ≠ none)
  | stopping (before : List (Entry ε)) (h : Stopping l before w)
      (idle : ∀ s ∈ w.initializers, s.waiting = none) (once : (started before).Nodup)
      (noStop : stopped before = []) (notBegan : .stopBegan ∉ before)

/-- An initializer's log shows nothing of a stopper. -/
theorem InitPhase.noStop {l : NodeList Service} {s : Initializer} {log : List (Entry ε)}
    (h : InitPhase l s log) : stopped log = [] ∧ .stopBegan ∉ log := by
  have hall : ∀ e ∈ log, e ≠ .stopBegan ∧ ∀ a, e ≠ .asyncStop a := by
    have hsucceeded : ∀ as : List Nat, ∀ e ∈ (LearnWords.succeeded as : List (Entry ε)),
        e ≠ .stopBegan ∧ ∀ a, e ≠ .asyncStop a := by
      intro as e he
      simp only [LearnWords.succeeded, List.mem_flatMap, List.mem_cons, List.not_mem_nil,
        or_false] at he
      obtain ⟨b, -, rfl | rfl⟩ := he <;> simp
    intro e he
    cases h <;>
      simp only [List.mem_append, List.mem_cons, List.not_mem_nil, or_false] at he <;>
      rcases he with he | he
    all_goals first
      | exact hsucceeded _ e he
      | grind
  refine ⟨?_, fun hmem => (hall _ hmem).1 rfl⟩
  rw [stopped, List.filterMap_eq_nil_iff]
  intro e he
  cases e with
  | asyncStop a => exact absurd rfl ((hall _ he).2 a)
  | _ => rfl

/-- An initializer that is not pending leaves the inventory quiet. -/
theorem phase_of_initializing {l : NodeList Service} {w : Inventory ε}
    (h : Initializing l w) : Phase l w := by
  by_cases hpending : ∃ s ∈ w.initializers, s.waiting ≠ none
  · exact .initializing h hpending
  · obtain ⟨s, hs, hphase⟩ := h.phase
    obtain ⟨hstopped, hbegan⟩ := hphase.noStop
    have hidle : ∀ s ∈ w.initializers, s.waiting = none := by
      intro s hs
      by_contra hne
      exact hpending ⟨s, hs, hne⟩
    have hquiet : Quiet l w :=
      ⟨h.services, h.noStopper, h.defined, hidle, (initInOrder_of_initializing h).once, hstopped,
        hbegan⟩
    exact .quiet hquiet (by simp [hs])

/-- A quiet inventory that was never initialised is a fresh one. -/
theorem Quiet.eq_make {l : NodeList Service} {w : Inventory ε} (h : Quiet l w)
    (hinit : w.initializers = []) (hlog : w.log = []) (hstate : w.state = .init) :
    w = Inventory.make l := by
  obtain ⟨services, state, initializers, stoppers, log, undefined⟩ := w
  obtain ⟨hservices, hstoppers, hundef, -, -, -, -⟩ := h
  simp only at hinit hlog hstate hservices hstoppers hundef
  subst hinit hlog hstate hservices hstoppers hundef
  rfl

/-! ## one event -/

/-- A handler is invoked only when an initializer is pending. -/
theorem pending_of_initDone {w w' : Inventory ε} {i : Nat} {ep : Option ε}
    (h : w.step (.initDone i ep) = some w') : ∃ s ∈ w.initializers, s.waiting ≠ none := by
  obtain ⟨s, a, hs, hwaiting, -⟩ := Inventory.step_initDone h
  exact ⟨s, List.mem_of_getElem? hs, by simp [hwaiting]⟩

/-- Or a stopper. -/
theorem pending_of_stopDone {w w' : Inventory ε} {j : Nat}
    (h : w.step (.stopDone j) = some w') : ∃ s ∈ w.stoppers, s.waiting ≠ none := by
  obtain ⟨s, a, -, hs, hwaiting, -⟩ := Inventory.step_stopDone h
  exact ⟨s, List.mem_of_getElem? hs, by simp [hwaiting]⟩

/-- What a quiet inventory does next. -/
theorem Quiet.step {l : NodeList Service} {w w' : Inventory ε} {e : InventoryEvent ε}
    (hne : l.nodes ≠ []) (hw : Quiet l w) (hinit : w.initializers = [] → w.log = [])
    (he : InOrder w e) (h : w.step e = some w') : Phase l w' := by
  cases e with
  | asyncInit =>
      obtain ⟨-, hstate, -⟩ := Inventory.step_asyncInit h
      have hmake := hw.eq_make he.1 (hinit he.1) hstate
      rw [hmake] at h
      exact phase_of_initializing (initializing_asyncInit h)
  | reload =>
      obtain rfl := Inventory.step_reload h
      obtain ⟨hservices, hstop, hdef, hidle, honce, hnoStop, hbegan⟩ := hw
      refine .quiet ⟨hservices, hstop, hdef, hidle, ?_, ?_, ?_⟩ fun hnil => ?_
      · simpa [Inventory.reload, started, List.filterMap_map] using honce
      · simpa [Inventory.reload, stopped, List.filterMap_map] using hnoStop
      · simpa [Inventory.reload] using hbegan
      · have hposted := he.1
        rw [hinit hnil] at hposted
        simp at hposted
  | asyncStop =>
      obtain rfl := Inventory.step_asyncStop h
      have hstopping := stopping_asyncStop (hw.services ▸ hne) hw.noStopper
      rw [hw.services] at hstopping
      exact .stopping w.log hstopping hw.idle hw.once hw.noStop hw.notBegan
  | initDone i ep =>
      obtain ⟨s, hs, hpending⟩ := pending_of_initDone h
      exact absurd (hw.idle s hs) hpending
  | stopDone j =>
      obtain ⟨s, hs, -⟩ := pending_of_stopDone h
      simp [hw.noStopper] at hs

/-- While the initializer is pending no call is in order. -/
theorem Initializing.step {l : NodeList Service} {w w' : Inventory ε} {e : InventoryEvent ε}
    (hw : Initializing l w) (hpending : ∃ s ∈ w.initializers, s.waiting ≠ none)
    (he : InOrder w e) (h : w.step e = some w') : Phase l w' := by
  obtain ⟨s, hs, hphase⟩ := hw.phase
  have hwaiting : s.waiting ≠ none := by simpa [hs] using hpending
  cases e with
  | asyncInit => simp [InOrder, hs] at he
  | reload =>
      have hposted := he.1
      generalize w.log = log at hphase hposted
      cases hphase with
      | waiting => simp [LearnWords.succeeded] at hposted
      | succeeded => simp at hwaiting
      | failed => simp at hwaiting
  | asyncStop =>
      obtain ⟨s, hs, hne⟩ := hpending
      exact absurd (he.1 s hs) hne
  | initDone i ep => exact phase_of_initializing (initializing_initDone hw h)
  | stopDone j =>
      obtain ⟨s, hs, -⟩ := pending_of_stopDone h
      simp [hw.noStopper] at hs

/-- Once a stopper was started only its handlers are in order. -/
theorem Stopping.step {l : NodeList Service} {before : List (Entry ε)} {w w' : Inventory ε}
    {e : InventoryEvent ε} (hw : Stopping l before w)
    (idle : ∀ s ∈ w.initializers, s.waiting = none) (he : InOrder w e)
    (h : w.step e = some w') : Stopping l before w' ∧ w'.initializers = w.initializers := by
  obtain ⟨s, a, log, -, hs, -, -⟩ := hw.phase
  cases e with
  | asyncInit | reload | asyncStop => simp [InOrder, hs] at he
  | initDone i ep =>
      obtain ⟨s, hs, hpending⟩ := pending_of_initDone h
      exact absurd (idle s hs) hpending
  | stopDone j =>
      refine ⟨(stopping_stopDone hw h).1, ?_⟩
      obtain ⟨s, a, -, -, -, rfl⟩ := Inventory.step_stopDone h
      rfl

/-- Every event in order leads from a phase to a phase. -/
theorem phase_step {l : NodeList Service} {w w' : Inventory ε} {e : InventoryEvent ε}
    (hne : l.nodes ≠ []) (hw : Phase l w) (he : InOrder w e) (h : w.step e = some w') :
    Phase l w' := by
  cases hw with
  | quiet hquiet hinit => exact hquiet.step hne hinit he h
  | initializing hinit hpending => exact hinit.step hpending he h
  | stopping before hstopping idle once noStop notBegan =>
      obtain ⟨hstopping', hinit⟩ := hstopping.step idle he h
      exact .stopping before hstopping' (hinit ▸ idle) once noStop notBegan

/-! ## what a phase guarantees -/

/-- An iterator to live services, or to the end, does not dangle. -/
theorem not_dangling_iteratorTo {w : Inventory ε} {ns : List (Node Service)}
    (h : ∀ n ∈ ns, n ∈ w.services.nodes) : ¬ Dangling w (iteratorTo ns) := by
  rintro ⟨hne, hdead⟩
  cases ns with
  | nil => exact hne rfl
  | cons n ns => exact hdead ⟨n, h n (by simp), rfl⟩

theorem not_dangling_none (w : Inventory ε) : ¬ Dangling w none := fun h => h.1 rfl

/-- A pending stopper keeps the end of the list and the first service, which
is the last one it erases. -/
theorem StopPhase.iterators {l l' : NodeList Service} {a : Nat} {s : Stopper}
    {log : List (Entry ε)} {undefined : Bool} (h : StopPhase l a l' s log undefined)
    (hfirst : l.first = some a) (hpending : s.waiting ≠ none) :
    s.begin_.base = none ∧ l'.Live s.end_.base := by
  cases h with
  | ended => simp at hpending
  | @waiting xs ys n hl hl' hn =>
      refine ⟨rfl, ?_⟩
      cases xs with
      | nil =>
          have haddr : n.addr = a := by simpa [NodeList.first, iteratorTo, hl] using hfirst
          exact ⟨n, by simp [hl'], by rw [haddr]⟩
      | cons m xs =>
          have haddr : m.addr = a := by simpa [NodeList.first, iteratorTo, hl] using hfirst
          exact ⟨m, by simp [hl'], by rw [haddr]⟩

/-- A pending initializer keeps the end of the list and stands before live
services. -/
theorem InitPhase.iterators {l : NodeList Service} {s : Initializer} {log : List (Entry ε)}
    (h : InitPhase l s log) (hpending : s.waiting ≠ none) :
    (∃ ns, s.begin_ = iteratorTo ns ∧ ∀ n ∈ ns, n ∈ l.nodes) ∧ s.end_ = none := by
  cases h with
  | @waiting xs ys n hnodes hn =>
      refine ⟨⟨ys, rfl, fun m hm => ?_⟩, rfl⟩
      rw [hnodes]
      simp [hm]
  | succeeded => simp at hpending
  | failed => simp at hpending

/-- A stopper's log shows nothing of an initializer. -/
theorem StopPhase.onlyStops {l l' : NodeList Service} {a : Nat} {s : Stopper}
    {log : List (Entry ε)} {undefined : Bool} (h : StopPhase l a l' s log undefined) :
    started log = [] ∧ reloaded log = [] ∧ .stopBegan ∉ log := by
  have hteardown : ∀ ns : List (Node Service), ∀ e ∈ (ns.flatMap teardown : List (Entry ε)),
      ∃ b, e = .asyncStop b ∨ e = .stopDone b ∨ e = .destroyed b := by
    intro ns e he
    obtain ⟨n, -, hmem⟩ := List.mem_flatMap.mp he
    refine ⟨n.addr, ?_⟩
    unfold teardown at hmem
    split at hmem <;> simp at hmem <;> tauto
  have hall : ∀ e ∈ log, ∃ b, e = .asyncStop b ∨ e = .stopDone b ∨ e = .destroyed b := by
    intro e he
    cases h with
    | @waiting xs ys n hl hl' hn =>
        rcases List.mem_append.mp he with he | he
        · exact hteardown _ e he
        · exact ⟨n.addr, .inl (List.mem_singleton.mp he)⟩
    | ended => exact hteardown _ e he
  refine ⟨?_, ?_, fun hmem => by obtain ⟨b, hb⟩ := hall _ hmem; simp at hb⟩
  · rw [started, List.filterMap_eq_nil_iff]
    intro e he
    obtain ⟨b, rfl | rfl | rfl⟩ := hall e he <;> rfl
  · rw [reloaded, List.filterMap_eq_nil_iff]
    intro e he
    obtain ⟨b, rfl | rfl | rfl⟩ := hall e he <;> rfl

/-- The calls of a stopper. -/
theorem StopPhase.nodup_stopped {l l' : NodeList Service} {a : Nat} {s : Stopper}
    {log : List (Entry ε)} {undefined : Bool} (h : StopPhase l a l' s log undefined) :
    (stopped log).Nodup := by
  have hcalls : stopped log <+: stops l.nodes.reverse := by
    rw [stops_reverse]
    exact h.order.calls
  exact (nodup_reverse l).2.sublist hcalls.sublist

theorem Quiet.lifeCycle {l : NodeList Service} {w : Inventory ε} (h : Quiet l w) :
    LifeCycle w := by
  refine ⟨h.once, by simp [h.noStop], fun pre post hlog => ?_, fun s hs hpending => ?_, ?_⟩
  · exact absurd (by rw [hlog]; simp) h.notBegan
  · exact absurd (h.idle s hs) hpending
  · simp [h.noStopper]

theorem Initializing.lifeCycle {l : NodeList Service} {w : Inventory ε} (h : Initializing l w) :
    LifeCycle w := by
  obtain ⟨s, hs, hphase⟩ := h.phase
  obtain ⟨hstopped, hbegan⟩ := hphase.noStop
  refine ⟨(initInOrder_of_initializing h).once, by simp [hstopped], fun pre post hlog => ?_,
    fun s' hs' hpending => ?_, by simp [h.noStopper]⟩
  · exact absurd (by rw [hlog]; simp) hbegan
  · rw [hs, List.mem_singleton] at hs'
    subst hs'
    obtain ⟨⟨ns, hbegin, hns⟩, hend⟩ := hphase.iterators hpending
    rw [hbegin, hend]
    exact ⟨not_dangling_iteratorTo (h.services ▸ hns), not_dangling_none w⟩

theorem Stopping.lifeCycle {l : NodeList Service} {before : List (Entry ε)} {w : Inventory ε}
    (h : Stopping l before w) (idle : ∀ s ∈ w.initializers, s.waiting = none)
    (once : (started before).Nodup) (noStop : stopped before = [])
    (notBegan : .stopBegan ∉ before) : LifeCycle w := by
  obtain ⟨s, a, log, hfirst, hs, hlog, hphase⟩ := h.phase
  obtain ⟨hstarted, hreloaded, hbegan⟩ := hphase.onlyStops
  refine ⟨?_, ?_, fun pre post hsplit => ?_, fun s hs hpending => ?_, fun s' hs' hpending => ?_⟩
  · have hall : started w.log = started before := by
      rw [hlog, started_append]
      simpa [started] using hstarted
    rw [hall]
    exact once
  · have hall : stopped w.log = stopped log := by
      rw [hlog]
      simpa [stopped] using noStop
    rw [hall]
    exact hphase.nodup_stopped
  · rw [hlog] at hsplit
    obtain ⟨-, -, rfl⟩ := (List.append_cons_inj_of_notMem notBegan hbegan).mp hsplit
    exact ⟨hstarted, hreloaded⟩
  · exact absurd (idle s hs) hpending
  · rw [hs, List.mem_singleton] at hs'
    subst hs'
    obtain ⟨hbegin, hend⟩ := hphase.iterators hfirst hpending
    rw [hbegin]
    exact ⟨not_dangling_none w, fun hdangling => hdangling.2 hend⟩

/-- In every phase the life cycle is kept. -/
theorem lifeCycle_of_phase {l : NodeList Service} {w : Inventory ε} (h : Phase l w) :
    LifeCycle w := by
  cases h with
  | quiet h => exact h.lifeCycle
  | initializing h => exact h.lifeCycle
  | stopping before h idle once noStop notBegan => exact h.lifeCycle idle once noStop notBegan

/-- A fresh inventory is quiet. -/
theorem phase_make (l : NodeList Service) : Phase l (Inventory.make l : Inventory ε) :=
  .quiet ⟨rfl, rfl, rfl, by simp [Inventory.make], by simp [Inventory.make, started], rfl,
    by simp [Inventory.make]⟩ fun _ => rfl

/-- A run whose calls are in order goes from phase to phase. -/
theorem phase_of_run {l : NodeList Service} {es : List (InventoryEvent ε)} {w : Inventory ε}
    (hne : l.nodes ≠ []) (h : Run Inventory.step InOrder (Inventory.make l) es w) : Phase l w :=
  h.invariant (fun _ _ _ hw he hstep => phase_step hne hw he hstep) (phase_make l)

/-- No call is ever refused: the state variable the check reads keeps its first
value. -/
theorem refuses_of_runs {l : NodeList Service} {es : List (InventoryEvent ε)} {w : Inventory ε}
    (h : runs Inventory.step (Inventory.make l) es = some w) (e : InventoryEvent ε) :
    w.refuses e = false := by
  have hstate : w.state = .init := by
    refine runs_invariant (I := fun u => u.state = .init) (fun u e u' hu hstep => ?_) h rfl
    rw [Inventory.state_of_step hstep]
    exact hu
  cases e <;> simp [Inventory.refuses, hstate]

/-- **Life cycle**: in a run of a non-empty inventory the documented life cycle
is enforced if and only if every call of the run keeps to it by itself. -/
theorem enforced_iff (l : NodeList Service) (es : List (InventoryEvent ε)) (w : Inventory ε)
    (hne : l.nodes ≠ []) (hrun : runs Inventory.step (Inventory.make l) es = some w) :
    Enforced l es ↔ CallsInOrder l es := by
  constructor
  · intro h pre e post u hsplit hpre
    by_contra hnot
    have hrefused := h.refused pre e post u hsplit hpre hnot
    rw [refuses_of_runs hpre e] at hrefused
    contradiction
  · intro h
    have hguarded : Run Inventory.step InOrder (Inventory.make l) es w := run_iff.mpr ⟨hrun, h⟩
    refine ⟨fun pre e post u hsplit hpre hnot => ?_, fun pre u hpart hpre => ?_⟩
    · exact absurd (h pre e post u hsplit hpre) hnot
    · obtain ⟨u', hu'⟩ := hguarded.exists_of_isPrefix hpart
      have heq : u' = u := by simpa [hu'.runs] using hpre
      rw [← heq]
      exact lifeCycle_of_phase (phase_of_run hne hu')

/-- A second `async_init` is accepted, and initialises Telegram twice. -/
theorem not_enforced_twice :
    ∃ w : Inventory Unit,
      runs Inventory.step (Inventory.make makeInventory) [.asyncInit, .asyncInit] = some w ∧
        ¬ Enforced makeInventory ([.asyncInit, .asyncInit] : List (InventoryEvent Unit)) := by
  refine ⟨_, rfl, fun h => ?_⟩
  have honce := (h.lifeCycle _ _ List.prefix_rfl rfl).initOnce
  exact absurd honce (by decide)

/-- A service that is initialized and reloaded, and one that is initialized and
stopped. -/
def twoServices : NodeList Service where
  nodes := [⟨0, ⟨some [.postCallback], true, false⟩⟩, ⟨1, ⟨some [.postCallback], false, true⟩⟩]
  distinct := by decide

/-- Both are initialized, then the inventory is reloaded and stopped. -/
def wholeLife : List (InventoryEvent Unit) :=
  [.asyncInit, .initDone 0 none, .initDone 0 none, .reload, .asyncStop]

theorem enforced_iff_reload : Enforced twoServices wholeLife ↔ CallsInOrder twoServices wholeLife :=
  enforced_iff twoServices wholeLife _ (by decide) rfl

end LearnWords

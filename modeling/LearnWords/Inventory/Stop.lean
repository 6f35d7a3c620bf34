import LearnWords.Lib.Logs
import LearnWords.Inventory

/-!
# LearnWords.Inventory.Stop

One call of `inventory::async_stop`, and the services' handlers invoked one by
one at any later time.

The stopper always looks at the last service (`Stopper.start_eq`), so the
services are stopped and erased in reverse order (`StopOrder`).  But its saved
end is the reverse end of the list as it was before the first erasure: an
iterator to the first service.  When that service is erased as the last one,
`begin_` has become the end of the list and is not equal to the saved end, so
the loop goes on and dereferences it (`StopPhase.ended`).
-/

namespace LearnWords

open Machine NodeList Logs

variable {ε : Type}

/-- The addresses of the stoppable services among some nodes. -/
def stops (ns : List (Node Service)) : List Nat :=
  (ns.filter fun n => n.val.stoppable).map Node.addr

/-- What erasing a service leaves in the log; a stoppable one is stopped
first. -/
def teardown (n : Node Service) : List (Entry ε) :=
  if n.val.stoppable then [.asyncStop n.addr, .stopDone n.addr, .destroyed n.addr]
  else [.destroyed n.addr]

/-- Where a stopper over `l` with the saved end `a` can be: the services left,
the stopper, the log, and whether the behaviour is undefined. -/
inductive StopPhase (l : NodeList Service) (a : Nat) :
    NodeList Service → Stopper → List (Entry ε) → Bool → Prop
  /-- the services `ys` are gone, and `n` is being stopped -/
  | waiting {l' : NodeList Service} {xs ys : List (Node Service)} {n : Node Service}
      (h : l.nodes = xs ++ n :: ys) (hl' : l'.nodes = xs ++ [n]) (hn : n.val.stoppable = true) :
      StopPhase l a l' ⟨⟨none⟩, ⟨some a⟩, some n.addr⟩
        (ys.reverse.flatMap teardown ++ [.asyncStop n.addr]) false
  /-- every service is gone, and the end of the list was dereferenced -/
  | ended {l' : NodeList Service} (hl' : l'.nodes = []) :
      StopPhase l a l' ⟨⟨none⟩, ⟨some a⟩, none⟩ (l.nodes.reverse.flatMap teardown) true

/-! ## one run of the stopper -/

/-- A stopper that has erased the services `ys` enters a phase. -/
theorem stop_phase {l l' : NodeList Service} {xs ys : List (Node Service)} {a : Nat}
    {x : Option Nat} (h : l.nodes = xs ++ ys) (hl' : l'.nodes = xs) :
    let r : StopWalk ε := Stopper.start l' ⟨⟨none⟩, ⟨some a⟩, x⟩
    StopPhase l a r.services r.stopper (ys.reverse.flatMap teardown ++ r.entries) r.undefined := by
  -- induction on the services left, from the last one
  induction xs using List.reverseRecOn generalizing l' ys with
  | nil =>
      have hys : l.nodes = ys := by simpa using h
      rw [Stopper.start_eq, hl']
      simpa [hys] using StopPhase.ended (ε := ε) (l := l) (a := a) hl'
  | append_singleton xs n ih =>
      have hsplit : l.nodes = xs ++ n :: ys := by simpa using h
      have hlast : l'.nodes.getLast? = some n := by rw [hl']; simp
      rw [Stopper.start_eq, hlast]
      simp only
      by_cases hn : n.val.stoppable = true
      · rw [if_pos hn]
        exact .waiting hsplit hl' hn
      · rw [if_neg hn]
        have hrest := ih hsplit (nodes_erase_last hl')
        simpa [StopWalk.after, teardown, hn] using hrest

/-- The stopper only erases. -/
theorem length_start_le (l : NodeList Service) (s : Stopper) :
    (Stopper.start l s : StopWalk ε).services.nodes.length ≤ l.nodes.length := by
  fun_induction Stopper.start l s with
  | case5 s l hne svc hsvc hstop n l' rit h ih =>
      have hlt := length_of_rerase h
      simp only [StopWalk.after]
      omega
  | _ => exact le_rfl

/-- When the awaited service has stopped, the stopper goes from one phase to
the next, and a service is gone. -/
theorem stopDone_phase {l l' : NodeList Service} {s : Stopper} {log : List (Entry ε)} {a b : Nat}
    (h : StopPhase l a l' s log false) (hs : s.waiting = some b) :
    let r : StopWalk ε := Stopper.onStopped l' s
    StopPhase l a r.services r.stopper (log ++ [.stopDone b] ++ r.entries) r.undefined ∧
      r.services.nodes.length < l'.nodes.length := by
  cases h with
  | @waiting xs ys n h hl' hn =>
      simp only [Option.some.injEq] at hs
      subst hs
      have herase := nodes_erase_last hl'
      rw [Stopper.onStopped_eq hl']
      have hrest := stop_phase (ε := ε) (a := a) (x := some n.addr) h herase
      have hle := length_start_le (ε := ε) (l'.erase n.addr) ⟨⟨none⟩, ⟨some a⟩, some n.addr⟩
      refine ⟨by simpa [StopWalk.after, teardown, hn] using hrest, ?_⟩
      rw [herase] at hle
      rw [hl', List.length_append]
      simp only [StopWalk.after, List.length_singleton]
      omega

/-! ## runs -/

/-- An inventory that showed `before`, and whose only stopper was then started
over `l`. -/
structure Stopping (l : NodeList Service) (before : List (Entry ε)) (w : Inventory ε) : Prop where
  phase : ∃ s a log, l.first = some a ∧ w.stoppers = [s] ∧
    w.log = before ++ .stopBegan :: log ∧ StopPhase l a w.services s log w.undefined

/-- `async_stop` while no stopper is under way. -/
theorem stopping_asyncStop {w : Inventory ε} (hne : w.services.nodes ≠ [])
    (hstop : w.stoppers = []) : Stopping w.services w.log w.asyncStop := by
  obtain ⟨n, ns, hns⟩ := List.exists_cons_of_ne_nil hne
  have hfirst : w.services.first = some n.addr := by simp [NodeList.first, iteratorTo, hns]
  have hphase := stop_phase (ε := ε) (a := n.addr) (x := none)
    (List.append_nil w.services.nodes).symm rfl
  simp only [List.reverse_nil, List.flatMap_nil, List.nil_append] at hphase
  simp only [Inventory.asyncStop, Inventory.endStopper, Inventory.note, NodeList.rbegin, NodeList.rend,
    hfirst, hstop]
  exact ⟨_, n.addr, _, hfirst, rfl, by simp, hphase⟩

/-- Invoking a handler keeps the stopper in a phase, and erases a service. -/
theorem stopping_stopDone {l : NodeList Service} {before : List (Entry ε)} {w w' : Inventory ε}
    {j : Nat} (hw : Stopping l before w) (h : w.step (.stopDone j) = some w') :
    Stopping l before w' ∧ w'.services.nodes.length < w.services.nodes.length := by
  obtain ⟨s, a, log, hfirst, hs, hlog, hphase⟩ := hw
  obtain ⟨s₀, b, hdef, hj, hwaiting, rfl⟩ := Inventory.step_stopDone h
  rw [hs, List.getElem?_singleton] at hj
  split at hj
  · next hzero =>
      cases hj
      subst hzero
      rw [hdef] at hphase
      obtain ⟨hphase', hlt⟩ := stopDone_phase hphase hwaiting
      refine ⟨⟨_, a, _, hfirst, ?_, ?_, hphase'⟩, hlt⟩
      · simp [Inventory.endStopper, Inventory.note, hs]
      · simp [Inventory.endStopper, Inventory.note, hlog]
  · contradiction

/-! ## what the log shows -/

/-- The services told to stop, in order. -/
def stopped (log : List (Entry ε)) : List Nat :=
  log.filterMap fun
    | .asyncStop a => some a
    | _ => none

/-- The services destroyed, in order. -/
def destroyed (log : List (Entry ε)) : List Nat :=
  log.filterMap fun
    | .destroyed a => some a
    | _ => none

/-- How often the callback of `async_stop` was posted. -/
def stopPosts (log : List (Entry ε)) : Nat :=
  log.countP fun
    | .stopPosted => true
    | _ => false

/-- The service at `b` is stoppable and registered after the one at `a`. -/
def After (l : NodeList Service) (b a : Nat) : Prop :=
  ∃ us vs, stops l.nodes = us ++ a :: vs ∧ b ∈ vs

/-- The order in which `async_stop` is to go through the services. -/
structure StopOrder (l : NodeList Service) (log : List (Entry ε)) : Prop where
  /-- stoppable services are told to stop in reverse order of registration,
  each at most once -/
  calls : stopped log <+: (stops l.nodes).reverse
  /-- the next one after the previous one reported completion -/
  oneByOne : ∀ pre a post, log = pre ++ .asyncStop a :: post →
    ∀ b, After l b a → .stopDone b ∈ pre
  /-- services are destroyed in reverse order of registration, each at most
  once -/
  erased : destroyed log <+: (l.nodes.map Node.addr).reverse
  /-- a stoppable one after it stopped -/
  whenStopped : ∀ pre a post, log = pre ++ .destroyed a :: post →
    a ∈ stops l.nodes → .stopDone a ∈ pre

/-- `async_stop` has done what it is for. -/
structure StopsInOrder (l : NodeList Service) (w : Inventory ε) : Prop where
  order : StopOrder l w.log
  /-- no iterator that designates no live element was used -/
  defined : w.undefined = false
  allStopped : stopped w.log = (stops l.nodes).reverse
  allDestroyed : destroyed w.log = (l.nodes.map Node.addr).reverse
  empty : w.services.nodes = []
  posted : stopPosts w.log = 1

theorem stops_reverse (ns : List (Node Service)) : stops ns.reverse = (stops ns).reverse := by
  simp [stops, List.filter_reverse]

theorem stops_append (xs ys : List (Node Service)) : stops (xs ++ ys) = stops xs ++ stops ys := by
  simp [stops]

theorem mem_stops {ns : List (Node Service)} {a : Nat} :
    a ∈ stops ns ↔ ∃ n ∈ ns, n.val.stoppable = true ∧ n.addr = a := by
  simp [stops, and_assoc]

theorem stops_cons {n : Node Service} (hn : n.val.stoppable = true) (ns : List (Node Service)) :
    stops (n :: ns) = n.addr :: stops ns := by
  simp [stops, hn]

theorem stopped_teardown (ns : List (Node Service)) :
    stopped (ns.flatMap teardown : List (Entry ε)) = stops ns := by
  induction ns with
  | nil => rfl
  | cons n ns ih =>
      by_cases hn : n.val.stoppable = true
      · simpa [stopped, teardown, stops, hn] using ih
      · simpa [stopped, teardown, stops, hn] using ih

theorem destroyed_teardown (ns : List (Node Service)) :
    destroyed (ns.flatMap teardown : List (Entry ε)) = ns.map Node.addr := by
  induction ns with
  | nil => rfl
  | cons n ns ih =>
      by_cases hn : n.val.stoppable = true
      · simpa [destroyed, teardown, hn] using ih
      · simpa [destroyed, teardown, hn] using ih

/-- A service told to stop is stoppable, and nothing of its own precedes. -/
theorem asyncStop_of_teardown {n : Node Service} {p q : List (Entry ε)} {a : Nat}
    (h : teardown n = p ++ .asyncStop a :: q) :
    n.val.stoppable = true ∧ p = [] ∧ n.addr = a := by
  unfold teardown at h
  split at h
  · next hn =>
      match p with
      | [] =>
          simp only [List.nil_append, List.cons.injEq, Entry.asyncStop.injEq] at h
          exact ⟨hn, rfl, h.1⟩
      | [x] => simp at h
      | [x, y] => simp at h
      | x :: y :: z :: p => simp at h
  · cases p <;> simp at h

/-- A service is destroyed after it stopped, if it is stoppable. -/
theorem destroyed_of_teardown {n : Node Service} {p q : List (Entry ε)} {a : Nat}
    (h : teardown n = p ++ .destroyed a :: q) :
    n.addr = a ∧ (n.val.stoppable = true → .stopDone a ∈ p) := by
  unfold teardown at h
  split at h
  · match p with
    | [] => simp at h
    | [x] => simp at h
    | [x, y] =>
        simp only [List.cons_append, List.nil_append, List.cons.injEq, Entry.destroyed.injEq] at h
        obtain ⟨rfl, rfl, rfl, -⟩ := h
        exact ⟨rfl, fun _ => by simp⟩
    | x :: y :: z :: p => simp at h
  · next hn =>
      cases p with
      | nil =>
          simp only [List.nil_append, List.cons.injEq, Entry.destroyed.injEq] at h
          exact ⟨h.1, fun hn' => absurd hn' hn⟩
      | cons x p => simp at h

theorem stopDone_mem_teardown {ns : List (Node Service)} {a : Nat} (h : a ∈ stops ns) :
    .stopDone a ∈ (ns.flatMap teardown : List (Entry ε)) := by
  obtain ⟨n, hmem, hn, rfl⟩ := mem_stops.mp h
  exact List.mem_flatMap.mpr ⟨n, hmem, by simp [teardown, hn]⟩

/-- The nodes of a list read backwards have distinct addresses, and so have
the stoppable ones. -/
theorem nodup_reverse (l : NodeList Service) :
    (l.nodes.reverse.map Node.addr).Nodup ∧ (stops l.nodes.reverse).Nodup := by
  have hd : (l.nodes.reverse.map Node.addr).Nodup := by
    rw [List.map_reverse, List.nodup_reverse]
    exact l.distinct
  exact ⟨hd, hd.sublist (List.filter_sublist.map Node.addr)⟩

/-- Read backwards, a service registered later comes first. -/
theorem exists_reverse_of_after {l : NodeList Service} {a b : Nat} (h : After l b a) :
    ∃ us vs, stops l.nodes.reverse = us ++ a :: vs ∧ b ∈ us := by
  obtain ⟨us, vs, hsplit, hb⟩ := h
  refine ⟨vs.reverse, us.reverse, ?_, by simpa using hb⟩
  rw [stops_reverse, hsplit]
  simp

/-- What a stopper has done of the services still there: nothing, or it told
the next one to stop. -/
inductive Ahead : List (Node Service) → List (Entry ε) → Prop
  | nothing {todo : List (Node Service)} : Ahead todo []
  | told {n : Node Service} {ns : List (Node Service)} (hn : n.val.stoppable = true) :
      Ahead (n :: ns) [.asyncStop n.addr]

section Order

/- In the following lemmas the services `gone` are erased, the services `todo`
are still there, and `rest` is what was done of them. -/

variable {l : NodeList Service} {gone todo : List (Node Service)} {rest : List (Entry ε)}

theorem stopped_isPrefixOf (h : l.nodes.reverse = gone ++ todo) (hrest : Ahead todo rest) :
    stopped (gone.flatMap teardown ++ rest) <+: (stops l.nodes).reverse := by
  have hcalls : stopped (gone.flatMap teardown ++ rest) = stops gone ++ stopped rest := by
    rw [← stopped_teardown (ε := ε)]
    simp [stopped]
  have hcalled : stopped rest <+: stops todo := by
    cases hrest with
    | nothing => exact ⟨stops todo, rfl⟩
    | told hn =>
        rw [stops_cons hn]
        exact ⟨stops _, rfl⟩
  rw [hcalls, ← stops_reverse, h, stops_append]
  exact (List.prefix_append_right_inj _).mpr hcalled

theorem destroyed_isPrefixOf (h : l.nodes.reverse = gone ++ todo) (hrest : Ahead todo rest) :
    destroyed (gone.flatMap teardown ++ rest) <+: (l.nodes.map Node.addr).reverse := by
  have herased : destroyed (gone.flatMap teardown ++ rest) = gone.map Node.addr := by
    rw [← destroyed_teardown (ε := ε)]
    cases hrest <;> simp [destroyed]
  rw [herased, ← List.map_reverse, h, List.map_append]
  exact List.prefix_append _ _

/-- A service is told to stop after every stoppable one behind it stopped. -/
theorem stopDone_before_asyncStop (h : l.nodes.reverse = gone ++ todo) (hrest : Ahead todo rest)
    {pre post : List (Entry ε)} {a b : Nat}
    (hlog : gone.flatMap teardown ++ rest = pre ++ .asyncStop a :: post) (hb : After l b a) :
    .stopDone b ∈ pre := by
  obtain ⟨us, vs, hus, hmem⟩ := exists_reverse_of_after hb
  have hnodup := (nodup_reverse l).2
  have hsplit : stops l.nodes.reverse = stops gone ++ stops todo := by rw [h, stops_append]
  rcases flatMap_append_eq hlog with ⟨xs, m, ys, p, q, rfl, hm, rfl⟩ | ⟨mid, rfl, hmid⟩
  · obtain ⟨hstoppable, rfl, rfl⟩ := asyncStop_of_teardown hm
    rw [stops_append, stops_cons hstoppable, List.append_assoc, List.cons_append] at hsplit
    rw [eq_of_nodup_split hnodup hus hsplit] at hmem
    simpa using stopDone_mem_teardown hmem
  · cases hrest with
    | nothing => simp at hmid
    | told hn =>
        cases mid with
        | nil =>
            simp only [List.nil_append, List.cons.injEq, Entry.asyncStop.injEq] at hmid
            rw [stops_cons hn, hmid.1] at hsplit
            rw [eq_of_nodup_split hnodup hus hsplit] at hmem
            simpa using stopDone_mem_teardown hmem
        | cons x mid => simp at hmid

/-- A stoppable service is destroyed after it stopped. -/
theorem stopDone_before_destroyed (h : l.nodes.reverse = gone ++ todo) (hrest : Ahead todo rest)
    {pre post : List (Entry ε)} {a : Nat}
    (hlog : gone.flatMap teardown ++ rest = pre ++ .destroyed a :: post)
    (ha : a ∈ stops l.nodes) : .stopDone a ∈ pre := by
  rcases flatMap_append_eq hlog with ⟨xs, m, ys, p, q, rfl, hm, rfl⟩ | ⟨mid, rfl, hmid⟩
  · obtain ⟨rfl, hdone⟩ := destroyed_of_teardown hm
    obtain ⟨m', hm', hstoppable, haddr⟩ := mem_stops.mp ha
    have hlive : m ∈ l.nodes := by
      rw [← List.mem_reverse, h]
      simp
    have hsame : m' = m := List.inj_on_of_nodup_map l.distinct hm' hlive haddr
    subst hsame
    exact List.mem_append_right _ (hdone hstoppable)
  · cases hrest with
    | nothing => simp at hmid
    | told hn => cases mid <;> simp at hmid

/-- A stopper went in order so far. -/
theorem stopOrder_of (h : l.nodes.reverse = gone ++ todo) (hrest : Ahead todo rest) :
    StopOrder l (.stopBegan :: (gone.flatMap teardown ++ rest)) := by
  refine ⟨stopped_isPrefixOf h hrest, fun pre a post hlog b hb => ?_, destroyed_isPrefixOf h hrest,
    fun pre a post hlog ha => ?_⟩
  · obtain ⟨pre', rfl, hlog'⟩ := exists_of_cons_split (by simp) hlog
    exact List.mem_cons_of_mem _ (stopDone_before_asyncStop h hrest hlog' hb)
  · obtain ⟨pre', rfl, hlog'⟩ := exists_of_cons_split (by simp) hlog
    exact List.mem_cons_of_mem _ (stopDone_before_destroyed h hrest hlog' ha)

end Order

/-- Every phase of the stopper is in order. -/
theorem StopPhase.order {l l' : NodeList Service} {a : Nat} {s : Stopper} {log : List (Entry ε)}
    {undefined : Bool} (h : StopPhase l a l' s log undefined) :
    StopOrder l (.stopBegan :: log) := by
  cases h with
  | @waiting xs ys n h hl' hn =>
      have hsplit : l.nodes.reverse = ys.reverse ++ n :: xs.reverse := by rw [h]; simp
      exact stopOrder_of hsplit (.told hn)
  | ended hl' =>
      have hgone := stopOrder_of (ε := ε) (List.append_nil l.nodes.reverse).symm .nothing
      simpa using hgone

/-! ## the end of the walk -/

/-- Is the event the invocation of a stopper's handler? -/
def InventoryEvent.isStopDone : InventoryEvent ε → Bool
  | stopDone _ => true
  | _ => false

/-- No stopper's handler can be invoked any more. -/
def Exhausted (w : Inventory ε) : Prop := ∀ j, w.step (.stopDone j) = none

theorem Stopping.order {l : NodeList Service} {w : Inventory ε} (h : Stopping l [] w) :
    StopOrder l w.log := by
  obtain ⟨s, a, log, -, -, hlog, hphase⟩ := h
  rw [hlog]
  exact hphase.order

/-- While the stopper is in a phase, either its handler can be invoked, or the
behaviour is undefined. -/
theorem Stopping.undefined_of_exhausted {l : NodeList Service} {before : List (Entry ε)}
    {w : Inventory ε} (h : Stopping l before w) (hend : Exhausted w) : w.undefined = true := by
  obtain ⟨s, a, log, -, hs, -, hphase⟩ := h
  cases hdef : w.undefined with
  | true => rfl
  | false =>
      rw [hdef] at hphase
      have hstep := hend 0
      cases hphase with
      | waiting => simp [Inventory.step, hdef, Inventory.refuses, hs] at hstep

/-- Invoking handlers goes on until the behaviour is undefined. -/
theorem Stopping.exists_exhausted {l : NodeList Service} {before : List (Entry ε)}
    {w : Inventory ε} (h : Stopping l before w) :
    ∃ es w', (∀ e ∈ es, e.isStopDone = true) ∧ runs Inventory.step w es = some w' ∧
      Exhausted w' := by
  -- induction on the services left: every handler's return erases one
  induction hn : w.services.nodes.length using Nat.strong_induction_on generalizing w with
  | _ n ih =>
      by_cases hend : Exhausted w
      · exact ⟨[], w, by simp, rfl, hend⟩
      · simp only [Exhausted, not_forall] at hend
        obtain ⟨j, hj⟩ := hend
        obtain ⟨w₁, hw₁⟩ := Option.ne_none_iff_exists'.mp hj
        obtain ⟨hstopping, hlt⟩ := stopping_stopDone h hw₁
        obtain ⟨es, w', hes, hrun, hend'⟩ := ih _ (hn ▸ hlt) hstopping rfl
        refine ⟨.stopDone j :: es, w', ?_, by simp [hw₁, hrun], hend'⟩
        intro e he
        rcases List.mem_cons.mp he with rfl | he
        · rfl
        · exact hes e he

/-- Every state after `async_stop`, whenever handlers are invoked. -/
theorem stopping_of_runs {l : NodeList Service} {es : List (InventoryEvent ε)} {w : Inventory ε}
    (hne : l.nodes ≠ []) (hes : ∀ e ∈ es, e.isStopDone = true)
    (h : runs Inventory.step (Inventory.make l) (.asyncStop :: es) = some w) :
    Stopping l [] w := by
  have hcall : (Inventory.make l : Inventory ε).step .asyncStop = some (Inventory.make l).asyncStop :=
    rfl
  rw [runs_cons, hcall, Option.bind_some] at h
  refine (run_of_runs hes h).invariant (fun w e w' hw he hstep => ?_)
    (stopping_asyncStop (w := Inventory.make l) hne rfl)
  cases e with
  | stopDone j => exact (stopping_stopDone hw hstep).1
  | asyncInit | reload | asyncStop | initDone => simp [InventoryEvent.isStopDone] at he

/-- Teardowns never post the callback. -/
theorem stopPosts_teardown (ns : List (Node Service)) :
    stopPosts (ns.flatMap teardown : List (Entry ε)) = 0 := by
  simp only [stopPosts, List.countP_eq_zero, List.mem_flatMap]
  rintro e ⟨n, -, he⟩
  unfold teardown at he
  split at he <;> simp at he
  · rcases he with rfl | rfl | rfl <;> simp
  · simp [he]

/-- Once the behaviour of the stopper is undefined, every service is gone, and
the callback was not posted. -/
theorem Stopping.gone_of_undefined {l : NodeList Service} {w : Inventory ε} (h : Stopping l [] w)
    (hundef : w.undefined = true) : w.services.nodes = [] ∧ stopPosts w.log = 0 := by
  obtain ⟨s, a, log, -, -, hlog, hphase⟩ := h
  rw [hundef] at hphase
  cases hphase with
  | ended hl' =>
      refine ⟨hl', ?_⟩
      have hnone := stopPosts_teardown (ε := ε) l.nodes.reverse
      simpa [hlog, stopPosts] using hnone

/-- A stopper never brings its walk to an end. -/
theorem Stopping.not_stopsInOrder {l : NodeList Service} {w : Inventory ε}
    (h : Stopping l [] w) : ¬ StopsInOrder l w := by
  intro hin
  obtain ⟨s, a, log, -, -, -, hphase⟩ := h
  have hdef := hin.defined
  have hempty := hin.empty
  rw [hdef] at hphase
  cases hphase with
  | waiting _ hl' => simp [hl'] at hempty

/-- **Stopping**: `async_stop` goes through the services in the right order as
long as its behaviour is defined, but however the handlers are invoked it ends
in undefined behaviour, with the last service erased and no callback posted,
for every non-empty inventory. -/
theorem asyncStop_never_ends (l : NodeList Service) (hne : l.nodes ≠ []) :
    (∃ (es : List (InventoryEvent ε)) (w : Inventory ε), (∀ e ∈ es, e.isStopDone = true) ∧
      runs Inventory.step (Inventory.make l) (.asyncStop :: es) = some w ∧ Exhausted w) ∧
    ∀ (es : List (InventoryEvent ε)) (w : Inventory ε), (∀ e ∈ es, e.isStopDone = true) →
      runs Inventory.step (Inventory.make l) (.asyncStop :: es) = some w →
      StopOrder l w.log ∧ ¬ StopsInOrder l w ∧
        (Exhausted w → w.undefined = true ∧ w.services.nodes = [] ∧ stopPosts w.log = 0) := by
  constructor
  · have hcall : Stopping l [] (Inventory.make l : Inventory ε).asyncStop :=
      stopping_asyncStop (w := Inventory.make l) hne rfl
    obtain ⟨es, w, hes, hrun, hend⟩ := hcall.exists_exhausted
    exact ⟨es, w, hes, hrun, hend⟩
  · intro es w hes hrun
    have hstopping := stopping_of_runs hne hes hrun
    refine ⟨hstopping.order, hstopping.not_stopsInOrder, fun hend => ?_⟩
    have hundef := hstopping.undefined_of_exhausted hend
    exact ⟨hundef, hstopping.gone_of_undefined hundef⟩

/-- The services of the application are not stoppable: `async_stop` erases
them all at once, and then dereferences the end of the list. -/
theorem asyncStop_fails :
    ∃ w : Inventory Unit, runs Inventory.step (Inventory.make makeInventory) [.asyncStop] = some w ∧
      Exhausted w ∧ w.undefined = true ∧ ¬ StopsInOrder makeInventory w := by
  have hstopping : Stopping makeInventory [] (Inventory.make makeInventory : Inventory Unit).asyncStop :=
    stopping_asyncStop (w := Inventory.make makeInventory) (by simp [Inventory.make, makeInventory]) rfl
  have hundef : (Inventory.make makeInventory : Inventory Unit).asyncStop.undefined = true := by
    obtain ⟨s, a, log, -, -, -, hphase⟩ := hstopping
    cases hdef : (Inventory.make makeInventory : Inventory Unit).asyncStop.undefined with
    | true => rfl
    | false =>
        rw [hdef] at hphase
        cases hphase with
        | @waiting xs ys n h _ hn =>
            have hmem : n ∈ makeInventory.nodes := by rw [h]; simp
            simp only [makeInventory, List.mem_cons, List.not_mem_nil, or_false] at hmem
            rcases hmem with rfl | rfl | rfl <;> contradiction
  refine ⟨_, rfl, fun j => ?_, hundef, hstopping.not_stopsInOrder⟩
  simp [Inventory.step, hundef]

/-- An inventory of a stoppable service. -/
theorem asyncStop_never_ends_one :
    (∃ (es : List (InventoryEvent Unit)) (w : Inventory Unit), (∀ e ∈ es, e.isStopDone = true) ∧
      runs Inventory.step (Inventory.make ⟨[⟨0, ⟨none, false, true⟩⟩], by decide⟩)
        (.asyncStop :: es) = some w ∧ Exhausted w) ∧
    ∀ (es : List (InventoryEvent Unit)) (w : Inventory Unit), (∀ e ∈ es, e.isStopDone = true) →
      runs Inventory.step (Inventory.make ⟨[⟨0, ⟨none, false, true⟩⟩], by decide⟩)
        (.asyncStop :: es) = some w →
      StopOrder ⟨[⟨0, ⟨none, false, true⟩⟩], by decide⟩ w.log ∧
        ¬ StopsInOrder ⟨[⟨0, ⟨none, false, true⟩⟩], by decide⟩ w ∧
        (Exhausted w → w.undefined = true ∧ w.services.nodes = [] ∧ stopPosts w.log = 0) :=
  asyncStop_never_ends _ (by simp)

end LearnWords

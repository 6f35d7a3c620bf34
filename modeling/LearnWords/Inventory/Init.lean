import Mathlib.Data.List.TakeWhile
import LearnWords.Lib.Logs
import LearnWords.Inventory

/-!
# LearnWords.Inventory.Init

One call of `inventory::async_init`, and the services' handlers invoked one by
one at any later time.

`InitPhase` pairs the initializer with the log it leaves: it is waiting for a
service, all of whose predecessors reported success, or it has posted the
callback.  Each run of `initializer::start` moves from one phase to the next
(`start_phase`, `initDone_phase`), and the order, the exactly-once and the
stop-on-error properties are read off the logs of the phases.
-/

namespace LearnWords

open Machine NodeList Logs

variable {ε : Type}

/-- The addresses of the initializable services among some nodes. -/
def inits (ns : List (Node Service)) : List Nat :=
  (ns.filter fun n => n.val.initializable).map Node.addr

/-- The log of services that were started and reported success. -/
def succeeded (as : List Nat) : List (Entry ε) :=
  as.flatMap fun a => [.asyncInit a, .initDone a none]

/-- Where an initializer over `l` can be, and the log it leaves. -/
inductive InitPhase (l : NodeList Service) : Initializer → List (Entry ε) → Prop
  /-- the service `n` was started -/
  | waiting {xs ys : List (Node Service)} {n : Node Service} (h : l.nodes = xs ++ n :: ys)
      (hn : n.val.initializable = true) :
      InitPhase l ⟨iteratorTo ys, none, some n.addr⟩
        (succeeded (inits xs) ++ [.asyncInit n.addr])
  /-- every service reported success -/
  | succeeded :
      InitPhase l ⟨none, none, none⟩ (succeeded (inits l.nodes) ++ [.initPosted none])
  /-- the service `n` failed -/
  | failed {xs ys : List (Node Service)} {n : Node Service} (ep : ε) (h : l.nodes = xs ++ n :: ys)
      (hn : n.val.initializable = true) :
      InitPhase l ⟨iteratorTo ys, none, none⟩
        (succeeded (inits xs) ++
          [.asyncInit n.addr, .initDone n.addr (some ep), .initPosted (some ep)])

/-! ## one run of the initializer -/

theorem inits_append (xs ys : List (Node Service)) : inits (xs ++ ys) = inits xs ++ inits ys := by
  simp [inits]

theorem inits_cons {n : Node Service} (hn : n.val.initializable = true) (ys : List (Node Service)) :
    inits (n :: ys) = n.addr :: inits ys := by
  simp [inits, hn]

/-- Services of other kinds are skipped. -/
theorem inits_takeWhile (ys : List (Node Service)) :
    inits (ys.takeWhile fun n => !n.val.initializable) = [] := by
  have hnone : (ys.takeWhile fun n => !n.val.initializable).filter
      (fun n => n.val.initializable) = [] := by
    rw [List.filter_eq_nil_iff]
    intro n hn
    have := List.mem_takeWhile_imp hn
    simpa using this
  simp [inits, hnone]

/-- An initializer about to look at `ys`, after the services of `xs` reported
success, enters a phase. -/
theorem start_phase {l : NodeList Service} {s : Initializer} {xs ys : List (Node Service)}
    (h : l.nodes = xs ++ ys) (hbegin : s.begin_ = iteratorTo ys) (hend : s.end_ = none) :
    ∃ s' entries, s.start l (none : Option ε) = some (s', entries) ∧
      InitPhase l s' (succeeded (inits xs) ++ entries) := by
  rw [Initializer.start_none h hbegin hend]
  have hsplit : l.nodes = (xs ++ ys.takeWhile fun n => !n.val.initializable) ++
      ys.dropWhile fun n => !n.val.initializable := by
    rw [List.append_assoc, List.takeWhile_append_dropWhile, h]
  have hinits : inits (xs ++ ys.takeWhile fun n => !n.val.initializable) = inits xs := by
    rw [inits_append, inits_takeWhile, List.append_nil]
  cases hrest : ys.dropWhile fun n => !n.val.initializable with
  | nil =>
      rw [hrest, List.append_nil] at hsplit
      refine ⟨_, _, rfl, ?_⟩
      rw [← hinits, ← hsplit]
      exact .succeeded
  | cons n rest =>
      rw [hrest] at hsplit
      have hn : n.val.initializable = true := by
        have := List.head?_dropWhile_not (fun n : Node Service => !n.val.initializable) ys
        rw [hrest] at this
        simpa using this
      refine ⟨_, _, rfl, ?_⟩
      rw [← hinits]
      exact .waiting hsplit hn

theorem succeeded_concat (as : List Nat) (a : Nat) :
    (succeeded (as ++ [a]) : List (Entry ε)) =
      succeeded as ++ [.asyncInit a, .initDone a none] := by
  simp [succeeded]

/-- When the handler of the awaited service is invoked, the initializer goes
from one phase to the next. -/
theorem initDone_phase {l : NodeList Service} {s : Initializer} {log : List (Entry ε)} {a : Nat}
    (h : InitPhase l s log) (hs : s.waiting = some a) (ep : Option ε) :
    ∃ s' entries, s.start l ep = some (s', entries) ∧
      InitPhase l s' (log ++ [.initDone a ep] ++ entries) := by
  cases h with
  | @waiting xs ys n h hn =>
      simp only [Option.some.injEq] at hs
      subst hs
      cases ep with
      | some ep =>
          refine ⟨_, _, Initializer.start_some l _ ep, ?_⟩
          simpa using InitPhase.failed ep h hn
      | none =>
          have hsplit : l.nodes = (xs ++ [n]) ++ ys := by rw [h]; simp
          obtain ⟨s', entries, hstart, hphase⟩ :=
            start_phase (ε := ε) (s := ⟨iteratorTo ys, none, some n.addr⟩) hsplit rfl rfl
          refine ⟨s', entries, hstart, ?_⟩
          have hinits : inits (xs ++ [n]) = inits xs ++ [n.addr] := by
            rw [inits_append, inits_cons hn]; rfl
          rw [hinits, succeeded_concat] at hphase
          simpa using hphase
  | succeeded => contradiction
  | failed => contradiction

/-! ## runs -/

/-- An inventory whose only walker is an initializer over `l`. -/
structure Initializing (l : NodeList Service) (w : Inventory ε) : Prop where
  services : w.services = l
  noStopper : w.stoppers = []
  defined : w.undefined = false
  phase : ∃ s, w.initializers = [s] ∧ InitPhase l s w.log

/-- `async_init` on a fresh inventory. -/
theorem initializing_asyncInit {l : NodeList Service} {w : Inventory ε}
    (h : (Inventory.make l).step .asyncInit = some w) : Initializing l w := by
  obtain ⟨-, -, rfl⟩ := Inventory.step_asyncInit h
  obtain ⟨s', entries, hstart, hphase⟩ :=
    start_phase (ε := ε) (s := ⟨l.first, none, none⟩) (l.nodes.nil_append.symm) rfl rfl
  simp only [Inventory.asyncInit, Inventory.make, Inventory.runInitializer, hstart]
  exact ⟨rfl, rfl, rfl, s', by simp, by simpa [inits, LearnWords.succeeded] using hphase⟩

/-- Invoking a handler keeps the initializer in a phase. -/
theorem initializing_initDone {l : NodeList Service} {w w' : Inventory ε} {i : Nat}
    {ep : Option ε} (hw : Initializing l w) (h : w.step (.initDone i ep) = some w') :
    Initializing l w' := by
  obtain ⟨hl, hstop, hdef, s, hs, hphase⟩ := hw
  obtain ⟨s₀, a, hi, hwaiting, rfl⟩ := Inventory.step_initDone h
  rw [hs, List.getElem?_singleton] at hi
  split at hi
  · next hzero =>
      cases hi
      subst hzero
      obtain ⟨s', entries, hstart, hphase'⟩ := initDone_phase hphase hwaiting ep
      simp only [Inventory.note, Inventory.runInitializer, hl, hstart]
      exact ⟨rfl, hstop, hdef, s', by simp [hs], hphase'⟩
  · contradiction

/-- Is the event the invocation of an initializer's handler? -/
def InventoryEvent.isInitDone : InventoryEvent ε → Bool
  | initDone _ _ => true
  | _ => false

/-- Every state after `async_init`, whenever handlers are invoked. -/
theorem initializing_of_runs {l : NodeList Service} {es : List (InventoryEvent ε)}
    {w : Inventory ε} (hes : ∀ e ∈ es, e.isInitDone = true)
    (h : runs Inventory.step (Inventory.make l) (.asyncInit :: es) = some w) :
    Initializing l w := by
  rw [runs_cons] at h
  obtain ⟨w₀, hcall, hrest⟩ := Option.bind_eq_some_iff.mp h
  refine (run_of_runs hes hrest).invariant (fun w e w' hw he hstep => ?_)
    (initializing_asyncInit hcall)
  cases e with
  | initDone i ep => exact initializing_initDone hw hstep
  | asyncInit | reload | asyncStop | stopDone => simp [InventoryEvent.isInitDone] at he

/-! ## what the log shows -/

/-- The services started, in order. -/
def started (log : List (Entry ε)) : List Nat :=
  log.filterMap fun
    | .asyncInit a => some a
    | _ => none

/-- What the callback of `async_init` was posted with, every time. -/
def posted (log : List (Entry ε)) : List (Option ε) :=
  log.filterMap fun
    | .initPosted ep => some ep
    | _ => none

/-- What the started services of `l` began. -/
def initActions (l : NodeList Service) (log : List (Entry ε)) : List InitAction :=
  (started log).flatMap fun a => ((l.get? (some a)).bind fun n => n.val.asyncInit).getD []

/-- The service at `b` is initializable and registered before the one at `a`. -/
def Before (l : NodeList Service) (b a : Nat) : Prop :=
  ∃ us vs, inits l.nodes = us ++ a :: vs ∧ b ∈ us

/-- `async_init` does what it is for. -/
structure InitInOrder (l : NodeList Service) (w : Inventory ε) : Prop where
  /-- services are started in registration order -/
  order : started w.log <+: inits l.nodes
  /-- each at most once -/
  once : (started w.log).Nodup
  /-- and only after every service before it reported success -/
  afterSuccess : ∀ pre a post, w.log = pre ++ .asyncInit a :: post →
    ∀ b, Before l b a → .initDone b none ∈ pre
  /-- nothing is posted while a handler is awaited -/
  quiet : w.Pending → posted w.log = []
  /-- if all succeed, all were started, and null is posted once -/
  success : ¬ w.Pending → (∀ a ep, .initDone a ep ∈ w.log → ep = none) →
    started w.log = inits l.nodes ∧ posted w.log = [none]
  /-- if one fails, nothing after it is ever started, and its exception is
  posted once -/
  failure : ∀ a ep, .initDone a (some ep) ∈ w.log →
    (∃ us vs, inits l.nodes = us ++ a :: vs ∧ started w.log = us ++ [a]) ∧
      posted w.log = [some ep]

@[simp] theorem started_append (log log' : List (Entry ε)) :
    started (log ++ log') = started log ++ started log' := by simp [started]

@[simp] theorem posted_append (log log' : List (Entry ε)) :
    posted (log ++ log') = posted log ++ posted log' := by simp [posted]

@[simp] theorem started_succeeded (as : List Nat) :
    started (succeeded as : List (Entry ε)) = as := by
  induction as with
  | nil => rfl
  | cons a as ih =>
      have hcons : (succeeded (a :: as) : List (Entry ε)) =
        .asyncInit a :: .initDone a none :: succeeded as := rfl
      rw [hcons]
      simpa [started] using ih

@[simp] theorem posted_succeeded (as : List Nat) :
    posted (succeeded as : List (Entry ε)) = [] := by
  simp only [posted, succeeded, List.filterMap_eq_nil_iff, List.mem_flatMap, List.mem_cons,
    List.not_mem_nil, or_false]
  rintro x ⟨a, -, rfl | rfl⟩ <;> rfl

theorem initDone_mem_succeeded {as : List Nat} {a : Nat} {ep : Option ε} :
    .initDone a ep ∈ (succeeded as : List (Entry ε)) ↔ a ∈ as ∧ ep = none := by
  simp only [succeeded, List.mem_flatMap, List.mem_cons, List.not_mem_nil, or_false, reduceCtorEq,
    false_or, Entry.initDone.injEq]
  constructor
  · rintro ⟨b, hb, rfl, rfl⟩
    exact ⟨hb, rfl⟩
  · rintro ⟨ha, rfl⟩
    exact ⟨a, ha, rfl, rfl⟩

/-- The initializable services have distinct addresses. -/
theorem nodup_inits (l : NodeList Service) : (inits l.nodes).Nodup :=
  l.distinct.sublist (List.filter_sublist.map Node.addr)

/-- The order property of a log whose unfinished part starts at most the
service behind those that succeeded. -/
theorem afterSuccess_of {l : NodeList Service} {as vs : List Nat} {rest : List (Entry ε)}
    {log : List (Entry ε)} (hlog : log = succeeded as ++ rest) (has : inits l.nodes = as ++ vs)
    (hrest : ∀ mid a post, rest = mid ++ .asyncInit a :: post → mid = [] ∧ ∃ ws, vs = a :: ws) :
    ∀ pre a post, log = pre ++ .asyncInit a :: post →
      ∀ b, Before l b a → .initDone b none ∈ pre := by
  intro pre a post h b ⟨us, ws, hus, hb⟩
  have hd := nodup_inits l
  rw [hlog, succeeded] at h
  rcases flatMap_append_eq h with ⟨us', a', vs', p, q, rfl, hp, rfl⟩ | ⟨mid, rfl, hmid⟩
  · have hblock : p = [] ∧ a' = a := by
      cases p with
      | nil =>
          simp only [List.nil_append, List.cons.injEq, Entry.asyncInit.injEq] at hp
          exact ⟨rfl, hp.1⟩
      | cons x p => cases p <;> simp at hp
    obtain ⟨rfl, rfl⟩ := hblock
    rw [List.append_assoc, List.cons_append] at has
    rw [eq_of_nodup_split hd hus has] at hb
    rw [List.append_nil]
    exact initDone_mem_succeeded.mpr ⟨hb, rfl⟩
  · obtain ⟨rfl, ws', rfl⟩ := hrest mid a post hmid
    rw [eq_of_nodup_split hd hus has] at hb
    exact List.mem_append_left _ (initDone_mem_succeeded.mpr ⟨hb, rfl⟩)

/-! ## what a phase shows -/

section Phase

variable {l : NodeList Service} {s : Initializer} {log : List (Entry ε)}

theorem inits_split {xs ys : List (Node Service)} {n : Node Service} (h : l.nodes = xs ++ n :: ys)
    (hn : n.val.initializable = true) : inits l.nodes = inits xs ++ n.addr :: inits ys := by
  rw [h, inits_append, inits_cons hn]

theorem InitPhase.order (h : InitPhase l s log) : started log <+: inits l.nodes := by
  cases h with
  | @waiting xs ys n hnodes hn | @failed xs ys n ep hnodes hn =>
      rw [started_append, started_succeeded, inits_split hnodes hn]
      exact ⟨inits ys, by simp [started]⟩
  | succeeded =>
      rw [started_append, started_succeeded]
      simp [started]

theorem InitPhase.afterSuccess (h : InitPhase l s log) :
    ∀ pre a post, log = pre ++ .asyncInit a :: post →
      ∀ b, Before l b a → .initDone b none ∈ pre := by
  cases h with
  | @waiting xs ys n hnodes hn =>
      refine afterSuccess_of rfl (inits_split hnodes hn) fun mid a post hmid => ?_
      cases mid with
      | nil =>
          simp only [List.nil_append, List.cons.injEq, Entry.asyncInit.injEq] at hmid
          exact ⟨rfl, _, by rw [hmid.1]⟩
      | cons x mid => simp at hmid
  | succeeded =>
      refine afterSuccess_of rfl (List.append_nil _).symm fun mid a post hmid => ?_
      cases mid <;> simp at hmid
  | @failed xs ys n ep hnodes hn =>
      refine afterSuccess_of rfl (inits_split hnodes hn) fun mid a post hmid => ?_
      match mid with
      | [] =>
          simp only [List.nil_append, List.cons.injEq, Entry.asyncInit.injEq] at hmid
          exact ⟨rfl, _, by rw [hmid.1]⟩
      | [x] => simp at hmid
      | [x, y] => simp at hmid
      | x :: y :: z :: mid => simp at hmid

/-- While a handler is awaited nothing has been posted. -/
theorem InitPhase.quiet (h : InitPhase l s log) (hpending : s.waiting ≠ none) :
    posted log = [] := by
  cases h with
  | waiting =>
      rw [posted_append, posted_succeeded]
      rfl
  | succeeded | failed => exact absurd rfl hpending

theorem InitPhase.success (h : InitPhase l s log) (hdone : s.waiting = none)
    (hall : ∀ a ep, .initDone a ep ∈ log → ep = none) :
    started log = inits l.nodes ∧ posted log = [none] := by
  cases h with
  | waiting => contradiction
  | succeeded =>
      rw [started_append, started_succeeded, posted_append, posted_succeeded]
      exact ⟨by simp [started], rfl⟩
  | @failed xs ys n ep =>
      have hnone := hall n.addr (some ep) (by simp)
      contradiction

theorem InitPhase.failure (h : InitPhase l s log) {a : Nat} {ep : ε}
    (hfailed : .initDone a (some ep) ∈ log) :
    (∃ us vs, inits l.nodes = us ++ a :: vs ∧ started log = us ++ [a]) ∧
      posted log = [some ep] := by
  cases h with
  | waiting | succeeded => simp [initDone_mem_succeeded] at hfailed
  | @failed xs ys n ep' hnodes hn =>
      simp only [List.mem_append, initDone_mem_succeeded, reduceCtorEq, and_false,
        List.mem_cons, Entry.initDone.injEq, Option.some.injEq, List.not_mem_nil, or_false,
        false_or] at hfailed
      obtain ⟨rfl, rfl⟩ := hfailed
      rw [started_append, started_succeeded, posted_append, posted_succeeded]
      exact ⟨⟨_, _, inits_split hnodes hn, rfl⟩, rfl⟩

end Phase

/-- The single initializer decides whether a handler is awaited. -/
theorem pending_iff {w : Inventory ε} {s : Initializer} (hs : w.initializers = [s])
    (hstop : w.stoppers = []) : w.Pending ↔ s.waiting ≠ none := by
  simp [Inventory.Pending, hs, hstop]

/-- Every phase of the initializer is in order. -/
theorem initInOrder_of_initializing {l : NodeList Service} {w : Inventory ε}
    (h : Initializing l w) : InitInOrder l w := by
  obtain ⟨-, hstop, -, s, hs, hphase⟩ := h
  have hpend := pending_iff hs hstop
  exact {
    order := hphase.order
    once := (nodup_inits l).sublist hphase.order.sublist
    afterSuccess := hphase.afterSuccess
    quiet := fun hp => hphase.quiet (hpend.mp hp)
    success := fun hp hall => hphase.success (not_not.mp (hpend.not.mp hp)) hall
    failure := fun _ _ hfailed => hphase.failure hfailed }

/-! ## the application -/

/-- Among the services of `make_inventory` only `user_dialog` asks for an
update. -/
theorem asyncResume_mem_initActions {log : List (Entry ε)}
    (h : .asyncResume ∈ initActions makeInventory log) : 2 ∈ started log := by
  obtain ⟨a, ha, hmem⟩ := List.mem_flatMap.mp h
  match a with
  | 0 => exact absurd hmem (by decide)
  | 1 => exact absurd hmem (by decide)
  | 2 => exact ha
  | a + 3 =>
      simp [NodeList.get?, NodeList.suffix, makeInventory] at hmem

/-- **Initialisation**: one call of `async_init` starts the initializable
services in registration order, each after the success of those before it, and
posts its callback once with the right outcome; and of the application's
services, `user_dialog` asks for its first update only after Telegram and the
database reported success. -/
theorem asyncInit_inOrder (l : NodeList Service) (es : List (InventoryEvent ε)) (w : Inventory ε)
    (hes : ∀ e ∈ es, e.isInitDone = true)
    (h : runs Inventory.step (Inventory.make l) (.asyncInit :: es) = some w) :
    InitInOrder l w ∧
      (l = makeInventory → .asyncResume ∈ initActions l w.log →
        .initDone 0 none ∈ w.log ∧ .initDone 1 none ∈ w.log) := by
  have hin := initInOrder_of_initializing (initializing_of_runs hes h)
  refine ⟨hin, ?_⟩
  rintro rfl hasked
  obtain ⟨e, hmem, he⟩ := List.mem_filterMap.mp (asyncResume_mem_initActions hasked)
  have hentry : e = .asyncInit 2 := by
    cases e <;> simp_all
  subst hentry
  obtain ⟨pre, post, hlog⟩ := List.append_of_mem hmem
  have hsplit : inits makeInventory.nodes = [0, 1] ++ 2 :: [] := by decide
  have h0 := hin.afterSuccess pre 2 post hlog 0 ⟨[0, 1], [], hsplit, by simp⟩
  have h1 := hin.afterSuccess pre 2 post hlog 1 ⟨[0, 1], [], hsplit, by simp⟩
  rw [hlog]
  exact ⟨List.mem_append_left _ h0, List.mem_append_left _ h1⟩

/-- What is seen of the application's services when the database fails. -/
def databaseFails : List (Entry Unit) :=
  [.asyncInit 0, .initDone 0 none, .asyncInit 1, .initDone 1 (some ()), .initPosted (some ())]

/-- And when all of them succeed. -/
def allSucceed : List (Entry Unit) :=
  [.asyncInit 0, .initDone 0 none, .asyncInit 1, .initDone 1 none, .asyncInit 2, .initDone 2 none,
    .initPosted none]

/-- Only in the second case `user_dialog` asks for an update. -/
theorem asyncInit_inOrder_application :
    InitInOrder makeInventory ⟨makeInventory, .init, [⟨some 2, none, none⟩], [], databaseFails, false⟩ ∧
    .asyncResume ∉ initActions makeInventory databaseFails ∧
    InitInOrder makeInventory ⟨makeInventory, .init, [⟨none, none, none⟩], [], allSucceed, false⟩ ∧
    .asyncResume ∈ initActions makeInventory allSucceed ∧
    .initDone 0 none ∈ allSucceed ∧ .initDone 1 none ∈ allSucceed := by
  have hasked : .asyncResume ∈ initActions makeInventory allSucceed := by decide
  have hfails := asyncInit_inOrder (ε := Unit) makeInventory [.initDone 0 none, .initDone 0 (some ())]
    ⟨makeInventory, .init, [⟨some 2, none, none⟩], [], databaseFails, false⟩
    (by simp [InventoryEvent.isInitDone]) rfl
  have hsucceeds := asyncInit_inOrder (ε := Unit) makeInventory
    [.initDone 0 none, .initDone 0 none, .initDone 0 none]
    ⟨makeInventory, .init, [⟨none, none, none⟩], [], allSucceed, false⟩
    (by simp [InventoryEvent.isInitDone]) rfl
  exact ⟨hfails.1, by decide, hsucceeds.1, hasked, hsucceeds.2 rfl hasked⟩

end LearnWords

import LearnWords.Lib.Machine
import LearnWords.Lib.NodeList

/-!
# LearnWords.Inventory

`inventory`, the list of the application's services, with its two walkers:
the `initializer`, which starts the initializable services one after the
other, and the `stopper`, which stops and erases the services in reverse.

Both walk the list by iterators (`LearnWords.Lib.NodeList`) and suspend at
every service they start or stop until the service calls their handler back;
several walkers may be under way at once.  `Inventory.step` is one event: a
call of one of the three operations, or the invocation of a handler.  Where
the code dereferences, advances or erases through an iterator that designates
no live element the behaviour is undefined; `undefined` records this, and
nothing happens after it.

The log keeps what an observer of the services sees, in order.
-/

namespace LearnWords

open NodeList

/-- What the `async_init` of a service starts. -/
inductive InitAction where
  | asyncConnect
  | connectDatabase
  | asyncResume
  | postCallback
deriving DecidableEq

/-- A service: which of the service interfaces it implements, and what its
`async_init` starts. -/
structure Service where
  asyncInit : Option (List InitAction)
  reloadable : Bool
  stoppable : Bool

/-- `dynamic_cast<initializable_service_base *>`. -/
def Service.initializable (s : Service) : Bool := s.asyncInit.isSome

/-- `inventory::state`. -/
inductive InventoryState where
  | init
  | inProgress
  | stopping
deriving DecidableEq

/-- What is seen of the services; `a` is the address of a service's node. -/
inductive Entry (ε : Type) where
  /-- `async_init` of a service is called -/
  | asyncInit (a : Nat)
  /-- the handler of that call is invoked -/
  | initDone (a : Nat) (ep : Option ε)
  /-- the callback of `inventory::async_init` is posted -/
  | initPosted (ep : Option ε)
  | reload (a : Nat)
  /-- `inventory::async_stop` begins -/
  | stopBegan
  | asyncStop (a : Nat)
  | stopDone (a : Nat)
  /-- a service is erased from the list, and destroyed -/
  | destroyed (a : Nat)
  /-- the callback of `inventory::async_stop` is posted -/
  | stopPosted
deriving DecidableEq

/-- `initializer`; `waiting` is the service whose handler will resume it. -/
structure Initializer where
  begin_ : Iterator
  end_ : Iterator
  waiting : Option Nat

/-- `stopper`; `waiting` is the service whose handler will resume it. -/
structure Stopper where
  begin_ : RevIterator
  end_ : RevIterator
  waiting : Option Nat

/-! ## the walkers -/

variable {ε : Type}

/-- `initializer::start`: the walker and what it did, `none` if undefined. -/
def Initializer.start (l : NodeList Service) (s : Initializer) :
    Option ε → Option (Initializer × List (Entry ε))
  | some ep => some ({ s with waiting := none }, [.initPosted (some ep)])
  | none =>
      match l.findIf Service.initializable s.begin_ with
      | none => none
      | some it =>
          if it = s.end_ then
            some ({ s with begin_ := it, waiting := none }, [.initPosted none])
          else match l.get? it, l.next it with
            | some svc, some after =>
                some ({ s with begin_ := after, waiting := some svc.addr }, [.asyncInit svc.addr])
            | _, _ => none

/-- Where a run of the `stopper` ends: the list and the walker it leaves, what
it did, and whether the behaviour became undefined. -/
structure StopWalk (ε : Type) where
  services : NodeList Service
  stopper : Stopper
  entries : List (Entry ε)
  undefined : Bool

/-- A walk that did `e` first. -/
def StopWalk.after (e : Entry ε) (r : StopWalk ε) : StopWalk ε :=
  { r with entries := e :: r.entries }

/-- `stopper::start`: the loop that erases services until one has to be
stopped or the saved end is reached. -/
def Stopper.start (l : NodeList Service) (s : Stopper) : StopWalk ε :=
  if s.begin_ = s.end_ then ⟨l, { s with waiting := none }, [.stopPosted], false⟩
  else match l.rget? s.begin_ with
    | none => ⟨l, { s with waiting := none }, [], true⟩
    | some svc =>
        if svc.val.stoppable then
          ⟨l, { s with waiting := some svc.addr }, [.asyncStop svc.addr], false⟩
        else match _h : l.rerase s.begin_ with
          | none => ⟨l, { s with waiting := none }, [], true⟩
          | some (n, l', rit) =>
              (Stopper.start l' { s with begin_ := rit }).after (.destroyed n.addr)
termination_by l.nodes.length
decreasing_by exact length_of_rerase _h

/-- `stopper::on_stopped`. -/
def Stopper.onStopped (l : NodeList Service) (s : Stopper) : StopWalk ε :=
  match l.rerase s.begin_ with
  | none => ⟨l, { s with waiting := none }, [], true⟩
  | some (n, l', rit) => (Stopper.start l' { s with begin_ := rit }).after (.destroyed n.addr)

/-! ## the inventory -/

/-- `inventory`, with its walkers and what was seen of its services. -/
structure Inventory (ε : Type) where
  services : NodeList Service
  state : InventoryState
  initializers : List Initializer
  stoppers : List Stopper
  log : List (Entry ε)
  undefined : Bool

/-- What happens to an inventory: a call, or the invocation of the handler
the walker numbered `i` waits for. -/
inductive InventoryEvent (ε : Type) where
  | asyncInit
  | reload
  | asyncStop
  | initDone (i : Nat) (ep : Option ε)
  | stopDone (j : Nat)

namespace Inventory

/-- `inventory::inventory`. -/
def make (services : NodeList Service) : Inventory ε :=
  ⟨services, .init, [], [], [], false⟩

/-- Note what is seen. -/
def note (w : Inventory ε) (e : Entry ε) : Inventory ε := { w with log := w.log ++ [e] }

/-- Run the initializer `s`, numbered `i`. -/
def runInitializer (w : Inventory ε) (i : Nat) (s : Initializer) (ep : Option ε) : Inventory ε :=
  match s.start w.services ep with
  | none =>
      { w with initializers := w.initializers.set i { s with waiting := none }, undefined := true }
  | some (s', entries) =>
      { w with initializers := w.initializers.set i s', log := w.log ++ entries }

/-- Take over where a run of the stopper numbered `j` ended. -/
def endStopper (w : Inventory ε) (j : Nat) (r : StopWalk ε) : Inventory ε :=
  { w with
    services := r.services
    stoppers := w.stoppers.set j r.stopper
    log := w.log ++ r.entries
    undefined := r.undefined }

/-- Does the call fail the check the code makes of the inventory's state?
Only `async_init` makes one. -/
def refuses (w : Inventory ε) : InventoryEvent ε → Bool
  | .asyncInit => w.state ≠ .init
  | _ => false

/-- `inventory::async_init`. -/
def asyncInit (w : Inventory ε) : Inventory ε :=
  let s : Initializer := ⟨w.services.first, none, none⟩
  let w' := { w with initializers := w.initializers ++ [s] }
  w'.runInitializer w.initializers.length s none

/-- `inventory::reload`. -/
def reload (w : Inventory ε) : Inventory ε :=
  { w with log := w.log ++
      (w.services.nodes.filter fun n => n.val.reloadable).map fun n => .reload n.addr }

/-- `inventory::async_stop`. -/
def asyncStop (w : Inventory ε) : Inventory ε :=
  let s : Stopper := ⟨w.services.rbegin, w.services.rend, none⟩
  let w' := { w.note .stopBegan with stoppers := w.stoppers ++ [s] }
  w'.endStopper w.stoppers.length (s.start w.services)

/-- One event; a refused call and a handler nobody waits for are impossible,
and nothing is possible once the behaviour is undefined. -/
def step (w : Inventory ε) (e : InventoryEvent ε) : Option (Inventory ε) :=
  if w.undefined || w.refuses e then none
  else match e with
    | .asyncInit => some w.asyncInit
    | .reload => some w.reload
    | .asyncStop => some w.asyncStop
    | .initDone i ep =>
        match w.initializers[i]? with
        | some ⟨b, e, some a⟩ =>
            some ((w.note (.initDone a ep)).runInitializer i ⟨b, e, some a⟩ ep)
        | _ => none
    | .stopDone j =>
        match w.stoppers[j]? with
        | some ⟨b, e, some a⟩ =>
            some ((w.note (.stopDone a)).endStopper j
              (Stopper.onStopped w.services ⟨b, e, some a⟩))
        | _ => none

/-- Some walker waits for a handler. -/
def Pending (w : Inventory ε) : Prop :=
  (∃ s ∈ w.initializers, s.waiting ≠ none) ∨ (∃ s ∈ w.stoppers, s.waiting ≠ none)

end Inventory

/-! ## the services of the application -/

/-- `service::tg`: `async_init` connects to Telegram. -/
def tg : Service := ⟨some [.asyncConnect], false, false⟩

/-- `service::db`: `async_init` connects to MySQL and prepares the database. -/
def db : Service := ⟨some [.connectDatabase], false, false⟩

/-- `service::user_dialog`: `async_init` asks for the first update and posts
its callback. -/
def userDialog : Service := ⟨some [.asyncResume, .postCallback], false, false⟩

/-- `make_inventory`. -/
def makeInventory : NodeList Service where
  nodes := [⟨0, tg⟩, ⟨1, db⟩, ⟨2, userDialog⟩]
  distinct := by decide

/-! ## what the walkers do -/

/-- A failed service ends the initializer. -/
theorem Initializer.start_some (l : NodeList Service) (s : Initializer) (ep : ε) :
    s.start l (some ep) = some ({ s with waiting := none }, [.initPosted (some ep)]) := rfl

/-- An initializer about to look at the nodes `ys` starts the first
initializable service among them, and stands behind it; without one it
reports success. -/
theorem Initializer.start_none {l : NodeList Service} {s : Initializer} {xs ys : List (Node Service)}
    (h : l.nodes = xs ++ ys) (hbegin : s.begin_ = iteratorTo ys) (hend : s.end_ = none) :
    s.start l (none : Option ε) =
      match ys.dropWhile fun n => !n.val.initializable with
      | [] => some (⟨none, none, none⟩, [.initPosted none])
      | n :: rest => some (⟨iteratorTo rest, none, some n.addr⟩, [.asyncInit n.addr]) := by
  have hfind := findIf_iteratorTo Service.initializable h
  have hsplit : l.nodes = (xs ++ ys.takeWhile fun n => !n.val.initializable) ++
      ys.dropWhile fun n => !n.val.initializable := by
    rw [List.append_assoc, List.takeWhile_append_dropWhile, h]
  simp only [Initializer.start, hbegin, hfind, hend]
  cases hrest : ys.dropWhile fun n => !n.val.initializable with
  | nil => simp [iteratorTo]
  | cons n rest =>
      rw [hrest] at hsplit
      have hget : l.get? (some n.addr) = some n := by
        have hs : l.suffix (some n.addr) = n :: rest := suffix_iteratorTo hsplit
        simp [NodeList.get?, hs]
      have hnext := next_iteratorTo hsplit
      simp [iteratorTo, hget, hnext]

/-- A stopper whose saved end is not the end of the list erases services from
the back until one has to be stopped; where none has, it ends in undefined
behaviour. -/
theorem Stopper.start_eq (l : NodeList Service) (a : Nat) (x : Option Nat) :
    (Stopper.start l ⟨⟨none⟩, ⟨some a⟩, x⟩ : StopWalk ε) =
      match l.nodes.getLast? with
      | none => ⟨l, ⟨⟨none⟩, ⟨some a⟩, none⟩, [], true⟩
      | some n =>
          if n.val.stoppable then
            ⟨l, ⟨⟨none⟩, ⟨some a⟩, some n.addr⟩, [.asyncStop n.addr], false⟩
          else (Stopper.start (l.erase n.addr) ⟨⟨none⟩, ⟨some a⟩, x⟩).after (.destroyed n.addr) := by
  rw [Stopper.start, if_neg (by simp)]
  simp only [rget?_none]
  cases hlast : l.nodes.getLast? with
  | none => rfl
  | some n =>
      obtain ⟨xs, hxs⟩ := List.getLast?_eq_some_iff.mp hlast
      have herase := rerase_last hxs
      simp only
      split
      · rfl
      · split
        · next hnone => rw [herase] at hnone; contradiction
        · next n' l' rit hsome =>
            rw [herase, Option.some.injEq] at hsome
            cases hsome
            rfl

/-- When the service at the back has stopped it is erased, and the loop goes
on. -/
theorem Stopper.onStopped_eq {l : NodeList Service} {xs : List (Node Service)} {n : Node Service}
    (h : l.nodes = xs ++ [n]) (a : Nat) (x : Option Nat) :
    (Stopper.onStopped l ⟨⟨none⟩, ⟨some a⟩, x⟩ : StopWalk ε) =
      (Stopper.start (l.erase n.addr) ⟨⟨none⟩, ⟨some a⟩, x⟩).after (.destroyed n.addr) := by
  simp only [Stopper.onStopped, rerase_last h]

/-! ## what an event can do -/

namespace Inventory

variable {w w' : Inventory ε}

theorem step_asyncInit (h : w.step .asyncInit = some w') :
    w.undefined = false ∧ w.state = .init ∧ w' = w.asyncInit := by
  simp only [step] at h
  split at h
  · contradiction
  · next hnot =>
      simp only [refuses, Bool.or_eq_true, not_or, Bool.not_eq_true, decide_eq_true_eq,
        not_not] at hnot
      exact ⟨hnot.1, hnot.2, (Option.some.inj h).symm⟩

theorem step_reload (h : w.step .reload = some w') : w' = w.reload := by
  simp only [step] at h
  split at h
  · contradiction
  · exact (Option.some.inj h).symm

theorem step_asyncStop (h : w.step .asyncStop = some w') : w' = w.asyncStop := by
  simp only [step] at h
  split at h
  · contradiction
  · exact (Option.some.inj h).symm

theorem step_initDone {i : Nat} {ep : Option ε} (h : w.step (.initDone i ep) = some w') :
    ∃ s a, w.initializers[i]? = some s ∧ s.waiting = some a ∧
      w' = (w.note (.initDone a ep)).runInitializer i s ep := by
  simp only [step] at h
  split at h
  · contradiction
  · split at h
    · next b e a hs => exact ⟨_, a, hs, rfl, (Option.some.inj h).symm⟩
    · contradiction

theorem step_stopDone {j : Nat} (h : w.step (.stopDone j) = some w') :
    ∃ s a, w.undefined = false ∧ w.stoppers[j]? = some s ∧ s.waiting = some a ∧
      w' = (w.note (.stopDone a)).endStopper j (Stopper.onStopped w.services s) := by
  simp only [step] at h
  split at h
  · contradiction
  · next hnot =>
      simp only [refuses, Bool.or_false, Bool.not_eq_true] at hnot
      split at h
      · next b e a hs => exact ⟨_, a, hnot, hs, rfl, (Option.some.inj h).symm⟩
      · contradiction

theorem state_runInitializer (w : Inventory ε) (i : Nat) (s : Initializer) (ep : Option ε) :
    (w.runInitializer i s ep).state = w.state := by
  unfold runInitializer
  split <;> rfl

/-- Every operation of the inventory leaves its state variable alone. -/
theorem state_of_step {e : InventoryEvent ε} (h : w.step e = some w') : w'.state = w.state := by
  cases e with
  | asyncInit =>
      obtain ⟨-, -, rfl⟩ := step_asyncInit h
      exact state_runInitializer ..
  | reload =>
      obtain rfl := step_reload h
      rfl
  | asyncStop =>
      obtain rfl := step_asyncStop h
      rfl
  | initDone i ep =>
      obtain ⟨s, a, -, -, rfl⟩ := step_initDone h
      exact state_runInitializer ..
  | stopDone j =>
      obtain ⟨s, a, -, -, -, rfl⟩ := step_stopDone h
      rfl

end Inventory

end LearnWords

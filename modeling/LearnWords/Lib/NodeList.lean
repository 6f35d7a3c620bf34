import Mathlib.Data.List.Nodup

/-!
# LearnWords.Lib.NodeList

Doubly linked lists with stable nodes, as `std::list`: an element lives in a
node with an address of its own, an iterator is the address of a node or the
end, and erasing a node invalidates the iterators to that node only.  Nothing
here mentions a particular program.

Operations that the language leaves undefined -- dereferencing, advancing or
erasing through an iterator that designates no live element -- answer `none`.

A *reverse* iterator keeps a base iterator and designates the element before
it, so the reverse end of a list is an iterator to its first node.
-/

/-- A node of a list. -/
structure Node (α : Type*) where
  addr : Nat
  val : α

/-- A linked list; its nodes have distinct addresses. -/
structure NodeList (α : Type*) where
  nodes : List (Node α)
  distinct : (nodes.map Node.addr).Nodup

/-- The address of a node, or `none` for the end of the list. -/
abbrev Iterator := Option Nat

/-- `std::reverse_iterator`. -/
structure RevIterator where
  base : Iterator
deriving DecidableEq

namespace NodeList

variable {α : Type*}

/-! ## iterators -/

/-- The iterator to the first of a run of nodes, the end if there is none. -/
def iteratorTo (ns : List (Node α)) : Iterator := ns.head?.map Node.addr

/-- `begin()`. -/
def first (l : NodeList α) : Iterator := iteratorTo l.nodes

/-- The nodes from an iterator on. -/
def suffix (l : NodeList α) : Iterator → List (Node α)
  | none => []
  | some a => l.nodes.dropWhile fun n => n.addr ≠ a

/-- Does the iterator designate a live element? -/
def Live (l : NodeList α) (it : Iterator) : Prop := ∃ n ∈ l.nodes, it = some n.addr

/-- `*it`: the designated node. -/
def get? (l : NodeList α) (it : Iterator) : Option (Node α) := (l.suffix it).head?

/-- `std::next(it)`. -/
def next (l : NodeList α) (it : Iterator) : Option Iterator :=
  match l.suffix it with
  | [] => none
  | _ :: rest => some (iteratorTo rest)

/-- `std::ranges::find_if(it, end(), p)`. -/
def findIf (l : NodeList α) (p : α → Bool) (it : Iterator) : Option Iterator :=
  match it, l.suffix it with
  | none, _ => some none
  | some _, [] => none
  | some _, ns => some (iteratorTo (ns.dropWhile fun n => !p n.val))

/-- The last node before an iterator. -/
def prev? (l : NodeList α) : Iterator → Option (Node α)
  | none => l.nodes.getLast?
  | some a => if ∃ n ∈ l.nodes, n.addr = a
      then (l.nodes.takeWhile fun n => n.addr ≠ a).getLast? else none

/-- The list without the node at an address. -/
def erase (l : NodeList α) (a : Nat) : NodeList α where
  nodes := l.nodes.filter fun n => n.addr ≠ a
  distinct := l.distinct.sublist (List.filter_sublist.map Node.addr)

/-! ## reverse iterators -/

/-- `rbegin()`. -/
def rbegin (_ : NodeList α) : RevIterator := ⟨none⟩

/-- `rend()`. -/
def rend (l : NodeList α) : RevIterator := ⟨l.first⟩

/-- `*rit`: the designated node. -/
def rget? (l : NodeList α) (r : RevIterator) : Option (Node α) := l.prev? r.base

/-- Erase the element a reverse iterator designates: the erased node, the
list left, and the reverse iterator whose base is the iterator after the
erased node. -/
def rerase (l : NodeList α) (r : RevIterator) : Option (Node α × NodeList α × RevIterator) :=
  match l.rget? r with
  | none => none
  | some n => (l.next (some n.addr)).map fun it => (n, l.erase n.addr, ⟨it⟩)

/-! ## what the operations do -/

/-- Nodes before a node have other addresses. -/
theorem addr_ne_of_append {l : NodeList α} {xs ys : List (Node α)} {n : Node α}
    (h : l.nodes = xs ++ n :: ys) : ∀ m ∈ xs, m.addr ≠ n.addr := by
  have hd := l.distinct
  rw [h, List.map_append, List.nodup_append] at hd
  intro m hm heq
  exact hd.2.2 m.addr (List.mem_map_of_mem hm) n.addr (by simp) heq

/-- The suffix from the iterator to a run of nodes is that run. -/
theorem suffix_iteratorTo {l : NodeList α} {xs ys : List (Node α)} (h : l.nodes = xs ++ ys) :
    l.suffix (iteratorTo ys) = ys := by
  cases ys with
  | nil => rfl
  | cons n ys =>
      have hne := addr_ne_of_append h
      have hxs : ∀ m ∈ xs, decide (m.addr ≠ n.addr) = true := by simpa using hne
      simp only [iteratorTo, List.head?_cons, Option.map_some, suffix]
      rw [h, List.dropWhile_append_of_pos hxs]
      simp

theorem next_iteratorTo {l : NodeList α} {xs ys : List (Node α)} {n : Node α}
    (h : l.nodes = xs ++ n :: ys) : l.next (some n.addr) = some (iteratorTo ys) := by
  have hs : l.suffix (some n.addr) = n :: ys := suffix_iteratorTo h
  simp [next, hs]

theorem findIf_iteratorTo {l : NodeList α} {xs ys : List (Node α)} (p : α → Bool)
    (h : l.nodes = xs ++ ys) :
    l.findIf p (iteratorTo ys) = some (iteratorTo (ys.dropWhile fun n => !p n.val)) := by
  have hs := suffix_iteratorTo h
  cases ys with
  | nil => rfl
  | cons n ys =>
      have hit : iteratorTo (n :: ys) = some n.addr := rfl
      rw [hit] at hs ⊢
      simp only [findIf, hs]

/-- The reverse begin designates the last node. -/
theorem rget?_none (l : NodeList α) : l.rget? ⟨none⟩ = l.nodes.getLast? := rfl

theorem nodes_erase_last {l : NodeList α} {xs : List (Node α)} {n : Node α}
    (h : l.nodes = xs ++ [n]) : (l.erase n.addr).nodes = xs := by
  have hne := addr_ne_of_append h
  simp only [erase, h, List.filter_append]
  rw [List.filter_eq_self.mpr (by simpa using hne)]
  simp

/-- Erasing backwards from the reverse begin leads to the reverse begin
again: its base is the end of the list, before and after. -/
theorem rerase_last {l : NodeList α} {xs : List (Node α)} {n : Node α}
    (h : l.nodes = xs ++ [n]) : l.rerase ⟨none⟩ = some (n, l.erase n.addr, ⟨none⟩) := by
  have hget : l.rget? ⟨none⟩ = some n := by rw [rget?_none, h]; simp
  have hnext : l.next (some n.addr) = some (iteratorTo []) := next_iteratorTo h
  simp [rerase, hget, hnext, iteratorTo]

/-- Erasing shortens the list. -/
theorem length_of_rerase {l l' : NodeList α} {r r' : RevIterator} {n : Node α}
    (h : l.rerase r = some (n, l', r')) : l'.nodes.length < l.nodes.length := by
  unfold rerase at h
  split at h
  · contradiction
  · next m hm =>
      obtain ⟨it, hit, heq⟩ := Option.map_eq_some_iff.mp h
      simp only [Prod.mk.injEq] at heq
      obtain ⟨rfl, rfl, _⟩ := heq
      have hlive : m ∈ l.nodes := by
        unfold rget? prev? at hm
        split at hm
        · exact List.mem_of_getLast? hm
        · split at hm
          · exact (List.takeWhile_sublist _).subset (List.mem_of_getLast? hm)
          · contradiction
      exact List.length_filter_lt_length_iff_exists.mpr ⟨m, hlive, by simp⟩

end NodeList

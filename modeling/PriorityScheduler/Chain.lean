import PriorityScheduler.Failure

/-! # Chains

    Doubly linked lists threaded through a shared table of links.  A node is an
    index; its link names its neighbours.  A chain holds only its two ends and
    its length, so a node is moved between chains without being copied, and
    taken off a chain without a search.

    The caller keeps every node on at most one chain.  `Chain.toList` reads a
    chain from front to back, `Chain.toListBack` from back to front. -/

namespace PriorityScheduler

/-- The neighbours of a node. -/
structure Link where
  prev : Option Nat := none
  next : Option Nat := none
  deriving DecidableEq, Repr

/-- The links of all nodes, by index. -/
structure LinkTable where
  links : Array Link := #[]
  deriving DecidableEq, Repr

namespace LinkTable

/-- The number of nodes. -/
def size (t : LinkTable) : Nat := t.links.size

/-- The link of a node; a node that the table lacks has no neighbours. -/
def get (t : LinkTable) (i : Nat) : Link :=
  (t.links[i]?).getD {}

/-- Replace the link of a node; one that the table lacks is left out. -/
def set (t : LinkTable) (i : Nat) (l : Link) : LinkTable :=
  ⟨t.links.setIfInBounds i l⟩

/-- Replace the node before a node. -/
def rewirePrev (t : LinkTable) (i : Nat) (prev : Option Nat) : LinkTable :=
  t.set i { t.get i with prev := prev }

/-- Replace the node after a node. -/
def rewireNext (t : LinkTable) (i : Nat) (next : Option Nat) : LinkTable :=
  t.set i { t.get i with next := next }

/-- Add a node without neighbours. -/
def push (t : LinkTable) : LinkTable :=
  ⟨t.links.push {}⟩

/-! ### What a write changes -/

@[simp] theorem size_set (t : LinkTable) (i : Nat) (l : Link) : (t.set i l).size = t.size := by
  simp [set, size]

@[simp] theorem size_rewirePrev (t : LinkTable) (i : Nat) (prev : Option Nat) :
    (t.rewirePrev i prev).size = t.size :=
  size_set ..

@[simp] theorem size_rewireNext (t : LinkTable) (i : Nat) (next : Option Nat) :
    (t.rewireNext i next).size = t.size :=
  size_set ..

@[simp] theorem size_push (t : LinkTable) : t.push.size = t.size + 1 := by
  simp [push, size]

/-- A node that is written reads back. -/
theorem get_set_self (t : LinkTable) {i : Nat} (l : Link) (h : i < t.size) :
    (t.set i l).get i = l := by
  have h' : i < t.links.size := h
  simp [set, get, h']

/-- A write leaves every other node alone. -/
theorem get_set_of_ne (t : LinkTable) {i j : Nat} (l : Link) (h : i ≠ j) :
    (t.set i l).get j = t.get j := by
  simp [set, get, Array.getElem?_setIfInBounds_ne h]

/-- A node outside the table has no neighbours. -/
theorem get_of_size_le (t : LinkTable) {i : Nat} (h : t.size ≤ i) : t.get i = {} := by
  have h' : t.links.size ≤ i := h
  simp [get, Array.getElem?_eq_none h']

/-- A new node changes no link, since it had no neighbours before. -/
@[simp] theorem get_push (t : LinkTable) (i : Nat) : t.push.get i = t.get i := by
  by_cases h : i = t.links.size
  · subst h
    simp [push, get]
  · simp [push, get, Array.getElem?_push, h]

/-! ### Walks -/

/-- The nodes met by following `step` from a node, at most `fuel` of them. -/
def walk (step : Nat → Option Nat) : Nat → Option Nat → List Nat
  | 0, _ => []
  | _, none => []
  | fuel + 1, some i => i :: walk step fuel (step i)

end LinkTable

/-- A list of nodes, held by its two ends. -/
structure Chain where
  head : Option Nat := none
  tail : Option Nat := none
  length : Nat := 0
  deriving DecidableEq, Repr

namespace Chain

/-- Whether the chain holds no node, by its length. -/
def isEmpty (c : Chain) : Bool := c.length == 0

/-! ## Views -/

/-- The nodes from front to back.  A walk over distinct nodes ends within one
    more step than the table has links. -/
def toList (c : Chain) (t : LinkTable) : List Nat :=
  LinkTable.walk (fun i => (t.get i).next) (t.size + 1) c.head

/-- The nodes from back to front. -/
def toListBack (c : Chain) (t : LinkTable) : List Nat :=
  LinkTable.walk (fun i => (t.get i).prev) (t.size + 1) c.tail

/-! ## Insertion -/

/-- Append a node. -/
def addLast (c : Chain) (t : LinkTable) (i : Nat) : Chain × LinkTable :=
  let t := t.set i ⟨c.tail, none⟩
  match c.tail with
  | some last => (⟨c.head, some i, c.length + 1⟩, t.rewireNext last (some i))
  | none => (⟨some i, some i, c.length + 1⟩, t)

/-- Put a node in front. -/
def addFirst (c : Chain) (t : LinkTable) (i : Nat) : Chain × LinkTable :=
  let t := t.set i ⟨none, c.head⟩
  match c.head with
  | some first => (⟨some i, c.tail, c.length + 1⟩, t.rewirePrev first (some i))
  | none => (⟨some i, some i, c.length + 1⟩, t)

/-- Put a node immediately before the node `pos`, which is on the chain. -/
def addBefore (c : Chain) (t : LinkTable) (pos i : Nat) : Chain × LinkTable :=
  let prev := (t.get pos).prev
  let t := (t.set i ⟨prev, some pos⟩).rewirePrev pos (some i)
  match prev with
  | some p => ({ c with length := c.length + 1 }, t.rewireNext p (some i))
  | none => ({ c with head := some i, length := c.length + 1 }, t)

/-- Put a node before the first node whose key is greater than its own, or at
    the end if there is none.  Equal keys so keep the order of arrival. -/
def addByKey (c : Chain) (t : LinkTable) (key : Nat → UInt32) (i : Nat) :
    Chain × LinkTable :=
  match (c.toList t).find? (fun j => decide (key i < key j)) with
  | some j => c.addBefore t j i
  | none => c.addLast t i

/-! ## Removal -/

/-- Take off a node, which is on the chain, and clear its link.  A chain of
    length zero has no node to give. -/
def erase (c : Chain) (t : LinkTable) (i : Nat) : Except Failure (Chain × LinkTable) :=
  let l := t.get i
  let t := match l.prev with
    | some p => t.rewireNext p l.next
    | none => t
  let t := match l.next with
    | some n => t.rewirePrev n l.prev
    | none => t
  match c.length with
  | 0 => faulty .emptyChain
  | n + 1 =>
      .ok (⟨if l.prev.isNone then l.next else c.head,
            if l.next.isNone then l.prev else c.tail, n⟩, t.set i {})

/-- Take off the first node, if there is one. -/
def eraseFirst (c : Chain) (t : LinkTable) :
    Except Failure (Option Nat × Chain × LinkTable) :=
  match c.head with
  | none => .ok (none, c, t)
  | some i => do
      let (c, t) ← c.erase t i
      return (some i, c, t)

end Chain

end PriorityScheduler

import Mathlib.Data.List.Induction
import Mathlib.Data.List.Nodup
import PriorityScheduler.Chain
import PriorityScheduler.Proofs.Lists

/-! # Threading: chains hold lists

    A chain is two ends and a length over links that many chains share.  This
    module says when a chain HOLDS a list of nodes, and shows what each chain
    operation does to the list that is held:

    * the links of the list's nodes name their neighbours (`Strung`), a property
      that is read off node by node, so that it splits at any place in the list
      and ignores every link outside it;
    * insertion between two parts of a list, at either end or before a node, is
      one rewiring (`Strung.splice`), and so is removal (`Strung.cut`);
    * an operation leaves the links of all nodes off its own list alone
      (`Rewired`), which is what keeps the other chains as they were;
    * the walks over a strung list end, in both directions (`Walks`), so that the
      bounded walks by which a chain is read meet all of it. -/

namespace PriorityScheduler

namespace LinkTable

/-! ## Rewiring -/

/-- A link that is written reads back, if the table has the node; all others
    stay. -/
theorem get_set (t : LinkTable) (i j : Nat) (l : Link) :
    (t.set i l).get j = if i = j ∧ i < t.size then l else t.get j := by
  by_cases hij : i = j
  · subst hij
    by_cases hi : i < t.size
    · rw [if_pos ⟨rfl, hi⟩]
      exact get_set_self t l hi
    · rw [if_neg (fun h => hi h.2)]
      have h1 : t.size ≤ i := Nat.le_of_not_lt hi
      have h2 : (t.set i l).size ≤ i := by rw [size_set]; exact h1
      rw [get_of_size_le _ h2, get_of_size_le _ h1]
  · rw [if_neg (fun h => hij h.1)]
    exact get_set_of_ne t l hij

/-- A link that is changed reads back changed. -/
theorem get_set_change (t : LinkTable) (f : Link → Link) (i j : Nat) :
    (t.set i (f (t.get i))).get j = if i = j ∧ j < t.size then f (t.get j) else t.get j := by
  rw [get_set]
  by_cases hij : i = j
  · rw [hij]
  · rw [if_neg (fun h => hij h.1), if_neg (fun h => hij h.1)]

/-- Replace the node after a node, if there is a node. -/
def pointNext (t : LinkTable) (i next : Option Nat) : LinkTable :=
  match i with
  | some i => t.rewireNext i next
  | none => t

/-- Replace the node before a node, if there is a node. -/
def pointPrev (t : LinkTable) (i prev : Option Nat) : LinkTable :=
  match i with
  | some i => t.rewirePrev i prev
  | none => t

@[simp] theorem size_pointNext (t : LinkTable) (i next : Option Nat) :
    (t.pointNext i next).size = t.size := by
  cases i with
  | none => rfl
  | some i => exact size_rewireNext t i next

@[simp] theorem size_pointPrev (t : LinkTable) (i prev : Option Nat) :
    (t.pointPrev i prev).size = t.size := by
  cases i with
  | none => rfl
  | some i => exact size_rewirePrev t i prev

/-- The node that is pointed on gets its new neighbour; all others stay. -/
theorem get_pointNext (t : LinkTable) (i next : Option Nat) (j : Nat) :
    (t.pointNext i next).get j
      = if i = some j ∧ j < t.size then { t.get j with next := next } else t.get j := by
  cases i with
  | none => rw [if_neg (fun h => by cases h.1)]; rfl
  | some i =>
      simp only [Option.some.injEq]
      exact t.get_set_change (fun l => { l with next := next }) i j

/-- The node that is pointed back gets its new neighbour; all others stay. -/
theorem get_pointPrev (t : LinkTable) (i prev : Option Nat) (j : Nat) :
    (t.pointPrev i prev).get j
      = if i = some j ∧ j < t.size then { t.get j with prev := prev } else t.get j := by
  cases i with
  | none => rw [if_neg (fun h => by cases h.1)]; rfl
  | some i =>
      simp only [Option.some.injEq]
      exact t.get_set_change (fun l => { l with prev := prev }) i j

/-- The second table differs from the first at the links of the listed nodes
    only. -/
structure Rewired (t t' : LinkTable) (nodes : List Nat) : Prop where
  size : t'.size = t.size
  get : ∀ j, j ∉ nodes → t'.get j = t.get j

/-- Rewiring fewer nodes is rewiring more of them. -/
theorem Rewired.mono {t t' : LinkTable} {a b : List Nat} (h : Rewired t t' a)
    (sub : ∀ j ∈ a, j ∈ b) : Rewired t t' b :=
  ⟨h.size, fun j hj => h.get j (fun ha => hj (sub j ha))⟩

/-- One rewiring after another. -/
theorem Rewired.trans {t t' t'' : LinkTable} {nodes : List Nat} (h : Rewired t t' nodes)
    (h' : Rewired t' t'' nodes) : Rewired t t'' nodes :=
  ⟨h'.size.trans h.size, fun j hj => (h'.get j hj).trans (h.get j hj)⟩

theorem rewired_set {t : LinkTable} {i : Nat} {nodes : List Nat} (l : Link) (hi : i ∈ nodes) :
    Rewired t (t.set i l) nodes := by
  refine ⟨size_set t i l, ?_⟩
  intro j hj
  have hij : i ≠ j := fun h => hj (h ▸ hi)
  exact get_set_of_ne t l hij

theorem rewired_pointNext {t : LinkTable} {i : Option Nat} {nodes : List Nat} (next : Option Nat)
    (hi : ∀ j, i = some j → j ∈ nodes) : Rewired t (t.pointNext i next) nodes := by
  refine ⟨size_pointNext t i next, ?_⟩
  intro j hj
  rw [get_pointNext, if_neg]
  exact fun h => hj (hi j h.1)

theorem rewired_pointPrev {t : LinkTable} {i : Option Nat} {nodes : List Nat} (prev : Option Nat)
    (hi : ∀ j, i = some j → j ∈ nodes) : Rewired t (t.pointPrev i prev) nodes := by
  refine ⟨size_pointPrev t i prev, ?_⟩
  intro j hj
  rw [get_pointPrev, if_neg]
  exact fun h => hj (hi j h.1)

/-! ## Strung lists -/

/-- The links of the listed nodes name their neighbours, where `prev` stands
    before the first node and `next` behind the last. -/
def Strung (t : LinkTable) : Option Nat → List Nat → Option Nat → Prop
  | _, [], _ => True
  | prev, i :: rest, next => t.get i = ⟨prev, rest.head?.or next⟩ ∧ t.Strung (some i) rest next

/-- A list is strung when its two parts are, each with the other's end for a
    neighbour. -/
theorem strung_append {t : LinkTable} {prev next : Option Nat} {a b : List Nat} :
    t.Strung prev (a ++ b) next
      ↔ t.Strung prev a (b.head?.or next) ∧ t.Strung (a.getLast?.or prev) b next := by
  induction a generalizing prev with
  | nil => simp [Strung]
  | cons x rest ih =>
      have hlast : (x :: rest).getLast?.or prev = rest.getLast?.or (some x) := by
        cases h : rest.getLast? <;> simp [List.getLast?_cons, h]
      simp only [List.cons_append, Strung, ih, hlast, List.head?_append, Option.or_assoc,
        and_assoc]

/-- Only the links of the list's own nodes matter. -/
theorem Strung.congr {t t' : LinkTable} {prev next : Option Nat} {l : List Nat}
    (h : t.Strung prev l next) (same : ∀ i ∈ l, t'.get i = t.get i) : t'.Strung prev l next := by
  induction l generalizing prev with
  | nil => trivial
  | cons x rest ih =>
      obtain ⟨hx, hrest⟩ := h
      refine ⟨?_, ih hrest (fun i hi => same i (List.mem_cons_of_mem x hi))⟩
      rw [same x List.mem_cons_self]
      exact hx

/-- Pointing the last node on gives the list a new neighbour behind it. -/
theorem Strung.pointNext {t : LinkTable} {prev next : Option Nat} {l : List Nat}
    (h : t.Strung prev l next) (nodup : l.Nodup) (bound : ∀ i ∈ l, i < t.size)
    (next' : Option Nat) : (t.pointNext l.getLast? next').Strung prev l next' := by
  induction l generalizing prev with
  | nil => trivial
  | cons x rest ih =>
      obtain ⟨hx, hrest⟩ := h
      obtain ⟨hnot, hnodup⟩ := List.nodup_cons.mp nodup
      have hbound : ∀ i ∈ rest, i < t.size := fun i hi => bound i (List.mem_cons_of_mem x hi)
      cases rest with
      | nil =>
          refine ⟨?_, trivial⟩
          rw [get_pointNext, if_pos ⟨rfl, bound x List.mem_cons_self⟩, hx]
          rfl
      | cons y rest =>
          rw [List.getLast?_cons_cons]
          refine ⟨?_, ih hrest hnodup hbound⟩
          rw [get_pointNext, if_neg, hx]
          · rfl
          · rintro ⟨hlast, -⟩
            exact hnot (List.mem_of_getLast? hlast)

/-- Pointing the first node back gives the list a new neighbour before it. -/
theorem Strung.pointPrev {t : LinkTable} {prev next : Option Nat} {l : List Nat}
    (h : t.Strung prev l next) (nodup : l.Nodup) (bound : ∀ i ∈ l, i < t.size)
    (prev' : Option Nat) : (t.pointPrev l.head? prev').Strung prev' l next := by
  cases l with
  | nil => trivial
  | cons x rest =>
      obtain ⟨hx, hrest⟩ := h
      obtain ⟨hnot, -⟩ := List.nodup_cons.mp nodup
      refine ⟨?_, hrest.congr ?_⟩
      · rw [get_pointPrev, if_pos ⟨rfl, bound x List.mem_cons_self⟩, hx]
      · intro i hi
        rw [get_pointPrev, if_neg]
        rintro ⟨hhead, -⟩
        exact hnot (Option.some.inj hhead ▸ hi)

/-- A new node is threaded in between two parts of a list. -/
theorem Strung.splice {t : LinkTable} {a b : List Nat} {i : Nat}
    (h : t.Strung none (a ++ b) none) (nodup : (a ++ b).Nodup) (fresh : i ∉ a ++ b)
    (bound : ∀ j ∈ a ++ b, j < t.size) (hi : i < t.size) :
    (((t.set i ⟨a.getLast?, b.head?⟩).pointPrev b.head? (some i)).pointNext a.getLast?
      (some i)).Strung none (a ++ i :: b) none := by
  obtain ⟨ha, hb⟩ := strung_append.mp h
  obtain ⟨hna, hnb, hdisj⟩ := List.nodup_append.mp nodup
  have hia : i ∉ a := fun h => fresh (List.mem_append_left b h)
  have hib : i ∉ b := fun h => fresh (List.mem_append_right a h)
  have hab : ∀ j, j ∈ a → j ∉ b := fun j h1 h2 => hdisj j h1 j h2 rfl
  have hlast : ∀ j, a.getLast? = some j → j ∈ a := fun j h => List.mem_of_getLast? h
  have hhead : ∀ j, b.head? = some j → j ∈ b := fun j h => List.mem_of_head? h
  rw [strung_append]
  constructor
  · -- the first part: the node before it and the second part's head are not on it
    have ha' : ((t.set i ⟨a.getLast?, b.head?⟩).pointPrev b.head? (some i)).Strung none a
        (b.head?.or none) := by
      refine ha.congr ?_
      intro j hj
      have hne : i ≠ j := fun h => hia (h ▸ hj)
      rw [get_pointPrev, if_neg, get_set_of_ne t _ hne]
      exact fun h => hab j hj (hhead j h.1)
    refine ha'.pointNext hna ?_ (some i)
    intro j hj
    rw [size_pointPrev, size_set]
    exact bound j (List.mem_append_left b hj)
  · -- the node itself names its neighbours, and the second part sees only its head written
    constructor
    · rw [get_pointNext, if_neg (fun h => hia (hlast i h.1)), get_pointPrev,
        if_neg (fun h => hib (hhead i h.1)), get_set_self t _ hi]
      simp
    · have hb' : (t.set i ⟨a.getLast?, b.head?⟩).Strung (a.getLast?.or none) b none := by
        refine hb.congr ?_
        intro j hj
        exact get_set_of_ne t _ (fun h => hib (h ▸ hj))
      have hbound : ∀ j ∈ b, j < (t.set i ⟨a.getLast?, b.head?⟩).size := by
        intro j hj
        rw [size_set]
        exact bound j (List.mem_append_right a hj)
      refine (hb'.pointPrev hnb hbound (some i)).congr ?_
      intro j hj
      rw [get_pointNext, if_neg]
      exact fun h => hab j (hlast j h.1) hj

/-- A node is cut out from between two parts of a list. -/
theorem Strung.cut {t : LinkTable} {a b : List Nat} {i : Nat}
    (h : t.Strung none (a ++ i :: b) none) (nodup : (a ++ i :: b).Nodup)
    (bound : ∀ j ∈ a ++ i :: b, j < t.size) :
    (((t.pointNext a.getLast? b.head?).pointPrev b.head? a.getLast?).set i {}).Strung none
      (a ++ b) none := by
  obtain ⟨ha, -, hb⟩ := strung_append.mp h
  obtain ⟨hna, hnib, hdisj⟩ := List.nodup_append.mp nodup
  obtain ⟨hib, hnb⟩ := List.nodup_cons.mp hnib
  have hia : i ∉ a := fun h => hdisj i h i List.mem_cons_self rfl
  have hab : ∀ j, j ∈ a → j ∉ b := fun j h1 h2 => hdisj j h1 j (List.mem_cons_of_mem i h2) rfl
  have hlast : ∀ j, a.getLast? = some j → j ∈ a := fun j h => List.mem_of_getLast? h
  have hhead : ∀ j, b.head? = some j → j ∈ b := fun j h => List.mem_of_head? h
  have hba : ∀ j ∈ a, j < t.size := fun j hj => bound j (List.mem_append_left _ hj)
  have hbb : ∀ j ∈ b, j < t.size := fun j hj =>
    bound j (List.mem_append_right a (List.mem_cons_of_mem i hj))
  rw [strung_append, Option.or_none, Option.or_none]
  constructor
  · -- the first part ends at what followed the node; the other writes are off it
    refine Strung.congr (ha.pointNext hna hba b.head?) ?_
    intro j hj
    have hne : i ≠ j := fun h => hia (h ▸ hj)
    rw [get_set_of_ne _ _ hne, get_pointPrev, if_neg]
    exact fun h => hab j hj (hhead j h.1)
  · -- the second part begins at what came before the node
    have hb' : (t.pointNext a.getLast? b.head?).Strung (some i) b none := by
      refine hb.congr ?_
      intro j hj
      rw [get_pointNext, if_neg]
      exact fun h => hab j (hlast j h.1) hj
    have hbound : ∀ j ∈ b, j < (t.pointNext a.getLast? b.head?).size := by
      intro j hj
      rw [size_pointNext]
      exact hbb j hj
    refine (hb'.pointPrev hnb hbound a.getLast?).congr ?_
    intro j hj
    have hne : i ≠ j := fun h => hib (h ▸ hj)
    exact get_set_of_ne _ _ hne

/-! ## Walks over strung lists -/

/-- Following `step` from a start meets the listed nodes, in this order, and then ends. -/
inductive Walks (step : Nat → Option Nat) : Option Nat → List Nat → Prop where
  | done : Walks step none []
  | meet {i : Nat} {rest : List Nat} :
      Walks step (step i) rest → Walks step (some i) (i :: rest)

/-- A walk that ends is what a bounded walk meets, if the bound lets it. -/
theorem Walks.walk_eq {step : Nat → Option Nat} {start : Option Nat} {l : List Nat}
    (walks : Walks step start l) {fuel : Nat} (enough : l.length ≤ fuel) :
    walk step fuel start = l := by
  induction walks generalizing fuel with
  | done => cases fuel <;> rfl
  | @meet i rest _ ih =>
      cases fuel with
      | zero => exact absurd enough (Nat.not_succ_le_zero _)
      | succ fuel => exact congrArg (i :: ·) (ih (Nat.le_of_succ_le_succ enough))

/-- The walk over the nodes behind meets the list. -/
theorem Strung.walks_next {t : LinkTable} {prev : Option Nat} {l : List Nat}
    (h : t.Strung prev l none) : Walks (fun i => (t.get i).next) l.head? l := by
  induction l generalizing prev with
  | nil => exact .done
  | cons x rest ih =>
      obtain ⟨hx, hrest⟩ := h
      refine .meet ?_
      show Walks _ (t.get x).next rest
      rw [hx]
      show Walks _ (rest.head?.or none) rest
      rw [Option.or_none]
      exact ih hrest

/-- The walk over the nodes before meets the list, reversed. -/
theorem Strung.walks_prev {t : LinkTable} {next : Option Nat} {l : List Nat}
    (h : t.Strung none l next) : Walks (fun i => (t.get i).prev) l.getLast? l.reverse := by
  induction l using List.reverseRecOn generalizing next with
  | nil => exact .done
  | append_singleton rest x ih =>
      obtain ⟨hrest, hx, -⟩ := strung_append.mp h
      rw [List.getLast?_concat, List.reverse_concat]
      refine .meet ?_
      show Walks _ (t.get x).prev rest.reverse
      rw [hx]
      show Walks _ (rest.getLast?.or none) rest.reverse
      rw [Option.or_none]
      exact ih hrest

end LinkTable

namespace Chain

open LinkTable

/-! ## Chains that hold lists -/

/-- The chain's ends, its length and the links say that it holds the list. -/
structure Holds (c : Chain) (t : LinkTable) (l : List Nat) : Prop where
  head : c.head = l.head?
  tail : c.tail = l.getLast?
  length : c.length = l.length
  nodup : l.Nodup
  bound : ∀ i ∈ l, i < t.size
  strung : t.Strung none l none

/-- The chain without nodes holds the empty list. -/
theorem holds_empty (t : LinkTable) : Holds {} t [] :=
  ⟨rfl, rfl, rfl, List.nodup_nil, (by rintro _ ⟨⟩), trivial⟩

/-- A list of distinct nodes is no longer than the table. -/
theorem Holds.length_le {c : Chain} {t : LinkTable} {l : List Nat} (h : c.Holds t l) :
    l.length ≤ t.size := by
  have hsub : l ⊆ List.range t.size := fun i hi => List.mem_range.mpr (h.bound i hi)
  have hle := (List.subperm_of_subset h.nodup hsub).length_le
  rw [List.length_range] at hle
  exact hle

/-- The list that is held is the one that is read. -/
theorem Holds.toList_eq {c : Chain} {t : LinkTable} {l : List Nat} (h : c.Holds t l) :
    c.toList t = l := by
  simp only [toList]
  rw [h.head]
  exact h.strung.walks_next.walk_eq (Nat.le_succ_of_le h.length_le)

/-- From the back the list is read reversed. -/
theorem Holds.toListBack_eq {c : Chain} {t : LinkTable} {l : List Nat} (h : c.Holds t l) :
    c.toListBack t = l.reverse := by
  simp only [toListBack]
  rw [h.tail]
  refine h.strung.walks_prev.walk_eq ?_
  rw [List.length_reverse]
  exact Nat.le_succ_of_le h.length_le

/-- A chain still holds its list when only other nodes are rewired, or new ones
    added. -/
theorem Holds.frame {c : Chain} {t t' : LinkTable} {l : List Nat} (h : c.Holds t l)
    (size : t.size ≤ t'.size) (same : ∀ i ∈ l, t'.get i = t.get i) : c.Holds t' l :=
  ⟨h.head, h.tail, h.length, h.nodup, fun i hi => Nat.lt_of_lt_of_le (h.bound i hi) size,
    h.strung.congr same⟩

/-- A chain still holds its list when only nodes off the list are rewired. -/
theorem Holds.rewired {c : Chain} {t t' : LinkTable} {l nodes : List Nat} (h : c.Holds t l)
    (r : Rewired t t' nodes) (off : ∀ i ∈ l, i ∉ nodes) : c.Holds t' l :=
  h.frame (Nat.le_of_eq r.size.symm) (fun i hi => r.get i (off i hi))

/-- The chain whose ends and length are those of a list with one node more. -/
theorem Holds.splice {c c' : Chain} {t : LinkTable} {a b : List Nat} {i : Nat}
    (h : c.Holds t (a ++ b)) (fresh : i ∉ a ++ b) (hi : i < t.size)
    (head : c'.head = (a ++ i :: b).head?) (tail : c'.tail = (a ++ i :: b).getLast?)
    (length : c'.length = c.length + 1) :
    c'.Holds (((t.set i ⟨a.getLast?, b.head?⟩).pointPrev b.head? (some i)).pointNext a.getLast?
      (some i)) (a ++ i :: b) where
  head := head
  tail := tail
  length := by
    rw [length, h.length]
    simp only [List.length_append, List.length_cons]
    omega
  nodup := by
    rw [List.nodup_middle]
    exact List.nodup_cons.mpr ⟨fresh, h.nodup⟩
  bound := by
    intro j hj
    rw [size_pointNext, size_pointPrev, size_set]
    rcases List.mem_append.mp hj with ha | hb
    · exact h.bound j (List.mem_append_left b ha)
    · rcases List.mem_cons.mp hb with rfl | hb
      · exact hi
      · exact h.bound j (List.mem_append_right a hb)
  strung := h.strung.splice h.nodup fresh h.bound hi

/-- Threading a node in rewires that node and nodes of the list. -/
theorem rewired_splice {t : LinkTable} {a b : List Nat} {i : Nat} :
    Rewired t (((t.set i ⟨a.getLast?, b.head?⟩).pointPrev b.head? (some i)).pointNext a.getLast?
      (some i)) (i :: (a ++ b)) := by
  refine ((rewired_set _ List.mem_cons_self).trans (rewired_pointPrev _ ?_)).trans
    (rewired_pointNext _ ?_)
  · intro j hj
    exact List.mem_cons_of_mem i (List.mem_append_right a (List.mem_of_head? hj))
  · intro j hj
    exact List.mem_cons_of_mem i (List.mem_append_left b (List.mem_of_getLast? hj))

/-! ## Insertion -/

/-- A node that is appended stands at the end. -/
theorem Holds.addLast {c : Chain} {t : LinkTable} {l : List Nat} {i : Nat} (h : c.Holds t l)
    (fresh : i ∉ l) (hi : i < t.size) :
    (c.addLast t i).1.Holds (c.addLast t i).2 (l ++ [i])
      ∧ Rewired t (c.addLast t i).2 (i :: l) := by
  have hl : c.Holds t (l ++ []) := by rw [List.append_nil]; exact h
  have hfresh : i ∉ l ++ [] := by rw [List.append_nil]; exact fresh
  -- to append is to thread in between the whole list and nothing
  have hlinks : (c.addLast t i).2
      = ((t.set i ⟨l.getLast?, ([] : List Nat).head?⟩).pointPrev ([] : List Nat).head?
          (some i)).pointNext l.getLast? (some i) := by
    simp only [Chain.addLast]
    rw [h.tail]
    cases l.getLast? <;> rfl
  rw [hlinks]
  refine ⟨hl.splice hfresh hi ?_ ?_ ?_, ?_⟩
  · simp only [Chain.addLast]
    rw [h.tail, List.head?_append, h.head]
    cases l with
    | nil => rfl
    | cons x rest =>
        rw [List.getLast?_cons]
        rfl
  · simp only [Chain.addLast]
    rw [h.tail, List.getLast?_concat]
    cases l.getLast? <;> rfl
  · simp only [Chain.addLast]
    cases c.tail <;> rfl
  · have hr := rewired_splice (t := t) (a := l) (b := []) (i := i)
    rw [List.append_nil] at hr
    exact hr

/-- A node that is put in front stands first. -/
theorem Holds.addFirst {c : Chain} {t : LinkTable} {l : List Nat} {i : Nat} (h : c.Holds t l)
    (fresh : i ∉ l) (hi : i < t.size) :
    (c.addFirst t i).1.Holds (c.addFirst t i).2 (i :: l)
      ∧ Rewired t (c.addFirst t i).2 (i :: l) := by
  have hlinks : (c.addFirst t i).2
      = ((t.set i ⟨([] : List Nat).getLast?, l.head?⟩).pointPrev l.head? (some i)).pointNext
          ([] : List Nat).getLast? (some i) := by
    simp only [Chain.addFirst]
    rw [h.head]
    cases l.head? <;> rfl
  rw [hlinks]
  refine ⟨Holds.splice (a := []) h fresh hi ?_ ?_ ?_, rewired_splice (a := [])⟩
  · simp only [Chain.addFirst]
    cases c.head <;> rfl
  · simp only [Chain.addFirst]
    rw [h.head, h.tail]
    cases l with
    | nil => rfl
    | cons x rest => rfl
  · simp only [Chain.addFirst]
    cases c.head <;> rfl

/-- A node that is put before another one stands there. -/
theorem Holds.addBefore {c : Chain} {t : LinkTable} {a b : List Nat} {i pos : Nat}
    (h : c.Holds t (a ++ pos :: b)) (fresh : i ∉ a ++ pos :: b) (hi : i < t.size) :
    (c.addBefore t pos i).1.Holds (c.addBefore t pos i).2 (a ++ i :: pos :: b)
      ∧ Rewired t (c.addBefore t pos i).2 (i :: (a ++ pos :: b)) := by
  have hpos : t.get pos = ⟨a.getLast?, b.head?⟩ := by
    obtain ⟨-, hpos, -⟩ := strung_append.mp h.strung
    rw [Option.or_none, Option.or_none] at hpos
    exact hpos
  -- the link of the node in place names the one before it, so nothing is searched
  have hlinks : (c.addBefore t pos i).2
      = ((t.set i ⟨a.getLast?, (pos :: b).head?⟩).pointPrev (pos :: b).head? (some i)).pointNext
          a.getLast? (some i) := by
    simp only [Chain.addBefore]
    rw [hpos]
    cases a.getLast? <;> rfl
  rw [hlinks]
  refine ⟨h.splice fresh hi ?_ ?_ ?_, rewired_splice⟩
  · simp only [Chain.addBefore]
    rw [hpos, List.head?_append]
    cases a with
    | nil => rfl
    | cons x rest =>
        rw [List.getLast?_cons]
        show c.head = some x
        rw [h.head]
        rfl
  · simp only [Chain.addBefore]
    rw [hpos, List.getLast?_append, List.getLast?_cons_cons, ← List.getLast?_append]
    cases a.getLast? <;> exact h.tail
  · simp only [Chain.addBefore]
    rw [hpos]
    cases a.getLast? <;> rfl

/-- A node that is put in by its key stands before the first node with a greater
    key, and at the end if there is none. -/
theorem Holds.addByKey {c : Chain} {t : LinkTable} {l : List Nat} {i : Nat} (h : c.Holds t l)
    (key : Nat → UInt32) (fresh : i ∉ l) (hi : i < t.size) :
    (c.addByKey t key i).1.Holds (c.addByKey t key i).2
        (l.orderedInsert (fun x y => key x < key y) i)
      ∧ Rewired t (c.addByKey t key i).2 (i :: l) := by
  simp only [Chain.addByKey]
  rw [h.toList_eq]
  cases hfind : l.find? (fun j => decide (key i < key j)) with
  | none =>
      -- no key is above the new one: it goes to the back
      have hpassed : ∀ x ∈ l, ¬ key i < key x := by
        intro x hx
        have := List.find?_eq_none.mp hfind x hx
        exact fun hlt => this (decide_eq_true hlt)
      rw [orderedInsert_concat hpassed]
      exact h.addLast fresh hi
  | some j =>
      obtain ⟨hfound, a, b, hl, hpassed⟩ := List.find?_eq_some_iff_append.mp hfind
      have hp : ∀ x ∈ a, ¬ key i < key x := by
        intro x hx hlt
        have hnot := hpassed x hx
        rw [decide_eq_true hlt] at hnot
        exact Bool.noConfusion hnot
      subst hl
      rw [orderedInsert_append hp (of_decide_eq_true hfound)]
      exact h.addBefore fresh hi

/-! ## Removal -/

/-- A node of the chain can be taken off, and its link is cleared. -/
theorem Holds.erase {c : Chain} {t : LinkTable} {l : List Nat} {i : Nat} (h : c.Holds t l)
    (hi : i ∈ l) :
    ∃ c' t', c.erase t i = .ok (c', t') ∧ c'.Holds t' (l.filter (· ≠ i)) ∧ Rewired t t' l
      ∧ t'.get i = {} := by
  obtain ⟨a, b, rfl⟩ := List.append_of_mem hi
  have hnodup := h.nodup
  rw [List.nodup_middle] at hnodup
  obtain ⟨hnot, hrest⟩ := List.nodup_cons.mp hnodup
  have hfilter : (a ++ i :: b).filter (· ≠ i) = a ++ b := by
    rw [List.filter_append, List.filter_cons_of_neg (by simp), ← List.filter_append]
    exact filter_of_not_mem hnot
  -- the node's own link names both neighbours, so no search is needed
  have hlink : t.get i = ⟨a.getLast?, b.head?⟩ := by
    obtain ⟨-, hlink, -⟩ := strung_append.mp h.strung
    rw [Option.or_none, Option.or_none] at hlink
    exact hlink
  have hlen : c.length = (a ++ b).length + 1 := by
    rw [h.length, List.length_append, List.length_cons, List.length_append]
    omega
  refine ⟨⟨(a ++ b).head?, (a ++ b).getLast?, (a ++ b).length⟩,
    ((t.pointNext a.getLast? b.head?).pointPrev b.head? a.getLast?).set i {}, ?_, ?_, ?_, ?_⟩
  · -- the ends move only when the node was one of them
    have hhead : (if a.getLast?.isNone then b.head? else c.head) = (a ++ b).head? := by
      rw [h.head, List.head?_append, List.head?_append]
      cases a with
      | nil => rfl
      | cons x rest =>
          rw [List.getLast?_cons]
          rfl
    have htail : (if b.head?.isNone then a.getLast? else c.tail) = (a ++ b).getLast? := by
      rw [h.tail]
      cases b with
      | nil =>
          rw [List.append_nil]
          rfl
      | cons y rest =>
          rw [List.getLast?_append, List.getLast?_append, List.getLast?_cons_cons]
          rfl
    simp only [Chain.erase]
    rw [hlink, hlen]
    simp only [hhead, htail]
    cases a.getLast? <;> cases b.head? <;> rfl
  · rw [hfilter]
    refine ⟨rfl, rfl, rfl, hrest, ?_, h.strung.cut h.nodup h.bound⟩
    intro j hj
    rw [size_set, size_pointPrev, size_pointNext]
    refine h.bound j ?_
    rcases List.mem_append.mp hj with ha | hb
    · exact List.mem_append_left _ ha
    · exact List.mem_append_right a (List.mem_cons_of_mem i hb)
  · refine ((rewired_pointNext _ ?_).trans (rewired_pointPrev _ ?_)).trans (rewired_set _ hi)
    · intro j hj
      exact List.mem_append_left _ (List.mem_of_getLast? hj)
    · intro j hj
      exact List.mem_append_right a (List.mem_cons_of_mem i (List.mem_of_head? hj))
  · refine get_set_self _ _ ?_
    rw [size_pointPrev, size_pointNext]
    exact h.bound i hi

end Chain

end PriorityScheduler

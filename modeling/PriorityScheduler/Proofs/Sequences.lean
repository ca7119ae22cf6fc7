import PriorityScheduler.Proofs.Reachability

/-! # Chains stand for sequences

    Many chains over one table of links stand for as many sequences of nodes.  A chain
    REPRESENTS a sequence when the walk from its head over the nodes behind meets the
    sequence and ends, the walk from its tail over the nodes before meets it reversed and
    ends, and the ends and the length that it keeps are those of the sequence.  A walk has
    no bound on its steps, so links that go round in a circle represent nothing.

    What is asked of chains that share no node is answered by their sequences alone.  A
    request changes the sequence of its own chain, and writes no link but those of the
    nodes on it and of the one that it puts there; so all chains represent their sequences
    after every run of such requests.  The lists of a reachable kernel are such chains. -/

namespace PriorityScheduler

open Function (update)

namespace LinkTable

variable {step : Nat → Option Nat} {start : Option Nat} {t : LinkTable}

/-! ## Walks -/

/-- A walk starts at the first node that it meets. -/
theorem Walks.start_eq {l : List Nat} (walks : Walks step start l) : start = l.head? := by
  cases walks with
  | done => rfl
  | meet _ => rfl

/-- From each node that it meets a walk goes on to the next one. -/
theorem Walks.step_eq {a b : List Nat} {i : Nat} (walks : Walks step start (a ++ i :: b)) :
    step i = b.head? := by
  induction a generalizing start with
  | nil =>
      cases walks with
      | meet onward => exact onward.start_eq
  | cons x rest ih =>
      cases walks with
      | meet onward => exact ih onward

/-- A list is strung if at every place the node there names those on either side. -/
theorem strung_of_neighbours {prev next : Option Nat} {l : List Nat}
    (neighbours : ∀ a i b, l = a ++ i :: b → t.get i = ⟨a.getLast?.or prev, b.head?.or next⟩) :
    t.Strung prev l next := by
  induction l generalizing prev with
  | nil => trivial
  | cons x rest ih =>
      refine ⟨neighbours [] x rest rfl, ih ?_⟩
      intro a i b hrest
      rw [neighbours (x :: a) i b (congrArg (x :: ·) hrest), List.getLast?_cons]
      cases a.getLast? <;> rfl

/-- Following `step` from a start comes to the first node of which `found` holds, or to the
    end if it holds of none. -/
inductive Seeks (step : Nat → Option Nat) (found : Nat → Prop) :
    Option Nat → Option Nat → Prop where
  | nowhere : Seeks step found none none
  | here {i : Nat} : found i → Seeks step found (some i) (some i)
  | onward {i : Nat} {place : Option Nat} :
      ¬ found i → Seeks step found (step i) place → Seeks step found (some i) place

/-- A search along a walk that ends comes to an end, at the first node of the list that is
    looked for. -/
theorem Walks.seeks {l : List Nat} (walks : Walks step start l) (found : Nat → Prop)
    [DecidablePred found] : Seeks step found start (l.find? fun i => decide (found i)) := by
  induction walks with
  | done => exact .nowhere
  | @meet i rest _ ih =>
      by_cases hfound : found i
      · have hfind : (i :: rest).find? (fun j => decide (found j)) = some i :=
          List.find?_cons_of_pos (decide_eq_true hfound)
        rw [hfind]
        exact .here hfound
      · have hfind : (i :: rest).find? (fun j => decide (found j))
            = rest.find? fun j => decide (found j) :=
          List.find?_cons_of_neg (by simpa using hfound)
        rw [hfind]
        exact .onward hfound ih

end LinkTable

open LinkTable

namespace Chain

variable {c : Chain} {t : LinkTable} {l : List Nat}

/-! ## One chain -/

/-- The chain, walked in either direction, is the sequence, and what it keeps agrees. -/
structure Represents (c : Chain) (t : LinkTable) (l : List Nat) : Prop where
  forward : Walks (fun i => (t.get i).next) c.head l
  backward : Walks (fun i => (t.get i).prev) c.tail l.reverse
  head : c.head = l.head?
  tail : c.tail = l.getLast?
  length : c.length = l.length

/-- To hold a list is to represent it, if the nodes are distinct and the table has them. -/
theorem holds_iff :
    c.Holds t l ↔ c.Represents t l ∧ l.Nodup ∧ ∀ i ∈ l, i < t.size := by
  constructor
  · intro holds
    refine ⟨⟨?_, ?_, holds.head, holds.tail, holds.length⟩, holds.nodup, holds.bound⟩
    · rw [holds.head]
      exact holds.strung.walks_next
    · rw [holds.tail]
      exact holds.strung.walks_prev
  · rintro ⟨represents, nodup, bound⟩
    refine ⟨represents.head, represents.tail, represents.length, nodup, bound,
      strung_of_neighbours ?_⟩
    rintro a i b rfl
    -- the walk from the head names the node behind, the walk from the tail the node before
    have hnext : (t.get i).next = b.head? := represents.forward.step_eq
    have hback := represents.backward
    rw [List.reverse_append, List.reverse_cons, List.append_assoc, List.singleton_append] at hback
    have hprev : (t.get i).prev = a.reverse.head? := hback.step_eq
    rw [List.head?_reverse] at hprev
    rw [Option.or_none, Option.or_none, ← hnext, ← hprev]

/-- Put a node immediately before another one, or at the end if there is none. -/
def addAhead (c : Chain) (t : LinkTable) (place : Option Nat) (i : Nat) : Chain × LinkTable :=
  match place with
  | some j => c.addBefore t j i
  | none => c.addLast t i

/-- Insertion by key looks for the first greater key link by link, and puts the node where the
    search comes to its end. -/
theorem Holds.addByKey_seeks (holds : c.Holds t l) (key : Nat → UInt32) (i : Nat) :
    ∃ place, Seeks (fun j => (t.get j).next) (fun j => key i < key j) c.head place
      ∧ c.addByKey t key i = c.addAhead t place i := by
  refine ⟨_, (holds_iff.mp holds).1.forward.seeks _, ?_⟩
  rw [Chain.addByKey, holds.toList_eq]
  rfl

/-- The first node of a chain, if there is one, is taken off, and its link is cleared. -/
theorem Holds.eraseFirst (holds : c.Holds t l) :
    ∃ c' t', c.eraseFirst t = .ok (l.head?, c', t') ∧ c'.Holds t' l.tail ∧ Rewired t t' l
      ∧ ∀ i ∈ l, i ∉ l.tail → t'.get i = {} := by
  simp only [Chain.eraseFirst]
  rw [holds.head]
  cases l with
  | nil => exact ⟨c, t, rfl, holds, ⟨rfl, fun _ _ => rfl⟩, by rintro i ⟨⟩⟩
  | cons x rest =>
      obtain ⟨c', t', hrun, hleft, hrewired, hcleared⟩ := holds.erase List.mem_cons_self
      rw [filter_head holds.nodup] at hleft
      refine ⟨c', t', ?_, hleft, hrewired, ?_⟩
      · show (do let s ← c.erase t x; return (some x, s)) = _
        rw [hrun]
        rfl
      · intro i hi hgone
        rcases List.mem_cons.mp hi with rfl | hi
        · exact hcleared
        · exact absurd hi hgone

end Chain

/-! ## Many chains -/

/-- Chains over one table of links, each under a name. -/
structure Chains (ι : Type) where
  links : LinkTable
  chain : ι → Chain

namespace Chains

variable {ι : Type}

/-- The chains represent the sequences; no node occurs twice, on one chain or on two, and the
    table has them all. -/
structure Represents (f : Chains ι) (seq : ι → List Nat) : Prop where
  chain : ∀ q, (f.chain q).Represents f.links (seq q)
  nodup : ∀ q, (seq q).Nodup
  disjoint : ∀ {p q}, p ≠ q → (seq p).Disjoint (seq q)
  bound : ∀ q, ∀ i ∈ seq q, i < f.links.size

theorem represents_iff {f : Chains ι} {seq : ι → List Nat} :
    f.Represents seq ↔ (∀ q, (f.chain q).Holds f.links (seq q))
      ∧ ∀ {p q}, p ≠ q → (seq p).Disjoint (seq q) := by
  constructor
  · intro represents
    refine ⟨fun q => ?_, represents.disjoint⟩
    exact Chain.holds_iff.mpr ⟨represents.chain q, represents.nodup q, represents.bound q⟩
  · rintro ⟨holds, disjoint⟩
    exact ⟨fun q => (Chain.holds_iff.mp (holds q)).1, fun q => (holds q).nodup, disjoint,
      fun q => (holds q).bound⟩

section Reading

variable {f : Chains ι} {seq : ι → List Nat} (represents : f.Represents seq)

include represents

theorem Represents.holds (p : ι) : (f.chain p).Holds f.links (seq p) :=
  (represents_iff.mp represents).1 p

theorem Represents.toList_eq (p : ι) : (f.chain p).toList f.links = seq p :=
  (represents.holds p).toList_eq

theorem Represents.toListBack_eq (p : ι) : (f.chain p).toListBack f.links = (seq p).reverse :=
  (represents.holds p).toListBack_eq

end Reading

/-! ### Requests -/

/-- What can be asked of chains. -/
inductive Request (ι : Type) where
  | addLast (q : ι) (i : Nat)
  | addFirst (q : ι) (i : Nat)
  | addByKey (q : ι) (key : Nat → UInt32) (i : Nat)
  | erase (q : ι) (i : Nat)
  | eraseFirst (q : ι)

namespace Request

/-- The chain that is asked. -/
def target : Request ι → ι
  | addLast q _ | addFirst q _ | addByKey q _ _ | erase q _ | eraseFirst q => q

/-- The node that is put on a chain. -/
def adds : Request ι → Option Nat
  | addLast _ i | addFirst _ i | addByKey _ _ i => some i
  | erase _ _ | eraseFirst _ => none

/-- What may be asked of chains that represent the sequences, where the nodes are those below `n`
    that the table has links for: to put a node on a chain that is on none, and to take one off
    the chain that it is on. -/
def Proper (n : Nat) (seq : ι → List Nat) : Request ι → Prop
  | addLast _ i | addFirst _ i | addByKey _ _ i => i < n ∧ ∀ p, i ∉ seq p
  | erase q i => i ∈ seq q
  | eraseFirst _ => True

/-- What a request makes of the sequence of its chain. -/
def sequence (seq : ι → List Nat) : Request ι → List Nat
  | addLast q i => seq q ++ [i]
  | addFirst q i => i :: seq q
  | addByKey q key i =>
      (seq q).takeWhile (fun j => decide (¬ key i < key j))
        ++ i :: (seq q).dropWhile fun j => decide (¬ key i < key j)
  | erase q i => (seq q).filter (· ≠ i)
  | eraseFirst q => (seq q).tail

/-- What is answered: the node that was first, where that one is to be taken. -/
def answer (seq : ι → List Nat) : Request ι → Option Nat
  | eraseFirst q => (seq q).head?
  | _ => none

/-- What a request adds is on its chain afterwards, with what was there before. -/
theorem mem_of_mem_sequence {seq : ι → List Nat} {r : Request ι} {i : Nat}
    (mem : i ∈ r.sequence seq) : i ∈ r.adds.toList ++ seq r.target := by
  cases r with
  | addLast q j =>
      rcases List.mem_append.mp mem with hi | hi
      · exact List.mem_append_right _ hi
      · exact List.mem_append_left _ hi
  | addFirst q j => exact mem
  | addByKey q key j =>
      rcases List.mem_append.mp mem with hi | hi
      · exact List.mem_append_right _ ((List.takeWhile_sublist _).subset hi)
      · rcases List.mem_cons.mp hi with rfl | hi
        · exact List.mem_append_left _ List.mem_cons_self
        · exact List.mem_append_right _ ((List.dropWhile_sublist _).subset hi)
  | erase q j => exact (List.mem_filter.mp mem).1
  | eraseFirst q => exact List.mem_of_mem_tail mem

/-- Put in by its key, a node comes immediately before the first one with a greater key. -/
theorem sequence_addByKey (seq : ι → List Nat) (q : ι) (key : Nat → UInt32) (i : Nat) :
    (addByKey q key i).sequence seq = (seq q).orderedInsert (fun x y => key x < key y) i :=
  (List.orderedInsert_eq_take_drop (fun x y => key x < key y) i (seq q)).symm

/-- No node of another chain is on the chain that is asked or put there. -/
theorem not_mem_of_mem {f : Chains ι} {seq : ι → List Nat} (represents : f.Represents seq)
    {r : Request ι} (proper : r.Proper f.links.size seq) {p : ι} (ne : p ≠ r.target) {i : Nat}
    (hi : i ∈ seq p) : i ∉ r.adds.toList ++ seq r.target := by
  intro hmem
  rcases List.mem_append.mp hmem with hadds | hmem
  · cases r with
    | addLast q j | addFirst q j | addByKey q key j =>
        obtain rfl := List.mem_singleton.mp hadds
        exact proper.2 p hi
    | erase q j | eraseFirst q => cases hadds
  · exact represents.disjoint ne hi hmem

variable [DecidableEq ι]

/-- The sequences after a request. -/
def after (seq : ι → List Nat) (r : Request ι) : ι → List Nat :=
  update seq r.target (r.sequence seq)

end Request

variable [DecidableEq ι] {f : Chains ι} {seq : ι → List Nat} {r : Request ι}

/-- Replace one chain along with the links. -/
def put (f : Chains ι) (q : ι) (s : Chain × LinkTable) : Chains ι :=
  ⟨s.2, update f.chain q s.1⟩

/-- Do what is asked. -/
def Request.run : Request ι → Chains ι → Except Failure (Option Nat × Chains ι)
  | .addLast q i, f => .ok (none, f.put q ((f.chain q).addLast f.links i))
  | .addFirst q i, f => .ok (none, f.put q ((f.chain q).addFirst f.links i))
  | .addByKey q key i, f => .ok (none, f.put q ((f.chain q).addByKey f.links key i))
  | .erase q i, f => do
      let s ← (f.chain q).erase f.links i
      return (none, f.put q s)
  | .eraseFirst q, f => do
      let (first, s) ← (f.chain q).eraseFirst f.links
      return (first, f.put q s)

/-! ### What a request does -/

/-- One chain is replaced.  The others represent what they did, if no link of theirs was
    written. -/
theorem Represents.replace (represents : f.Represents seq) {q : ι} {s : Chain × LinkTable}
    {l nodes : List Nat} (holds : s.1.Holds s.2 l) (rewired : Rewired f.links s.2 nodes)
    (within : ∀ i ∈ l, i ∈ nodes) (off : ∀ p, p ≠ q → ∀ i ∈ seq p, i ∉ nodes) :
    (f.put q s).Represents (update seq q l) := by
  obtain ⟨hholds, hdisjoint⟩ := represents_iff.mp represents
  refine represents_iff.mpr ⟨?_, ?_⟩
  · intro p
    show (update f.chain q s.1 p).Holds s.2 (update seq q l p)
    by_cases hp : p = q
    · rw [hp, Function.update_self, Function.update_self]
      exact holds
    · rw [Function.update_of_ne hp, Function.update_of_ne hp]
      exact (hholds p).rewired rewired (off p hp)
  · -- the new sequence stays within `nodes`, and no other sequence has one of them
    intro p p' hne
    by_cases hp : p = q
    · have hp' : p' ≠ q := fun h => hne (hp.trans h.symm)
      rw [hp, Function.update_self, Function.update_of_ne hp']
      exact fun i hi hi' => off p' hp' i hi' (within i hi)
    · rw [Function.update_of_ne hp]
      by_cases hp' : p' = q
      · rw [hp', Function.update_self]
        exact fun i hi hi' => off p hp i hi (within i hi')
      · rw [Function.update_of_ne hp']
        exact hdisjoint hne

/-- A proper request is done.  It answers what the sequences tell, and its chain holds its new
    sequence.  It writes no link but those of the nodes that were on the chain and of the one
    that is put there, and whatever has left the chain has an empty link. -/
theorem Represents.run_ok (represents : f.Represents seq) (proper : r.Proper f.links.size seq) :
    ∃ s : Chain × LinkTable, r.run f = .ok (r.answer seq, f.put r.target s)
      ∧ s.1.Holds s.2 (r.sequence seq) ∧ Rewired f.links s.2 (r.adds.toList ++ seq r.target)
      ∧ ∀ i ∈ seq r.target, i ∉ r.sequence seq → s.2.get i = {} := by
  have hholds := represents.holds
  cases r with
  | addLast q i =>
      obtain ⟨hadded, hrewired⟩ := (hholds q).addLast (proper.2 q) proper.1
      refine ⟨_, rfl, hadded, hrewired, ?_⟩
      exact fun j hj hleft => absurd (List.mem_append_left [i] hj) hleft
  | addFirst q i =>
      obtain ⟨hadded, hrewired⟩ := (hholds q).addFirst (proper.2 q) proper.1
      refine ⟨_, rfl, hadded, hrewired, ?_⟩
      exact fun j hj hleft => absurd (List.mem_cons_of_mem i hj) hleft
  | addByKey q key i =>
      obtain ⟨hadded, hrewired⟩ := (hholds q).addByKey key (proper.2 q) proper.1
      rw [← Request.sequence_addByKey seq q key i] at hadded
      refine ⟨_, rfl, hadded, hrewired, ?_⟩
      intro j hj hleft
      rw [Request.sequence_addByKey, List.mem_orderedInsert] at hleft
      exact absurd (Or.inr hj) hleft
  | erase q i =>
      obtain ⟨c, links, hrun, hleft, hrewired, hcleared⟩ := (hholds q).erase proper
      refine ⟨(c, links), ?_, hleft, hrewired, ?_⟩
      · simp only [Request.run]
        rw [hrun]
        rfl
      · intro j hj hgone
        -- only the node that is erased leaves, and its link is cleared
        by_cases hji : j = i
        · rw [hji]
          exact hcleared
        · exact absurd (List.mem_filter.mpr ⟨hj, decide_eq_true hji⟩) hgone
  | eraseFirst q =>
      obtain ⟨c, links, hrun, hleft, hrewired, hcleared⟩ := (hholds q).eraseFirst
      refine ⟨(c, links), ?_, hleft, hrewired, hcleared⟩
      simp only [Request.run]
      rw [hrun]
      rfl

/-- What a proper request does to the chains. -/
structure Refines (seq : ι → List Nat) (r : Request ι) (f f' : Chains ι) : Prop where
  /-- The chains represent the sequences after the request, and share no node still. -/
  represents : f'.Represents (r.after seq)
  /-- These are what the chains read as, from either end. -/
  toList : ∀ p, (f'.chain p).toList f'.links = r.after seq p
  toListBack : ∀ p, (f'.chain p).toListBack f'.links = (r.after seq p).reverse
  /-- The link of a node that has left the chain is empty. -/
  cleared : ∀ i ∈ seq r.target, i ∉ r.after seq r.target → f'.links.get i = {}
  /-- The other chains, and all links but those of the nodes that were on the chain and of the
      one that is put there, are as they were. -/
  others : ∀ p, p ≠ r.target → f'.chain p = f.chain p
    ∧ (f'.chain p).toList f'.links = (f.chain p).toList f.links
    ∧ (f'.chain p).toListBack f'.links = (f.chain p).toListBack f.links
  untouched : ∀ i, i ∉ seq r.target → r.adds ≠ some i → f'.links.get i = f.links.get i
  size : f'.links.size = f.links.size
  /-- Insertion by key finds its place by a search over the links, which comes to an end. -/
  seeks : ∀ {q key i}, r = .addByKey q key i → ∃ place,
    Seeks (fun j => (f.links.get j).next) (fun j => key i < key j) (f.chain q).head place
      ∧ (f.chain q).addByKey f.links key i = (f.chain q).addAhead f.links place i
  /-- It keeps a chain that is in the order of its keys in this order, and the nodes with any one
      key in the order of their arrival. -/
  sorted : ∀ {q key i}, r = .addByKey q key i → (seq q).Pairwise (fun x y => key x ≤ key y) →
    (r.after seq q).Pairwise (fun x y => key x ≤ key y)
      ∧ ∀ k, (r.after seq q).filter (fun x => decide (key x = k))
        = (seq q ++ [i]).filter fun x => decide (key x = k)

/-- The chains represent the sequences after a request when the chain that is asked does. -/
theorem Represents.put (represents : f.Represents seq) (proper : r.Proper f.links.size seq)
    {s : Chain × LinkTable} (holds : s.1.Holds s.2 (r.sequence seq))
    (rewired : Rewired f.links s.2 (r.adds.toList ++ seq r.target)) :
    (f.put r.target s).Represents (r.after seq) :=
  represents.replace holds rewired (fun _ => Request.mem_of_mem_sequence) fun _ hp _ =>
    Request.not_mem_of_mem represents proper hp

/-- Chains that share no node stand for sequences.  Take any number of them over any table of
    links, each of which represents a sequence of distinct nodes, and ask of one to put a node on
    it that is on none, at either end or by a key, or to take one off.  Then this is done, the
    chain represents the sequence that the request makes of its own, and the other chains and
    the links of all nodes off it are as they were. -/
theorem refine_sequences (f : Chains ι) (seq : ι → List Nat) (represents : f.Represents seq)
    (r : Request ι) (proper : r.Proper f.links.size seq) :
    ∃ f', r.run f = .ok (r.answer seq, f') ∧ Refines seq r f f' := by
  obtain ⟨s, hrun, hholds, hrewired, hcleared⟩ := represents.run_ok proper
  have hafter := represents.put proper hholds hrewired
  have hself : r.after seq r.target = r.sequence seq := Function.update_self ..
  refine ⟨f.put r.target s, hrun, hafter, hafter.toList_eq, hafter.toListBack_eq, ?cleared,
    ?others, ?untouched, hrewired.size, ?seeks, ?sorted⟩
  case cleared =>
    rw [hself]
    exact hcleared
  case others =>
    intro p hp
    have hother : r.after seq p = seq p := Function.update_of_ne hp ..
    refine ⟨Function.update_of_ne hp .., ?_, ?_⟩
    · rw [hafter.toList_eq, represents.toList_eq, hother]
    · rw [hafter.toListBack_eq, represents.toListBack_eq, hother]
  case untouched =>
    intro i hoff hnew
    refine hrewired.get i ?_
    rw [List.mem_append, Option.mem_toList]
    exact fun h => h.elim hnew hoff
  case seeks =>
    rintro q key i -
    exact (represents.holds q).addByKey_seeks key i
  case sorted =>
    rintro q key i rfl hsorted
    have hplaced : (Request.addByKey q key i).after seq q
        = (seq q).orderedInsert (fun x y => key x < key y) i :=
      hself.trans (Request.sequence_addByKey seq q key i)
    rw [hplaced]
    exact ⟨sorted_orderedInsert key hsorted, filter_orderedInsert hsorted⟩

/-- A node whose link is left over from another place is put on a chain by its key, behind the
    peer that it has there and before the first greater key, beside a second chain. -/
theorem refine_sequences_behind_peer :
    ∃ (f : Chains Bool) (seq : Bool → List Nat) (r : Request Bool) (f' : Chains Bool),
      f.Represents seq ∧ r.Proper f.links.size seq
        ∧ (r.after seq true, r.after seq false) = ([4, 5], [3, 1, 2, 0])
        ∧ r.run f = .ok (none, f') ∧ Refines seq r f f' := by
  let links : LinkTable := ⟨#[⟨some 1, none⟩, ⟨some 3, some 0⟩, ⟨some 4, some 0⟩, ⟨none, some 1⟩,
    ⟨none, some 5⟩, ⟨some 4, none⟩]⟩
  let f : Chains Bool := ⟨links, fun q => bif q then ⟨some 4, some 5, 2⟩ else ⟨some 3, some 0, 3⟩⟩
  let seq : Bool → List Nat := fun q => bif q then [4, 5] else [3, 1, 0]
  let r : Request Bool := .addByKey false (fun i => [5, 3, 3, 1].getD i 9) 2
  have hrepresents : f.Represents seq := by
    refine represents_iff.mpr ⟨?_, ?_⟩
    · intro q
      cases q with
      | false => exact ⟨rfl, rfl, rfl, by decide, by decide, rfl, rfl, rfl, trivial⟩
      | true => exact ⟨rfl, rfl, rfl, by decide, by decide, rfl, rfl, trivial⟩
    · intro p q hne
      match p, q with
      | true, false | false, true => exact List.disjoint_left.mpr (by decide)
      | true, true | false, false => exact absurd rfl hne
  have hproper : r.Proper f.links.size seq := ⟨by decide, fun p => by cases p <;> decide⟩
  obtain ⟨f', hrun, hrefines⟩ := refine_sequences f seq hrepresents r hproper
  exact ⟨f, seq, r, f', hrepresents, hproper, by decide, hrun, hrefines⟩

/-! ### Runs -/

/-- Do what is asked, one request after the other, and answer all of them. -/
def runAll : List (Request ι) → Chains ι → Except Failure (List (Option Nat) × Chains ι)
  | [], f => .ok ([], f)
  | r :: rest, f => do
      let (answer, f) ← r.run f
      let (answers, f) ← runAll rest f
      return (answer :: answers, f)

/-- The answers to requests, and the sequences after them, as the sequences tell. -/
def foretell : List (Request ι) → (ι → List Nat) → List (Option Nat) × (ι → List Nat)
  | [], seq => ([], seq)
  | r :: rest, seq =>
      let (answers, last) := foretell rest (r.after seq)
      (r.answer seq :: answers, last)

/-- Each of the requests is proper when its turn comes. -/
def AllProper (n : Nat) : List (Request ι) → (ι → List Nat) → Prop
  | [], _ => True
  | r :: rest, seq => r.Proper n seq ∧ AllProper n rest (r.after seq)

/-- Over every run of proper requests the answers are those that the sequences tell, and the
    chains represent the sequences that they tell. -/
theorem Represents.runAll_ok {requests : List (Request ι)} (represents : f.Represents seq)
    (proper : AllProper f.links.size requests seq) :
    ∃ f', runAll requests f = .ok ((foretell requests seq).1, f')
      ∧ f'.Represents (foretell requests seq).2 := by
  induction requests generalizing f seq with
  | nil => exact ⟨f, rfl, represents⟩
  | cons r rest ih =>
      obtain ⟨hproper, hrest⟩ := proper
      obtain ⟨s, hrun, hholds, hrewired, -⟩ := represents.run_ok hproper
      have hafter := represents.put hproper hholds hrewired
      -- the table has as many links as before, so what is proper later on is so still
      rw [← hrewired.size] at hrest
      obtain ⟨f', hruns, hlast⟩ := ih hafter hrest
      refine ⟨f', ?_, hlast⟩
      simp only [runAll, hrun, bind, Except.bind]
      rw [hruns]
      rfl

/-- Five nodes that are put in by their keys, of which the first and the third have one key. -/
example :
    let key : Nat → UInt32 := fun i => [5, 3, 5, 1, 9].getD i 0
    let blank : Chains Unit := ⟨⟨Array.replicate 5 {}⟩, fun _ => {}⟩
    ((runAll ((List.range 5).map (.addByKey () key)) blank).map fun s =>
      (s.2.chain ()).toList s.2.links).toOption = some [3, 1, 0, 2, 4] := by
  decide

end Chains

/-! ## The chains of a kernel -/

/-- The lists of every reachable kernel are chains that share no node: the records keep each task
    on the list that they name and on no other. -/
theorem Kernel.Reachable.represents {k : Kernel} (reachable : k.Reachable) :
    (⟨k.table.links, k.chain⟩ : Chains Place).Represents k.slotsAt := by
  obtain ⟨intact, -⟩ := reachable.intact
  refine Chains.represents_iff.mpr ⟨intact.threaded.holds, ?_⟩
  intro p q hne i hi hi'
  obtain ⟨-, task, htask, hplace⟩ := (intact.tagged.mem_row p i).mp hi
  obtain ⟨-, task', htask', hplace'⟩ := (intact.tagged.mem_row q i).mp hi'
  obtain rfl := Option.some.inj (htask.symm.trans htask')
  exact hne (hplace.symm.trans hplace')

end PriorityScheduler

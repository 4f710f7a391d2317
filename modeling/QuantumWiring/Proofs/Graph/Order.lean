import QuantumWiring.Proofs.Graph.WellFormed
import Mathlib.Data.Prod.Lex
import Mathlib.Data.String.Basic

/-!
# Orders of nodes and wires

A compilation sorts three times: the sources from top to bottom, the wires that leave a node, and
the junctions for the rules.  Each of these orders compares keys (`Node.isAbove_iff`,
`Edge.leavesFirst_iff`), so a sorted list is determined by what is sorted as soon as its elements
differ in their keys (`mergeSort_eq_of_perm`).  Where ids are distinct, the rules meet the nodes of
a graph in the order of `nodesById` (`sorted_build`), and the first violation that a rule finds on
its way is the one at the least id (`findSome?_sorted_eq_some_iff`).
-/

namespace QuantumWiring

section Sorting

variable {α κ : Type} [LinearOrder κ] (key : α → κ) {le : α → α → Bool} {l l' : List α}

theorem trans_of_key (hle : ∀ a b, le a b ↔ key a ≤ key b) (a b c : α) (hab : le a b)
    (hbc : le b c) : le a c :=
  (hle a c).2 (le_trans ((hle a b).1 hab) ((hle b c).1 hbc))

theorem total_of_key (hle : ∀ a b, le a b ↔ key a ≤ key b) (a b : α) : le a b || le b a := by
  rw [Bool.or_eq_true, hle, hle]
  exact le_total (key a) (key b)

theorem pairwise_mergeSort_key (hle : ∀ a b, le a b ↔ key a ≤ key b) (l : List α) :
    (l.mergeSort le).Pairwise (key · ≤ key ·) := by
  have hsorted := List.pairwise_mergeSort (trans_of_key key hle) (total_of_key key hle) l
  exact hsorted.imp fun {a b} hab => (hle a b).1 hab

/-- What is sorted determines the sorted list, if its elements differ in their keys. -/
theorem mergeSort_eq_of_perm (hle : ∀ a b, le a b ↔ key a ≤ key b)
    (hinj : ∀ a ∈ l, ∀ b ∈ l, key a = key b → a = b) (h : l.Perm l') :
    l.mergeSort le = l'.mergeSort le := by
  have hsorted : (l.mergeSort le).Perm (l'.mergeSort le) :=
    (List.mergeSort_perm l le).trans (h.trans (List.mergeSort_perm l' le).symm)
  have hanti (a b : α) (ha : a ∈ l.mergeSort le) (hb : b ∈ l'.mergeSort le)
      (hab : key a ≤ key b) (hba : key b ≤ key a) : a = b :=
    hinj a (List.mem_mergeSort.1 ha) b (h.mem_iff.2 (List.mem_mergeSort.1 hb))
      (le_antisymm hab hba)
  exact hsorted.eq_of_pairwise hanti (pairwise_mergeSort_key key hle l)
    (pairwise_mergeSort_key key hle l')

end Sorting

/-! ## Sources -/

namespace Node

/-- What orders the sources: the height, then the id. -/
def heightKey (n : Node) : Int ×ₗ NodeId := toLex (n.position.y.rank, n.id)

theorem isAbove_iff (m n : Node) : m.isAbove n ↔ m.heightKey ≤ n.heightKey := by
  simp [isAbove, heightKey, Prod.Lex.toLex_le_toLex]

theorem id_eq_of_heightKey_eq {m n : Node} (h : m.heightKey = n.heightKey) : m.id = n.id :=
  (Prod.mk.inj h).2

end Node

/-! ## Leaving wires -/

namespace Edge

/-- What orders the wires that leave a node: the handle there, the id of the node they lead to,
then the handle there. -/
def followKey (e : Edge) : Nat ×ₗ NodeId ×ₗ Nat :=
  toLex (Handle.order e.sourceHandle, toLex (e.target, Handle.order e.targetHandle))

theorem leavesFirst_iff (a b : Edge) : a.leavesFirst b ↔ a.followKey ≤ b.followKey := by
  simp [leavesFirst, followKey, Prod.Lex.toLex_le_toLex]

end Edge

theorem Handle.order_injective : Function.Injective Handle.order := by
  rintro (_ | a) (_ | b) h
  · rfl
  · cases b <;> cases h
  · cases a <;> cases h
  · cases a <;> cases b <;> first | rfl | cases h

/-! ## Junctions -/

namespace CircuitGraph

/-- The nodes in the order of their ids. -/
def nodesById (g : CircuitGraph) : List Node := g.nodes.mergeSort fun m n => m.id ≤ n.id

theorem nodesById_perm (g : CircuitGraph) : g.nodesById.Perm g.nodes := List.mergeSort_perm ..

theorem mem_nodesById {g : CircuitGraph} {n : Node} : n ∈ g.nodesById ↔ n ∈ g.nodes :=
  g.nodesById_perm.mem_iff

theorem pairwise_nodesById (g : CircuitGraph) : g.nodesById.Pairwise (·.id ≤ ·.id) :=
  pairwise_mergeSort_key Node.id (fun _ _ => by simp) g.nodes

end CircuitGraph

theorem Adjacency.sorted_eq_mergeSort (a : Adjacency) :
    a.sorted = a.junctions.mergeSort fun j k => j.node.id ≤ k.node.id := by
  let le : Junction → Junction → Bool := fun j k => j.node.id ≤ k.node.id
  calc a.sorted
      = (a.junctions.zipIdx.map (·.1)).mergeSort le := List.map_mergeSort fun _ _ _ _ => rfl
    _ = a.junctions.mergeSort le := by rw [List.zipIdx_map_fst]

theorem Adjacency.sorted_build {g : CircuitGraph} (h : g.ids.Nodup) :
    (build g).sorted = g.nodesById.map g.junction := by
  let le : Junction → Junction → Bool := fun j k => j.node.id ≤ k.node.id
  rw [sorted_eq_mergeSort, junctions_build h]
  exact (List.map_mergeSort (s := le) (f := g.junction) fun _ _ _ _ => rfl).symm

namespace Rule

variable {g : CircuitGraph} {f : Junction → Option Violation} {v : Violation}

/-- **The rules report at the least id.** -/
theorem findSome?_sorted_eq_some_iff (h : g.ids.Nodup) :
    (Adjacency.build g).sorted.findSome? f = some v ↔ ∃ n ∈ g.nodes,
      f (g.junction n) = some v ∧ ∀ m ∈ g.nodes, f (g.junction m) ≠ none → n.id ≤ m.id := by
  have hsorted := g.pairwise_nodesById
  rw [Adjacency.sorted_build h, List.findSome?_map, List.findSome?_eq_some_iff]
  constructor
  · rintro ⟨before, n, after, hns, hn, hbefore⟩
    refine ⟨n, CircuitGraph.mem_nodesById.1 (by simp [hns]), hn, fun m hm hf => ?_⟩
    have hm := CircuitGraph.mem_nodesById.2 hm
    rw [hns] at hm hsorted
    rcases List.mem_append.1 hm with hm | hm
    · exact absurd (hbefore m hm) hf
    · rcases List.mem_cons.1 hm with rfl | hm
      · exact le_refl _
      · exact (List.pairwise_cons.1 (List.pairwise_append.1 hsorted).2.1).1 m hm
  · rintro ⟨n, hn, hv, hleast⟩
    obtain ⟨before, after, hns⟩ := List.append_of_mem (CircuitGraph.mem_nodesById.2 hn)
    refine ⟨before, n, after, hns, hv, fun m hm => ?_⟩
    have hids : (g.nodesById.map (·.id)).Nodup := (g.nodesById_perm.map _).nodup_iff.2 h
    rw [hns] at hsorted hids
    by_contra hf
    -- an earlier node at which something is found would have the same id
    have hmn : m.id ≤ n.id := (List.pairwise_append.1 hsorted).2.2 m hm n List.mem_cons_self
    have hnm : n.id ≤ m.id := hleast m (CircuitGraph.mem_nodesById.1 (by simp [hns, hm])) hf
    rw [List.map_append, List.map_cons] at hids
    exact List.disjoint_of_nodup_append hids (List.mem_map_of_mem hm)
      (le_antisymm hmn hnm ▸ List.mem_cons_self)

end Rule

end QuantumWiring

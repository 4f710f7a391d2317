import QuantumWiring.Compile.Rule
import QuantumWiring.Proofs.Graph.Wire

/-!
# Well-formed graphs

`WellFormed` says on the raw lists of nodes and edges what a drawing has to be: distinct ids, wires
with both ends, a qubit, as many measurements as qubits, and at every node as many wires as its
kind has terminals, at a gate on two qubits one for each terminal.  The nine standard rules read
junctions, degrees, duplicates and dangling wires instead; `accepted_iff_wellFormed` says that
together they ask for exactly this.
-/

namespace QuantumWiring

namespace NodeKind

/-- How many wires have to enter a node. -/
def numInputs : NodeKind → Nat
  | .qubitSource _ => 0
  | .singleGate _ | .measurement => 1
  | .twoGate _ => 2

/-- How many wires have to leave a node. -/
def numOutputs : NodeKind → Nat
  | .qubitSource _ | .singleGate _ => 1
  | .twoGate _ => 2
  | .measurement => 0

def isTwoGate : NodeKind → Bool
  | .twoGate _ => true
  | _ => false

variable {k : NodeKind}

/-- What is not a source puts an operation into the circuit. -/
theorem isSome_operation?_iff : k.operation?.isSome ↔ k.isSource = false := by
  cases k <;> simp [operation?, isSource]

theorem isSource_eq_false_iff : k.isSource = false ↔ k.isGate ∨ k.isMeasurement := by
  cases k <;> simp [isSource, isGate, isMeasurement]

theorem isMeasurement_of_isGate (h : k.isGate) : k.isMeasurement = false := by
  cases k <;> simp_all [isGate, isMeasurement]

theorem isTwoGate_of_isSource (h : k.isSource) : k.isTwoGate = false := by
  cases k <;> simp_all [isSource, isTwoGate]

theorem isTwoGate_of_numInputs (h : k.numInputs = 1) : k.isTwoGate = false := by
  cases k <;> simp_all [numInputs, isTwoGate]

end NodeKind

namespace CircuitGraph

/-- A graph in which every terminal of every node carries one wire. -/
structure WellFormed (g : CircuitGraph) : Prop where
  ids_nodup : g.ids.Nodup
  joined : ∀ e ∈ g.edges, g.joins e
  sources_ne_nil : g.sources ≠ []
  parity : g.sources.length = g.measurements.length
  length_wiresInto : ∀ n ∈ g.nodes, (g.wiresInto n.id).length = n.kind.numInputs
  length_wiresFrom : ∀ n ∈ g.nodes, (g.wiresFrom n.id).length = n.kind.numOutputs
  countP_wiresInto : ∀ n ∈ g.nodes, n.kind.isTwoGate → ∀ h : Handle, h.isInput →
    (g.wiresInto n.id).countP (·.targetHandle = some h) = 1
  countP_wiresFrom : ∀ n ∈ g.nodes, n.kind.isTwoGate → ∀ h : Handle, h.isInput = false →
    (g.wiresFrom n.id).countP (·.sourceHandle = some h) = 1

/-- The standard rules find nothing wrong with a graph. -/
def Accepted (g : CircuitGraph) : Prop :=
  firstViolation? Rule.standard (Adjacency.build g) = none

end CircuitGraph

/-! ## The rules, one by one -/

namespace Rule

variable {g : CircuitGraph}

theorem findSome?_sorted_eq_none_iff (h : g.ids.Nodup) {f : Junction → Option Violation} :
    (Adjacency.build g).sorted.findSome? f = none ↔ ∀ n ∈ g.nodes, f (g.junction n) = none := by
  rw [List.findSome?_eq_none_iff]
  simp only [Adjacency.mem_sorted, Adjacency.junctions_build h, List.forall_mem_map]

theorem least?_eq_none_iff {α : Type} {before : α → α → Bool} {l : List α} :
    least? before l = none ↔ l = [] := by
  cases l <;> simp [least?]

theorem check_qubitPresence : check (Adjacency.build g) .qubitPresence = none ↔ g.sources ≠ [] := by
  simp [check]

theorem check_measurementParity : check (Adjacency.build g) .measurementParity = none ↔
    g.sources.length = g.measurements.length := by
  simp [check]

theorem check_wireEndpoints : check (Adjacency.build g) .wireEndpoints = none ↔
    g.ids.Nodup ∧ ∀ e ∈ g.edges, g.joins e := by
  have hdangling : (Adjacency.build g).dangling = [] ↔ ∀ e ∈ g.edges, g.joins e := by
    simp [Adjacency.dangling_build, List.filter_eq_nil_iff]
  rw [← hdangling, ← Adjacency.duplicates_build_eq_nil_iff]
  unfold check
  cases hd : least? (fun a b : NodeId => a < b) (Adjacency.build g).duplicates with
  | none => simp [least?_eq_none_iff.1 hd, least?_eq_none_iff]
  | some id =>
    have : (Adjacency.build g).duplicates ≠ [] := fun he => by simp [he, least?] at hd
    simp [this]

theorem check_qubitFanOut (h : g.ids.Nodup) : check (Adjacency.build g) .qubitFanOut = none ↔
    ∀ n ∈ g.nodes, n.kind.isSource → (g.wiresFrom n.id).length = 1 := by
  rw [check, findSome?_sorted_eq_none_iff h]
  refine forall₂_congr fun n _ => ?_
  cases hk : n.kind <;> simp [CircuitGraph.junction, hk, NodeKind.isSource]

theorem check_measurementFanIn (h : g.ids.Nodup) :
    check (Adjacency.build g) .measurementFanIn = none ↔
      ∀ n ∈ g.nodes, n.kind.isMeasurement → (g.wiresInto n.id).length = 1 := by
  rw [check, findSome?_sorted_eq_none_iff h]
  refine forall₂_congr fun n _ => ?_
  cases hk : n.kind <;> simp [CircuitGraph.junction, hk, NodeKind.isMeasurement]

theorem gateDegrees_eq_none_iff {arity : Nat} {name : String} {j : Junction} :
    gateDegrees arity name j = none ↔ j.inDegree = arity ∧ j.outDegree = arity := by
  unfold gateDegrees
  by_cases hin : j.inDegree = arity <;> by_cases hout : j.outDegree = arity <;> simp [hin, hout]

theorem check_gateDegree (h : g.ids.Nodup) : check (Adjacency.build g) .gateDegree = none ↔
    ∀ n ∈ g.nodes, n.kind.isGate →
      (g.wiresInto n.id).length = n.kind.numInputs ∧
      (g.wiresFrom n.id).length = n.kind.numOutputs := by
  rw [check, Option.or_eq_none_iff, findSome?_sorted_eq_none_iff h,
    findSome?_sorted_eq_none_iff h, ← forall₂_and]
  refine forall₂_congr fun n _ => ?_
  cases hk : n.kind <;>
    simp [CircuitGraph.junction, hk, gateDegrees_eq_none_iff, NodeKind.isGate, NodeKind.numInputs,
      NodeKind.numOutputs]

/-- A gate that has its wires is no orphan. -/
theorem check_noOrphanGates (h : g.ids.Nodup)
    (hdeg : check (Adjacency.build g) .gateDegree = none) :
    check (Adjacency.build g) .noOrphanGates = none := by
  rw [check_gateDegree h] at hdeg
  rw [check, findSome?_sorted_eq_none_iff h]
  intro n hn
  have := hdeg n hn
  cases hk : n.kind <;>
    simp_all [CircuitGraph.junction, NodeKind.gateName?, NodeKind.isGate, NodeKind.numInputs,
      NodeKind.numOutputs]

theorem check_terminalDirection (h : g.ids.Nodup) :
    check (Adjacency.build g) .terminalDirection = none ↔ ∀ n ∈ g.nodes,
      (n.kind.isSource → (g.wiresInto n.id).length = 0) ∧
      (n.kind.isMeasurement → (g.wiresFrom n.id).length = 0) := by
  rw [check, findSome?_sorted_eq_none_iff h]
  refine forall₂_congr fun n _ => ?_
  cases hk : n.kind <;>
    simp [CircuitGraph.junction, hk, NodeKind.isSource, NodeKind.isMeasurement]

/-- The rules about degrees and directions together ask for the wires of its kind at every node. -/
theorem check_degrees (h : g.ids.Nodup) :
    (∀ r ∈ [.qubitFanOut, .gateDegree, .measurementFanIn, .terminalDirection],
      check (Adjacency.build g) r = none) ↔
    ∀ n ∈ g.nodes, (g.wiresInto n.id).length = n.kind.numInputs ∧
      (g.wiresFrom n.id).length = n.kind.numOutputs := by
  simp only [List.forall_mem_cons, List.not_mem_nil, false_imp_iff, implies_true, and_true,
    check_qubitFanOut h, check_gateDegree h, check_measurementFanIn h, check_terminalDirection h]
  rw [← forall₂_and, ← forall₂_and, ← forall₂_and]
  refine forall₂_congr fun n _ => ?_
  cases n.kind <;>
    simp [NodeKind.isSource, NodeKind.isGate, NodeKind.isMeasurement, NodeKind.numInputs,
      NodeKind.numOutputs, and_comm]

theorem handleUse_eq_none_iff {j : Junction} {gate : TwoGate} :
    handleUse j gate = none ↔ (∀ h : Handle, h.isInput → j.entering h = 1) ∧
      ∀ h : Handle, h.isInput = false → j.leaving h = 1 := by
  unfold handleUse
  rw [List.findSome?_eq_none_iff]
  constructor
  · intro hall
    constructor <;> intro h hi <;> have := hall h (by cases h <;> simp [Handle.all]) <;>
      simpa [hi] using this
  · rintro ⟨hin, hout⟩ h -
    cases hi : h.isInput
    · simp [hout h hi]
    · simp [hin h hi]

theorem check_handleAssignment (h : g.ids.Nodup) (hj : ∀ e ∈ g.edges, g.joins e) :
    check (Adjacency.build g) .handleAssignment = none ↔ ∀ n ∈ g.nodes, n.kind.isTwoGate →
      (∀ h : Handle, h.isInput → (g.wiresInto n.id).countP (·.targetHandle = some h) = 1) ∧
      ∀ h : Handle, h.isInput = false →
        (g.wiresFrom n.id).countP (·.sourceHandle = some h) = 1 := by
  have hinto (id : NodeId) : (g.wiresInto id).filter g.joins = g.wiresInto id :=
    List.filter_eq_self.2 fun e he => hj e (CircuitGraph.mem_wiresInto.1 he).1
  have hfrom (id : NodeId) : (g.wiresFrom id).filter g.joins = g.wiresFrom id :=
    List.filter_eq_self.2 fun e he => hj e (CircuitGraph.mem_wiresFrom.1 he).1
  rw [check, findSome?_sorted_eq_none_iff h]
  refine forall₂_congr fun n _ => ?_
  cases hk : n.kind with
  | twoGate gate =>
    simp only [CircuitGraph.junction, hk, NodeKind.isTwoGate, forall_const, handleUse_eq_none_iff,
      Junction.entering, Junction.leaving, hinto, hfrom,
      (List.mergeSort_perm (g.wiresFrom n.id) Edge.leavesFirst).countP_eq]
  | _ => simp [CircuitGraph.junction, hk, NodeKind.isTwoGate]

end Rule

namespace CircuitGraph

/-- **The standard rules accept exactly the well-formed graphs.** -/
theorem accepted_iff_wellFormed {g : CircuitGraph} : g.Accepted ↔ g.WellFormed := by
  unfold Accepted firstViolation?
  rw [List.findSome?_eq_none_iff]
  constructor
  · intro h
    obtain ⟨hids, hjoins⟩ := Rule.check_wireEndpoints.1 (h .wireEndpoints (by decide))
    have hdeg := (Rule.check_degrees hids).1 fun r hr => h r (by revert r; decide)
    have huse := (Rule.check_handleAssignment hids hjoins).1 (h .handleAssignment (by decide))
    exact ⟨hids, hjoins, Rule.check_qubitPresence.1 (h .qubitPresence (by decide)),
      Rule.check_measurementParity.1 (h .measurementParity (by decide)),
      fun n hn => (hdeg n hn).1, fun n hn => (hdeg n hn).2,
      fun n hn ht => (huse n hn ht).1, fun n hn ht => (huse n hn ht).2⟩
  · intro h
    have hdeg := (Rule.check_degrees h.ids_nodup).2 fun n hn =>
      ⟨h.length_wiresInto n hn, h.length_wiresFrom n hn⟩
    rintro (_ | _) -
    · exact Rule.check_qubitPresence.2 h.sources_ne_nil
    · exact Rule.check_measurementParity.2 h.parity
    · exact hdeg _ (by decide)
    · exact hdeg _ (by decide)
    · exact hdeg _ (by decide)
    · exact Rule.check_noOrphanGates h.ids_nodup (hdeg _ (by decide))
    · exact Rule.check_wireEndpoints.2 ⟨h.ids_nodup, h.joined⟩
    · exact hdeg _ (by decide)
    · exact (Rule.check_handleAssignment h.ids_nodup h.joined).2 fun n hn ht =>
        ⟨h.countP_wiresInto n hn ht, h.countP_wiresFrom n hn ht⟩

end CircuitGraph

end QuantumWiring

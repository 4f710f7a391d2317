import QuantumWiring.Proofs.Graph.WellFormed
import Mathlib.Algebra.GroupWithZero.Nat
import Mathlib.Data.List.Permutation

/-!
# Rules that follow from the others

A wire leaves one node and enters one.  Counted at either end the wires are the same, so where every
node has the wires of its kind, the sources and the measurements balance
(`length_sources_eq_of_degrees`).  The count of measurements need not be checked then, nor that gates
have wires at all: the two rules change no verdict of a list of rules that checks the wires
(`firstViolation?_filter_eq_none_iff`), and the standard rules accept the same graphs without them
(`accepted_iff_essential`).
-/

namespace QuantumWiring

/-- The elements of a list, counted by their keys. -/
theorem length_eq_sum_filter {α β : Type} [DecidableEq β] {f : α → β} {l : List α} {ks : List β}
    (hks : ks.Nodup) (hl : ∀ a ∈ l, f a ∈ ks) :
    l.length = (ks.map fun k => (l.filter (f · = k)).length).sum := by
  induction ks generalizing l with
  | nil =>
    have hnil : l = [] := List.eq_nil_iff_forall_not_mem.2 fun a ha => by cases hl a ha
    rw [hnil]
    rfl
  | cons k ks ih =>
    obtain ⟨hk, hks⟩ := List.nodup_cons.1 hks
    have hrest : ∀ a ∈ l.filter (fun a => !decide (f a = k)), f a ∈ ks := fun a ha => by
      obtain ⟨ha, hne⟩ := List.mem_filter.1 ha
      exact (List.mem_cons.1 (hl a ha)).resolve_left (by simpa using hne)
    have hsame : ks.map (fun j => ((l.filter (fun a => !decide (f a = k))).filter (f · = j)).length) =
        ks.map fun j => (l.filter (f · = j)).length := by
      refine List.map_congr_left fun j hj => ?_
      have hjk : j ≠ k := fun heq => hk (heq ▸ hj)
      rw [List.filter_filter]
      refine congrArg List.length (List.filter_congr fun a _ => ?_)
      by_cases ha : f a = j <;> simp [ha, hjk]
    have hsplit := (List.filter_append_perm (fun a => decide (f a = k)) l).length_eq
    rw [List.length_append, ih hks hrest, hsame] at hsplit
    rw [List.map_cons, List.sum_cons, hsplit]

namespace CircuitGraph

variable {g : CircuitGraph}

/-- What enters gates and measurements is what leaves sources and gates. -/
theorem sum_numOutputs_add (ns : List Node) :
    (ns.map (·.kind.numOutputs)).sum + (ns.filter (·.kind.isMeasurement)).length =
      (ns.map (·.kind.numInputs)).sum + (ns.filter (·.kind.isSource)).length := by
  induction ns with
  | nil => rfl
  | cons n ns ih =>
    simp only [List.map_cons, List.sum_cons, List.filter_cons]
    cases n.kind <;>
      simp [NodeKind.isSource, NodeKind.isMeasurement, NodeKind.numInputs,
        NodeKind.numOutputs] at ih ⊢ <;> omega

/-- The wires of a graph, counted at one of their ends. -/
theorem length_edges_eq_sum (hids : g.ids.Nodup) {place : Edge → NodeId} {count : Node → Nat}
    (hplace : ∀ e ∈ g.edges, place e ∈ g.ids)
    (hcount : ∀ n ∈ g.nodes, (g.edges.filter (place · = n.id)).length = count n) :
    g.edges.length = (g.nodes.map count).sum := by
  rw [length_eq_sum_filter hids hplace, ids, List.map_map]
  exact congrArg List.sum (List.map_congr_left hcount)

/-- Wires that occupy each node as its kind asks for balance the sources and the measurements. -/
theorem length_sources_eq_of_degrees (hids : g.ids.Nodup) (hjoined : ∀ e ∈ g.edges, g.joins e)
    (hinto : ∀ n ∈ g.nodes, (g.wiresInto n.id).length = n.kind.numInputs)
    (hfrom : ∀ n ∈ g.nodes, (g.wiresFrom n.id).length = n.kind.numOutputs) :
    g.sources.length = g.measurements.length := by
  have hends : ∀ e ∈ g.edges, e.source ∈ g.ids ∧ e.target ∈ g.ids := fun e he => by
    simpa [joins] using hjoined e he
  have hin : g.edges.length = (g.nodes.map (·.kind.numInputs)).sum :=
    length_edges_eq_sum hids (fun e he => (hends e he).2) hinto
  have hout : g.edges.length = (g.nodes.map (·.kind.numOutputs)).sum :=
    length_edges_eq_sum hids (fun e he => (hends e he).1) hfrom
  have hbalance := sum_numOutputs_add g.nodes
  show (g.nodes.filter _).length = (g.nodes.filter _).length
  omega

end CircuitGraph

/-! ## Implied rules -/

namespace Rule

/-- The rules that look at the ends of wires and count them at every node. -/
def wireRules : List Rule :=
  [.wireEndpoints, .qubitFanOut, .gateDegree, .measurementFanIn, .terminalDirection]

/-- The rules that follow from those. -/
def implied : List Rule := [.measurementParity, .noOrphanGates]

/-- The standard rules without those that follow from others. -/
def essential : List Rule := standard.filter (· ∉ implied)

variable {g : CircuitGraph}

theorem firstViolation?_eq_none_iff {rules : List Rule} {a : Adjacency} :
    firstViolation? rules a = none ↔ ∀ r ∈ rules, check a r = none :=
  List.findSome?_eq_none_iff

theorem check_eq_none_of_mem_implied (h : ∀ r ∈ wireRules, check (.build g) r = none) {r : Rule}
    (hr : r ∈ implied) : check (.build g) r = none := by
  obtain ⟨hids, hjoined⟩ := check_wireEndpoints.1 (h .wireEndpoints (by decide))
  have hdeg := (check_degrees hids).1 fun r hr => h r (List.mem_cons_of_mem _ hr)
  simp only [implied, List.mem_cons, List.not_mem_nil, or_false] at hr
  rcases hr with rfl | rfl
  · exact check_measurementParity.2 (CircuitGraph.length_sources_eq_of_degrees hids hjoined
      (fun n hn => (hdeg n hn).1) fun n hn => (hdeg n hn).2)
  · exact check_noOrphanGates hids (h .gateDegree (by decide))

/-- Leaving out the implied rules changes no verdict if the wires are checked. -/
theorem firstViolation?_filter_eq_none_iff {rules : List Rule} (hrules : wireRules ⊆ rules) :
    firstViolation? (rules.filter (· ∉ implied)) (.build g) = none ↔
      firstViolation? rules (.build g) = none := by
  simp only [firstViolation?_eq_none_iff, List.mem_filter, decide_eq_true_eq]
  constructor
  · intro h r hr
    have hwires : ∀ r ∈ wireRules, check (.build g) r = none := fun r hr =>
      h r ⟨hrules hr, by revert r; decide⟩
    by_cases himplied : r ∈ implied
    · exact check_eq_none_of_mem_implied hwires himplied
    · exact h r ⟨hr, himplied⟩
  · rintro h r ⟨hr, -⟩
    exact h r hr

end Rule

/-- **The standard rules accept the same graphs without the count of measurements and without the
rule about orphans.**  Where ids are distinct, wires have both ends, and every node has as many
wires going in and out as its kind asks for, there are as many measurements as sources. -/
theorem accepted_iff_essential (g : CircuitGraph) :
    (firstViolation? Rule.essential (.build g) = none ↔ g.Accepted) ∧
    (g.ids.Nodup → (∀ e ∈ g.edges, g.joins e) →
      (∀ n ∈ g.nodes, (g.wiresInto n.id).length = n.kind.numInputs ∧
        (g.wiresFrom n.id).length = n.kind.numOutputs) →
      g.sources.length = g.measurements.length) := by
  refine ⟨Rule.firstViolation?_filter_eq_none_iff (by decide), fun hids hjoined hdeg => ?_⟩
  exact CircuitGraph.length_sources_eq_of_degrees hids hjoined (fun n hn => (hdeg n hn).1)
    fun n hn => (hdeg n hn).2

/-- A gate on two qubits between their sources and the measurements of the given ids. -/
def measuredPair (ids : List NodeId) : CircuitGraph :=
  ⟨[.atHeight "q0" (.qubitSource .zero) .zero, .atHeight "q1" (.qubitSource .one) .zero,
      .atHeight "cx" (.twoGate .cnot) .zero] ++ ids.map fun id => .atHeight id .measurement .zero,
    [⟨none, "q0", "cx", none, some .input1⟩, ⟨none, "q1", "cx", none, some .input2⟩] ++
      [Handle.output1, .output2].zipWith (fun h id => ⟨none, "cx", id, some h, none⟩) ids⟩

/-- Each of the two lists accepts the gate when both of its lines are measured. -/
theorem accepted_measuredPair :
    firstViolation? Rule.essential (.build (measuredPair ["m0", "m1"])) = none ∧
    (measuredPair ["m0", "m1"]).Accepted ∧
    (measuredPair ["m0", "m1"]).sources.length =
      (measuredPair ["m0", "m1"]).measurements.length := by
  have hessential : firstViolation? Rule.essential (.build (measuredPair ["m0", "m1"])) = none := by
    cbv
  obtain ⟨hverdict, hbalance⟩ := accepted_iff_essential (measuredPair ["m0", "m1"])
  exact ⟨hessential, hverdict.1 hessential, hbalance (by decide) (by decide) (by decide)⟩

/-- With a measurement missing both lists reject, each for its own reason. -/
example : firstViolation? Rule.standard (.build (measuredPair ["m0"])) =
      some (.measurementCount 2 1) ∧
    firstViolation? Rule.essential (.build (measuredPair ["m0"])) =
      some (.gateOutputs "cx" TwoGate.kindName TwoGate.cnot.name 2 1) :=
  ⟨by decide, by cbv⟩

end QuantumWiring

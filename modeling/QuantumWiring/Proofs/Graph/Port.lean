import QuantumWiring.Proofs.Graph.Balance

/-!
# Ports

Each node has the ports of its kind, some where wires enter and some where they leave.  A graph is
well formed when its wires occupy all ports, each of them once (`wellFormed_of_ports`).  Nothing is
asked about the number of measurements, since it balances the sources then.
-/

namespace QuantumWiring

/-- A place where a wire can be attached. -/
abbrev Port := NodeId × Option Handle

namespace Edge

def sourcePort (e : Edge) : Port := (e.source, e.sourceHandle)

def targetPort (e : Edge) : Port := (e.target, e.targetHandle)

end Edge

namespace NodeKind

/-- The handles at which wires enter, in the order of the slots. -/
def inputHandles : NodeKind → List (Option Handle)
  | .qubitSource _ => []
  | .singleGate _ | .measurement => [none]
  | .twoGate _ => [some .input1, some .input2]

/-- The handles at which wires leave, in the order of the slots. -/
def outputHandles : NodeKind → List (Option Handle)
  | .qubitSource _ | .singleGate _ => [none]
  | .twoGate _ => [some .output1, some .output2]
  | .measurement => []

end NodeKind

namespace Node

def inputPorts (n : Node) : List Port := n.kind.inputHandles.map (n.id, ·)

def outputPorts (n : Node) : List Port := n.kind.outputHandles.map (n.id, ·)

end Node

/-- Only one element of a list with distinct keys contributes to a count that looks for its key. -/
theorem countP_flatMap_of_nodup {α β γ : Type} {key : α → γ} {f : α → List β} {p : β → Bool}
    {l : List α} (h : (l.map key).Nodup) {a : α} (ha : a ∈ l)
    (hp : ∀ b, ∀ c ∈ f b, p c → key b = key a) : (l.flatMap f).countP p = (f a).countP p := by
  have hzero {b : α} (hne : key b ≠ key a) : (f b).countP p = 0 :=
    List.countP_eq_zero.2 fun c hc hpc => hne (hp b c hc hpc)
  induction l with
  | nil => cases ha
  | cons b l ih =>
    obtain ⟨hb, hl⟩ := List.nodup_cons.1 h
    rw [List.flatMap_cons, List.countP_append]
    rcases List.mem_cons.1 ha with rfl | ha
    · have hrest : (l.flatMap f).countP p = 0 := by
        refine List.countP_eq_zero.2 fun c hc hpc => ?_
        obtain ⟨b, hmem, hc⟩ := List.mem_flatMap.1 hc
        exact hb (hp b c hc hpc ▸ List.mem_map_of_mem hmem)
      omega
    · have hne : key b ≠ key a := fun e => hb (e ▸ List.mem_map_of_mem ha)
      rw [hzero hne, ih hl ha]
      omega

namespace CircuitGraph

variable {g : CircuitGraph}

section Ends

variable {handles : NodeKind → List (Option Handle)} (port : Edge → Port) (hids : g.ids.Nodup)
  (hports : (g.edges.map port).Perm (g.nodes.flatMap fun n => (handles n.kind).map (n.id, ·)))
include hports

theorem mem_ids_of_ports {e : Edge} (he : e ∈ g.edges) : (port e).1 ∈ g.ids := by
  have hmem := hports.mem_iff.1 (List.mem_map_of_mem he)
  obtain ⟨n, hn, hport⟩ := List.mem_flatMap.1 hmem
  obtain ⟨h, -, hid⟩ := List.mem_map.1 hport
  exact hid ▸ mem_ids hn

include hids

/-- The wires at a node are as many as its ports. -/
theorem countP_ports {n : Node} (hn : n ∈ g.nodes) (p : Option Handle → Bool) :
    (g.edges.countP fun e => (port e).1 = n.id && p (port e).2) = (handles n.kind).countP p := by
  let q : Port → Bool := fun x => x.1 = n.id && p x.2
  have hedges : (g.edges.map port).countP q =
      g.edges.countP fun e => (port e).1 = n.id && p (port e).2 := List.countP_map
  rw [← hedges, hports.countP_eq, countP_flatMap_of_nodup hids hn, List.countP_map]
  · refine List.countP_congr fun h _ => ?_
    simp [q]
  · intro m x hx hq
    obtain ⟨h, -, rfl⟩ := List.mem_map.1 hx
    simp only [q, Bool.and_eq_true, decide_eq_true_eq] at hq
    exact hq.1

end Ends

/-- **A graph whose wires occupy each port once is well formed.** -/
theorem wellFormed_of_ports (hids : g.ids.Nodup)
    (hin : (g.edges.map Edge.targetPort).Perm (g.nodes.flatMap Node.inputPorts))
    (hout : (g.edges.map Edge.sourcePort).Perm (g.nodes.flatMap Node.outputPorts))
    (hsources : g.sources ≠ []) : g.WellFormed := by
  have hcountIn {n : Node} (hn : n ∈ g.nodes) := countP_ports Edge.targetPort hids hin hn
  have hcountOut {n : Node} (hn : n ∈ g.nodes) := countP_ports Edge.sourcePort hids hout hn
  have hjoined : ∀ e ∈ g.edges, g.joins e := fun e he => by
    have hs : e.source ∈ g.ids := mem_ids_of_ports Edge.sourcePort hout he
    have ht : e.target ∈ g.ids := mem_ids_of_ports Edge.targetPort hin he
    simp [joins, hs, ht]
  have hinto : ∀ n ∈ g.nodes, (g.wiresInto n.id).length = n.kind.numInputs := fun n hn => by
    have hcount := hcountIn hn fun _ => true
    simp only [Bool.and_true, List.countP_true] at hcount
    rw [wiresInto, ← List.countP_eq_length_filter]
    refine hcount.trans ?_
    cases n.kind <;> rfl
  have hfrom : ∀ n ∈ g.nodes, (g.wiresFrom n.id).length = n.kind.numOutputs := fun n hn => by
    have hcount := hcountOut hn fun _ => true
    simp only [Bool.and_true, List.countP_true] at hcount
    rw [wiresFrom, ← List.countP_eq_length_filter]
    refine hcount.trans ?_
    cases n.kind <;> rfl
  refine ⟨hids, hjoined, hsources, length_sources_eq_of_degrees hids hjoined hinto hfrom, hinto,
    hfrom, fun n hn ht h hh => ?_, fun n hn ht h hh => ?_⟩
  · rw [wiresInto, List.countP_filter]
    simp only [Bool.and_comm (decide (Edge.targetHandle _ = some h))]
    refine (hcountIn hn (· = some h)).trans ?_
    cases hk : n.kind <;> cases h <;>
      simp_all [NodeKind.isTwoGate, NodeKind.inputHandles, Handle.isInput]
  · rw [wiresFrom, List.countP_filter]
    simp only [Bool.and_comm (decide (Edge.sourceHandle _ = some h))]
    refine (hcountOut hn (· = some h)).trans ?_
    cases hk : n.kind <;> cases h <;>
      simp_all [NodeKind.isTwoGate, NodeKind.outputHandles, Handle.isInput]

end CircuitGraph

end QuantumWiring

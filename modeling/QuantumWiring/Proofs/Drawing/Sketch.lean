import QuantumWiring.Proofs.Graph.Port
import QuantumWiring.Proofs.Schedule.Conservation

/-!
# Sketches

A sketch is a drawing in progress, together with the port where each line ends by now.  A node is
placed onto the ends of its lines, the first line at its first slot, and the lines go on behind it.

While a drawing grows, all ports are taken but those where the open lines end, and the nodes in the
order in which they were placed are a history in which the open lines end where the sketch says
(`Sketch.Drawn`).  Placing a node keeps this (`Sketch.Drawn.place`).
-/

namespace QuantumWiring

/-- A drawing in progress. -/
structure Sketch where
  graph : CircuitGraph
  /-- The port where each line ends by now. -/
  tail : Line → Port

namespace Sketch

/-- A wire from the end of a line to a port. -/
def wire (s : Sketch) (l : Line) (p : Port) : Edge := ⟨none, (s.tail l).1, p.1, (s.tail l).2, p.2⟩

/-- Put a node onto the ends of its lines; the lines go on at its other ports. -/
def place (s : Sketch) (t : Token) : Sketch where
  graph := ⟨s.graph.nodes ++ [t.node],
    s.graph.edges ++ List.zipWith s.wire t.lines t.node.inputPorts⟩
  tail l := ((t.lines.zip t.node.outputPorts).lookup l).getD (s.tail l)

end Sketch

namespace Sketch

variable {s : Sketch} {done : List Token} {t : Token} {ls rest : List Line}

/-! ## New wires and new ends -/

theorem map_sourcePort_wires (s : Sketch) {ls : List Line} {ps : List Port}
    (h : ls.length = ps.length) : (List.zipWith s.wire ls ps).map Edge.sourcePort =
      ls.map s.tail := by
  induction ls generalizing ps with
  | nil => rfl
  | cons l ls ih =>
    obtain ⟨p, ps, rfl⟩ := List.exists_cons_of_length_eq_add_one h.symm
    rw [List.zipWith_cons_cons, List.map_cons, List.map_cons, ih (Nat.succ.inj h)]
    rfl

theorem map_targetPort_wires (s : Sketch) {ls : List Line} {ps : List Port}
    (h : ls.length = ps.length) : (List.zipWith s.wire ls ps).map Edge.targetPort = ps := by
  induction ls generalizing ps with
  | nil => exact (List.length_eq_zero_iff.1 h.symm).symm
  | cons l ls ih =>
    obtain ⟨p, ps, rfl⟩ := List.exists_cons_of_length_eq_add_one h.symm
    rw [List.zipWith_cons_cons, List.map_cons, ih (Nat.succ.inj h)]
    rfl

theorem tail_place_of_notMem {l : Line} (h : l ∉ t.lines) : (s.place t).tail l = s.tail l := by
  have hnone : (t.lines.zip t.node.outputPorts).lookup l = none := by
    refine List.lookup_eq_none_iff.2 fun p hp => ?_
    have hmem : p.1 ∈ t.lines := (List.of_mem_zip hp).1
    exact bne_iff_ne.2 fun (e : l = p.1) => h (e ▸ hmem)
  show ((t.lines.zip t.node.outputPorts).lookup l).getD _ = _
  rw [hnone, Option.getD_none]

theorem map_tail_place (s : Sketch) (hs : t.node.kind.isSource = false)
    (hlen : t.lines.length = t.node.kind.numLines) (hnodup : t.lines.Nodup) :
    t.sent.map (s.place t).tail = t.node.outputPorts := by
  cases hk : t.node.kind <;> rw [hk] at hlen
  case qubitSource => simp [hk, NodeKind.isSource] at hs
  case measurement =>
    simp [Token.sent, hk, NodeKind.isMeasurement, Node.outputPorts, NodeKind.outputHandles]
  case singleGate =>
    obtain ⟨q, hq⟩ := List.length_eq_one_iff.1 hlen
    simp [Token.sent, place, hq, hk, NodeKind.isMeasurement, Node.outputPorts,
      NodeKind.outputHandles, List.lookup_cons]
  case twoGate =>
    obtain ⟨a, b, hab⟩ := List.length_eq_two.1 hlen
    have hne : (b == a) = false :=
      beq_eq_false_iff_ne.2 fun e => by simp [hab, e] at hnodup
    simp [Token.sent, place, hab, hk, NodeKind.isMeasurement, Node.outputPorts,
      NodeKind.outputHandles, List.lookup_cons, hne]

/-- A wire from the new end of a line carries the line. -/
theorem lineAlong_tail_place (s : Sketch) (hs : t.node.kind.isSource = false)
    (hlen : t.lines.length = t.node.kind.numLines) (hnodup : t.lines.Nodup) {l : Line}
    (hl : l ∈ t.sent) : t.node.id = ((s.place t).tail l).1 ∧
      ∀ e : Edge, e.sourceHandle = ((s.place t).tail l).2 → t.lineAlong? e = some l := by
  revert hl
  cases hk : t.node.kind <;> rw [hk] at hlen
  case qubitSource => simp [hk, NodeKind.isSource] at hs
  case measurement => simp [Token.sent, hk, NodeKind.isMeasurement]
  case singleGate =>
    obtain ⟨q, hq⟩ := List.length_eq_one_iff.1 hlen
    simp +contextual [Token.sent, place, hq, hk, NodeKind.isMeasurement, Node.outputPorts,
      NodeKind.outputHandles, List.lookup_cons, Token.lineAlong?]
  case twoGate =>
    obtain ⟨a, b, hab⟩ := List.length_eq_two.1 hlen
    have hne : (b == a) = false :=
      beq_eq_false_iff_ne.2 fun e => by simp [hab, e] at hnodup
    have hor : l ∈ t.sent → l = a ∨ l = b := by
      simp [Token.sent, hk, hab, NodeKind.isMeasurement]
    intro hl
    rcases hor hl with rfl | rfl <;>
      simp +contextual [place, hab, hk, Node.outputPorts, NodeKind.outputHandles, List.lookup_cons,
        Token.lineAlong?, Handle.slot, hne]

/-! ## The growing drawing -/

/-- What holds of a sketch whose nodes are placed in the order of `done`, with the open lines
`ls`. -/
structure Drawn (s : Sketch) (done : List Token) (ls : List Line) : Prop where
  history : s.graph.History done
  nodes : done.map (·.node) = s.graph.nodes
  targets : s.graph.edges.map Edge.targetPort = s.graph.nodes.flatMap Node.inputPorts
  sources : (s.graph.edges.map Edge.sourcePort ++ ls.map s.tail).Perm
    (s.graph.nodes.flatMap Node.outputPorts)
  carried : ∀ l ∈ ls, ∃ t ∈ done, t.node.id = (s.tail l).1 ∧
    ∀ e : Edge, e.sourceHandle = (s.tail l).2 → t.lineAlong? e = some l
  nodup : ls.Nodup

namespace Drawn

theorem perm {ls' : List Line} (h : s.Drawn done ls) (hls : ls.Perm ls') : s.Drawn done ls' where
  history := h.history
  nodes := h.nodes
  targets := h.targets
  sources := ((hls.symm.map _).append_left _).trans h.sources
  carried l hl := h.carried l (hls.mem_iff.2 hl)
  nodup := hls.nodup_iff.1 h.nodup

theorem visitedIds_eq (h : s.Drawn done ls) : visitedIds done = s.graph.ids := by
  rw [visitedIds, CircuitGraph.ids, ← h.nodes, List.map_map]
  rfl

theorem target_mem_ids (h : s.Drawn done ls) {e : Edge} (he : e ∈ s.graph.edges) :
    e.target ∈ s.graph.ids :=
  CircuitGraph.mem_ids_of_ports Edge.targetPort (.of_eq h.targets) he

/-- Wires from the ends of open lines carry these lines. -/
theorem map_lineOn_wires (h : s.Drawn done ls) {ls' : List Line} (hls : ∀ l ∈ ls', l ∈ ls)
    {ps : List Port} (hlen : ls'.length = ps.length) :
    (List.zipWith s.wire ls' ps).map (lineOn done) = ls'.map some := by
  induction ls' generalizing ps with
  | nil => rfl
  | cons l ls' ih =>
    obtain ⟨p, ps, rfl⟩ := List.exists_cons_of_length_eq_add_one hlen.symm
    obtain ⟨hl, hls⟩ := List.forall_mem_cons.1 hls
    obtain ⟨t, ht, hid, hline⟩ := h.carried l hl
    rw [List.zipWith_cons_cons, List.map_cons, List.map_cons, ih hls (Nat.succ.inj hlen),
      lineOn_of_mem h.history.nodup ht hid.symm, hline _ rfl]

section Place

variable (h : s.Drawn done (t.lines ++ rest)) (hnew : t.node.id ∉ s.graph.ids)
  (hs : t.node.kind.isSource = false) (hlen : t.lines.length = t.node.kind.numLines)
include h hnew hs hlen

omit h hnew in
theorem length_inputPorts : t.lines.length = t.node.inputPorts.length := by
  rw [hlen, Node.inputPorts, List.length_map]
  cases hk : t.node.kind <;>
    simp_all [NodeKind.isSource, NodeKind.numLines, NodeKind.inputHandles]

omit h hnew in
theorem target_of_mem_wires {e : Edge} (he : e ∈ List.zipWith s.wire t.lines t.node.inputPorts) :
    e.target = t.node.id := by
  have hmem : e.targetPort ∈ t.node.inputPorts :=
    s.map_targetPort_wires (length_inputPorts hs hlen) ▸ List.mem_map_of_mem he
  obtain ⟨h, -, hport⟩ := List.mem_map.1 hmem
  exact (congrArg Prod.fst hport).symm

/-- The wires into the new node are the new wires, in the order of its slots. -/
theorem inputWires_place_self : (s.place t).graph.inputWires t.node =
    List.zipWith s.wire t.lines t.node.inputPorts := by
  have hinto : (s.place t).graph.wiresInto t.node.id =
      List.zipWith s.wire t.lines t.node.inputPorts := by
    have hold : s.graph.edges.filter (·.target = t.node.id) = [] :=
      List.filter_eq_nil_iff.2 fun e he hid =>
        hnew (of_decide_eq_true hid ▸ h.target_mem_ids he)
    have hself : (List.zipWith s.wire t.lines t.node.inputPorts).filter
        (·.target = t.node.id) = List.zipWith s.wire t.lines t.node.inputPorts :=
      List.filter_eq_self.2 fun e he => decide_eq_true (target_of_mem_wires hs hlen he)
    rw [CircuitGraph.wiresInto, Sketch.place, List.filter_append, hold, hself, List.nil_append]
  unfold CircuitGraph.inputWires
  split
  · next gate hk =>
    rw [hk] at hlen
    obtain ⟨a, b, hab⟩ := List.length_eq_two.1 hlen
    rw [hinto, hab]
    simp [Node.inputPorts, hk, NodeKind.inputHandles, wire]
  · exact hinto

omit h in
theorem inputWires_place {n : Node} (hn : n ∈ s.graph.nodes) :
    (s.place t).graph.inputWires n = s.graph.inputWires n := by
  have hinto : (s.place t).graph.wiresInto n.id = s.graph.wiresInto n.id := by
    have hother : (List.zipWith s.wire t.lines t.node.inputPorts).filter (·.target = n.id) = [] :=
      List.filter_eq_nil_iff.2 fun e he hid => hnew (by
        rw [← target_of_mem_wires hs hlen he, of_decide_eq_true hid]
        exact CircuitGraph.mem_ids hn)
    rw [CircuitGraph.wiresInto, Sketch.place, List.filter_append, hother, List.append_nil]
    rfl
  unfold CircuitGraph.inputWires
  rw [hinto]

/-- The nodes that were there are still a history, and the new one can be visited after them. -/
theorem history_place : (s.place t).graph.History (done ++ [t]) := by
  have hmem {n : Node} (hn : n ∈ s.graph.nodes) : n ∈ (s.place t).graph.nodes :=
    List.mem_append_left _ hn
  have hsources : (s.place t).graph.orderedSources = s.graph.orderedSources := by
    simp [CircuitGraph.orderedSources, CircuitGraph.sources, Sketch.place, hs]
  have hdone : (s.place t).graph.History done := by
    refine ⟨fun hd => ?_, h.history.nodup⟩
    cases h.history.available hd with
    | source hi => exact .source (hsources ▸ hi)
    | fed hn hs' hls => exact .fed (hmem hn) hs' (by rwa [inputWires_place hnew hs hlen hn])
  refine hdone.snoc (.fed (List.mem_append_right _ List.mem_cons_self) hs ?_) ?_
  · rw [inputWires_place_self h hnew hs hlen]
    exact h.map_lineOn_wires (fun l => List.mem_append_left _) (length_inputPorts hs hlen)
  · rwa [h.visitedIds_eq]

/-- **Placing a node** onto open lines keeps a drawing in order; the lines that the node sends on
stay open. -/
theorem place : (s.place t).Drawn (done ++ [t]) (t.sent ++ rest) := by
  obtain ⟨hlines, hrest, hdisj⟩ := List.nodup_append'.1 h.nodup
  have htail : ∀ l ∈ rest, (s.place t).tail l = s.tail l := fun l hl =>
    tail_place_of_notMem fun hmem => hdisj hmem hl
  have hports := length_inputPorts hs hlen
  refine ⟨history_place h hnew hs hlen, ?_, ?_, ?_, fun l hl => ?_, ?_⟩
  · simp [Sketch.place, h.nodes]
  · simp [Sketch.place, h.targets, s.map_targetPort_wires hports]
  · have hedges : (s.place t).graph.edges.map Edge.sourcePort =
        s.graph.edges.map Edge.sourcePort ++ t.lines.map s.tail := by
      simp [Sketch.place, s.map_sourcePort_wires hports]
    have hopen : (t.sent ++ rest).map (s.place t).tail =
        t.node.outputPorts ++ rest.map s.tail := by
      rw [List.map_append, s.map_tail_place hs hlen hlines, List.map_congr_left htail]
    have hnodes : (s.place t).graph.nodes.flatMap Node.outputPorts =
        s.graph.nodes.flatMap Node.outputPorts ++ t.node.outputPorts := by
      simp [Sketch.place]
    have hports := h.sources
    rw [List.map_append, ← List.append_assoc] at hports
    rw [hedges, hopen, hnodes]
    refine (List.perm_append_comm.append_left _).trans ?_
    rw [← List.append_assoc]
    exact hports.append_right _
  · rcases List.mem_append.1 hl with hl | hl
    · obtain ⟨hid, hline⟩ := s.lineAlong_tail_place hs hlen hlines hl
      exact ⟨t, by simp, hid, hline⟩
    · obtain ⟨u, hu, hid, hline⟩ := h.carried l (List.mem_append_right _ hl)
      rw [htail l hl]
      exact ⟨u, List.mem_append_left _ hu, hid, hline⟩
  · exact h.nodup.sublist (t.sent_sublist.append_right rest)

end Place

end Drawn

end Sketch

end QuantumWiring

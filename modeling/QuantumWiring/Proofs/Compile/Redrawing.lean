import QuantumWiring.Proofs.Schedule.Greedy
import QuantumWiring.Proofs.Graph.Order
import Mathlib.Data.List.Find

/-!
# What a drawing may change

A drawing says more than a circuit needs: what the nodes are called, where they stand, and at which
handle a wire is attached where there is only one terminal anyway.  A `Redrawing` changes any of
this, as long as the sources keep their order from top to bottom.  All of it feeds into the order
in which wires are followed and nodes become ready, but on a well-formed graph that order decides
nothing: the greedy run is redrawn visit by visit (`visits_eq`), so the circuit is the same but for
the names of its qubits (`compile_eq_of_redrawing`).
-/

namespace QuantumWiring

/-- How a graph is drawn anew as another one: ids are renamed, nodes are moved, and wires change
their editor ids and their handles at nodes with one terminal.  What becomes of a node or wire is
told for each by itself. -/
structure Redrawing (g g' : CircuitGraph) where
  id : NodeId → NodeId
  node : Node → Node
  edge : Edge → Edge
  nodes_eq : g'.nodes = g.nodes.map node
  edges_eq : g'.edges = g.edges.map edge
  id_inj : ∀ a ∈ g.ids, ∀ b ∈ g.ids, id a = id b → a = b
  node_id : ∀ n ∈ g.nodes, (node n).id = id n.id
  kind_eq : ∀ n ∈ g.nodes, (node n).kind = n.kind
  source_eq : ∀ e ∈ g.edges, (edge e).source = id e.source
  target_eq : ∀ e ∈ g.edges, (edge e).target = id e.target
  sourceHandle_eq : ∀ e ∈ g.edges, ∀ n ∈ g.nodes, e.source = n.id → n.kind.isTwoGate →
    (edge e).sourceHandle = e.sourceHandle
  targetHandle_eq : ∀ e ∈ g.edges, ∀ n ∈ g.nodes, e.target = n.id → n.kind.isTwoGate →
    (edge e).targetHandle = e.targetHandle
  /-- The sources keep their order from top to bottom. -/
  isAbove : ∀ m ∈ g.sources, ∀ n ∈ g.sources, m.isAbove n → (node m).isAbove (node n)

namespace Redrawing

variable {g g' : CircuitGraph} (r : Redrawing g g')

/-! ## Nodes -/

theorem node_mem {n : Node} (hn : n ∈ g.nodes) : r.node n ∈ g'.nodes :=
  r.nodes_eq ▸ List.mem_map_of_mem hn

theorem exists_node {n' : Node} (hn' : n' ∈ g'.nodes) : ∃ n ∈ g.nodes, r.node n = n' :=
  List.mem_map.1 (r.nodes_eq ▸ hn')

theorem ids_eq : g'.ids = g.ids.map r.id := by
  unfold CircuitGraph.ids
  rw [r.nodes_eq, List.map_map, List.map_map]
  exact List.map_congr_left r.node_id

theorem id_eq_iff {a b : NodeId} (ha : a ∈ g.ids) (hb : b ∈ g.ids) : r.id a = r.id b ↔ a = b :=
  ⟨r.id_inj a ha b hb, congrArg r.id⟩

theorem filter_nodes (p : NodeKind → Bool) :
    g'.nodes.filter (p ·.kind) = (g.nodes.filter (p ·.kind)).map r.node := by
  rw [r.nodes_eq, List.filter_map]
  refine congrArg (List.map r.node) (List.filter_congr fun n hn => ?_)
  exact congrArg p (r.kind_eq n hn)

theorem sources_eq : g'.sources = g.sources.map r.node := r.filter_nodes _

theorem measurements_eq : g'.measurements = g.measurements.map r.node := r.filter_nodes _

/-- The sources are numbered as before. -/
theorem orderedSources_eq (hids : g.ids.Nodup) :
    g'.orderedSources = g.orderedSources.map r.node := by
  have hmem {n : Node} (hn : n ∈ g.sources) : n ∈ g.nodes := (List.mem_filter.1 hn).1
  unfold CircuitGraph.orderedSources
  rw [r.sources_eq]
  refine (List.map_mergeSort fun m hm n hn => ?_).symm
  rw [Bool.eq_iff_iff]
  refine ⟨r.isAbove m hm n hn, fun h => ?_⟩
  rw [Node.isAbove_iff] at h ⊢
  rcases le_total m.heightKey n.heightKey with hle | hle
  · exact hle
  · -- both would stand in the same place
    have hback := (Node.isAbove_iff _ _).1 (r.isAbove n hn m hm ((Node.isAbove_iff _ _).2 hle))
    have hid : (r.node m).id = (r.node n).id :=
      Node.id_eq_of_heightKey_eq (le_antisymm h hback)
    rw [r.node_id m (hmem hm), r.node_id n (hmem hn),
      r.id_eq_iff (CircuitGraph.mem_ids (hmem hm)) (CircuitGraph.mem_ids (hmem hn))] at hid
    exact le_of_eq (congrArg _ (CircuitGraph.eq_of_id_eq hids (hmem hm) (hmem hn) hid))

/-! ## Wires -/

theorem filter_edges {f : Edge → NodeId} (hf : ∀ e ∈ g.edges, f (r.edge e) = r.id (f e))
    (hmem : ∀ e ∈ g.edges, f e ∈ g.ids) {n : Node} (hn : n ∈ g.nodes) :
    g'.edges.filter (f · = (r.node n).id) = (g.edges.filter (f · = n.id)).map r.edge := by
  rw [r.edges_eq, List.filter_map]
  refine congrArg (List.map r.edge) (List.filter_congr fun e he => ?_)
  rw [Function.comp_apply, hf e he, r.node_id n hn]
  exact decide_eq_decide.2 (r.id_eq_iff (hmem e he) (CircuitGraph.mem_ids hn))

theorem filter_handle {handle : Edge → Option Handle} {es : List Edge}
    (hes : ∀ e ∈ es, handle (r.edge e) = handle e) (h : Handle) :
    (es.map r.edge).filter (handle · = some h) =
      (es.filter (handle · = some h)).map r.edge := by
  rw [List.filter_map]
  refine congrArg (List.map r.edge) (List.filter_congr fun e he => ?_)
  rw [Function.comp_apply, hes e he]

section Wires

variable (hg : g.WellFormed)
include r hg

theorem wiresInto_eq {n : Node} (hn : n ∈ g.nodes) :
    g'.wiresInto (r.node n).id = (g.wiresInto n.id).map r.edge :=
  r.filter_edges r.target_eq (fun _ he => (hg.ends_mem_ids he).2) hn

theorem wiresFrom_eq {n : Node} (hn : n ∈ g.nodes) :
    g'.wiresFrom (r.node n).id = (g.wiresFrom n.id).map r.edge :=
  r.filter_edges r.source_eq (fun _ he => (hg.ends_mem_ids he).1) hn

/-- At a gate on two qubits wires enter where they entered before. -/
theorem filter_targetHandle {n : Node} (hn : n ∈ g.nodes) (ht : n.kind.isTwoGate) (h : Handle) :
    (g'.wiresInto (r.node n).id).filter (·.targetHandle = some h) =
      ((g.wiresInto n.id).filter (·.targetHandle = some h)).map r.edge := by
  rw [r.wiresInto_eq hg hn]
  refine r.filter_handle (fun e he => ?_) h
  obtain ⟨he, htarget⟩ := CircuitGraph.mem_wiresInto.1 he
  exact r.targetHandle_eq e he n hn htarget ht

theorem filter_sourceHandle {n : Node} (hn : n ∈ g.nodes) (ht : n.kind.isTwoGate) (h : Handle) :
    (g'.wiresFrom (r.node n).id).filter (·.sourceHandle = some h) =
      ((g.wiresFrom n.id).filter (·.sourceHandle = some h)).map r.edge := by
  rw [r.wiresFrom_eq hg hn]
  refine r.filter_handle (fun e he => ?_) h
  obtain ⟨he, hsource⟩ := CircuitGraph.mem_wiresFrom.1 he
  exact r.sourceHandle_eq e he n hn hsource ht

theorem inputWires_eq {n : Node} (hn : n ∈ g.nodes) :
    g'.inputWires (r.node n) = (g.inputWires n).map r.edge := by
  unfold CircuitGraph.inputWires
  rw [r.kind_eq n hn]
  cases hk : n.kind with
  | twoGate gate =>
    have ht : n.kind.isTwoGate := by rw [hk]; rfl
    rw [List.map_append, ← r.filter_targetHandle hg hn ht, ← r.filter_targetHandle hg hn ht]
  | _ => exact r.wiresInto_eq hg hn

theorem wellFormed : g'.WellFormed where
  ids_nodup := r.ids_eq ▸ hg.ids_nodup.map_on r.id_inj
  joined := by
    rw [r.edges_eq, List.forall_mem_map]
    intro e he
    obtain ⟨hs, ht⟩ := hg.ends_mem_ids he
    unfold CircuitGraph.joins
    rw [r.ids_eq, r.source_eq e he, r.target_eq e he, Bool.and_eq_true]
    exact ⟨decide_eq_true (List.mem_map_of_mem hs), decide_eq_true (List.mem_map_of_mem ht)⟩
  sources_ne_nil := by
    rw [r.sources_eq, ne_eq, List.map_eq_nil_iff]
    exact hg.sources_ne_nil
  parity := by
    rw [r.sources_eq, r.measurements_eq, List.length_map, List.length_map, hg.parity]
  length_wiresInto := by
    rw [r.nodes_eq, List.forall_mem_map]
    intro n hn
    rw [r.wiresInto_eq hg hn, List.length_map, r.kind_eq n hn, hg.length_wiresInto n hn]
  length_wiresFrom := by
    rw [r.nodes_eq, List.forall_mem_map]
    intro n hn
    rw [r.wiresFrom_eq hg hn, List.length_map, r.kind_eq n hn, hg.length_wiresFrom n hn]
  countP_wiresInto := by
    rw [r.nodes_eq, List.forall_mem_map]
    intro n hn ht h hh
    rw [r.kind_eq n hn] at ht
    rw [List.countP_eq_length_filter, r.filter_targetHandle hg hn ht, List.length_map,
      ← List.countP_eq_length_filter, hg.countP_wiresInto n hn ht h hh]
  countP_wiresFrom := by
    rw [r.nodes_eq, List.forall_mem_map]
    intro n hn ht h hh
    rw [r.kind_eq n hn] at ht
    rw [List.countP_eq_length_filter, r.filter_sourceHandle hg hn ht, List.length_map,
      ← List.countP_eq_length_filter, hg.countP_wiresFrom n hn ht h hh]

end Wires

/-! ## Visits -/

/-- A visit redrawn. -/
def token (t : Token) : Token := ⟨r.node t.node, t.lines⟩

variable {t : Token} {done : List Token}

theorem lineAlong?_token (ht : t.node ∈ g.nodes) {e : Edge} (he : e ∈ g.edges)
    (hs : e.source = t.node.id) : (r.token t).lineAlong? (r.edge e) = t.lineAlong? e := by
  unfold Token.lineAlong?
  rw [show (r.token t).node.kind = t.node.kind from r.kind_eq _ ht]
  cases hk : t.node.kind with
  | twoGate gate =>
    have htwo : t.node.kind.isTwoGate := by rw [hk]; rfl
    simp only [r.sourceHandle_eq e he _ ht hs htwo]
    rfl
  | _ => rfl

theorem visitedIds_map (hdone : ∀ t ∈ done, t.node ∈ g.nodes) :
    visitedIds (done.map r.token) = (visitedIds done).map r.id := by
  unfold visitedIds
  rw [List.map_map, List.map_map]
  exact List.map_congr_left fun t ht => r.node_id _ (hdone t ht)

section Visits

variable (hg : g.WellFormed) (hdone : ∀ t ∈ done, t.node ∈ g.nodes)
include hg hdone

/-- **A wire carries the line that it carried before.** -/
theorem lineOn_edge {e : Edge} (he : e ∈ g.edges) :
    lineOn (done.map r.token) (r.edge e) = lineOn done e := by
  unfold lineOn
  have hfind : (done.map r.token).find? (·.node.id = (r.edge e).source) =
      (done.find? (·.node.id = e.source)).map r.token := by
    rw [List.find?_map]
    refine congrArg (Option.map r.token) (List.find?_congr fun t ht => ?_)
    have hn := hdone t ht
    show decide ((r.node t.node).id = (r.edge e).source) = _
    rw [r.node_id _ hn, r.source_eq e he]
    exact decide_eq_decide.2 (r.id_eq_iff (CircuitGraph.mem_ids hn) (hg.ends_mem_ids he).1)
  rw [hfind]
  cases ht : done.find? (·.node.id = e.source) with
  | none => rfl
  | some t =>
    have hid : t.node.id = e.source := by simpa using List.find?_some ht
    exact r.lineAlong?_token (hdone t (List.mem_of_find?_eq_some ht)) he hid.symm

theorem map_inputWires {n : Node} (hn : n ∈ g.nodes) :
    (g'.inputWires (r.node n)).map (lineOn (done.map r.token)) =
      (g.inputWires n).map (lineOn done) := by
  rw [r.inputWires_eq hg hn, List.map_map]
  refine List.map_congr_left fun e he => r.lineOn_edge hg hdone ?_
  exact ((hg.mem_inputWires hn).1 he).1

theorem available_token (h : g.Available (lineOn done) t) :
    g'.Available (lineOn (done.map r.token)) (r.token t) := by
  cases h with
  | source hi =>
    refine .source ?_
    rw [r.orderedSources_eq hg.ids_nodup, List.getElem?_map, hi]
    rfl
  | fed hn hs hls =>
    refine .fed (r.node_mem hn) ?_ ?_
    · rw [r.kind_eq _ hn]
      exact hs
    · rw [r.map_inputWires hg hdone hn]
      exact hls

/-- What is available in the new drawing was so before. -/
theorem exists_available {u : Token} (h : g'.Available (lineOn (done.map r.token)) u) :
    ∃ t, g.Available (lineOn done) t ∧ r.token t = u := by
  cases h with
  | @source n' i hi =>
    rw [r.orderedSources_eq hg.ids_nodup, List.getElem?_map, Option.map_eq_some_iff] at hi
    obtain ⟨n, hi, rfl⟩ := hi
    exact ⟨⟨n, [i]⟩, .source hi, rfl⟩
  | @fed n' ls hn' hs hls =>
    obtain ⟨n, hn, rfl⟩ := r.exists_node hn'
    rw [r.map_inputWires hg hdone hn] at hls
    rw [r.kind_eq n hn] at hs
    exact ⟨⟨n, ls⟩, .fed hn hs hls, rfl⟩

end Visits

theorem history (hg : g.WellFormed) (h : g.History done) : g'.History (done.map r.token) := by
  have hmem : ∀ t ∈ done, t.node ∈ g.nodes := fun _ => h.node_mem
  refine ⟨fun {before' u after'} hd => ?_, ?_⟩
  · obtain ⟨before, rest, rfl, rfl, hrest⟩ := List.map_eq_append_iff.1 hd
    obtain ⟨t, after, rfl, rfl, rfl⟩ := List.map_eq_cons_iff.1 hrest
    exact r.available_token hg (fun v hv => hmem v (List.mem_append_left _ hv)) (h.available rfl)
  · rw [r.visitedIds_map hmem]
    exact h.nodup.map_on fun a ha b hb => r.id_inj a (h.mem_ids ha) b (h.mem_ids hb)

/-- **The greedy run is redrawn visit by visit.** -/
theorem greedyRun (hg : g.WellFormed) (h : g.GreedyRun done) : g'.GreedyRun (done.map r.token) := by
  have hmem : ∀ t ∈ done, t.node ∈ g.nodes := fun _ => h.node_mem
  refine ⟨r.history hg h.toHistory, fun {before' u after'} hd v hv hnew => ?_, fun u hu => ?_⟩
  · obtain ⟨before, rest, rfl, rfl, hrest⟩ := List.map_eq_append_iff.1 hd
    obtain ⟨t, after, rfl, rfl, rfl⟩ := List.map_eq_cons_iff.1 hrest
    obtain ⟨w, hw, rfl⟩ :=
      r.exists_available hg (fun v hv => hmem v (List.mem_append_left _ hv)) hv
    exact h.lowest rfl w hw fun hwb => hnew (List.mem_map_of_mem hwb)
  · obtain ⟨t, ht, rfl⟩ := r.exists_available hg hmem hu
    exact List.mem_map_of_mem (h.maximal t ht)

theorem visits_eq (hg : g.WellFormed) : g'.visits = g.visits.map r.token :=
  CircuitGraph.GreedyRun.eq (r.wellFormed hg) (r.wellFormed hg).greedyRun_visits
    (r.greedyRun hg hg.greedyRun_visits)

/-! ## Compilation -/

section Compilation

variable (hg : g.WellFormed)
include hg

theorem ops_eq : (schedule (.build g')).ops =
    (schedule (.build g)).ops.map fun op => { op with node := r.id op.node } := by
  have hmem : ∀ t ∈ g.visits, t.node ∈ g.nodes := fun _ => hg.greedyRun_visits.node_mem
  rw [ops_schedule, ops_schedule, r.visits_eq hg, List.filterMap_map, List.map_filterMap]
  refine List.filterMap_congr fun t ht => ?_
  show ((r.node t.node).kind.operation?).map _ = (t.node.kind.operation?.map _).map _
  rw [r.kind_eq _ (hmem t ht), Option.map_map]
  refine congrArg (Option.map · _) (funext fun op => ?_)
  show ScheduledOp.mk (r.node t.node).id op t.lines = ⟨r.id t.node.id, op, t.lines⟩
  rw [r.node_id _ (hmem t ht)]

theorem emit_eq (mode : EndpointMode) :
    CompiledCircuit.emit (schedule (.build g')).ops g'.orderedSources mode =
      { CompiledCircuit.emit (schedule (.build g)).ops g.orderedSources mode with
        qubits := (CompiledCircuit.emit (schedule (.build g)).ops g.orderedSources mode).qubits.map
          fun q => { q with id := r.id q.id } } := by
  unfold CompiledCircuit.emit
  rw [r.ops_eq hg, r.orderedSources_eq hg.ids_nodup, List.zipIdx_map, List.map_map, List.map_map,
    List.filter_map, List.map_map]
  refine congrArg (CompiledCircuit.mk mode · _) (List.map_congr_left fun ⟨n, line⟩ hn => ?_)
  have hn : n ∈ g.nodes := (CircuitGraph.mem_orderedSources.1
    (List.mem_of_getElem? (List.mem_zipIdx_iff_getElem?.1 hn))).1
  show QubitDescriptor.mk line (r.node n).id ((r.node n).qubitValue?.getD .zero) =
    ⟨line, r.id n.id, n.qubitValue?.getD .zero⟩
  unfold Node.qubitValue?
  rw [r.node_id n hn, r.kind_eq n hn]

theorem mem_visitedIds_iff {n : Node} (hn : n ∈ g.nodes) :
    (r.node n).id ∈ visitedIds g'.visits ↔ n.id ∈ visitedIds g.visits := by
  have hrun := hg.greedyRun_visits
  rw [r.visits_eq hg, r.visitedIds_map fun _ => hrun.node_mem, r.node_id n hn, List.mem_map]
  constructor
  · rintro ⟨a, ha, heq⟩
    rw [r.id_eq_iff (hrun.mem_ids ha) (CircuitGraph.mem_ids hn)] at heq
    exact heq ▸ ha
  · intro hid
    exact ⟨n.id, hid, rfl⟩

theorem stalled_eq : (schedule (.build g')).stalled =
    sortIds ((schedule (.build g)).stalled.map r.id) := by
  refine sortIds_eq_of_mem_iff fun id => ?_
  rw [← mem_sortIds]
  change id ∈ (schedule (.build g')).stalled ↔ _
  rw [mem_stalled_iff (r.wellFormed hg), List.mem_map]
  simp only [mem_stalled_iff hg]
  constructor
  · rintro ⟨n', hn', rfl, hop, hnew⟩
    obtain ⟨n, hn, rfl⟩ := r.exists_node hn'
    rw [r.kind_eq n hn] at hop
    rw [r.mem_visitedIds_iff hg hn] at hnew
    exact ⟨n.id, ⟨n, hn, rfl, hop, hnew⟩, (r.node_id n hn).symm⟩
  · rintro ⟨a, ⟨n, hn, rfl, hop, hnew⟩, rfl⟩
    rw [← r.kind_eq n hn] at hop
    rw [← r.mem_visitedIds_iff hg hn] at hnew
    exact ⟨r.node n, r.node_mem hn, r.node_id n hn, hop, r.node_id n hn ▸ hnew⟩

end Compilation

end Redrawing

/-- A redrawn graph keeps the standard rules and compiles to the same operations on the same qubits,
or stalls at the same nodes, under their new names. -/
theorem compile_eq_of_redrawing {g g' : CircuitGraph} (r : Redrawing g g') (h : g.Accepted)
    (mode : EndpointMode) : g'.Accepted ∧
      ((∃ c, compile mode g = .ok c ∧ compile mode g' =
          .ok { c with qubits := c.qubits.map fun q => { q with id := r.id q.id } }) ∨
        ∃ ids, compile mode g = .error (.stalled ids) ∧
          compile mode g' = .error (.stalled (sortIds (ids.map r.id)))) := by
  have hg := CircuitGraph.accepted_iff_wellFormed.1 h
  have h' := CircuitGraph.accepted_iff_wellFormed.2 (r.wellFormed hg)
  refine ⟨h', ?_⟩
  have hnil : (schedule (.build g')).stalled = [] ↔ (schedule (.build g)).stalled = [] := by
    rw [r.stalled_eq hg, List.eq_nil_iff_forall_not_mem, List.eq_nil_iff_forall_not_mem]
    simp only [mem_sortIds, List.mem_map, not_exists, not_and]
    exact ⟨fun hall id hid => hall _ id hid rfl, fun hall _ id hid _ => hall id hid⟩
  rw [compile_of_accepted h, compile_of_accepted h']
  by_cases hs : (schedule (.build g)).stalled = []
  · rw [if_pos hs, if_pos (hnil.2 hs)]
    exact .inl ⟨_, rfl, congrArg Except.ok (r.emit_eq hg mode)⟩
  · rw [if_neg hs, if_neg (mt hnil.1 hs)]
    exact .inr ⟨_, rfl, by rw [r.stalled_eq hg]⟩

/-- The crossed circuit with names that sort the other way round, its gates higher than its sources
and a handle at every wire end. -/
def renamedGraph : CircuitGraph :=
  ⟨[.atHeight "z" (.qubitSource .zero) .zero,
      .atHeight "a" (.qubitSource .zero) (.ofMagnitude false 1),
      .atHeight "y" (.twoGate .cnot) (.ofMagnitude true 2),
      .atHeight "b" (.twoGate .cphase) (.ofMagnitude true 2),
      .atHeight "x" .measurement .zero, .atHeight "c" .measurement .zero],
    [⟨some "1", "z", "y", some .output2, some .input1⟩,
      ⟨some "2", "a", "y", some .input1, some .input2⟩,
      ⟨some "3", "y", "b", some .output1, some .input2⟩,
      ⟨some "4", "y", "b", some .output2, some .input1⟩,
      ⟨some "5", "b", "x", some .output1, some .input2⟩,
      ⟨some "6", "b", "c", some .output2, some .output1⟩]⟩

def crossedRenaming : Redrawing crossedGraph renamedGraph where
  id
    | "q0" => "z"
    | "q1" => "a"
    | "cx" => "y"
    | "cp" => "b"
    | "m0" => "x"
    | _ => "c"
  node n := renamedGraph.nodes.getD (crossedGraph.nodes.idxOf n) n
  edge e := renamedGraph.edges.getD (crossedGraph.edges.idxOf e) e
  nodes_eq := by decide
  edges_eq := by decide
  id_inj := by decide
  node_id := by decide
  kind_eq := by decide
  source_eq := by decide
  target_eq := by decide
  sourceHandle_eq := by decide
  targetHandle_eq := by decide
  isAbove := by decide

/-- The qubits have their new names, the operations are the same. -/
theorem compile_renamedGraph : crossedGraph.Accepted ∧ renamedGraph.Accepted ∧
    compile .circuit renamedGraph = .ok ⟨.circuit, [⟨0, "z", .zero⟩, ⟨1, "a", .zero⟩],
      [⟨.two .cnot, [0, 1]⟩, ⟨.two .cphase, [1, 0]⟩, ⟨.measurement, [0]⟩,
        ⟨.measurement, [1]⟩]⟩ := by
  have haccepted : crossedGraph.Accepted := by cbv
  have hcompile : compile .circuit crossedGraph =
      .ok ⟨.circuit, [⟨0, "q0", .zero⟩, ⟨1, "q1", .zero⟩],
        [⟨.two .cnot, [0, 1]⟩, ⟨.two .cphase, [1, 0]⟩, ⟨.measurement, [0]⟩,
          ⟨.measurement, [1]⟩]⟩ := by cbv
  obtain ⟨haccepted', ⟨c, hc, hc'⟩ | ⟨ids, hids, -⟩⟩ :=
    compile_eq_of_redrawing crossedRenaming haccepted .circuit
  · rw [hcompile] at hc
    cases hc
    exact ⟨haccepted, haccepted', hc'⟩
  · rw [hcompile] at hids
    cases hids

end QuantumWiring

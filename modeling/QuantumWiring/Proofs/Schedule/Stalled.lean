import QuantumWiring.Compile.Compiler
import QuantumWiring.Proofs.Schedule.Ledger
import Mathlib.Data.List.Permutation
import Mathlib.Data.String.Basic

/-!
# Scheduled and stalled ids

Whatever the graph, the ids of a schedule are those of the gates and measurements that were visited,
each once (`mem_ids_schedule_iff`, `nodup_ids_schedule`), and stalled are the ids of all others
(`mem_stalled_iff_notMem_ids`).  Under rules that find no violation, a graph compiles exactly when
none is stalled (`compileWith_of_firstViolation?`).
-/

namespace QuantumWiring

/-! ## Sorted ids -/

theorem mem_insertId {id a : NodeId} {l : List NodeId} : a ∈ insertId id l ↔ a = id ∨ a ∈ l := by
  induction l with
  | nil => simp [insertId]
  | cons b l ih =>
    unfold insertId
    split
    · next h => simp [h]
    · split
      · simp
      · rw [List.mem_cons, ih, List.mem_cons]
        exact or_left_comm

theorem pairwise_insertId {id : NodeId} {l : List NodeId} (h : l.Pairwise (· < ·)) :
    (insertId id l).Pairwise (· < ·) := by
  induction l with
  | nil => simp [insertId]
  | cons b l ih =>
    obtain ⟨hb, hl⟩ := List.pairwise_cons.1 h
    unfold insertId
    split
    · exact h
    · next hne =>
      split
      · next hlt =>
        refine List.pairwise_cons.2 ⟨fun a ha => ?_, h⟩
        rcases List.mem_cons.1 ha with rfl | ha
        · exact hlt
        · exact String.lt_trans hlt (hb a ha)
      · next hnlt =>
        refine List.pairwise_cons.2 ⟨fun a ha => ?_, ih hl⟩
        rcases mem_insertId.1 ha with rfl | ha
        · exact lt_of_le_of_ne (String.not_lt.1 hnlt) (Ne.symm hne)
        · exact hb a ha

theorem mem_sortIds {id : NodeId} {l : List NodeId} : id ∈ sortIds l ↔ id ∈ l := by
  induction l with
  | nil => rfl
  | cons a l ih => rw [sortIds, List.foldr_cons, mem_insertId, ← sortIds, ih, List.mem_cons]

theorem pairwise_sortIds (l : List NodeId) : (sortIds l).Pairwise (· < ·) := by
  induction l with
  | nil => exact List.Pairwise.nil
  | cons a l ih => exact pairwise_insertId ih

theorem sortIds_eq_of_mem_iff {l l' : List NodeId} (h : ∀ id, id ∈ l ↔ id ∈ l') :
    sortIds l = sortIds l' := by
  have hnodup (l : List NodeId) : (sortIds l).Nodup :=
    (pairwise_sortIds l).imp fun hlt heq => absurd (heq ▸ hlt) (String.lt_irrefl _)
  have hperm : (sortIds l).Perm (sortIds l') := by
    refine (List.perm_ext_iff_of_nodup (hnodup l) (hnodup l')).2 fun id => ?_
    rw [mem_sortIds, mem_sortIds, h]
  exact hperm.eq_of_pairwise (fun _ _ _ _ hab hba => absurd (String.lt_trans hab hba)
    (String.lt_irrefl _)) (pairwise_sortIds l) (pairwise_sortIds l')

/-! ## Gates and measurements -/

/-- Whether a node puts an operation into the circuit. -/
def NodeKind.isOperation (k : NodeKind) : Bool := k.operation?.isSome

namespace CircuitGraph

/-- The gates and measurements in collection order. -/
def operationNodes (g : CircuitGraph) : List Node := g.nodes.filter (·.kind.isOperation)

variable {g : CircuitGraph} {id : NodeId} {n : Node}

theorem mem_operationNodes : n ∈ g.operationNodes ↔ n ∈ g.nodes ∧ n.kind.isOperation :=
  List.mem_filter

end CircuitGraph

/-- The ids of the scheduled operations, in order. -/
def Schedule.ids (s : Schedule) : List NodeId := s.ops.map (·.node)

variable {g : CircuitGraph} {id : NodeId} {n : Node}

/-! ## Scheduled ids -/

theorem ops_schedule : (schedule (.build g)).ops = g.visits.filterMap Token.op? := rfl

theorem Token.node_of_op? {t : Token} {op : ScheduledOp} (h : t.op? = some op) :
    op.node = t.node.id ∧ t.node.kind.isOperation := by
  obtain ⟨o, ho, rfl⟩ := Option.map_eq_some_iff.1 h
  exact ⟨rfl, Option.isSome_of_mem ho⟩

theorem ids_schedule_sublist (g : CircuitGraph) :
    (schedule (.build g)).ids.Sublist (visitedIds g.visits) := by
  rw [Schedule.ids, ops_schedule]
  induction g.visits with
  | nil => exact .slnil
  | cons t ts ih =>
    cases hop : t.op? with
    | none =>
      rw [List.filterMap_cons_none hop]
      exact ih.cons _
    | some op =>
      rw [List.filterMap_cons_some hop, List.map_cons, (Token.node_of_op? hop).1]
      exact ih.cons_cons _

/-- **No id is scheduled twice.** -/
theorem nodup_ids_schedule (g : CircuitGraph) : (schedule (.build g)).ids.Nodup :=
  g.visitedIds_visits_nodup.sublist (ids_schedule_sublist g)

theorem mem_ids_schedule_iff : id ∈ (schedule (.build g)).ids ↔
    ∃ t ∈ g.visits, t.node.kind.isOperation ∧ t.node.id = id := by
  rw [Schedule.ids, ops_schedule, List.mem_map]
  constructor
  · rintro ⟨op, hop, rfl⟩
    obtain ⟨t, ht, hto⟩ := List.mem_filterMap.1 hop
    obtain ⟨hnode, hkind⟩ := Token.node_of_op? hto
    exact ⟨t, ht, hkind, hnode.symm⟩
  · rintro ⟨t, ht, hkind, rfl⟩
    obtain ⟨o, ho⟩ := Option.isSome_iff_exists.1 hkind
    have hop : t.op? = some ⟨t.node.id, o, t.lines⟩ := by rw [Token.op?, ho]; rfl
    exact ⟨_, List.mem_filterMap.2 ⟨t, ht, hop⟩, rfl⟩

theorem exists_of_mem_ids_schedule (h : id ∈ (schedule (.build g)).ids) :
    ∃ n ∈ g.operationNodes, n.id = id := by
  obtain ⟨t, ht, hkind, hid⟩ := mem_ids_schedule_iff.1 h
  have hmem := (CircuitGraph.mem_of_node? (CircuitGraph.node?_of_mem_visits ht)).1
  exact ⟨t.node, CircuitGraph.mem_operationNodes.2 ⟨hmem, hkind⟩, hid⟩

theorem mem_ids_of_mem_ids_schedule (h : id ∈ (schedule (.build g)).ids) : id ∈ g.ids := by
  obtain ⟨n, hn, rfl⟩ := exists_of_mem_ids_schedule h
  exact CircuitGraph.mem_ids (CircuitGraph.mem_operationNodes.1 hn).1

/-! ## Stalled ids -/

/-- Stalled are the ids of gates and measurements that are not scheduled. -/
theorem mem_stalled_iff_notMem_ids : id ∈ (schedule (.build g)).stalled ↔
    (∃ n ∈ g.operationNodes, n.id = id) ∧ id ∉ (schedule (.build g)).ids := by
  show id ∈ sortIds ((List.filter _ (Adjacency.build g).graph.nodes).map (·.id)) ↔ _
  rw [mem_sortIds, Adjacency.graph_build, List.mem_map]
  constructor
  · rintro ⟨n, hn, rfl⟩
    obtain ⟨hn, hop⟩ := List.mem_filter.1 hn
    obtain ⟨hop, hnew⟩ := of_decide_eq_true hop
    exact ⟨⟨n, CircuitGraph.mem_operationNodes.2 ⟨hn, hop⟩, rfl⟩, hnew⟩
  · rintro ⟨⟨n, hn, rfl⟩, hnew⟩
    obtain ⟨hn, hop⟩ := CircuitGraph.mem_operationNodes.1 hn
    exact ⟨n, List.mem_filter.2 ⟨hn, decide_eq_true ⟨hop, hnew⟩⟩, rfl⟩

theorem mem_ids_iff_of_stalled_eq_nil (h : (schedule (.build g)).stalled = []) :
    id ∈ (schedule (.build g)).ids ↔ ∃ n ∈ g.operationNodes, n.id = id := by
  refine ⟨exists_of_mem_ids_schedule, fun hn => ?_⟩
  by_contra hnew
  have hmem := mem_stalled_iff_notMem_ids.2 ⟨hn, hnew⟩
  rw [h] at hmem
  cases hmem

/-! ## Compilation -/

theorem compileWith_of_firstViolation? {rules : List Rule} (mode : EndpointMode)
    (h : firstViolation? rules (.build g) = none) :
    compileWith rules mode g = if (schedule (.build g)).stalled = [] then
      .ok (.emit (schedule (.build g)).ops g.orderedSources mode)
    else .error (.stalled (schedule (.build g)).stalled) := by
  simp only [compileWith, h, Schedule.isComplete, List.isEmpty_iff]

end QuantumWiring

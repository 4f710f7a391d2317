import QuantumWiring.Proofs.Schedule.Stalled
import Mathlib.Data.List.Dedup
import Mathlib.Data.List.Perm.Subperm

/-!
# The loop ends

Nothing is asked of the graph: it may have cycles, wires without ends, the same wire twice and the
same id twice.  No round of the loop takes an id that was taken before, so there are no more rounds
than ids (`length_le_of_steps`).  What comes out accounts for every gate and every measurement by
its id, and each operation has its lines, which are lines of the graph (`loop_ends`).
-/

namespace QuantumWiring

variable {g : CircuitGraph} {ts : List Token} {s : Run}

/-! ## Rounds -/

namespace Run

theorem visitedIds_nodup_of_steps (h : Steps (.build g) (start (.build g)) ts s) :
    (visitedIds ts).Nodup :=
  ((Ledger.start g).steps h).visited.1

theorem visitedIds_subset_of_steps (h : Steps (.build g) (start (.build g)) ts s) :
    visitedIds ts ⊆ g.ids := by
  intro id hid
  obtain ⟨t, ht, rfl⟩ := List.mem_map.1 hid
  have hnode : g.node? t.node.id = some t.node := ((Ledger.start g).steps h).visited.2 t ht
  exact CircuitGraph.mem_ids (CircuitGraph.mem_of_node? hnode).1

/-- There are no more rounds than distinct ids. -/
theorem length_le_of_steps (h : Steps (.build g) (start (.build g)) ts s) :
    ts.length ≤ g.ids.dedup.length := by
  have hsub : visitedIds ts ⊆ g.ids.dedup := by
    intro id hid
    exact List.mem_dedup.2 (visitedIds_subset_of_steps h hid)
  calc ts.length = (visitedIds ts).length := (List.length_map _).symm
    _ ≤ g.ids.dedup.length := (List.subperm_of_subset (visitedIds_nodup_of_steps h) hsub).length_le

end Run

/-! ## The outcome -/

theorem lines_of_mem_visits {t : Token} (ht : t ∈ g.visits) :
    t.lines.length = t.node.kind.numLines ∧ ∀ l ∈ t.lines, l < g.sources.length := by
  obtain ⟨s, hsteps, -⟩ := Run.steps_visits (.build g) (Run.start (.build g))
  exact (Run.carries_start g).steps hsteps t ht

/-- An operation takes as many lines as it acts on, and all of them start at sources. -/
theorem inputs_of_mem_ops {op : ScheduledOp} (hop : op ∈ (schedule (.build g)).ops) :
    op.inputs.length = op.operation.arity ∧ ∀ l ∈ op.inputs, l < g.sources.length := by
  rw [ops_schedule] at hop
  obtain ⟨t, ht, hto⟩ := List.mem_filterMap.1 hop
  obtain ⟨o, ho, rfl⟩ := Option.map_eq_some_iff.1 hto
  rw [NodeKind.arity_of_operation? ho]
  exact lines_of_mem_visits ht

theorem disjoint_ids_stalled (g : CircuitGraph) :
    (schedule (.build g)).ids.Disjoint (schedule (.build g)).stalled := by
  intro id hid hstalled
  exact (mem_stalled_iff_notMem_ids.1 hstalled).2 hid

theorem mem_ids_or_mem_stalled_iff {id : NodeId} :
    id ∈ (schedule (.build g)).ids ∨ id ∈ (schedule (.build g)).stalled ↔
      ∃ n ∈ g.operationNodes, n.id = id := by
  constructor
  · rintro (hid | hid)
    · exact exists_of_mem_ids_schedule hid
    · exact (mem_stalled_iff_notMem_ids.1 hid).1
  · intro hn
    by_cases hid : id ∈ (schedule (.build g)).ids
    · exact .inl hid
    · exact .inr (mem_stalled_iff_notMem_ids.2 ⟨hn, hid⟩)

/-- **The loop ends, whatever the graph.**  Its rounds take no node twice and are no more than there
are distinct ids, and they go on until the queue is empty.  Every id of a gate or a measurement is
then either scheduled, once, or stalled, and no other id is either; each operation has as many lines
as it acts on, all of them lines of sources. -/
theorem loop_ends (g : CircuitGraph) :
    (∀ ts s, Run.Steps (.build g) (Run.start (.build g)) ts s →
      (visitedIds ts).Nodup ∧ ts.length ≤ g.ids.dedup.length) ∧
    (∃ s, Run.Steps (.build g) (Run.start (.build g)) g.visits s ∧ s.queue = []) ∧
    (schedule (.build g)).ids.Nodup ∧
    (schedule (.build g)).ids.Disjoint (schedule (.build g)).stalled ∧
    (∀ id, id ∈ (schedule (.build g)).ids ∨ id ∈ (schedule (.build g)).stalled ↔
      ∃ n ∈ g.operationNodes, n.id = id) ∧
    ∀ op ∈ (schedule (.build g)).ops,
      op.inputs.length = op.operation.arity ∧ ∀ l ∈ op.inputs, l < g.sources.length := by
  refine ⟨?rounds, Run.steps_visits _ _, nodup_ids_schedule g, disjoint_ids_stalled g, ?ids,
    ?inputs⟩
  case rounds =>
    intro ts s h
    exact ⟨Run.visitedIds_nodup_of_steps h, Run.length_le_of_steps h⟩
  case ids =>
    intro id
    exact mem_ids_or_mem_stalled_iff
  case inputs =>
    intro op hop
    exact inputs_of_mem_ops hop

end QuantumWiring

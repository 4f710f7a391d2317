import QuantumWiring.Proofs.Schedule.Stalled
import Mathlib.Data.Set.Finite.Basic

/-!
# Cycles stall a schedule

A graph whose wires are in order fails to compile in one way only: by a cycle.  A node is visited
exactly when no cycle leads to it (`GreedyRun.mem_visitedIds_iff`), since along the wires into a
visited node the places in the history fall, while from a node that is not visited one can walk
back for ever.  So compilation succeeds exactly on graphs without cycle, and the stalled nodes
are the gates and measurements on a cycle or behind one (`mem_stalled_iff_fedByCycle`).
-/

namespace QuantumWiring

open Relation

namespace CircuitGraph

/-- No node can be reached from itself along wires. -/
def Acyclic (g : CircuitGraph) : Prop := ∀ id, ¬ TransGen g.Wire id id

/-- The node lies on a cycle of wires or can be reached from one. -/
def FedByCycle (g : CircuitGraph) (id : NodeId) : Prop :=
  ∃ a, TransGen g.Wire a a ∧ ReflTransGen g.Wire a id

variable {g : CircuitGraph} {done : List Token}

/-! ## Visited nodes lie behind no cycle -/

/-- Along a wire into a visited node the places in a history fall. -/
theorem History.idxOf_lt (hg : g.WellFormed) (h : g.History done) {e : Edge} (he : e ∈ g.edges)
    (ht : e.target ∈ visitedIds done) :
    (visitedIds done).idxOf e.source < (visitedIds done).idxOf e.target := by
  obtain ⟨t, hmem, hid⟩ := List.mem_map.1 ht
  obtain ⟨before, after, rfl⟩ := List.append_of_mem hmem
  have hsource := h.source_mem hg rfl he hid.symm
  have hnodup := h.nodup
  rw [visitedIds_append, visitedIds_cons] at hnodup ⊢
  have htarget : t.node.id ∉ visitedIds before := fun hc =>
    List.disjoint_of_nodup_append hnodup hc List.mem_cons_self
  rw [← hid, List.idxOf_append_of_mem hsource, List.idxOf_append_of_notMem htarget]
  exact Nat.lt_of_lt_of_le (List.idxOf_lt_length_iff.2 hsource) (Nat.le_add_right ..)

theorem History.idxOf_lt_of_transGen (hg : g.WellFormed) (h : g.History done) {a b : NodeId}
    (hab : TransGen g.Wire a b) (hb : b ∈ visitedIds done) :
    a ∈ visitedIds done ∧ (visitedIds done).idxOf a < (visitedIds done).idxOf b := by
  induction hab with
  | single hw =>
    obtain ⟨e, he, rfl, rfl⟩ := hw
    exact ⟨h.source_mem_of_target_mem hg he hb, h.idxOf_lt hg he hb⟩
  | tail _ hw ih =>
    obtain ⟨e, he, rfl, rfl⟩ := hw
    obtain ⟨ha, hlt⟩ := ih (h.source_mem_of_target_mem hg he hb)
    exact ⟨ha, Nat.lt_trans hlt (h.idxOf_lt hg he hb)⟩

theorem History.not_fedByCycle (hg : g.WellFormed) (h : g.History done) {id : NodeId}
    (hid : id ∈ visitedIds done) : ¬ g.FedByCycle id := by
  rintro ⟨a, hcycle, hpath⟩
  have ha : a ∈ visitedIds done := by
    rcases reflTransGen_iff_eq_or_transGen.1 hpath with rfl | hpath
    · exact hid
    · exact (h.idxOf_lt_of_transGen hg hpath hid).1
  exact Nat.lt_irrefl _ (h.idxOf_lt_of_transGen hg hcycle ha).2

/-! ## The others do -/

theorem WellFormed.source_mem_ids (hg : g.WellFormed) {a b : NodeId} (h : g.Wire a b) :
    a ∈ g.ids := by
  obtain ⟨e, he, rfl, rfl⟩ := h
  exact (hg.ends_mem_ids he).1

/-- A node behind no cycle can be reached from finitely many nodes and never from itself through
them, so walking back ends. -/
theorem WellFormed.induction_of_not_fedByCycle (hg : g.WellFormed) {p : NodeId → Prop}
    (hstep : ∀ id, id ∈ g.ids → (∀ a, g.Wire a id → p a) → p id) {id : NodeId} (hid : id ∈ g.ids)
    (h : ¬ g.FedByCycle id) : p id := by
  let Behind := {a : NodeId // a ∈ g.ids ∧ ReflTransGen g.Wire a id}
  have hfin : Finite Behind :=
    Set.Finite.subset (List.finite_toSet g.ids) (t := {a | a ∈ g.ids ∧ ReflTransGen g.Wire a id})
      fun a ha => ha.1
  have : IsTrans Behind fun a b => TransGen g.Wire a.1 b.1 := ⟨fun _ _ _ => TransGen.trans⟩
  have : Std.Irrefl fun a b : Behind => TransGen g.Wire a.1 b.1 :=
    ⟨fun a ha => h ⟨a.1, ha, a.2.2⟩⟩
  have hwf := Finite.wellFounded_of_trans_of_irrefl fun a b : Behind => TransGen g.Wire a.1 b.1
  suffices ∀ a : Behind, p a.1 from this ⟨id, hid, .refl⟩
  intro a
  induction a using hwf.induction with
  | _ a ih =>
    refine hstep a.1 a.2.1 fun b hb => ?_
    exact ih ⟨b, hg.source_mem_ids hb, .head hb a.2.2⟩ (.single hb)

/-- **A node is visited exactly when no cycle leads to it.** -/
theorem GreedyRun.mem_visitedIds_iff (hg : g.WellFormed) (h : g.GreedyRun done) {id : NodeId}
    (hid : id ∈ g.ids) : id ∈ visitedIds done ↔ ¬ g.FedByCycle id := by
  refine ⟨h.not_fedByCycle hg, hg.induction_of_not_fedByCycle (p := (· ∈ visitedIds done))
    (fun b hb hpred => ?_) hid⟩
  obtain ⟨n, hn, rfl⟩ := mem_ids_iff.1 hb
  obtain ⟨ls, hls⟩ := h.exists_available hg hn fun e he ht => hpred e.source ⟨e, he, rfl, ht⟩
  exact mem_visitedIds (h.maximal _ hls)

end CircuitGraph

/-! ## Stalled nodes -/

variable {g : CircuitGraph}

/-- Stalled in a well-formed graph are the gates and measurements that are not visited. -/
theorem mem_stalled_iff (hg : g.WellFormed) {id : NodeId} :
    id ∈ (schedule (.build g)).stalled ↔
      ∃ n ∈ g.nodes, n.id = id ∧ n.kind.operation?.isSome ∧ id ∉ visitedIds g.visits := by
  have hrun : g.GreedyRun g.visits := hg.greedyRun_visits
  rw [mem_stalled_iff_notMem_ids]
  constructor
  · rintro ⟨⟨n, hn, rfl⟩, hnew⟩
    obtain ⟨hn, hop⟩ := CircuitGraph.mem_operationNodes.1 hn
    refine ⟨n, hn, rfl, hop, fun hvisited => hnew ?_⟩
    obtain ⟨t, ht, hid⟩ := List.mem_map.1 hvisited
    have hnode : t.node = n :=
      CircuitGraph.eq_of_id_eq hg.ids_nodup (hrun.node_mem ht) hn hid
    exact mem_ids_schedule_iff.2 ⟨t, ht, hnode ▸ hop, hid⟩
  · rintro ⟨n, hn, rfl, hop, hnew⟩
    refine ⟨⟨n, CircuitGraph.mem_operationNodes.2 ⟨hn, hop⟩, rfl⟩, fun hmem => hnew ?_⟩
    obtain ⟨t, ht, -, hid⟩ := mem_ids_schedule_iff.1 hmem
    exact hid ▸ mem_visitedIds ht

/-- **Stalled are the gates and measurements on a cycle or behind one.** -/
theorem mem_stalled_iff_fedByCycle (hg : g.WellFormed) {id : NodeId} :
    id ∈ (schedule (.build g)).stalled ↔
      ∃ n ∈ g.nodes, n.id = id ∧ (n.kind.isGate ∨ n.kind.isMeasurement) ∧ g.FedByCycle id := by
  rw [mem_stalled_iff hg]
  refine exists_congr fun n => and_congr_right fun hn => and_congr_right fun hid => ?_
  rw [NodeKind.isSome_operation?_iff, NodeKind.isSource_eq_false_iff,
    hg.greedyRun_visits.mem_visitedIds_iff hg (hid ▸ CircuitGraph.mem_ids hn), not_not]

theorem stalled_eq_nil_iff_acyclic (hg : g.WellFormed) :
    (schedule (.build g)).stalled = [] ↔ g.Acyclic := by
  constructor
  · intro hnil id hcycle
    -- the node that closes the cycle has an entering wire, so it is no source
    obtain ⟨b, -, e, he, rfl, rfl⟩ := TransGen.tail'_iff.1 hcycle
    obtain ⟨n, hn, hid⟩ := hg.exists_target he
    have hsource : n.kind.isSource = false :=
      Bool.eq_false_iff.2 fun hs => hg.target_ne_of_isSource hn hs he hid.symm
    have hkind := NodeKind.isSource_eq_false_iff.1 hsource
    have hmem := (mem_stalled_iff_fedByCycle hg).2 ⟨n, hn, hid, hkind, e.target, hcycle, .refl⟩
    rw [hnil] at hmem
    cases hmem
  · intro hacyclic
    refine List.eq_nil_iff_forall_not_mem.2 fun id hid => ?_
    obtain ⟨n, -, -, -, a, hcycle, -⟩ := (mem_stalled_iff_fedByCycle hg).1 hid
    exact hacyclic a hcycle

/-! ## Compiling -/

theorem compile_of_accepted (h : g.Accepted) (mode : EndpointMode) :
    compile mode g = if (schedule (.build g)).stalled = [] then
      .ok (.emit (schedule (.build g)).ops g.orderedSources mode)
    else .error (.stalled (schedule (.build g)).stalled) :=
  compileWith_of_firstViolation? mode h

/-- A graph that keeps the standard rules compiles exactly when its wires form no cycle.  Otherwise
the failure lists, in order and each once, the gates and measurements on a cycle or behind one. -/
theorem compile_eq_ok_iff_acyclic (h : g.Accepted) (mode : EndpointMode) :
    ((∃ c, compile mode g = .ok c) ↔ g.Acyclic) ∧
    (¬ g.Acyclic → ∃ ids, compile mode g = .error (.stalled ids) ∧ ids.Pairwise (· < ·) ∧
      ∀ id, id ∈ ids ↔ ∃ n ∈ g.nodes, n.id = id ∧ (n.kind.isGate ∨ n.kind.isMeasurement) ∧
        g.FedByCycle id) := by
  have hg := CircuitGraph.accepted_iff_wellFormed.1 h
  rw [compile_of_accepted h, ← stalled_eq_nil_iff_acyclic hg]
  refine ⟨?_, fun hne => ⟨_, if_neg hne, pairwise_sortIds _, fun id =>
    mem_stalled_iff_fedByCycle hg⟩⟩
  by_cases hnil : (schedule (.build g)).stalled = [] <;> simp [hnil]

/-- A gate on two qubits that waits for its own second output. -/
def loopedGraph : CircuitGraph :=
  ⟨[.atHeight "q0" (.qubitSource .zero) .zero, .atHeight "cx" (.twoGate .cnot) .zero,
      .atHeight "h" (.singleGate .hadamard) .zero, .atHeight "m0" .measurement .zero],
    [⟨none, "q0", "cx", none, some .input1⟩, ⟨none, "cx", "m0", some .output1, none⟩,
      ⟨none, "cx", "h", some .output2, none⟩, ⟨none, "h", "cx", none, some .input2⟩]⟩

/-- The measurement behind the loop is stalled, the source before it is not. -/
theorem compile_loopedGraph : loopedGraph.Accepted ∧ ∃ ids,
    compile .circuit loopedGraph = .error (.stalled ids) ∧ "m0" ∈ ids ∧ "q0" ∉ ids := by
  have haccepted : loopedGraph.Accepted := by cbv
  have hstep (a b : NodeId) (h : ∃ e ∈ loopedGraph.edges, e.source = a ∧ e.target = b) :
      loopedGraph.Wire a b := h
  have hcycle : TransGen loopedGraph.Wire "cx" "cx" :=
    .tail (.single (hstep "cx" "h" (by decide))) (hstep "h" "cx" (by decide))
  have hfed : loopedGraph.FedByCycle "m0" := ⟨"cx", hcycle, .single (hstep "cx" "m0" (by decide))⟩
  obtain ⟨ids, hids, -, hmem⟩ :=
    (compile_eq_ok_iff_acyclic haccepted .circuit).2 fun h => h "cx" hcycle
  refine ⟨haccepted, ids, hids, ?_, ?_⟩
  · exact (hmem "m0").2 ⟨.atHeight "m0" .measurement .zero, by decide, rfl, by decide, hfed⟩
  · intro hq
    obtain ⟨n, hn, hid, hkind, -⟩ := (hmem "q0").1 hq
    revert n
    decide

end QuantumWiring

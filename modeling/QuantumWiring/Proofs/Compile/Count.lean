import QuantumWiring.Proofs.Schedule.Cycle

/-!
# How many operations a compilation keeps

A schedule is complete when every id of a gate or measurement is among the scheduled ids.  Ids
are scheduled once, so a circuit that compiles under any list of rules has one operation for each
*id* of a gate or measurement (`length_operations`).  That is one for each node where ids are
distinct.  Where an id repeats, the later node is never looked at and nobody misses it
(`compileWith_shadowedGraph`).
-/

namespace QuantumWiring

variable {g : CircuitGraph}

/-- A complete schedule has each id of a gate or measurement once. -/
theorem ids_schedule_perm_dedup (h : (schedule (.build g)).stalled = []) :
    (schedule (.build g)).ids.Perm (g.operationNodes.map (·.id)).dedup := by
  refine (List.perm_ext_iff_of_nodup (nodup_ids_schedule g) (List.nodup_dedup _)).2 fun id => ?_
  rw [mem_ids_iff_of_stalled_eq_nil h, List.mem_dedup, List.mem_map]

/-! ## Compilation -/

theorem compileWith_eq_ok_iff {rules : List Rule} {mode : EndpointMode} {c : CompiledCircuit} :
    compileWith rules mode g = .ok c ↔ firstViolation? rules (.build g) = none ∧
      (schedule (.build g)).stalled = [] ∧
      .emit (schedule (.build g)).ops g.orderedSources mode = c := by
  cases hv : firstViolation? rules (.build g) with
  | some v => simp [compileWith, hv]
  | none =>
    rw [compileWith_of_firstViolation? mode hv]
    by_cases hs : (schedule (.build g)).stalled = [] <;> simp [hs]

theorem length_operations_emit (ops : List ScheduledOp) (sources : List Node) :
    (CompiledCircuit.emit ops sources .circuit).operations.length = ops.length := by
  simp [CompiledCircuit.emit, EndpointMode.includesMeasurements]

/-- A circuit that compiles, under whatever rules, has an operation for each id of a gate or
measurement: for each such node, where no two nodes share an id.  If one of these ids was not
scheduled, the compilation does not succeed, but names it among the stalled ones. -/
theorem length_operations (rules : List Rule) (g : CircuitGraph) :
    (∀ c, compileWith rules .circuit g = .ok c →
      c.operations.length = (g.operationNodes.map (·.id)).dedup.length ∧
      (g.ids.Nodup → c.operations.length = g.operationNodes.length)) ∧
    ∀ mode, firstViolation? rules (.build g) = none → ∀ n ∈ g.operationNodes,
      n.id ∉ (schedule (.build g)).ids →
      ∃ ids, compileWith rules mode g = .error (.stalled ids) ∧ n.id ∈ ids := by
  constructor
  · intro c hc
    obtain ⟨-, hnil, rfl⟩ := compileWith_eq_ok_iff.1 hc
    have hlen : (CompiledCircuit.emit (schedule (.build g)).ops g.orderedSources
        .circuit).operations.length = (g.operationNodes.map (·.id)).dedup.length := by
      rw [length_operations_emit, ← (ids_schedule_perm_dedup hnil).length_eq, Schedule.ids,
        List.length_map]
    refine ⟨hlen, fun hids => ?_⟩
    have hnodup : (g.operationNodes.map (·.id)).Nodup :=
      hids.sublist (List.filter_sublist.map _)
    rw [hlen, hnodup.dedup, List.length_map]
  · intro mode hv n hn hnew
    have hmem : n.id ∈ (schedule (.build g)).stalled :=
      mem_stalled_iff_notMem_ids.2 ⟨⟨n, hn, rfl⟩, hnew⟩
    have hne : (schedule (.build g)).stalled ≠ [] := List.ne_nil_of_mem hmem
    exact ⟨_, by rw [compileWith_of_firstViolation? mode hv, if_neg hne], hmem⟩

/-- A qubit that is measured twice, and drawn to nowhere. -/
def fannedGraph : CircuitGraph :=
  ⟨[.atHeight "q" (.qubitSource .zero) .zero, .atHeight "m" .measurement .zero,
      .atHeight "n" .measurement .zero],
    [.plain "q" "m", .plain "q" "n", .plain "q" "ghost"]⟩

/-- Without rules it compiles to both measurements, and a loop does not compile. -/
theorem compileWith_fannedGraph :
    (∃ c, compileWith [] .circuit fannedGraph = .ok c ∧ c.operations.length = 2) ∧
    ∃ ids, compileWith [] .circuit loopedGraph = .error (.stalled ids) ∧ "cx" ∈ ids := by
  have hc : compileWith [] .circuit fannedGraph =
      .ok ⟨.circuit, [⟨0, "q", .zero⟩], [⟨.measurement, [0]⟩, ⟨.measurement, [0]⟩]⟩ := by cbv
  have hlen := ((length_operations [] fannedGraph).1 _ hc).2 (by decide)
  have hids : (schedule (.build loopedGraph)).ids = [] := by cbv
  have hstalled := (length_operations [] loopedGraph).2 .circuit (by cbv)
    (.atHeight "cx" (.twoGate .cnot) .zero) (by decide) (by simp [hids])
  exact ⟨⟨_, hc, hlen⟩, hstalled⟩

/-- A qubit that is measured, and a measurement of the same name that nothing leads to. -/
def shadowedGraph : CircuitGraph :=
  ⟨[.atHeight "q" (.qubitSource .zero) .zero, .atHeight "m" .measurement .zero,
      .atHeight "m" .measurement .zero],
    [.plain "q" "m"]⟩

/-- Without rules it compiles, and one of its two measurements is gone. -/
theorem compileWith_shadowedGraph : ∃ c, compileWith [] .circuit shadowedGraph = .ok c ∧
    c.operations.length = 1 ∧ shadowedGraph.operationNodes.length = 2 :=
  ⟨⟨.circuit, [⟨0, "q", .zero⟩], [⟨.measurement, [0]⟩]⟩, by cbv, by decide, by decide⟩

end QuantumWiring

import QuantumWiring.Proofs.Compile.Collection

/-!
# Verdicts on graphs with repeated ids

A graph with namesakes is always rejected, but the rule that says so stands behind the rules on
degrees.  These may find a namesake without wires first, and which of several it is depends on the
collection order (`verdict_twinGraph`).  The order of namesakes is all that a verdict sees of the
collection order (`verdict_eq_of_namesakes`).
-/

namespace QuantumWiring

section Perm

variable {g g' : CircuitGraph} (hnodes : g.nodes.Perm g'.nodes) (hedges : g.edges.Perm g'.edges)

include hnodes hedges

theorem accepted_of_perm (h : g.Accepted) : g'.Accepted := by
  have hids : g.ids.Nodup := (CircuitGraph.accepted_iff_wellFormed.1 h).ids_nodup
  unfold CircuitGraph.Accepted at h ⊢
  rwa [← firstViolation?_eq_of_perm hids hnodes hedges]

/-- **The collection order of namesakes is all that a verdict sees of the collection order.**  Two
graphs with the same nodes and wires are accepted together; the rules that count nodes or look for
repeated ids and missing ends find the same in both; and every list of rules does so if the nodes of
each id come in the same order, as they do where ids are distinct. -/
theorem verdict_eq_of_namesakes :
    (g.Accepted ↔ g'.Accepted) ∧
    (∀ r ∈ [Rule.qubitPresence, .measurementParity, .wireEndpoints],
      r.check (.build g) = r.check (.build g')) ∧
    ((∀ id, g.namesakes id = g'.namesakes id) →
      ∀ rules, firstViolation? rules (.build g) = firstViolation? rules (.build g')) ∧
    (g.ids.Nodup → ∀ id, g.namesakes id = g'.namesakes id) := by
  refine ⟨⟨accepted_of_perm hnodes hedges, accepted_of_perm hnodes.symm hedges.symm⟩, ?whole,
    ?rules, CircuitGraph.namesakes_eq_of_nodup hnodes⟩
  case whole =>
    intro r hr
    exact Rule.check_eq_of_perm hnodes hedges hr
  case rules =>
    intro hsame rules
    exact firstViolation?_eq_of_namesakes hnodes hedges hsame rules

end Perm

/-- A measurement and a gate that share an id: the measurement comes first and takes the wire. -/
def shadowGraph : CircuitGraph :=
  ⟨[.atHeight "q" (.qubitSource .zero) .zero, .atHeight "m" .measurement .zero,
      .atHeight "m" (.singleGate .hadamard) .zero], [.plain "q" "m"]⟩

/-- The gate is reported wherever the qubit stands. -/
theorem verdict_shadowGraph :
    (∀ id, shadowGraph.namesakes id =
      CircuitGraph.namesakes ⟨shadowGraph.nodes.rotateLeft 1, shadowGraph.edges⟩ id) ∧
    firstViolation? Rule.standard
        (.build ⟨shadowGraph.nodes.rotateLeft 1, shadowGraph.edges⟩) =
      some (.gateInputs "m" SingleGate.kindName SingleGate.hadamard.name 1 0) := by
  have hperm : shadowGraph.nodes.Perm (shadowGraph.nodes.rotateLeft 1) := by decide
  have hsame : ∀ id, shadowGraph.namesakes id =
      CircuitGraph.namesakes ⟨shadowGraph.nodes.rotateLeft 1, shadowGraph.edges⟩ id := by
    intro id
    by_cases hq : "q" = id
    · subst hq
      rfl
    · by_cases hm : "m" = id
      · subst hm
        rfl
      · simp [CircuitGraph.namesakes, shadowGraph, Node.atHeight, List.rotateLeft, hq, hm]
  obtain ⟨-, -, hrules, -⟩ := @verdict_eq_of_namesakes shadowGraph
    ⟨shadowGraph.nodes.rotateLeft 1, shadowGraph.edges⟩ hperm (.refl _)
  refine ⟨hsame, ?_⟩
  rw [← hrules hsame]
  cbv

/-- A qubit and a measurement that share an id. -/
def twinGraph : CircuitGraph :=
  ⟨[.atHeight "a" (.qubitSource .zero) .zero, .atHeight "a" .measurement .zero], [.plain "a" "a"]⟩

/-- Whichever comes second has no wire and is reported. -/
theorem verdict_twinGraph :
    twinGraph.nodes.reverse.Perm twinGraph.nodes ∧
    firstViolation? Rule.standard (.build twinGraph) = some (.measurementInputs "a" 0) ∧
    firstViolation? Rule.standard (.build ⟨twinGraph.nodes.reverse, twinGraph.edges⟩) =
      some (.qubitOutputs "a" 0) :=
  ⟨List.reverse_perm _, by cbv, by cbv⟩

end QuantumWiring

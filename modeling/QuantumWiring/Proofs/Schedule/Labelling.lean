import QuantumWiring.Proofs.Schedule.Cycle
import Mathlib.Algebra.Module.Submodule.Lattice

/-!
# The lines of a graph as a labelling of its wires

Which line a wire carries is no matter of scheduling: on a well-formed graph all of whose nodes
are visited there is one labelling of the wires that starts with the sources and goes straight
through the gates (`IsLabelling`).  Every history follows every labelling (`IsLabelling.lineOn_eq`),
which makes it unique, and a complete history is one (`CompleteHistory.isLabelling_lineOn`).  The
operations of a complete schedule take the labels of their wires, in an order that no wire
contradicts (`History.pairwise_not_wire`).
-/

namespace QuantumWiring

/-- A line that enters a node by one wire leaves it by the other. -/
def NodeKind.Passes (k : NodeKind) (e e' : Edge) : Prop :=
  match k with
  | .singleGate _ => True
  | .twoGate _ => (e.targetHandle = some .input1 ∧ e'.sourceHandle = some .output1) ∨
      (e.targetHandle = some .input2 ∧ e'.sourceHandle = some .output2)
  | .qubitSource _ | .measurement => False

namespace CircuitGraph

/-- Lines for the wires of a graph: each source gives its wire its own line, and each gate hands
on what it is given. -/
structure IsLabelling (g : CircuitGraph) (label : Edge → Line) : Prop where
  source : ∀ i n, g.orderedSources[i]? = some n → ∀ e ∈ g.wiresFrom n.id, label e = i
  gate : ∀ n ∈ g.nodes, ∀ e ∈ g.wiresInto n.id, ∀ e' ∈ g.wiresFrom n.id, n.kind.Passes e e' →
    label e' = label e

variable {g : CircuitGraph} {done : List Token} {label : Edge → Line}

/-! ## Lines through a node -/

/-- Every wire that leaves a gate hands on what some entering wire brings. -/
theorem WellFormed.exists_passes (hg : g.WellFormed) {n : Node} (hn : n ∈ g.nodes)
    (hs : n.kind.isSource = false) {e' : Edge} (he' : e' ∈ g.wiresFrom n.id) :
    ∃ e ∈ g.wiresInto n.id, n.kind.Passes e e' := by
  have hmem (e : Edge) : e ∈ g.inputWires n → e ∈ g.wiresInto n.id :=
    (hg.inputWires_perm hn).mem_iff.1
  cases hk : n.kind with
  | qubitSource v => simp [hk, NodeKind.isSource] at hs
  | measurement =>
    rw [hg.wiresFrom_eq_nil hn (by simp [hk, NodeKind.isMeasurement])] at he'
    cases he'
  | singleGate gate =>
    obtain ⟨e, hin⟩ := hg.inputWires_eq_singleton hn (by simp [hk, NodeKind.numInputs])
    exact ⟨e, hmem e (by simp [hin]), trivial⟩
  | twoGate gate =>
    have ht : n.kind.isTwoGate := by simp [hk, NodeKind.isTwoGate]
    obtain ⟨e₁, e₂, hin, h₁, h₂⟩ := hg.inputWires_eq_pair hn ht
    obtain ⟨f₁, f₂, hout, k₁, k₂⟩ := hg.wiresFrom_perm_pair hn ht
    have hor : e' = f₁ ∨ e' = f₂ := by simpa using hout.mem_iff.1 he'
    rcases hor with rfl | rfl
    · exact ⟨e₁, hmem e₁ (by simp [hin]), .inl ⟨h₁, k₁⟩⟩
    · exact ⟨e₂, hmem e₂ (by simp [hin]), .inr ⟨h₂, k₂⟩⟩

/-- An available gate hands on what its wires carry. -/
theorem Available.lineAlong_eq (hg : g.WellFormed) {c : Edge → Option Line} {t : Token}
    (h : g.Available c t) {e e' : Edge} (he : e ∈ g.wiresInto t.node.id)
    (hp : t.node.kind.Passes e e') : t.lineAlong? e' = c e := by
  have hmem : e ∈ g.inputWires t.node := (hg.inputWires_perm h.node_mem).mem_iff.2 he
  have hs : t.node.kind.isSource = false := by
    revert hp
    cases t.node.kind <;> simp [NodeKind.isSource, NodeKind.Passes]
  have hls := h.map_inputWires hs
  have hlen := h.length_lines hg
  cases hk : t.node.kind <;> rw [hk] at hlen
  case qubitSource => simp [hk, NodeKind.isSource] at hs
  case measurement => simp [hk, NodeKind.Passes] at hp
  case singleGate =>
    obtain ⟨e₀, hin⟩ :=
      hg.inputWires_eq_singleton h.node_mem (by simp [hk, NodeKind.numInputs])
    obtain ⟨l, hl⟩ := List.length_eq_one_iff.1 hlen
    rw [hin] at hls hmem
    obtain rfl := List.mem_singleton.1 hmem
    simp_all [Token.lineAlong?]
  case twoGate =>
    obtain ⟨e₁, e₂, hin, h₁, h₂⟩ :=
      hg.inputWires_eq_pair h.node_mem (by simp [hk, NodeKind.isTwoGate])
    obtain ⟨a, b, hl⟩ := List.length_eq_two.1 hlen
    rw [hin, hl] at hls
    rw [hin] at hmem
    simp only [List.map_cons, List.map_nil, List.cons.injEq, and_true] at hls
    simp only [hk, NodeKind.Passes] at hp
    have hor : e = e₁ ∨ e = e₂ := by simpa using hmem
    rcases hor with rfl | rfl <;> rcases hp with ⟨hi, ho⟩ | ⟨hi, ho⟩ <;>
      simp_all [Token.lineAlong?, Handle.slot]

theorem Available.lineAlong_source (hg : g.WellFormed) {c : Edge → Option Line} {t : Token}
    (h : g.Available c t) {i : Line} {n : Node} (hi : g.orderedSources[i]? = some n)
    (hid : t.node.id = n.id) (e : Edge) : t.lineAlong? e = some i := by
  obtain rfl := h.eq_of_id_eq hg (.source hi) hid
  obtain ⟨-, hs⟩ := mem_orderedSources.1 (List.mem_of_getElem? hi)
  cases hk : n.kind <;> simp_all [NodeKind.isSource, Token.lineAlong?]

/-! ## Histories and labellings -/

/-- **A history follows every labelling.** -/
theorem IsLabelling.lineOn_eq (hg : g.WellFormed) (hlabel : g.IsLabelling label)
    (h : g.History done) : ∀ e ∈ g.edges, ∀ l, lineOn done e = some l → label e = l := by
  induction done using List.reverseRecOn with
  | nil =>
    intro e _ l hl
    cases hl
  | append_singleton done t ih =>
    obtain ⟨hdone, hav, hnew⟩ := h.of_snoc
    intro e' he' l hl
    by_cases hs : e'.source = t.node.id
    · have hfrom : e' ∈ g.wiresFrom t.node.id := mem_wiresFrom.2 ⟨he', hs⟩
      rw [lineOn_snoc_self hnew hs] at hl
      cases hsource : t.node.kind.isSource
      · obtain ⟨e, he, hp⟩ := hg.exists_passes hav.node_mem hsource hfrom
        rw [hav.lineAlong_eq hg he hp] at hl
        rw [hlabel.gate t.node hav.node_mem e he e' hfrom hp]
        exact ih hdone e (mem_wiresInto.1 he).1 l hl
      · obtain ⟨i, hi, -⟩ := hav.exists_index hsource
        rw [hav.lineAlong_source hg hi rfl, Option.some.injEq] at hl
        exact (hlabel.source i t.node hi e' hfrom).trans hl
    · rw [lineOn_snoc_of_ne hs] at hl
      exact ih hdone e' he' l hl

theorem CompleteHistory.isLabelling_lineOn (hg : g.WellFormed) (h : g.CompleteHistory done) :
    g.IsLabelling fun e => (lineOn done e).getD 0 := by
  have hline (n : Node) (hn : n ∈ g.nodes) : ∃ t, g.Available (lineOn done) t ∧ t.node.id = n.id ∧
      ∀ e ∈ g.wiresFrom n.id, lineOn done e = t.lineAlong? e := by
    obtain ⟨t, ht, hid⟩ := List.mem_map.1 (h.complete n hn)
    refine ⟨t, h.available_of_mem ht, hid, fun e he => ?_⟩
    exact lineOn_of_mem h.nodup ht ((mem_wiresFrom.1 he).2.trans hid.symm)
  refine ⟨fun i n hi e he => ?_, fun n hn e he e' he' hp => ?_⟩
  · obtain ⟨t, ht, hid, hl⟩ := hline n (mem_orderedSources.1 (List.mem_of_getElem? hi)).1
    show (lineOn done e).getD 0 = i
    rw [hl e he, ht.lineAlong_source hg hi hid, Option.getD_some]
  · obtain ⟨t, ht, hid, hl⟩ := hline n hn
    obtain rfl := CircuitGraph.eq_of_id_eq hg.ids_nodup ht.node_mem hn hid
    show (lineOn done e').getD 0 = (lineOn done e).getD 0
    rw [hl e' he', ht.lineAlong_eq hg he hp]

end CircuitGraph

/-! ## Complete schedules -/

variable {g : CircuitGraph}

/-- A schedule is complete when it has visited all nodes. -/
theorem stalled_eq_nil_iff_completeHistory (hg : g.WellFormed) :
    (schedule (.build g)).stalled = [] ↔ g.CompleteHistory g.visits := by
  constructor
  · refine fun h => ⟨hg.greedyRun_visits.toHistory, fun n hn => ?_⟩
    by_contra hnew
    cases hs : n.kind.isSource with
    | false =>
      have hop := NodeKind.isSome_operation?_iff.2 hs
      have hmem := (mem_stalled_iff hg).2 ⟨n, hn, rfl, hop, hnew⟩
      rw [h] at hmem
      cases hmem
    | true =>
      obtain ⟨i, hi⟩ := List.mem_iff_getElem?.1 (CircuitGraph.mem_orderedSources.2 ⟨hn, hs⟩)
      exact hnew (mem_visitedIds (hg.greedyRun_visits.maximal _ (.source hi)))
  · intro h
    refine List.eq_nil_iff_forall_not_mem.2 fun id hid => ?_
    obtain ⟨n, hn, rfl, -, hnew⟩ := (mem_stalled_iff hg).1 hid
    exact hnew (h.complete n hn)

/-- Two gates with crossed wires between them. -/
def crossedGraph : CircuitGraph :=
  ⟨[.atHeight "q0" (.qubitSource .zero) .zero,
      .atHeight "q1" (.qubitSource .zero) (.ofMagnitude false 1),
      .atHeight "cx" (.twoGate .cnot) .zero, .atHeight "cp" (.twoGate .cphase) .zero,
      .atHeight "m0" .measurement .zero, .atHeight "m1" .measurement .zero],
    [⟨none, "q0", "cx", none, some .input1⟩, ⟨none, "q1", "cx", none, some .input2⟩,
      ⟨none, "cx", "cp", some .output1, some .input2⟩,
      ⟨none, "cx", "cp", some .output2, some .input1⟩,
      ⟨none, "cp", "m0", some .output1, none⟩, ⟨none, "cp", "m1", some .output2, none⟩]⟩

end QuantumWiring

import QuantumWiring.Proofs.Graph.WellFormed

/-!
# The wires at the terminals of a node

In a well-formed graph the wires that meet a node can be named one by one: `inputWires` lists those
that enter it in the order of its slots, and each kind of node has its own shape of that list
(`inputWires_eq_pair`, `inputWires_eq_singleton`) and of the wires that leave it
(`wiresFrom_perm_pair`, `wiresFrom_eq_singleton`).  The scheduler meets the leaving wires sorted,
but they are these wires (`outgoing_perm`).
-/

namespace QuantumWiring

theorem filter_append_filter_perm {α : Type} {p q : α → Bool} {l : List α}
    (hpq : ∀ a, p a → q a = false) (hlen : l.length = l.countP p + l.countP q) :
    (l.filter p ++ l.filter q).Perm l := by
  have hsplit : (l.filter p ++ l.filter (!p ·)).Perm l := List.filter_append_perm p l
  have hsub : (l.filter q).Sublist (l.filter (!p ·)) := by
    refine List.monotone_filter_right l fun a ha => ?_
    cases hp : p a
    · rfl
    · simp [hpq a hp] at ha
  have heq : l.filter q = l.filter (!p ·) := by
    refine hsub.eq_of_length ?_
    have := hsplit.length_eq
    rw [List.length_append, ← List.countP_eq_length_filter] at this
    rw [← List.countP_eq_length_filter]
    omega
  rw [heq]
  exact hsplit

theorem eq_of_countP_eq_one {α : Type} {p : α → Bool} {l : List α} (h : l.countP p = 1) {a b : α}
    (ha : a ∈ l) (hb : b ∈ l) (hpa : p a) (hpb : p b) : a = b := by
  rw [List.countP_eq_length_filter, List.length_eq_one_iff] at h
  obtain ⟨c, hc⟩ := h
  have hac : a ∈ [c] := hc ▸ List.mem_filter.2 ⟨ha, hpa⟩
  have hbc : b ∈ [c] := hc ▸ List.mem_filter.2 ⟨hb, hpb⟩
  rw [List.mem_singleton.1 hac, List.mem_singleton.1 hbc]

namespace CircuitGraph

/-- The wires that enter a node, in the order of its slots. -/
def inputWires (g : CircuitGraph) (n : Node) : List Edge :=
  match n.kind with
  | .twoGate _ => (g.wiresInto n.id).filter (·.targetHandle = some .input1) ++
      (g.wiresInto n.id).filter (·.targetHandle = some .input2)
  | _ => g.wiresInto n.id

theorem orderedSources_perm {g : CircuitGraph} : g.orderedSources.Perm g.sources :=
  List.mergeSort_perm ..

theorem mem_orderedSources {g : CircuitGraph} {n : Node} :
    n ∈ g.orderedSources ↔ n ∈ g.nodes ∧ n.kind.isSource := by
  rw [orderedSources_perm.mem_iff, sources, List.mem_filter]

theorem nodup_ids_orderedSources {g : CircuitGraph} (h : g.ids.Nodup) :
    (g.orderedSources.map (·.id)).Nodup := by
  rw [(orderedSources_perm.map _).nodup_iff]
  exact h.sublist (List.filter_sublist.map _)

namespace WellFormed

variable {g : CircuitGraph} (h : g.WellFormed) {n : Node} {e : Edge}
include h

theorem ends_mem_ids (he : e ∈ g.edges) : e.source ∈ g.ids ∧ e.target ∈ g.ids := by
  simpa [joins] using h.joined e he

theorem exists_source (he : e ∈ g.edges) : ∃ n ∈ g.nodes, n.id = e.source :=
  mem_ids_iff.1 (h.ends_mem_ids he).1

theorem exists_target (he : e ∈ g.edges) : ∃ n ∈ g.nodes, n.id = e.target :=
  mem_ids_iff.1 (h.ends_mem_ids he).2

/-! ## Entering wires -/

theorem inputWires_perm (hn : n ∈ g.nodes) : (g.inputWires n).Perm (g.wiresInto n.id) := by
  unfold inputWires
  split
  · next gate hk =>
    refine filter_append_filter_perm (fun e he => by simp_all) ?_
    have htwo : n.kind.isTwoGate := by simp [hk, NodeKind.isTwoGate]
    rw [h.countP_wiresInto n hn htwo .input1 rfl, h.countP_wiresInto n hn htwo .input2 rfl,
      h.length_wiresInto n hn, hk]
    rfl
  · exact .refl _

theorem mem_inputWires (hn : n ∈ g.nodes) :
    e ∈ g.inputWires n ↔ e ∈ g.edges ∧ e.target = n.id := by
  rw [(h.inputWires_perm hn).mem_iff, mem_wiresInto]

theorem inputWires_eq_pair (hn : n ∈ g.nodes) (ht : n.kind.isTwoGate) :
    ∃ e₁ e₂, g.inputWires n = [e₁, e₂] ∧ e₁.targetHandle = some .input1 ∧
      e₂.targetHandle = some .input2 := by
  have hone (i : Handle) (hi : i.isInput) :
      ∃ e, (g.wiresInto n.id).filter (·.targetHandle = some i) = [e] := by
    rw [← List.length_eq_one_iff, ← List.countP_eq_length_filter]
    exact h.countP_wiresInto n hn ht i hi
  obtain ⟨e₁, h₁⟩ := hone .input1 rfl
  obtain ⟨e₂, h₂⟩ := hone .input2 rfl
  have hm₁ : e₁ ∈ (g.wiresInto n.id).filter (·.targetHandle = some .input1) := by simp [h₁]
  have hm₂ : e₂ ∈ (g.wiresInto n.id).filter (·.targetHandle = some .input2) := by simp [h₂]
  refine ⟨e₁, e₂, ?_, by simpa using (List.mem_filter.1 hm₁).2,
    by simpa using (List.mem_filter.1 hm₂).2⟩
  unfold inputWires
  cases hk : n.kind <;> simp_all [NodeKind.isTwoGate]

theorem inputWires_eq_singleton (hn : n ∈ g.nodes) (hk : n.kind.numInputs = 1) :
    ∃ e, g.inputWires n = [e] := by
  rw [← List.length_eq_one_iff, (h.inputWires_perm hn).length_eq, h.length_wiresInto n hn, hk]

theorem length_inputWires (hn : n ∈ g.nodes) : (g.inputWires n).length = n.kind.numInputs := by
  rw [(h.inputWires_perm hn).length_eq, h.length_wiresInto n hn]

/-- No wire enters a source. -/
theorem target_ne_of_isSource (hn : n ∈ g.nodes) (hs : n.kind.isSource) (he : e ∈ g.edges) :
    e.target ≠ n.id := by
  intro ht
  have hlen := h.length_wiresInto n hn
  have hmem : e ∈ g.wiresInto n.id := mem_wiresInto.2 ⟨he, ht⟩
  cases hk : n.kind <;> simp_all [NodeKind.isSource, NodeKind.numInputs]

theorem exists_targetHandle (hn : n ∈ g.nodes) (ht : n.kind.isTwoGate) (he : e ∈ g.edges)
    (hen : e.target = n.id) : ∃ i : Handle, e.targetHandle = some i ∧ i.isInput := by
  obtain ⟨e₁, e₂, hin, h₁, h₂⟩ := h.inputWires_eq_pair hn ht
  have hmem : e ∈ [e₁, e₂] := hin ▸ (h.mem_inputWires hn).2 ⟨he, hen⟩
  simp only [List.mem_cons, List.not_mem_nil, or_false] at hmem
  rcases hmem with rfl | rfl
  · exact ⟨_, h₁, rfl⟩
  · exact ⟨_, h₂, rfl⟩

theorem eq_of_targetHandle (hn : n ∈ g.nodes) (ht : n.kind.isTwoGate) {i : Handle} (hi : i.isInput)
    {e e' : Edge} (he : e ∈ g.edges) (he' : e' ∈ g.edges) (hen : e.target = n.id)
    (hen' : e'.target = n.id) (hei : e.targetHandle = some i) (hei' : e'.targetHandle = some i) :
    e = e' :=
  eq_of_countP_eq_one (h.countP_wiresInto n hn ht i hi) (mem_wiresInto.2 ⟨he, hen⟩)
    (mem_wiresInto.2 ⟨he', hen'⟩) (by simpa using hei) (by simpa using hei')

/-! ## Leaving wires -/

theorem wiresFrom_perm_pair (hn : n ∈ g.nodes) (ht : n.kind.isTwoGate) :
    ∃ e₁ e₂, (g.wiresFrom n.id).Perm [e₁, e₂] ∧ e₁.sourceHandle = some .output1 ∧
      e₂.sourceHandle = some .output2 := by
  have hone (o : Handle) (ho : o.isInput = false) :
      ∃ e, (g.wiresFrom n.id).filter (·.sourceHandle = some o) = [e] := by
    rw [← List.length_eq_one_iff, ← List.countP_eq_length_filter]
    exact h.countP_wiresFrom n hn ht o ho
  obtain ⟨e₁, h₁⟩ := hone .output1 rfl
  obtain ⟨e₂, h₂⟩ := hone .output2 rfl
  have hm₁ : e₁ ∈ (g.wiresFrom n.id).filter (·.sourceHandle = some .output1) := by simp [h₁]
  have hm₂ : e₂ ∈ (g.wiresFrom n.id).filter (·.sourceHandle = some .output2) := by simp [h₂]
  refine ⟨e₁, e₂, ?_, by simpa using (List.mem_filter.1 hm₁).2,
    by simpa using (List.mem_filter.1 hm₂).2⟩
  have hsplit : ((g.wiresFrom n.id).filter (·.sourceHandle = some .output1) ++
      (g.wiresFrom n.id).filter (·.sourceHandle = some .output2)).Perm (g.wiresFrom n.id) := by
    refine filter_append_filter_perm (fun e he => by simp_all) ?_
    rw [h.countP_wiresFrom n hn ht .output1 rfl, h.countP_wiresFrom n hn ht .output2 rfl,
      h.length_wiresFrom n hn]
    cases hk : n.kind <;> simp_all [NodeKind.isTwoGate, NodeKind.numOutputs]
  rw [h₁, h₂] at hsplit
  exact hsplit.symm

theorem wiresFrom_eq_singleton (hn : n ∈ g.nodes) (hk : n.kind.numOutputs = 1) :
    ∃ e, g.wiresFrom n.id = [e] := by
  rw [← List.length_eq_one_iff, h.length_wiresFrom n hn, hk]

theorem wiresFrom_eq_nil (hn : n ∈ g.nodes) (hm : n.kind.isMeasurement) :
    g.wiresFrom n.id = [] := by
  rw [← List.length_eq_zero_iff, h.length_wiresFrom n hn]
  cases hk : n.kind <;> simp_all [NodeKind.isMeasurement, NodeKind.numOutputs]

theorem wiresFrom_nodup (hn : n ∈ g.nodes) : (g.wiresFrom n.id).Nodup := by
  by_cases ht : n.kind.isTwoGate
  · obtain ⟨e₁, e₂, hp, h₁, h₂⟩ := h.wiresFrom_perm_pair hn ht
    rw [hp.nodup_iff]
    have hne : e₁ ≠ e₂ := fun he => by simp [he, h₂] at h₁
    simpa using hne
  · have hle : (g.wiresFrom n.id).length ≤ 1 := by
      rw [h.length_wiresFrom n hn]
      cases hk : n.kind <;> simp_all [NodeKind.isTwoGate, NodeKind.numOutputs]
    cases hw : g.wiresFrom n.id with
    | nil => exact List.nodup_nil
    | cons e es =>
      have hnil : es = [] := by
        rw [hw, List.length_cons] at hle
        exact List.length_eq_zero_iff.1 (by omega)
      rw [hnil]
      exact List.nodup_singleton e

/-- The scheduler follows the wires that leave a node, each once. -/
theorem outgoing_perm : (g.junction n).outgoing.Perm (g.wiresFrom n.id) := by
  have hself : (g.wiresFrom n.id).filter g.joins = g.wiresFrom n.id :=
    List.filter_eq_self.2 fun e he => h.joined e (mem_wiresFrom.1 he).1
  exact (List.mergeSort_perm ..).trans (.of_eq hself)

/-! ## Sources -/

theorem orderedSources_ids_nodup : (g.orderedSources.map (·.id)).Nodup :=
  nodup_ids_orderedSources h.ids_nodup

end WellFormed

end CircuitGraph

end QuantumWiring

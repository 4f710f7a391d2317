import QuantumWiring.Proofs.Schedule.Labelling
import Mathlib.Data.List.Pairwise

/-!
# No line is cloned or lost

At any time of a history each line is in one place: in a source that is not visited yet, on a wire
that leads from a visited node to one that is not, or in a visited measurement
(`History.lines_perm`).  A visit takes its lines from the first two places and sends them on or
keeps them (`History.exists_perm_of_snoc`), so the lines of a node are different ones, none of
them measured before.  Once all nodes are visited nothing is left but the measurements, and they
share the lines out among them (`CompleteHistory.kept_perm`).
-/

namespace QuantumWiring

/-! ## Picking elements of a list -/

section Lists

variable {α β : Type} {l : List α}

theorem flatMap_filter {p : α → Bool} {f : α → List β} :
    (l.filter p).flatMap f = l.flatMap fun a => if p a then f a else [] := by
  induction l with
  | nil => rfl
  | cons a l ih => cases hp : p a <;> simp [hp, ih]

theorem filterMap_eq_of_map_eq {f : α → Option β} {bs : List β} (h : l.map f = bs.map some) :
    l.filterMap f = bs := by
  have hid : (l.map f).filterMap id = l.filterMap f := List.filterMap_map
  rw [← hid, h, List.filterMap_map]
  exact List.filterMap_some

theorem filter_key_eq_singleton [DecidableEq α] [DecidableEq β] (key : α → β)
    (h : (l.map key).Nodup) {a : α} (ha : a ∈ l) : l.filter (key · = key a) = [a] := by
  have hcongr : l.filter (key · = key a) = l.filter (· = a) :=
    List.filter_congr fun b hb => decide_eq_decide.2
      ⟨fun e => List.inj_on_of_nodup_map h hb ha e, fun e => by rw [e]⟩
  rw [hcongr, List.filter_eq, List.count_eq_one_of_mem (.of_map _ h) ha, List.replicate_one]

/-- An element of a list without repetitions comes from one place. -/
theorem eq_of_nodup_flatMap {f : α → List β} (h : (l.flatMap f).Nodup) {a b : α} (ha : a ∈ l)
    (hb : b ∈ l) {c : β} (hca : c ∈ f a) (hcb : c ∈ f b) : a = b := by
  have : Std.Symm (Function.onFun List.Disjoint f) := ⟨fun _ _ => List.disjoint_symm⟩
  by_contra hne
  exact (List.nodup_flatMap.1 h).2.forall ha hb hne hca hcb

end Lists

namespace Token

/-- The lines that the node sends on. -/
def sent (t : Token) : List Line := if t.node.kind.isMeasurement then [] else t.lines

/-- The lines that end in the node. -/
def kept (t : Token) : List Line := if t.node.kind.isMeasurement then t.lines else []

theorem kept_append_sent (t : Token) : t.kept ++ t.sent = t.lines := by
  unfold kept sent
  split <;> simp

theorem sent_sublist (t : Token) : t.sent.Sublist t.lines :=
  t.kept_append_sent ▸ List.sublist_append_right ..

/-- What visiting the node puts into a compiled circuit. -/
def spec? (t : Token) : Option OperationSpec :=
  t.node.kind.operation?.map fun op => ⟨op, t.lines⟩

theorem spec?_eq_some {t : Token} {op : OperationSpec} :
    t.spec? = some op ↔ t.node.kind.operation? = some op.operation ∧ t.lines = op.inputs := by
  rw [spec?, Option.map_eq_some_iff]
  constructor
  · rintro ⟨o, ho, rfl⟩
    exact ⟨ho, rfl⟩
  · rintro ⟨ho, hl⟩
    exact ⟨op.operation, ho, by rw [hl]⟩

theorem kept_of_spec? {t : Token} {op : OperationSpec} (h : t.spec? = some op) :
    t.kept = if op.operation.isMeasurement then op.inputs else [] := by
  obtain ⟨o, ls⟩ := op
  obtain ⟨ho, hl⟩ := spec?_eq_some.1 h
  rw [kept, hl]
  cases hk : t.node.kind <;> rw [hk] at ho <;> cases ho <;> rfl

theorem kept_of_spec?_eq_none {t : Token} (h : t.spec? = none) : t.kept = [] := by
  rw [kept]
  cases hk : t.node.kind <;>
    simp_all [spec?, NodeKind.operation?, NodeKind.isMeasurement]

end Token

namespace CircuitGraph

/-- The lines of the sources that are not visited. -/
def unstarted (g : CircuitGraph) (done : List Token) : List Line :=
  g.orderedSources.zipIdx.flatMap fun p => if p.1.id ∈ visitedIds done then [] else [p.2]

/-- The lines on the wires that lead to nodes that are not visited. -/
def carried (g : CircuitGraph) (done : List Token) : List Line :=
  g.edges.flatMap fun e => if e.target ∈ visitedIds done then [] else (lineOn done e).toList

/-- The lines that later visits can take. -/
def held (g : CircuitGraph) (done : List Token) : List Line := g.unstarted done ++ g.carried done

variable {g : CircuitGraph} {done : List Token} {t : Token}

/-! ## The lines of a visit -/

theorem Available.lines_perm_into (hg : g.WellFormed) {c : Edge → Option Line}
    (h : g.Available c t) (hs : t.node.kind.isSource = false) :
    (g.edges.flatMap fun e => if e.target = t.node.id then (c e).toList else []).Perm t.lines := by
  have hinto : (g.wiresInto t.node.id).flatMap (fun e => (c e).toList) =
      g.edges.flatMap fun e => if e.target = t.node.id then (c e).toList else [] := by
    simpa [wiresInto] using flatMap_filter (l := g.edges) (p := (·.target = t.node.id))
  rw [← hinto, ← List.filterMap_eq_flatMap_toList]
  exact ((hg.inputWires_perm h.node_mem).symm.filterMap c).trans
    (.of_eq (filterMap_eq_of_map_eq (h.map_inputWires hs)))

/-- The wires from a node take the lines that it sends. -/
theorem Available.filterMap_lineAlong_perm (hg : g.WellFormed) {c : Edge → Option Line}
    (h : g.Available c t) : ((g.wiresFrom t.node.id).filterMap t.lineAlong?).Perm t.sent := by
  rw [Token.sent]
  cases hm : t.node.kind.isMeasurement
  · have := (h.map_lineAlong_perm hg hm).filterMap id
    rw [List.filterMap_map, List.filterMap_map] at this
    exact this.trans (.of_eq List.filterMap_some)
  · rw [hg.wiresFrom_eq_nil h.node_mem hm]
    exact .refl _

theorem Available.sent_perm_from (hg : g.WellFormed) {c : Edge → Option Line}
    (h : g.Available c t) : (g.edges.flatMap fun e =>
      if e.source = t.node.id then (t.lineAlong? e).toList else []).Perm t.sent := by
  have hfrom : (g.wiresFrom t.node.id).flatMap (fun e => (t.lineAlong? e).toList) =
      g.edges.flatMap fun e => if e.source = t.node.id then (t.lineAlong? e).toList else [] := by
    simpa [wiresFrom] using flatMap_filter (l := g.edges) (p := (·.source = t.node.id))
  rw [← hfrom, ← List.filterMap_eq_flatMap_toList]
  exact h.filterMap_lineAlong_perm hg

namespace History

variable (hg : g.WellFormed)
include hg

/-- The sources that are not visited lose the line of a visited source, and a fed node has its
lines from its wires. -/
theorem unstarted_perm (h : g.History (done ++ [t])) :
    (g.unstarted done ++ g.edges.flatMap fun e =>
      if e.target = t.node.id then (lineOn done e).toList else []).Perm
    (t.lines ++ g.unstarted (done ++ [t])) := by
  obtain ⟨-, hav, hnew⟩ := h.of_snoc
  have hsplit : (g.unstarted done).Perm ((g.orderedSources.zipIdx.flatMap fun p =>
      if p.1.id = t.node.id then [p.2] else []) ++ g.unstarted (done ++ [t])) := by
    refine .trans ?_ (List.flatMap_append_perm ..).symm
    refine .flatMap_left _ fun p _ => ?_
    by_cases hp : p.1.id = t.node.id <;> simp [hp, hnew]
  have hkeys : (g.orderedSources.zipIdx.map (·.1.id)).Nodup := by
    have := hg.orderedSources_ids_nodup
    rwa [← List.zipIdx_map_fst 0 g.orderedSources, List.map_map] at this
  cases hs : t.node.kind.isSource
  · have hnone : (g.orderedSources.zipIdx.flatMap fun p =>
        if p.1.id = t.node.id then [p.2] else []) = [] := by
      refine List.flatMap_eq_nil_iff.2 fun p hp => if_neg fun hid => ?_
      obtain ⟨hn, hsource⟩ := mem_orderedSources.1 (List.fst_mem_of_mem_zipIdx hp)
      rw [CircuitGraph.eq_of_id_eq hg.ids_nodup hn hav.node_mem hid, hs] at hsource
      cases hsource
    rw [hnone, List.nil_append] at hsplit
    exact (hsplit.append (hav.lines_perm_into hg hs)).trans List.perm_append_comm
  · obtain ⟨i, hi, hlines⟩ := hav.exists_index hs
    have hpick : (g.orderedSources.zipIdx.flatMap fun p =>
        if p.1.id = t.node.id then [p.2] else []) = t.lines := by
      have hsingle := filter_key_eq_singleton (·.1.id) hkeys
        (List.mk_mem_zipIdx_iff_getElem?.2 hi)
      have hflat := flatMap_filter (l := g.orderedSources.zipIdx) (p := (·.1.id = t.node.id))
        (f := fun p => [p.2])
      simp only [decide_eq_true_eq] at hflat
      rw [← hflat, hsingle, hlines]
      rfl
    have hnone : (g.edges.flatMap fun e =>
        if e.target = t.node.id then (lineOn done e).toList else []) = [] :=
      List.flatMap_eq_nil_iff.2 fun e he =>
        if_neg (hg.target_ne_of_isSource hav.node_mem hs he)
    rw [hpick] at hsplit
    rw [hnone, List.append_nil]
    exact hsplit

/-- **What a visit does to the lines**: it takes its own ones and sends them on, unless it is a
measurement; the others stay. -/
theorem exists_perm_of_snoc (h : g.History (done ++ [t])) : ∃ rest : List Line,
    (g.held done).Perm (t.lines ++ rest) ∧ (g.held (done ++ [t])).Perm (t.sent ++ rest) := by
  obtain ⟨hdone, hav, hnew⟩ := h.of_snoc
  let others := g.edges.flatMap fun e =>
    if e.target = t.node.id ∨ e.target ∈ visitedIds done then [] else (lineOn done e).toList
  have hbefore : (g.carried done).Perm ((g.edges.flatMap fun e =>
      if e.target = t.node.id then (lineOn done e).toList else []) ++ others) := by
    refine .trans ?_ (List.flatMap_append_perm ..).symm
    refine .flatMap_left _ fun e _ => ?_
    by_cases ht : e.target = t.node.id <;> simp [ht, hnew]
  -- the wires from the new node lead to nodes that are not visited, and carried nothing before
  have hafter : (g.carried (done ++ [t])).Perm ((g.edges.flatMap fun e =>
      if e.source = t.node.id then (t.lineAlong? e).toList else []) ++ others) := by
    refine .trans ?_ (List.flatMap_append_perm ..).symm
    refine .flatMap_left _ fun e he => ?_
    by_cases hs : e.source = t.node.id
    · have hself : e.target ≠ t.node.id := fun ht =>
        hnew (hs ▸ h.source_mem hg rfl he ht)
      have hback : e.target ∉ visitedIds done := fun ht =>
        hnew (hs ▸ hdone.source_mem_of_target_mem hg he ht)
      have hnone : lineOn done e = none := lineOn_eq_none (hs ▸ hnew)
      rw [lineOn_snoc_self hnew hs, hnone]
      simp [hself, hback, hs]
    · rw [lineOn_snoc_of_ne hs]
      simp [hs, or_comm]
  refine ⟨g.unstarted (done ++ [t]) ++ others, ?_, ?_⟩
  · refine ((hbefore.append_left _).trans (.of_eq (List.append_assoc ..).symm)).trans ?_
    exact ((h.unstarted_perm hg).append_right _).trans (.of_eq (List.append_assoc ..))
  · refine ((hafter.append_left _).trans (List.perm_append_comm_assoc ..)).trans ?_
    exact (hav.sent_perm_from hg).append_right _

/-- **Each line is in one place.** -/
theorem lines_perm (h : g.History done) :
    (done.flatMap Token.kept ++ g.held done).Perm (List.range g.sources.length) := by
  induction done using List.reverseRecOn with
  | nil =>
    have hcarried : g.carried [] = [] := List.flatMap_eq_nil_iff.2 fun _ _ => rfl
    have hunstarted : g.unstarted [] = g.orderedSources.zipIdx.map (·.2) := by
      simp [unstarted, List.map_eq_flatMap]
    rw [held, hcarried, hunstarted, List.zipIdx_map_snd, orderedSources_perm.length_eq,
      List.append_nil, List.flatMap_nil, List.nil_append, List.range_eq_range']
  | append_singleton done t ih =>
    obtain ⟨rest, hbefore, hafter⟩ := h.exists_perm_of_snoc hg
    have hstep : (t.kept ++ g.held (done ++ [t])).Perm (g.held done) := by
      refine (hafter.append_left _).trans (.trans (.of_eq ?_) hbefore.symm)
      rw [← List.append_assoc, Token.kept_append_sent]
    rw [List.flatMap_append, List.append_assoc, List.flatMap_singleton]
    exact (hstep.append_left _).trans (ih h.of_append)

/-- The lines of a visit are different lines of the graph, none of them measured before. -/
theorem lines_of_snoc (h : g.History (done ++ [t])) :
    t.lines.Nodup ∧ (∀ l ∈ t.lines, l < g.sources.length) ∧
      (done.flatMap Token.kept).Disjoint t.lines := by
  obtain ⟨rest, hbefore, -⟩ := h.exists_perm_of_snoc hg
  have hperm : (done.flatMap Token.kept ++ (t.lines ++ rest)).Perm
      (List.range g.sources.length) :=
    (hbefore.symm.append_left _).trans (h.of_append.lines_perm hg)
  have hnodup := hperm.nodup_iff.2 List.nodup_range
  refine ⟨hnodup.of_append_right.of_append_left, fun l hl => ?_, fun l hk hl => ?_⟩
  · exact List.mem_range.1 (hperm.mem_iff.1 (by simp [hl]))
  · exact List.disjoint_of_nodup_append hnodup hk (List.mem_append_left _ hl)

theorem lines_of_mem (h : g.History done) (ht : t ∈ done) :
    t.lines.Nodup ∧ ∀ l ∈ t.lines, l < g.sources.length := by
  obtain ⟨before, after, rfl⟩ := List.append_of_mem ht
  rw [List.append_cons] at h
  have := h.of_append.lines_of_snoc hg
  exact ⟨this.1, this.2.1⟩

theorem pairwise_disjoint_kept (h : g.History done) :
    done.Pairwise fun a b => a.kept.Disjoint b.lines := by
  induction done using List.reverseRecOn with
  | nil => exact .nil
  | append_singleton done t ih =>
    refine List.pairwise_append.2 ⟨ih h.of_append, List.pairwise_singleton .., fun a ha b hb => ?_⟩
    obtain rfl := List.mem_singleton.1 hb
    exact fun l hk => (h.lines_of_snoc hg).2.2 (List.mem_flatMap.2 ⟨a, ha, hk⟩)

end History

theorem CompleteHistory.kept_perm (hg : g.WellFormed) (h : g.CompleteHistory done) :
    (done.flatMap Token.kept).Perm (List.range g.sources.length) := by
  have hunstarted : g.unstarted done = [] := List.flatMap_eq_nil_iff.2 fun p hp =>
    if_pos (h.complete _ (mem_orderedSources.1 (List.fst_mem_of_mem_zipIdx hp)).1)
  have hcarried : g.carried done = [] := List.flatMap_eq_nil_iff.2 fun e he => by
    obtain ⟨n, hn, hid⟩ := hg.exists_target he
    exact if_pos (hid ▸ h.complete n hn)
  have := h.lines_perm hg
  rwa [held, hunstarted, hcarried, List.append_nil, List.append_nil] at this

end CircuitGraph

/-! ## Compiled circuits -/

theorem flatMap_inputs_measurements (done : List Token) :
    ((done.filterMap Token.spec?).filter (·.operation.isMeasurement)).flatMap (·.inputs) =
      done.flatMap Token.kept := by
  induction done with
  | nil => rfl
  | cons t done ih =>
    rw [List.flatMap_cons, ← ih]
    cases hop : t.spec? with
    | none => rw [List.filterMap_cons_none hop, Token.kept_of_spec?_eq_none hop, List.nil_append]
    | some op =>
      rw [List.filterMap_cons_some hop, Token.kept_of_spec? hop]
      cases hm : op.operation.isMeasurement <;> simp [hm]

variable {g : CircuitGraph}

/-- The operations of the visits, as far as an endpoint takes them. -/
def specsFor (mode : EndpointMode) (done : List Token) : List OperationSpec :=
  (done.filterMap Token.spec?).filter fun op =>
    mode.includesMeasurements || !op.operation.isMeasurement

@[simp] theorem specsFor_circuit (done : List Token) :
    specsFor .circuit done = done.filterMap Token.spec? := by
  simp [specsFor, EndpointMode.includesMeasurements]

/-- What a compilation gives. -/
theorem compile_eq_ok (h : g.Accepted) {mode : EndpointMode} {c : CompiledCircuit}
    (hc : compile mode g = .ok c) : (schedule (.build g)).stalled = [] ∧
      c.numQubits = g.sources.length ∧ c.operations = specsFor mode g.visits := by
  rw [compile_of_accepted h] at hc
  split at hc
  · next hnil =>
    cases hc
    refine ⟨hnil, ?_, ?_⟩
    · simp [CompiledCircuit.numQubits, CompiledCircuit.emit,
        CircuitGraph.orderedSources_perm.length_eq]
    · have hspec (t : Token) : t.op?.map (fun op => (⟨op.operation, op.inputs⟩ : OperationSpec)) =
          t.spec? := by
        simp [Token.op?, Token.spec?, Function.comp_def]
      rw [specsFor, CompiledCircuit.emit, ops_schedule]
      simp only [← hspec, ← List.map_filterMap, List.filter_map, Function.comp_def]
  · cases hc

/-- The operations of a circuit take as many lines as they need, all of them different lines of
the circuit; every line is measured once, and nothing is done to it afterwards. -/
theorem operations_of_compile (h : g.Accepted) {c : CompiledCircuit}
    (hc : compile .circuit g = .ok c) :
    (∀ op ∈ c.operations, op.inputs.length = op.operation.arity ∧ op.inputs.Nodup ∧
      ∀ l ∈ op.inputs, l < c.numQubits) ∧
    ((c.operations.filter (·.operation.isMeasurement)).flatMap (·.inputs)).Perm
      (List.range c.numQubits) ∧
    c.operations.Pairwise fun a b => a.operation.isMeasurement → a.inputs.Disjoint b.inputs := by
  have hg := CircuitGraph.accepted_iff_wellFormed.1 h
  obtain ⟨hnil, hqubits, hops⟩ := compile_eq_ok h hc
  have hrun := (stalled_eq_nil_iff_completeHistory hg).1 hnil
  rw [hqubits, hops, specsFor_circuit]
  refine ⟨fun op hop => ?_, ?_, List.pairwise_filterMap.2 ?_⟩
  · obtain ⟨t, ht, hto⟩ := List.mem_filterMap.1 hop
    obtain ⟨ho, hl⟩ := Token.spec?_eq_some.1 hto
    rw [← hl, NodeKind.arity_of_operation? ho]
    exact ⟨(hrun.available_of_mem ht).length_lines hg, hrun.lines_of_mem hg ht⟩
  · rw [flatMap_inputs_measurements]
    exact hrun.kept_perm hg
  · refine (hrun.pairwise_disjoint_kept hg).imp fun {t u} hdisj op hop op' hop' hm => ?_
    rwa [Token.kept_of_spec? hop, if_pos hm, (Token.spec?_eq_some.1 hop').2] at hdisj

/-- The two lines of the crossed circuit are measured once each. -/
theorem inputs_crossedGraph : ∃ c, crossedGraph.Accepted ∧ compile .circuit crossedGraph = .ok c ∧
    c.numQubits = 2 ∧
    ((c.operations.filter (·.operation.isMeasurement)).flatMap (·.inputs)).Perm [0, 1] := by
  have haccepted : crossedGraph.Accepted := by cbv
  have hcompile : compile .circuit crossedGraph =
      .ok ⟨.circuit, [⟨0, "q0", .zero⟩, ⟨1, "q1", .zero⟩],
        [⟨.two .cnot, [0, 1]⟩, ⟨.two .cphase, [1, 0]⟩, ⟨.measurement, [0]⟩,
          ⟨.measurement, [1]⟩]⟩ := by cbv
  exact ⟨_, haccepted, hcompile, rfl, (operations_of_compile haccepted hcompile).2.1⟩

end QuantumWiring

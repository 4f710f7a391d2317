import QuantumWiring.Proofs.Compile.Collection
import QuantumWiring.Proofs.Compile.Count
import QuantumWiring.Proofs.Graph.Port
import QuantumWiring.Proofs.Schedule.Renumber
import Mathlib.Data.List.Sort

/-!
# Two drawings beside each other

Two graphs that share no id and no wire are drawn into one, the sources of the first above those of
the second (`Apart`).  However either is wired, the schedule of the whole is the schedule of the
first and then that of the second, whose lines are raised by the number of sources of the first; what
is stalled in either is stalled in the whole (`schedule_of_apart`).
-/

namespace QuantumWiring

namespace CircuitGraph

/-- The nodes and wires of two graphs, one collection behind the other. -/
def append (g₁ g₂ : CircuitGraph) : CircuitGraph := ⟨g₁.nodes ++ g₂.nodes, g₁.edges ++ g₂.edges⟩

/-- Graphs with nothing in common, the first of which starts above the second. -/
structure Apart (g₁ g₂ : CircuitGraph) : Prop where
  ids_nodup : (g₁.ids ++ g₂.ids).Nodup
  ends_left : ∀ e ∈ g₁.edges, e.source ∉ g₂.ids ∧ e.target ∉ g₂.ids
  ends_right : ∀ e ∈ g₂.edges, e.source ∉ g₁.ids ∧ e.target ∉ g₁.ids
  isAbove : ∀ m ∈ g₁.sources, ∀ n ∈ g₂.sources, m.isAbove n

instance (g₁ g₂ : CircuitGraph) : Decidable (g₁.Apart g₂) :=
  decidable_of_iff (((g₁.ids ++ g₂.ids).Nodup ∧
      ∀ e ∈ g₁.edges, e.source ∉ g₂.ids ∧ e.target ∉ g₂.ids) ∧
    (∀ e ∈ g₂.edges, e.source ∉ g₁.ids ∧ e.target ∉ g₁.ids) ∧
      ∀ m ∈ g₁.sources, ∀ n ∈ g₂.sources, m.isAbove n)
    ⟨fun ⟨⟨h₁, h₂⟩, h₃, h₄⟩ => ⟨h₁, h₂, h₃, h₄⟩, fun h => ⟨⟨h.1, h.2⟩, h.3, h.4⟩⟩

variable {g₁ g₂ : CircuitGraph} {n : Node} {e : Edge} {id : NodeId}

/-! ## The two halves of the drawing -/

theorem ids_append (g₁ g₂ : CircuitGraph) : (g₁.append g₂).ids = g₁.ids ++ g₂.ids :=
  List.map_append

theorem wiresInto_append (g₁ g₂ : CircuitGraph) (id : NodeId) :
    (g₁.append g₂).wiresInto id = g₁.wiresInto id ++ g₂.wiresInto id :=
  List.filter_append ..

theorem wiresFrom_append (g₁ g₂ : CircuitGraph) (id : NodeId) :
    (g₁.append g₂).wiresFrom id = g₁.wiresFrom id ++ g₂.wiresFrom id :=
  List.filter_append ..

theorem sources_append (g₁ g₂ : CircuitGraph) :
    (g₁.append g₂).sources = g₁.sources ++ g₂.sources :=
  List.filter_append ..

theorem measurements_append (g₁ g₂ : CircuitGraph) :
    (g₁.append g₂).measurements = g₁.measurements ++ g₂.measurements :=
  List.filter_append ..

theorem operationNodes_append (g₁ g₂ : CircuitGraph) :
    (g₁.append g₂).operationNodes = g₁.operationNodes ++ g₂.operationNodes :=
  List.filter_append ..

/-- A node has the same junction in graphs in which the same wires meet it. -/
theorem junction_eq_junction {g g' : CircuitGraph}
    (hinto : g.wiresInto n.id = g'.wiresInto n.id) (hfrom : g.wiresFrom n.id = g'.wiresFrom n.id)
    (hjoins : ∀ e ∈ g'.edges, g.joins e = g'.joins e) : g.junction n = g'.junction n := by
  have hin : (g'.wiresInto n.id).filter g.joins = (g'.wiresInto n.id).filter g'.joins :=
    List.filter_congr fun e he => hjoins e (mem_wiresInto.1 he).1
  have hout : (g'.wiresFrom n.id).filter g.joins = (g'.wiresFrom n.id).filter g'.joins :=
    List.filter_congr fun e he => hjoins e (mem_wiresFrom.1 he).1
  unfold junction
  rw [hinto, hfrom, hin, hout]

theorem filter_end_eq_nil {es : List Edge} {ids : List NodeId} {f : Edge → NodeId}
    (hes : ∀ e ∈ es, f e ∉ ids) (hid : id ∈ ids) : es.filter (f · = id) = [] := by
  refine List.filter_eq_nil_iff.2 fun e he => ?_
  have hne : f e ≠ id := fun heq => hes e he (heq ▸ hid)
  simpa using hne

namespace Apart

variable (h : g₁.Apart g₂)
include h

theorem notMem_right (hid : id ∈ g₁.ids) : id ∉ g₂.ids := fun hid' =>
  List.disjoint_of_nodup_append h.ids_nodup hid hid'

theorem wiresInto_left (hid : id ∈ g₁.ids) : (g₁.append g₂).wiresInto id = g₁.wiresInto id := by
  have hnil : g₂.wiresInto id = [] := filter_end_eq_nil (fun e he => (h.ends_right e he).2) hid
  rw [wiresInto_append, hnil, List.append_nil]

theorem wiresFrom_left (hid : id ∈ g₁.ids) : (g₁.append g₂).wiresFrom id = g₁.wiresFrom id := by
  have hnil : g₂.wiresFrom id = [] := filter_end_eq_nil (fun e he => (h.ends_right e he).1) hid
  rw [wiresFrom_append, hnil, List.append_nil]

theorem wiresInto_right (hid : id ∈ g₂.ids) : (g₁.append g₂).wiresInto id = g₂.wiresInto id := by
  have hnil : g₁.wiresInto id = [] := filter_end_eq_nil (fun e he => (h.ends_left e he).2) hid
  rw [wiresInto_append, hnil, List.nil_append]

theorem wiresFrom_right (hid : id ∈ g₂.ids) : (g₁.append g₂).wiresFrom id = g₂.wiresFrom id := by
  have hnil : g₁.wiresFrom id = [] := filter_end_eq_nil (fun e he => (h.ends_left e he).1) hid
  rw [wiresFrom_append, hnil, List.nil_append]

theorem joins_left (he : e ∈ g₁.edges) : (g₁.append g₂).joins e = g₁.joins e := by
  have hends := h.ends_left e he
  simp [joins, ids_append, hends.1, hends.2]

theorem joins_right (he : e ∈ g₂.edges) : (g₁.append g₂).joins e = g₂.joins e := by
  have hends := h.ends_right e he
  simp [joins, ids_append, hends.1, hends.2]

theorem part_left :
    (Adjacency.build (g₁.append g₂)).Part (.build g₁) (fun id => decide (id ∈ g₁.ids)) := by
  have hfind (id : NodeId) (hid : id ∈ g₁.ids) :
      (Adjacency.build (g₁.append g₂)).find? id = (Adjacency.build g₁).find? id := by
    obtain ⟨n, hn⟩ := Option.isSome_iff_exists.1 (isSome_node?_iff.2 hid)
    have hn' : (g₁.append g₂).node? id = some n := List.find?_append.trans (by rw [← node?, hn]; rfl)
    have hnid : n.id ∈ g₁.ids := (mem_of_node? hn).2 ▸ hid
    rw [Adjacency.find?_build, Adjacency.find?_build, hn, hn']
    exact congrArg some (junction_eq_junction (h.wiresInto_left hnid) (h.wiresFrom_left hnid)
      fun e he => h.joins_left he)
  refine ⟨fun id hid => hfind id (of_decide_eq_true hid), fun id hid j hj e he => ?_⟩
  rw [hfind id (of_decide_eq_true hid), Adjacency.find?_build, Option.map_eq_some_iff] at hj
  obtain ⟨n, -, rfl⟩ := hj
  have hjoins := (List.mem_filter.1 (List.mem_mergeSort.1 he)).2
  simp only [joins, Bool.and_eq_true] at hjoins
  exact hjoins.2

theorem part_right :
    (Adjacency.build (g₁.append g₂)).Part (.build g₂) (fun id => !decide (id ∈ g₁.ids)) := by
  have hfind (id : NodeId) (hid : id ∉ g₁.ids) :
      (Adjacency.build (g₁.append g₂)).find? id = (Adjacency.build g₂).find? id := by
    have hnone : g₁.node? id = none := by
      rw [← Option.not_isSome_iff_eq_none, isSome_node?_iff]
      exact hid
    have hnode : (g₁.append g₂).node? id = g₂.node? id :=
      List.find?_append.trans (by rw [← node?, hnone]; rfl)
    rw [Adjacency.find?_build, Adjacency.find?_build, hnode]
    cases hn : g₂.node? id with
    | none => rfl
    | some n =>
      have hnid : n.id ∈ g₂.ids := mem_ids (mem_of_node? hn).1
      exact congrArg some (junction_eq_junction (h.wiresInto_right hnid) (h.wiresFrom_right hnid)
        fun e he => h.joins_right he)
  refine ⟨fun id hid => hfind id (by simpa using hid), fun id hid j hj e he => ?_⟩
  rw [hfind id (by simpa using hid), Adjacency.find?_build, Option.map_eq_some_iff] at hj
  obtain ⟨n, -, rfl⟩ := hj
  have hwire := (List.mem_filter.1 (List.mem_mergeSort.1 he)).1
  simpa using (h.ends_right e (mem_wiresFrom.1 hwire).1).2

/-! ## The start -/

theorem orderedSources_append :
    (g₁.append g₂).orderedSources = g₁.orderedSources ++ g₂.orderedSources := by
  have hsorted (g : CircuitGraph) : g.orderedSources.Pairwise (·.heightKey ≤ ·.heightKey) :=
    pairwise_mergeSort_key Node.heightKey Node.isAbove_iff g.sources
  have hperm : (g₁.append g₂).orderedSources.Perm (g₁.orderedSources ++ g₂.orderedSources) := by
    refine orderedSources_perm.trans ?_
    rw [sources_append]
    exact (orderedSources_perm.append orderedSources_perm).symm
  have hids : (g₁.append g₂).ids.Nodup := by
    rw [ids_append]
    exact h.ids_nodup
  refine hperm.eq_of_pairwise (fun m n hm hn hmn hnm => ?_) (hsorted _)
    (List.pairwise_append.2 ⟨hsorted _, hsorted _, fun m hm n hn => ?_⟩)
  · refine eq_of_id_eq hids (mem_orderedSources.1 hm).1
      (mem_orderedSources.1 (hperm.mem_iff.2 hn)).1 ?_
    exact Node.id_eq_of_heightKey_eq (le_antisymm hmn hnm)
  · exact (Node.isAbove_iff m n).1
      (h.isAbove m (orderedSources_perm.mem_iff.1 hm) n (orderedSources_perm.mem_iff.1 hn))

theorem start_append : Run.start (.build (g₁.append g₂)) =
    ⟨(Run.start (.build g₁)).queue ++
        (Run.start (.build g₂)).queue.map (.mapLines (· + g₁.sources.length)),
      (Run.start (.build g₂)).joined ++ (Run.start (.build g₁)).joined, fun _ => .none⟩ := by
  have hids : (g₁.append g₂).ids.Nodup := by
    rw [ids_append]
    exact h.ids_nodup
  obtain ⟨hids₁, hids₂, -⟩ := List.nodup_append.1 h.ids_nodup
  rw [Run.start_build hids, Run.start_build hids₁, Run.start_build hids₂, h.orderedSources_append,
    List.zipIdx_append, List.map_append, List.map_append, List.reverse_append,
    ← orderedSources_perm.length_eq]
  simp only [List.map_map]
  refine congrArg (Run.mk · _ _) (congrArg (List.append _) ?_)
  rw [Nat.zero_add, List.zipIdx_eq_map_add, List.map_map]
  exact List.map_congr_left fun p _ => by
    simp [Token.mapLines, Nat.add_comm]

theorem part_start_left : (Run.start (.build (g₁.append g₂))).part
    (fun id => decide (id ∈ g₁.ids)) = Run.start (.build g₁) := by
  obtain ⟨hids₁, -, -⟩ := List.nodup_append.1 h.ids_nodup
  have hleft := Run.Ledger.start g₁
  have hright := Run.Ledger.start g₂
  have hin : ∀ t ∈ (Run.start (.build g₁)).queue, decide (t.node.id ∈ g₁.ids) = true :=
    fun t ht => decide_eq_true (hleft.mem_ids_of_mem_queue ht)
  have hout : ∀ t ∈ (Run.start (.build g₂)).queue.map (Token.mapLines (· + g₁.sources.length)),
      ¬ decide (t.node.id ∈ g₁.ids) = true := by
    refine List.forall_mem_map.2 fun t ht hid => ?_
    have hid' : t.node.id ∈ g₂.ids := hright.mem_ids_of_mem_queue ht
    exact h.notMem_right (of_decide_eq_true hid) hid'
  have hjoined : ∀ id ∈ (Run.start (.build g₁)).joined, decide (id ∈ g₁.ids) = true :=
    fun id hid => decide_eq_true (hleft.mem_ids_of_mem_joined hid)
  have hjoined' : ∀ id ∈ (Run.start (.build g₂)).joined, ¬ decide (id ∈ g₁.ids) = true :=
    fun id hid hid' => h.notMem_right (of_decide_eq_true hid') (hright.mem_ids_of_mem_joined hid)
  rw [h.start_append]
  simp only [Run.part, List.filter_append, List.filter_eq_self.2 hin, List.filter_eq_nil_iff.2 hout,
    List.filter_eq_self.2 hjoined, List.filter_eq_nil_iff.2 hjoined', List.append_nil,
    List.nil_append, ite_self]
  rw [Run.start_build hids₁]

theorem part_start_right : (Run.start (.build (g₁.append g₂))).part
      (fun id => !decide (id ∈ g₁.ids)) =
    (Run.start (.build g₂)).mapLines (· + g₁.sources.length) := by
  obtain ⟨-, hids₂, -⟩ := List.nodup_append.1 h.ids_nodup
  have hleft := Run.Ledger.start g₁
  have hright := Run.Ledger.start g₂
  have hnot {id : NodeId} (hid : id ∈ g₂.ids) : (!decide (id ∈ g₁.ids)) = true := by
    simpa using fun hid' => h.notMem_right hid' hid
  have hout : ∀ t ∈ (Run.start (.build g₁)).queue, ¬ (!decide (t.node.id ∈ g₁.ids)) = true :=
    fun t ht => by simpa using hleft.mem_ids_of_mem_queue ht
  have hin : ∀ t ∈ (Run.start (.build g₂)).queue.map (Token.mapLines (· + g₁.sources.length)),
      (!decide (t.node.id ∈ g₁.ids)) = true := by
    refine List.forall_mem_map.2 fun t ht => ?_
    have hid : t.node.id ∈ g₂.ids := hright.mem_ids_of_mem_queue ht
    exact hnot hid
  have hjoined : ∀ id ∈ (Run.start (.build g₁)).joined, ¬ (!decide (id ∈ g₁.ids)) = true :=
    fun id hid => by simpa using hleft.mem_ids_of_mem_joined hid
  have hjoined' : ∀ id ∈ (Run.start (.build g₂)).joined, (!decide (id ∈ g₁.ids)) = true :=
    fun id hid => hnot (hright.mem_ids_of_mem_joined hid)
  rw [h.start_append]
  simp only [Run.part, List.filter_append, List.filter_eq_self.2 hin, List.filter_eq_nil_iff.2 hout,
    List.filter_eq_self.2 hjoined', List.filter_eq_nil_iff.2 hjoined, List.append_nil,
    List.nil_append, ite_self]
  rw [Run.start_build hids₂]
  rfl

/-! ## The schedule of the whole -/

/-- **The whole visits the first graph and then the second.** -/
theorem visits_append : (g₁.append g₂).visits =
    g₁.visits ++ g₂.visits.map (.mapLines (· + g₁.sources.length)) := by
  obtain ⟨hids₁, hids₂, -⟩ := List.nodup_append.1 h.ids_nodup
  have hcarries₁ := Run.carries_start g₁
  have hcarries₂ := Run.carries_start g₂
  have hmono : StrictMono (· + g₁.sources.length : Line → Line) :=
    fun _ _ hlt => Nat.add_lt_add_right hlt _
  unfold visits
  rw [Run.visits_eq_append (P := (· < g₁.sources.length)) h.part_left h.part_right
      (h.part_start_left.symm ▸ hcarries₁), h.part_start_left, h.part_start_right,
    Run.visits_mapLines hmono hcarries₂]
  intro u hu hid l hl
  rw [h.start_append] at hu
  rcases List.mem_append.1 hu with hu | hu
  · exact absurd ((Run.Ledger.start g₁).mem_ids_of_mem_queue hu) (by simpa using hid)
  · obtain ⟨t, ht, rfl⟩ := List.mem_map.1 hu
    rw [Token.priority_mapLines hmono (hcarries₂.lines_ne_nil ht)]
    exact Nat.lt_add_left _ hl

theorem ops_append : (schedule (.build (g₁.append g₂))).ops = (schedule (.build g₁)).ops ++
    (schedule (.build g₂)).ops.map (.mapLines (· + g₁.sources.length)) := by
  have hop : Token.op? ∘ Token.mapLines (· + g₁.sources.length) =
      fun t => t.op?.map (ScheduledOp.mapLines (· + g₁.sources.length)) :=
    funext (Token.op?_mapLines _)
  rw [ops_schedule, ops_schedule, ops_schedule, h.visits_append, List.filterMap_append,
    List.filterMap_map, hop, List.map_filterMap]

theorem ids_schedule_append : (schedule (.build (g₁.append g₂))).ids =
    (schedule (.build g₁)).ids ++ (schedule (.build g₂)).ids := by
  unfold Schedule.ids
  rw [h.ops_append, List.map_append, List.map_map]
  rfl

theorem mem_stalled_append : id ∈ (schedule (.build (g₁.append g₂))).stalled ↔
    id ∈ (schedule (.build g₁)).stalled ∨ id ∈ (schedule (.build g₂)).stalled := by
  simp only [mem_stalled_iff_notMem_ids, operationNodes_append, h.ids_schedule_append,
    List.mem_append, not_or]
  constructor
  · rintro ⟨⟨n, hn | hn, rfl⟩, hnew₁, hnew₂⟩
    · exact .inl ⟨⟨n, hn, rfl⟩, hnew₁⟩
    · exact .inr ⟨⟨n, hn, rfl⟩, hnew₂⟩
  · rintro (⟨⟨n, hn, rfl⟩, hnew⟩ | ⟨⟨n, hn, rfl⟩, hnew⟩)
    · have hid : n.id ∈ g₁.ids := mem_ids (mem_operationNodes.1 hn).1
      exact ⟨⟨n, .inl hn, rfl⟩, hnew, fun hmem =>
        h.notMem_right hid (mem_ids_of_mem_ids_schedule hmem)⟩
    · have hid : n.id ∈ g₂.ids := mem_ids (mem_operationNodes.1 hn).1
      exact ⟨⟨n, .inr hn, rfl⟩, fun hmem =>
        h.notMem_right (mem_ids_of_mem_ids_schedule hmem) hid, hnew⟩

theorem stalled_append : (schedule (.build (g₁.append g₂))).stalled =
    (schedule (.build g₁)).stalled.merge (schedule (.build g₂)).stalled (· ≤ ·) := by
  have hlt (g : CircuitGraph) : (schedule (.build g)).stalled.Pairwise (· < ·) :=
    pairwise_sortIds _
  have hle (g : CircuitGraph) : (schedule (.build g)).stalled.Pairwise (· ≤ ·) :=
    (hlt g).imp le_of_lt
  have hnodup (g : CircuitGraph) : (schedule (.build g)).stalled.Nodup :=
    (hlt g).imp ne_of_lt
  have hperm : (schedule (.build (g₁.append g₂))).stalled.Perm
      ((schedule (.build g₁)).stalled.merge (schedule (.build g₂)).stalled (· ≤ ·)) := by
    refine .trans ?_ (List.merge_perm_append _).symm
    refine (List.perm_ext_iff_of_nodup (hnodup _) ?_).2 fun id => ?_
    · refine (hnodup g₁).append (hnodup g₂) fun id hid₁ hid₂ => ?_
      obtain ⟨⟨n, hn, rfl⟩, -⟩ := mem_stalled_iff_notMem_ids.1 hid₁
      obtain ⟨⟨m, hm, hid⟩, -⟩ := mem_stalled_iff_notMem_ids.1 hid₂
      exact h.notMem_right (mem_ids (mem_operationNodes.1 hn).1)
        (hid ▸ mem_ids (mem_operationNodes.1 hm).1)
    · rw [h.mem_stalled_append, List.mem_append]
  refine hperm.eq_of_pairwise (fun _ _ _ _ hab hba => le_antisymm hab hba) (hle _) ?_
  have htrans (a b c : NodeId) (hab : decide (a ≤ b) = true) (hbc : decide (b ≤ c) = true) :
      decide (a ≤ c) = true :=
    decide_eq_true (le_trans (of_decide_eq_true hab) (of_decide_eq_true hbc))
  have htotal (a b : NodeId) : (decide (a ≤ b) || decide (b ≤ a)) = true := by
    simpa using le_total a b
  exact (List.pairwise_merge htrans htotal _ _ ((hle g₁).imp decide_eq_true)
    ((hle g₂).imp decide_eq_true)).imp of_decide_eq_true

/-! ## Well-formedness -/

theorem wellFormed_append (hg₁ : g₁.WellFormed) (hg₂ : g₂.WellFormed) :
    (g₁.append g₂).WellFormed where
  ids_nodup := by
    rw [ids_append]
    exact h.ids_nodup
  joined e he := by
    rcases List.mem_append.1 he with he | he
    · rw [h.joins_left he, hg₁.joined e he]
    · rw [h.joins_right he, hg₂.joined e he]
  sources_ne_nil := by
    rw [sources_append]
    exact List.append_ne_nil_of_left_ne_nil hg₁.sources_ne_nil _
  parity := by
    rw [sources_append, measurements_append, List.length_append, List.length_append, hg₁.parity,
      hg₂.parity]
  length_wiresInto n hn := by
    rcases List.mem_append.1 hn with hn | hn
    · rw [h.wiresInto_left (mem_ids hn), hg₁.length_wiresInto n hn]
    · rw [h.wiresInto_right (mem_ids hn), hg₂.length_wiresInto n hn]
  length_wiresFrom n hn := by
    rcases List.mem_append.1 hn with hn | hn
    · rw [h.wiresFrom_left (mem_ids hn), hg₁.length_wiresFrom n hn]
    · rw [h.wiresFrom_right (mem_ids hn), hg₂.length_wiresFrom n hn]
  countP_wiresInto n hn ht i hi := by
    rcases List.mem_append.1 hn with hn | hn
    · rw [h.wiresInto_left (mem_ids hn), hg₁.countP_wiresInto n hn ht i hi]
    · rw [h.wiresInto_right (mem_ids hn), hg₂.countP_wiresInto n hn ht i hi]
  countP_wiresFrom n hn ht i hi := by
    rcases List.mem_append.1 hn with hn | hn
    · rw [h.wiresFrom_left (mem_ids hn), hg₁.countP_wiresFrom n hn ht i hi]
    · rw [h.wiresFrom_right (mem_ids hn), hg₂.countP_wiresFrom n hn ht i hi]

end Apart

/-- A graph with a qubit is well formed, if its nodes have the wires that they have in a well-formed
graph. -/
theorem WellFormed.restrict {g g' : CircuitGraph} (hg : g.WellFormed) (hids : g'.ids.Nodup)
    (hnodes : ∀ n ∈ g'.nodes, n ∈ g.nodes)
    (hinto : ∀ n ∈ g'.nodes, g.wiresInto n.id = g'.wiresInto n.id)
    (hfrom : ∀ n ∈ g'.nodes, g.wiresFrom n.id = g'.wiresFrom n.id)
    (hjoined : ∀ e ∈ g'.edges, g'.joins e) (hsources : g'.sources ≠ []) : g'.WellFormed := by
  have hin : ∀ n ∈ g'.nodes, (g'.wiresInto n.id).length = n.kind.numInputs := fun n hn => by
    rw [← hinto n hn, hg.length_wiresInto n (hnodes n hn)]
  have hout : ∀ n ∈ g'.nodes, (g'.wiresFrom n.id).length = n.kind.numOutputs := fun n hn => by
    rw [← hfrom n hn, hg.length_wiresFrom n (hnodes n hn)]
  refine ⟨hids, hjoined, hsources, length_sources_eq_of_degrees hids hjoined hin hout, hin, hout,
    fun n hn ht i hi => ?_, fun n hn ht i hi => ?_⟩
  · rw [← hinto n hn, hg.countP_wiresInto n (hnodes n hn) ht i hi]
  · rw [← hfrom n hn, hg.countP_wiresFrom n (hnodes n hn) ht i hi]

namespace Apart

variable (h : g₁.Apart g₂) (hg : (g₁.append g₂).WellFormed)
include h hg

theorem wellFormed_left (hsources : g₁.sources ≠ []) : g₁.WellFormed :=
  hg.restrict (List.nodup_append.1 h.ids_nodup).1 (fun _ => List.mem_append_left _)
    (fun _ hn => h.wiresInto_left (mem_ids hn)) (fun _ hn => h.wiresFrom_left (mem_ids hn))
    (fun e he => h.joins_left he ▸ hg.joined e (List.mem_append_left _ he)) hsources

theorem wellFormed_right (hsources : g₂.sources ≠ []) : g₂.WellFormed :=
  hg.restrict (List.nodup_append.1 h.ids_nodup).2.1 (fun _ => List.mem_append_right _)
    (fun _ hn => h.wiresInto_right (mem_ids hn)) (fun _ hn => h.wiresFrom_right (mem_ids hn))
    (fun e he => h.joins_right he ▸ hg.joined e (List.mem_append_right _ he)) hsources

end Apart

end CircuitGraph

/-! ## Compilation -/

open CircuitGraph

/-- Where no gate and no measurement is stalled there is a qubit, or nothing at all. -/
theorem sources_ne_nil_of_stalled_eq_nil {g : CircuitGraph} (hne : g.nodes ≠ [])
    (hnil : (schedule (.build g)).stalled = []) : g.sources ≠ [] := by
  intro hsources
  obtain ⟨n, hn⟩ := List.exists_mem_of_ne_nil _ hne
  have hkind : n.kind.isSource = false := by
    simpa using List.filter_eq_nil_iff.1 hsources n hn
  have hop : n ∈ g.operationNodes :=
    mem_operationNodes.2 ⟨hn, NodeKind.isSome_operation?_iff.2 hkind⟩
  have hvisits : g.visits = [] := by
    refine Run.visits_of_queue_eq_nil ?_
    unfold Run.start orderedSources
    rw [Adjacency.graph_build, hsources, List.mergeSort_nil]
    rfl
  have hmem := (mem_ids_iff_of_stalled_eq_nil hnil).2 ⟨n, hop, rfl⟩
  rw [Schedule.ids, ops_schedule, hvisits] at hmem
  cases hmem

theorem exists_compile_eq_ok_iff {g : CircuitGraph} {mode : EndpointMode} :
    (∃ c, compile mode g = .ok c) ↔ g.Accepted ∧ (schedule (.build g)).stalled = [] := by
  unfold compile
  simp only [compileWith_eq_ok_iff]
  exact ⟨fun ⟨_, hv, hs, _⟩ => ⟨hv, hs⟩, fun ⟨hv, hs⟩ => ⟨_, hv, hs, rfl⟩⟩

theorem CircuitGraph.Apart.exists_compile_append_iff {g₁ g₂ : CircuitGraph} (h : g₁.Apart g₂)
    (hne₁ : g₁.nodes ≠ []) (hne₂ : g₂.nodes ≠ []) (mode : EndpointMode) :
    (∃ c, compile mode (g₁.append g₂) = .ok c) ↔
      (∃ c, compile mode g₁ = .ok c) ∧ ∃ c, compile mode g₂ = .ok c := by
  simp only [exists_compile_eq_ok_iff, accepted_iff_wellFormed, h.stalled_append]
  have hmerge : (schedule (.build g₁)).stalled.merge (schedule (.build g₂)).stalled (· ≤ ·) = [] ↔
      (schedule (.build g₁)).stalled = [] ∧ (schedule (.build g₂)).stalled = [] := by
    rw [← List.append_eq_nil_iff, ← List.length_eq_zero_iff, ← List.length_eq_zero_iff,
      (List.merge_perm_append _).length_eq]
  rw [hmerge]
  constructor
  · rintro ⟨hg, hnil₁, hnil₂⟩
    exact ⟨⟨h.wellFormed_left hg (sources_ne_nil_of_stalled_eq_nil hne₁ hnil₁), hnil₁⟩,
      ⟨h.wellFormed_right hg (sources_ne_nil_of_stalled_eq_nil hne₂ hnil₂), hnil₂⟩⟩
  · rintro ⟨⟨hg₁, hnil₁⟩, hg₂, hnil₂⟩
    exact ⟨h.wellFormed_append hg₁ hg₂, hnil₁, hnil₂⟩

/-- However two graphs with nothing in common are wired, and in whatever order their nodes and wires
are collected, they are scheduled one after the other, and what is stalled in one of them is stalled
in the whole.  If each has a node, the whole compiles exactly when both do. -/
theorem schedule_of_apart {g g₁ g₂ : CircuitGraph} (h : g₁.Apart g₂)
    (hnodes : g.nodes.Perm (g₁.nodes ++ g₂.nodes)) (hedges : g.edges.Perm (g₁.edges ++ g₂.edges)) :
    (schedule (.build g)).ops = (schedule (.build g₁)).ops ++
        (schedule (.build g₂)).ops.map (.mapLines (· + g₁.sources.length)) ∧
      (schedule (.build g)).stalled =
        (schedule (.build g₁)).stalled.merge (schedule (.build g₂)).stalled (· ≤ ·) ∧
      (g₁.Accepted → g₂.Accepted → g.Accepted) ∧
      ∀ mode, ((∃ c, compile mode g₁ = .ok c) → (∃ c, compile mode g₂ = .ok c) →
          ∃ c, compile mode g = .ok c) ∧
        (g₁.nodes ≠ [] → g₂.nodes ≠ [] → ((∃ c, compile mode g = .ok c) ↔
          (∃ c, compile mode g₁ = .ok c) ∧ ∃ c, compile mode g₂ = .ok c)) := by
  have hids : (g₁.append g₂).ids.Nodup := by
    rw [ids_append]
    exact h.ids_nodup
  have hschedule : schedule (.build g) = schedule (.build (g₁.append g₂)) :=
    (schedule_eq_of_perm hids hnodes.symm hedges.symm).symm
  have hcompile (mode : EndpointMode) : compile mode g = compile mode (g₁.append g₂) :=
    (compileWith_eq_of_perm hids hnodes.symm hedges.symm Rule.standard mode).symm
  have hboth (hg₁ : g₁.Accepted) (hg₂ : g₂.Accepted) : (g₁.append g₂).Accepted :=
    accepted_iff_wellFormed.2
      (h.wellFormed_append (accepted_iff_wellFormed.1 hg₁) (accepted_iff_wellFormed.1 hg₂))
  refine ⟨?_, ?_, fun hg₁ hg₂ => ?_, fun mode => ⟨fun hc₁ hc₂ => ?_, fun hne₁ hne₂ => ?_⟩⟩
  · rw [hschedule, h.ops_append]
  · rw [hschedule, h.stalled_append]
  · unfold Accepted
    rw [← firstViolation?_eq_of_perm hids hnodes.symm hedges.symm]
    exact hboth hg₁ hg₂
  · obtain ⟨hg₁, hnil₁⟩ := exists_compile_eq_ok_iff.1 hc₁
    obtain ⟨hg₂, hnil₂⟩ := exists_compile_eq_ok_iff.1 hc₂
    rw [hcompile, exists_compile_eq_ok_iff, h.stalled_append, hnil₁, hnil₂]
    exact ⟨hboth hg₁ hg₂, by simp⟩
  · rw [hcompile, h.exists_compile_append_iff hne₁ hne₂]

/-- A measured qubit, a measurement that nothing leads to and a wire that leads nowhere. -/
def upperGraph : CircuitGraph :=
  ⟨[.atHeight "a" (.qubitSource .zero) .zero, .atHeight "ha" (.singleGate .hadamard) .zero,
      .atHeight "ma" .measurement .zero, .atHeight "na" .measurement .zero],
    [.plain "a" "ha", .plain "ha" "ma", .plain "ha" "ghost"]⟩

/-- A qubit that waits for a second one before a gate. -/
def lowerGraph : CircuitGraph :=
  ⟨[.atHeight "b" (.qubitSource .one) .zero, .atHeight "hb" (.singleGate .hadamard) .zero,
      .atHeight "cb" (.twoGate .cnot) .zero],
    [.plain "b" "hb", ⟨none, "hb", "cb", none, some .input1⟩]⟩

/-- Both drawings, their nodes and wires collected in turn. -/
def mixedGraph : CircuitGraph :=
  ⟨[.atHeight "b" (.qubitSource .one) .zero, .atHeight "a" (.qubitSource .zero) .zero,
      .atHeight "ha" (.singleGate .hadamard) .zero, .atHeight "hb" (.singleGate .hadamard) .zero,
      .atHeight "cb" (.twoGate .cnot) .zero, .atHeight "ma" .measurement .zero,
      .atHeight "na" .measurement .zero],
    [⟨none, "hb", "cb", none, some .input1⟩, .plain "a" "ha", .plain "b" "hb", .plain "ha" "ma",
      .plain "ha" "ghost"]⟩

/-- They are scheduled one after the other. -/
theorem schedule_mixedGraph : upperGraph.Apart lowerGraph ∧
    (schedule (.build mixedGraph)).ops = [⟨"ha", .single .hadamard, [0]⟩, ⟨"ma", .measurement, [0]⟩,
      ⟨"hb", .single .hadamard, [1]⟩] ∧
    (schedule (.build mixedGraph)).stalled = ["cb", "na"] := by
  have hapart : upperGraph.Apart lowerGraph := by decide
  obtain ⟨hops, hstalled, -⟩ := schedule_of_apart (g := mixedGraph) hapart (by decide) (by decide)
  refine ⟨hapart, ?_, ?_⟩
  · rw [hops]
    cbv
  · rw [hstalled]
    cbv

/-- A qubit that is measured. -/
def measuredGraph : CircuitGraph :=
  ⟨[.atHeight "q" (.qubitSource .zero) .zero, .atHeight "m" .measurement .zero], [.plain "q" "m"]⟩

/-- Beside nothing at all it compiles, and nothing at all does not. -/
theorem compile_append_empty : measuredGraph.Apart .empty ∧
    (∃ c, compile .circuit (measuredGraph.append .empty) = .ok c) ∧
    (∃ c, compile .circuit measuredGraph = .ok c) ∧
    ¬ ∃ c, compile .circuit .empty = .ok c := by
  have hempty : compile .circuit .empty = .error (.structural .noQubits) := by cbv
  refine ⟨by decide, ⟨⟨.circuit, [⟨0, "q", .zero⟩], [⟨.measurement, [0]⟩]⟩, by cbv⟩,
    ⟨⟨.circuit, [⟨0, "q", .zero⟩], [⟨.measurement, [0]⟩]⟩, by cbv⟩, ?_⟩
  rintro ⟨c, hc⟩
  rw [hempty] at hc
  cases hc

end QuantumWiring

import QuantumWiring.Proofs.Graph.Order

/-!
# Nodes that share an id

Where ids repeat, the first node with an id takes all of its wires and its namesakes get none
(`Adjacency.filter_junctions_build`).  An id is noted as a duplicate as often as it comes again, in
whatever order nodes are collected (`repeatedIds_perm`).  The rules meet the junctions in the order
of ids and, since the sort is stable, those of one id in collection order (`filter_mergeSort`): what
they meet is determined by the namesakes of each id (`mergeSort_eq_of_filter_eq`).
-/

namespace QuantumWiring

/-! ## Stable sorting -/

section Sorting

variable {α κ : Type} [LinearOrder κ] (key : α → κ) {le : α → α → Bool} {l l' : List α}

/-- Elements with one key stay in their order when a list is sorted. -/
theorem filter_mergeSort (hle : ∀ a b, le a b ↔ key a ≤ key b) (l : List α) (k : κ) :
    (l.mergeSort le).filter (key · = k) = l.filter (key · = k) := by
  have hties : (l.filter (key · = k)).Pairwise (le · ·) := by
    apply List.pairwise_of_forall_mem_list
    intro a ha b hb
    have ha : key a = k := by simpa using (List.mem_filter.1 ha).2
    have hb : key b = k := by simpa using (List.mem_filter.1 hb).2
    exact (hle a b).2 (by rw [ha, hb])
  have hsub : (l.filter (key · = k)).Sublist (l.mergeSort le) :=
    List.sublist_mergeSort (trans_of_key key hle) (total_of_key key hle) hties List.filter_sublist
  have hsub := hsub.filter (key · = k)
  simp only [List.filter_filter, Bool.and_self] at hsub
  exact (hsub.eq_of_length ((List.mergeSort_perm l le).filter _).length_eq.symm).symm

/-- Sorting by a key keeps what holds along the list, among the elements with one key. -/
theorem pairwise_mergeSort_stable (hle : ∀ a b, le a b ↔ key a ≤ key b) {R : α → α → Prop}
    (hl : l.Pairwise R) :
    (l.mergeSort le).Pairwise fun a b => key a < key b ∨ key a = key b ∧ R a b := by
  have hsorted := pairwise_mergeSort_key key hle l
  rw [List.pairwise_iff_forall_sublist] at hl hsorted ⊢
  intro a b hab
  rcases (hsorted hab).lt_or_eq with hlt | heq
  · exact .inl hlt
  · have hpair : [a, b].filter (key · = key a) = [a, b] := by simp [heq]
    have hsub := hab.filter (key · = key a)
    rw [hpair, filter_mergeSort key hle] at hsub
    exact .inr ⟨heq, hl (hsub.trans List.filter_sublist)⟩

theorem mem_iff_of_filter_key_eq (h : ∀ k, l.filter (key · = k) = l'.filter (key · = k)) (a : α) :
    a ∈ l ↔ a ∈ l' := by
  have hself (l : List α) : a ∈ l ↔ a ∈ l.filter (key · = key a) := by simp
  rw [hself l, hself l', h]

/-- A sorted list is determined by its elements of each key. -/
theorem eq_of_filter_key_eq (hl : l.Pairwise (key · ≤ key ·)) (hl' : l'.Pairwise (key · ≤ key ·))
    (h : ∀ k, l.filter (key · = k) = l'.filter (key · = k)) : l = l' := by
  have hmem := mem_iff_of_filter_key_eq key h
  induction l generalizing l' with
  | nil =>
    cases l' with
    | nil => rfl
    | cons b l' => exact absurd ((hmem b).2 List.mem_cons_self) List.not_mem_nil
  | cons a l ih =>
    cases l' with
    | nil => exact absurd ((hmem a).1 List.mem_cons_self) List.not_mem_nil
    | cons b l' =>
      obtain ⟨hal, hrest⟩ := List.pairwise_cons.1 hl
      obtain ⟨hbl, hrest'⟩ := List.pairwise_cons.1 hl'
      -- both heads have the least key, and the first element with that key is the same
      have hab : key a ≤ key b := by
        rcases List.mem_cons.1 ((hmem b).2 List.mem_cons_self) with heq | hb
        · rw [heq]
        · exact hal b hb
      have hba : key b ≤ key a := by
        rcases List.mem_cons.1 ((hmem a).1 List.mem_cons_self) with heq | ha
        · rw [heq]
        · exact hbl a ha
      have hkey : key b = key a := le_antisymm hba hab
      have hhead := h (key a)
      rw [List.filter_cons_of_pos (by simp), List.filter_cons_of_pos (by simpa using hkey)] at hhead
      obtain ⟨rfl, -⟩ := List.cons.inj hhead
      have htail (k : κ) : l.filter (key · = k) = l'.filter (key · = k) := by
        have hk := h k
        rw [List.filter_cons, List.filter_cons] at hk
        split at hk
        · exact (List.cons.inj hk).2
        · exact hk
      rw [ih hrest hrest' htail (mem_iff_of_filter_key_eq key htail)]

theorem mergeSort_eq_of_filter_eq (hle : ∀ a b, le a b ↔ key a ≤ key b)
    (h : ∀ k, l.filter (key · = k) = l'.filter (key · = k)) : l.mergeSort le = l'.mergeSort le := by
  apply eq_of_filter_key_eq key (pairwise_mergeSort_key key hle l)
    (pairwise_mergeSort_key key hle l')
  intro k
  rw [filter_mergeSort key hle, filter_mergeSort key hle, h]

end Sorting

/-! ## The junctions of namesakes -/

/-- The nodes with an id, in collection order. -/
def CircuitGraph.namesakes (g : CircuitGraph) (id : NodeId) : List Node := g.nodes.filter (·.id = id)

theorem CircuitGraph.node?_eq_head? (g : CircuitGraph) (id : NodeId) :
    g.node? id = (g.namesakes id).head? :=
  (List.head?_filter ..).symm

/-- A junction with its leaving wires in the order in which they are followed. -/
def Junction.sortLeaving (j : Junction) : Junction :=
  { j with outgoing := j.outgoing.mergeSort Edge.leavesFirst }

theorem Junction.sortLeaving_comp_bare : sortLeaving ∘ bare = bare := by
  funext n
  simp [sortLeaving, bare]

theorem filter_updateFirst {id id' : NodeId} {f : Junction → Junction}
    (hf : ∀ j, (f j).node = j.node) (js : List Junction) :
    (updateFirst id f js).filter (·.node.id = id') =
      if id = id' then (js.filter (·.node.id = id')).modifyHead f
      else js.filter (·.node.id = id') := by
  induction js with
  | nil => simp [updateFirst]
  | cons j js ih =>
    unfold updateFirst
    by_cases hj : j.node.id = id
    · by_cases hid : id = id' <;> simp [hj, hid, hf]
    · rw [if_neg hj, List.filter_cons, List.filter_cons, ih]
      by_cases hid : j.node.id = id'
      · have hne : id ≠ id' := fun h => hj (hid.trans h.symm)
        simp [hid, hne]
      · simp [hid]

namespace Adjacency

/-- Only the first junction of an id is ever changed. -/
theorem tail_filter_update (a : Adjacency) (id id' : NodeId) {f : Junction → Junction}
    (hf : ∀ j, (f j).node = j.node) :
    ((a.update id f).junctions.filter (·.node.id = id')).tail =
      (a.junctions.filter (·.node.id = id')).tail := by
  show ((updateFirst id f a.junctions).filter _).tail = _
  rw [filter_updateFirst hf]
  split
  · exact List.tail_modifyHead
  · rfl

theorem tail_filter_attach (a : Adjacency) (e : Edge) (id : NodeId) :
    ((a.attach e).junctions.filter (·.node.id = id)).tail =
      (a.junctions.filter (·.node.id = id)).tail := by
  unfold attach
  split
  · rw [tail_filter_update _ _ _ (Junction.node_enter e),
      tail_filter_update _ _ _ (Junction.node_leave e),
      tail_filter_update _ _ _ Junction.node_countIn,
      tail_filter_update _ _ _ Junction.node_countOut]
  · show ((((a.update e.source .countOut).update e.target .countIn).junctions.filter _).tail) = _
    rw [tail_filter_update _ _ _ Junction.node_countIn,
      tail_filter_update _ _ _ Junction.node_countOut]

theorem tail_filter_foldl_attach (a : Adjacency) (es : List Edge) (id : NodeId) :
    ((es.foldl attach a).junctions.filter (·.node.id = id)).tail =
      (a.junctions.filter (·.node.id = id)).tail := by
  induction es generalizing a with
  | nil => rfl
  | cons e es ih => rw [List.foldl_cons, ih, tail_filter_attach]

/-- **The first node with an id has all of its wires,** and its namesakes have none. -/
theorem filter_junctions_build (g : CircuitGraph) (id : NodeId) :
    (build g).junctions.filter (·.node.id = id) =
      ((g.namesakes id).head?.map g.junction).toList ++ (g.namesakes id).tail.map .bare := by
  have hhead : ((build g).junctions.filter (·.node.id = id)).head? =
      (g.namesakes id).head?.map g.junction := by
    rw [List.head?_filter, ← CircuitGraph.node?_eq_head?, ← find?_build]
    rfl
  have htail : ((build g).junctions.filter (·.node.id = id)).tail =
      (g.namesakes id).tail.map .bare := by
    calc ((build g).junctions.filter (·.node.id = id)).tail
        = (((g.edges.foldl attach (ofNodes g)).junctions.map Junction.sortLeaving).filter
            (·.node.id = id)).tail := rfl
      _ = ((g.edges.foldl attach (ofNodes g)).junctions.filter (·.node.id = id)).tail.map
            Junction.sortLeaving := by
          rw [List.filter_map, List.map_tail]
          rfl
      _ = ((g.nodes.map Junction.bare).filter (·.node.id = id)).tail.map
            Junction.sortLeaving := by
          rw [tail_filter_foldl_attach]
          rfl
      _ = (g.namesakes id).tail.map .bare := by
          rw [List.filter_map, ← List.map_tail, List.map_map, Junction.sortLeaving_comp_bare]
          rfl
  rw [← hhead, ← htail]
  cases (build g).junctions.filter (·.node.id = id) <;> rfl

end Adjacency

/-! ## Repeated ids -/

theorem Adjacency.duplicates_build (g : CircuitGraph) :
    (build g).duplicates = repeatedIds [] g.nodes :=
  (holds_attached g).duplicates

/-- An id is noted as often as it comes again. -/
theorem count_repeatedIds (id : NodeId) (seen : List NodeId) (ns : List Node) :
    (repeatedIds seen ns).count id =
      (ns.map (·.id)).count id - if id ∈ seen then 0 else 1 := by
  induction ns generalizing seen with
  | nil => simp [repeatedIds]
  | cons n ns ih =>
    unfold repeatedIds
    rw [List.map_cons, List.count_cons]
    by_cases hn : n.id ∈ seen
    · rw [if_pos hn, List.count_cons, ih]
      by_cases hid : n.id = id
      · have hseen : id ∈ seen := hid ▸ hn
        simp [hid, hseen]
      · simp [hid]
    · rw [if_neg hn, ih]
      by_cases hid : n.id = id
      · have hseen : id ∉ seen := hid ▸ hn
        simp [hid, hseen]
      · have hne : id ≠ n.id := fun h => hid h.symm
        simp [hid, hne]

theorem repeatedIds_perm {ns ns' : List Node} (h : ns.Perm ns') :
    (repeatedIds [] ns).Perm (repeatedIds [] ns') := by
  rw [List.perm_iff_count]
  intro id
  rw [count_repeatedIds, count_repeatedIds, (h.map _).count_eq]

/-- No node has a namesake whose order could matter where ids are distinct. -/
theorem CircuitGraph.namesakes_eq_of_nodup {g g' : CircuitGraph} (hnodes : g.nodes.Perm g'.nodes)
    (hids : g.ids.Nodup) (id : NodeId) :
    g.namesakes id = g'.namesakes id := by
  have hperm : (g.namesakes id).Perm (g'.namesakes id) := hnodes.filter _
  cases hn : g.namesakes id with
  | nil =>
    rw [hn] at hperm
    exact hperm.nil_eq
  | cons n ns =>
    have hids : ((g.namesakes id).map (·.id)).Nodup := hids.sublist (List.filter_sublist.map _)
    have hid : ∀ m ∈ g.namesakes id, m.id = id := by
      intro m hm
      simpa using (List.mem_filter.1 hm).2
    rw [hn] at hids hid hperm
    cases ns with
    | nil => exact (List.perm_singleton.1 hperm.symm).symm
    | cons m ns =>
      have hne : n.id ≠ m.id := by
        intro heq
        exact (List.nodup_cons.1 hids).1 (List.mem_map.2 ⟨m, List.mem_cons_self, heq.symm⟩)
      exact absurd ((hid n (by simp)).trans (hid m (by simp)).symm) hne

end QuantumWiring

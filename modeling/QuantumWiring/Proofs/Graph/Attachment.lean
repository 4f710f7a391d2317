import QuantumWiring.Proofs.Graph.Namesakes
import Mathlib.Data.List.Perm.Basic

/-!
# Every wire at both of its ends

`Attaches` says how an adjacency holds a graph.  A wire with both ends leaves one junction and
enters one, those of the nodes that its ends name, and any other wire is dangling; so nothing is
lost and nothing is doubled, and the degrees are what the wires and the dangling ones make up.  An id
belongs to the first node that carries it, and a later one has no wires and is noted as a duplicate.

A wire that is attached changes one junction at either end (`Holds.leaving_attach`,
`Holds.entering_attach`); what the junction at a place has in the end depends on whether its node is
the first with its id (`eq_junction_of_isFirst`, `eq_bare_of_not_isFirst`).
-/

namespace QuantumWiring

/-- No node before the place `i` has the id of `n`. -/
def CircuitGraph.IsFirst (g : CircuitGraph) (i : Nat) (n : Node) : Prop := n.id ∉ g.ids.take i

/-! ## Attaching a wire -/

namespace Junction

@[simp] theorem outgoing_countIn (j : Junction) : j.countIn.outgoing = j.outgoing := rfl

@[simp] theorem outgoing_countOut (j : Junction) : j.countOut.outgoing = j.outgoing := rfl

@[simp] theorem outgoing_enter (e : Edge) (j : Junction) : (j.enter e).outgoing = j.outgoing := rfl

@[simp] theorem outgoing_leave (e : Edge) (j : Junction) :
    (j.leave e).outgoing = j.outgoing ++ [e] := rfl

@[simp] theorem incoming_countIn (j : Junction) : j.countIn.incoming = j.incoming := rfl

@[simp] theorem incoming_countOut (j : Junction) : j.countOut.incoming = j.incoming := rfl

@[simp] theorem incoming_enter (e : Edge) (j : Junction) :
    (j.enter e).incoming = j.incoming ++ [e] := rfl

@[simp] theorem incoming_leave (e : Edge) (j : Junction) : (j.leave e).incoming = j.incoming := rfl

end Junction

namespace Adjacency

section Update

variable {side : Junction → List Edge} {id : NodeId} {f : Junction → Junction}

theorem flatMap_update_of_eq (a : Adjacency) (id : NodeId) (hf : ∀ j, side (f j) = side j) :
    (a.update id f).junctions.flatMap side = a.junctions.flatMap side := by
  show (updateFirst id f a.junctions).flatMap side = _
  induction a.junctions with
  | nil => rfl
  | cons j js ih =>
    unfold updateFirst
    split <;> simp [hf, ih]

theorem flatMap_update_perm (a : Adjacency) {e : Edge} (hf : ∀ j, side (f j) = side j ++ [e])
    (h : (a.find? id).isSome) :
    ((a.update id f).junctions.flatMap side).Perm (e :: a.junctions.flatMap side) := by
  show ((updateFirst id f a.junctions).flatMap side).Perm _
  unfold find? at h
  generalize a.junctions = js at h ⊢
  induction js with
  | nil => cases h
  | cons j js ih =>
    unfold updateFirst
    split
    · rw [List.flatMap_cons, List.flatMap_cons, hf, List.append_assoc]
      exact List.perm_middle
    · next hj =>
      rw [List.find?_cons_of_neg (by simpa using hj)] at h
      rw [List.flatMap_cons, List.flatMap_cons]
      exact ((ih h).append_left _).trans List.perm_middle

theorem isSome_find?_update (a : Adjacency) {id' : NodeId} (hf : ∀ j, (f j).node = j.node) :
    ((a.update id f).find? id').isSome = (a.find? id').isSome := by
  rw [find?_update a id id' hf]
  split <;> simp

/-- The ends of a wire are counted before the wire is attached. -/
theorem flatMap_counted (a : Adjacency) (e : Edge) (hin : ∀ j, side j.countIn = side j)
    (hout : ∀ j, side j.countOut = side j) :
    ((a.update e.source .countOut).update e.target .countIn).junctions.flatMap side =
      a.junctions.flatMap side := by
  rw [flatMap_update_of_eq _ _ hin, flatMap_update_of_eq _ _ hout]

theorem isSome_find?_counted (a : Adjacency) (e : Edge) :
    (((a.update e.source .countOut).update e.target .countIn).find? id).isSome =
      (a.find? id).isSome := by
  rw [isSome_find?_update _ Junction.node_countIn, isSome_find?_update _ Junction.node_countOut]

end Update

namespace Holds

variable {g : CircuitGraph} {es : List Edge} {a : Adjacency}

theorem joins_iff (h : Holds g es a) (e : Edge) :
    (a.find? e.source).isSome ∧ (a.find? e.target).isSome ↔ g.joins e := by
  rw [h.isSome_find?_iff, h.isSome_find?_iff]
  simp [CircuitGraph.joins]

/-- A wire with both ends leaves one junction, any other wire none. -/
theorem leaving_attach (h : Holds g es a) (e : Edge) :
    ((a.attach e).junctions.flatMap Junction.outgoing).Perm
      ([e].filter g.joins ++ a.junctions.flatMap Junction.outgoing) := by
  have hcounted := flatMap_counted a e Junction.outgoing_countIn Junction.outgoing_countOut
  unfold Adjacency.attach
  by_cases hj : g.joins e
  · have hends := (h.joins_iff e).2 hj
    rw [if_pos hends, flatMap_update_of_eq _ _ (Junction.outgoing_enter e),
      List.filter_cons_of_pos hj, ← hcounted]
    refine flatMap_update_perm _ (Junction.outgoing_leave e) ?_
    rw [isSome_find?_counted]
    exact hends.1
  · rw [if_neg fun hends => hj ((h.joins_iff e).1 hends), List.filter_cons_of_neg hj]
    exact .of_eq hcounted

/-- A wire with both ends enters one junction, any other wire none. -/
theorem entering_attach (h : Holds g es a) (e : Edge) :
    ((a.attach e).junctions.flatMap Junction.incoming).Perm
      ([e].filter g.joins ++ a.junctions.flatMap Junction.incoming) := by
  have hcounted := flatMap_counted a e Junction.incoming_countIn Junction.incoming_countOut
  unfold Adjacency.attach
  by_cases hj : g.joins e
  · have hends := (h.joins_iff e).2 hj
    have hleft := (flatMap_update_of_eq ((a.update e.source .countOut).update e.target .countIn)
      e.source (Junction.incoming_leave e)).trans hcounted
    rw [if_pos hends, List.filter_cons_of_pos hj, ← hleft]
    refine flatMap_update_perm _ (Junction.incoming_enter e) ?_
    rw [isSome_find?_update _ (Junction.node_leave e), isSome_find?_counted]
    exact hends.2
  · rw [if_neg fun hends => hj ((h.joins_iff e).1 hends), List.filter_cons_of_neg hj]
    exact .of_eq hcounted

/-- What one wire does to a side of the junctions, many do. -/
theorem flatMap_foldl_attach {side : Junction → List Edge}
    (hside : ∀ {es a}, Holds g es a → ∀ e, ((a.attach e).junctions.flatMap side).Perm
      ([e].filter g.joins ++ a.junctions.flatMap side))
    (h : Holds g es a) (rest : List Edge) :
    ((rest.foldl Adjacency.attach a).junctions.flatMap side).Perm
      (rest.filter g.joins ++ a.junctions.flatMap side) := by
  induction rest generalizing es a with
  | nil => exact .refl _
  | cons e rest ih =>
    rw [← List.singleton_append, List.filter_append, List.append_assoc]
    refine (ih (h.attach e)).trans ?_
    exact ((hside h e).append_left _).trans (List.perm_append_comm_assoc ..)

end Holds

variable {g : CircuitGraph}

/-- The wires with both ends leave junctions, each once. -/
theorem leaving_build (g : CircuitGraph) :
    ((build g).junctions.flatMap Junction.outgoing).Perm (g.edges.filter g.joins) := by
  have hattached := (Holds.ofNodes g).flatMap_foldl_attach (fun h e => h.leaving_attach e) g.edges
  have hbare : (ofNodes g).junctions.flatMap Junction.outgoing = [] := by
    simp [ofNodes, Junction.bare]
  rw [hbare, List.append_nil] at hattached
  refine .trans ?_ hattached
  show (((g.edges.foldl attach (ofNodes g)).junctions.map Junction.sortLeaving).flatMap
    Junction.outgoing).Perm _
  rw [List.flatMap_map]
  exact .flatMap_left _ fun j _ => List.mergeSort_perm ..

/-- The wires with both ends enter junctions, each once. -/
theorem entering_build (g : CircuitGraph) :
    ((build g).junctions.flatMap Junction.incoming).Perm (g.edges.filter g.joins) := by
  have hattached := (Holds.ofNodes g).flatMap_foldl_attach (fun h e => h.entering_attach e) g.edges
  have hbare : (ofNodes g).junctions.flatMap Junction.incoming = [] := by
    simp [ofNodes, Junction.bare]
  rw [hbare, List.append_nil] at hattached
  refine .trans (.of_eq ?_) hattached
  show ((g.edges.foldl attach (ofNodes g)).junctions.map Junction.sortLeaving).flatMap
    Junction.incoming = _
  rw [List.flatMap_map]
  rfl

/-! ## The junction at a place -/

variable {i : Nat} {j : Junction}

theorem map_node_id_build (g : CircuitGraph) : (build g).junctions.map (·.node.id) = g.ids := by
  rw [CircuitGraph.ids, ← map_node_build g, List.map_map]
  rfl

theorem find?_eq_of_isFirst (hj : (build g).junctions[i]? = some j) (hfirst : g.IsFirst i j.node) :
    (build g).find? j.node.id = some j := by
  obtain ⟨hlt, rfl⟩ := List.getElem?_eq_some_iff.1 hj
  refine List.find?_eq_some_iff_append.2 ⟨by simp, (build g).junctions.take i,
    (build g).junctions.drop (i + 1), ?_, ?_⟩
  · rw [← List.drop_eq_getElem_cons hlt, List.take_append_drop]
  · intro k hk
    have hmem : k.node.id ∈ g.ids.take i := by
      rw [← map_node_id_build, ← List.map_take]
      exact List.mem_map_of_mem hk
    have hne : k.node.id ≠ (build g).junctions[i].node.id := fun heq => hfirst (heq ▸ hmem)
    simpa using hne

/-- **The first node with an id has all of its wires.** -/
theorem eq_junction_of_isFirst (hj : (build g).junctions[i]? = some j)
    (hfirst : g.IsFirst i j.node) : j = g.junction j.node := by
  have hfind := find?_eq_of_isFirst hj hfirst
  rw [find?_build, Option.map_eq_some_iff] at hfind
  obtain ⟨n, -, rfl⟩ := hfind
  rfl

/-- A later node with the same id has none. -/
theorem eq_bare_of_not_isFirst (hj : (build g).junctions[i]? = some j)
    (hlater : ¬ g.IsFirst i j.node) : j = .bare j.node := by
  obtain ⟨hlt, hget⟩ := List.getElem?_eq_some_iff.1 hj
  have hsplit : (build g).junctions =
      (build g).junctions.take i ++ j :: (build g).junctions.drop (i + 1) := by
    rw [← hget, ← List.drop_eq_getElem_cons hlt, List.take_append_drop]
  obtain ⟨k, hk, hid⟩ : ∃ k ∈ (build g).junctions.take i, k.node.id = j.node.id := by
    rw [CircuitGraph.IsFirst, not_not, ← map_node_id_build, ← List.map_take] at hlater
    exact List.mem_map.1 hlater
  -- so it is not at the head of the junctions with its id
  have hk : k ∈ ((build g).junctions.take i).filter (·.node.id = j.node.id) :=
    List.mem_filter.2 ⟨hk, decide_eq_true hid⟩
  have hfilter := filter_junctions_build g j.node.id
  rw [hsplit, List.filter_append, List.filter_cons_of_pos (by simp)] at hfilter
  obtain ⟨k', ks, hks⟩ := List.exists_cons_of_ne_nil (List.ne_nil_of_mem hk)
  rw [hks, List.cons_append] at hfilter
  cases hns : g.namesakes j.node.id with
  | nil =>
    rw [hns] at hfilter
    cases hfilter
  | cons n ns =>
    rw [hns] at hfilter
    have htail : ks ++ j :: _ = ns.map Junction.bare := (List.cons.inj hfilter).2
    have hmem : j ∈ ns.map Junction.bare := htail ▸ List.mem_append_right _ List.mem_cons_self
    obtain ⟨n', -, rfl⟩ := List.mem_map.1 hmem
    rfl

/-! ## Places -/

theorem index?_build (g : CircuitGraph) (id : NodeId) :
    (build g).index? id = g.nodes.findIdx? (·.id = id) := by
  rw [← map_node_build g, List.findIdx?_map]
  rfl

/-- The place of an id is that of the first node with the id. -/
theorem index?_eq_some_iff {id : NodeId} :
    (build g).index? id = some i ↔ ∃ n, g.nodes[i]? = some n ∧ n.id = id ∧ g.IsFirst i n := by
  have hids : (build g).index? id = g.ids.findIdx? (· = id) := by
    rw [index?_build, CircuitGraph.ids, List.findIdx?_map]
    rfl
  rw [hids, List.findIdx?_eq_some_iff_getElem]
  constructor
  · rintro ⟨hlt, hid, hbefore⟩
    have hlt' : i < g.nodes.length := by simpa [CircuitGraph.ids] using hlt
    have hid : g.nodes[i].id = id := by simpa [CircuitGraph.ids] using hid
    refine ⟨g.nodes[i], List.getElem?_eq_getElem hlt', hid, fun hmem => ?_⟩
    obtain ⟨k, hk, heq⟩ := List.mem_take_iff_getElem.1 hmem
    exact hbefore k (by omega) (by simpa using heq.trans hid)
  · rintro ⟨n, hn, rfl, hfirst⟩
    obtain ⟨hlt, rfl⟩ := List.getElem?_eq_some_iff.1 hn
    have hlt' : i < g.ids.length := by simpa [CircuitGraph.ids] using hlt
    refine ⟨hlt', by simp [CircuitGraph.ids], fun k hk heq => hfirst ?_⟩
    exact List.mem_take_iff_getElem.2 ⟨k, by omega, by simpa using heq⟩

theorem map_index?_build (g : CircuitGraph) (id : NodeId) :
    ((build g).index? id).map (g.nodes[·]?) = (g.node? id).map some := by
  rw [CircuitGraph.node?, List.find?_eq_bind_findIdx?_getElem?, ← index?_build]
  cases hi : (build g).index? id with
  | none => rfl
  | some i =>
    obtain ⟨n, hn, -⟩ := index?_eq_some_iff.1 hi
    simp [hn]

/-! ## Duplicates -/

theorem repeatedIds_eq {seen : List NodeId} (before : List NodeId) (ns : List Node)
    (hseen : ∀ id, id ∈ seen ↔ id ∈ before) :
    repeatedIds seen ns = (((ns.map (·.id)).zipIdx before.length).filter fun p =>
      p.1 ∈ (before ++ ns.map (·.id)).take p.2).map (·.1) := by
  -- `before` are the ids that stand before those of `ns`, and `seen` are the same ids, each once
  induction ns generalizing seen before with
  | nil => rfl
  | cons n ns ih =>
    have hrest {seen' : List NodeId} (h : ∀ id, id ∈ seen' ↔ id ∈ before ++ [n.id]) :
        repeatedIds seen' ns = (((ns.map (·.id)).zipIdx (before.length + 1)).filter fun p =>
          p.1 ∈ (before ++ (n :: ns).map (·.id)).take p.2).map (·.1) := by
      simpa using ih (before ++ [n.id]) h
    unfold repeatedIds
    rw [List.map_cons, List.zipIdx_cons]
    by_cases hn : n.id ∈ seen
    · have hmem : n.id ∈ before := (hseen n.id).1 hn
      have hsame : ∀ id, id ∈ seen ↔ id ∈ before ++ [n.id] := by
        intro id
        rw [hseen, List.mem_append, List.mem_singleton, or_iff_left_of_imp]
        rintro rfl
        exact hmem
      rw [if_pos hn, List.filter_cons_of_pos (by simpa using hmem), List.map_cons, hrest hsame]
      rfl
    · have hmem : n.id ∉ before := fun h => hn ((hseen n.id).2 h)
      have hmore : ∀ id, id ∈ n.id :: seen ↔ id ∈ before ++ [n.id] := by
        intro id
        rw [List.mem_cons, hseen, List.mem_append, List.mem_singleton, or_comm]
      rw [if_neg hn, List.filter_cons_of_neg (by simpa using hmem), hrest hmore]
      rfl

theorem duplicates_build_eq (g : CircuitGraph) :
    (build g).duplicates = (g.ids.zipIdx.filter fun p => p.1 ∈ g.ids.take p.2).map (·.1) := by
  rw [duplicates_build]
  exact repeatedIds_eq [] g.nodes fun _ => .rfl

/-! ## The order of ids -/

/-- The junctions come by their ids, and those of one id in collection order. -/
theorem pairwise_byId (a : Adjacency) :
    a.byId.Pairwise fun p q => toLex (p.1.node.id, p.2) < toLex (q.1.node.id, q.2) := by
  have hplaces : a.junctions.zipIdx.Pairwise (·.2 < ·.2) := by
    rw [← List.pairwise_map, List.zipIdx_map_snd]
    exact List.pairwise_lt_range'
  refine (pairwise_mergeSort_stable (fun p : Junction × Nat => p.1.node.id) ?_ hplaces).imp ?_
  · intro p q
    rw [decide_eq_true_iff]
  · intro p q h
    exact Prod.Lex.toLex_lt_toLex.2 h

/-! ## The whole account -/

/-- How an adjacency holds the wires of a graph. -/
structure Attaches (g : CircuitGraph) (a : Adjacency) : Prop where
  /-- There is one junction for each node, in collection order. -/
  nodes : a.junctions.map (·.node) = g.nodes
  /-- Dangling are the wires with an end that names no node, in collection order. -/
  dangling : a.dangling = g.edges.filter fun e => ¬ (e.source ∈ g.ids ∧ e.target ∈ g.ids)
  /-- Every other wire leaves a junction, once. -/
  leaving : (a.dangling ++ a.junctions.flatMap (·.outgoing)).Perm g.edges
  /-- Every other wire enters a junction, once. -/
  entering : (a.dangling ++ a.junctions.flatMap (·.incoming)).Perm g.edges
  /-- The wire leaves the junction that its source names. -/
  index_source : ∀ i j, a.junctions[i]? = some j → ∀ e ∈ j.outgoing, a.index? e.source = some i
  /-- The wire enters the junction that its target names. -/
  index_target : ∀ i j, a.junctions[i]? = some j → ∀ e ∈ j.incoming, a.index? e.target = some i
  /-- The first node with an id counts all wires from the id, attached and dangling. -/
  outDegree : ∀ i j, a.junctions[i]? = some j → g.IsFirst i j.node →
    j.outDegree = g.edges.countP (·.source = j.node.id) ∧
    j.outDegree = j.outgoing.length + a.dangling.countP (·.source = j.node.id)
  /-- The first node with an id counts all wires to the id, attached and dangling. -/
  inDegree : ∀ i j, a.junctions[i]? = some j → g.IsFirst i j.node →
    j.inDegree = g.edges.countP (·.target = j.node.id) ∧
    j.inDegree = j.incoming.length + a.dangling.countP (·.target = j.node.id)
  /-- A later node with the same id has no wires. -/
  later : ∀ i j, a.junctions[i]? = some j → ¬ g.IsFirst i j.node → j = .bare j.node
  /-- Its id is noted as a duplicate, once for each such node. -/
  duplicates : a.duplicates = (g.ids.zipIdx.filter fun p => p.1 ∈ g.ids.take p.2).map (·.1)
  /-- Leaving wires are in the order in which they are followed. -/
  sorted : ∀ j ∈ a.junctions, j.outgoing.Pairwise (·.followKey ≤ ·.followKey)
  /-- The walk along the ids meets every junction, once. -/
  byId_perm : a.byId.Perm a.junctions.zipIdx
  /-- It goes by ids, and along the places of one id. -/
  byId_pairwise : a.byId.Pairwise fun p q => toLex (p.1.node.id, p.2) < toLex (q.1.node.id, q.2)
  /-- The place of an id is that of the first node with the id. -/
  index : ∀ id i, a.index? id = some i ↔ ∃ n, g.nodes[i]? = some n ∧ n.id = id ∧ g.IsFirst i n
  /-- It is the place of the node that is found by the id. -/
  index_node : ∀ id, (a.index? id).map (g.nodes[·]?) = (g.node? id).map some

section Ends

variable {e : Edge}

theorem index?_eq_of_isFirst (hj : (build g).junctions[i]? = some j) (hfirst : g.IsFirst i j.node) :
    (build g).index? j.node.id = some i := by
  refine index?_eq_some_iff.2 ⟨j.node, ?_, rfl, hfirst⟩
  rw [← map_node_build g, List.getElem?_map, hj]
  rfl

theorem index?_source_of_mem_outgoing (hj : (build g).junctions[i]? = some j)
    (he : e ∈ j.outgoing) : (build g).index? e.source = some i := by
  by_cases hfirst : g.IsFirst i j.node
  · rw [eq_junction_of_isFirst hj hfirst] at he
    have hmem := (List.mem_filter.1 (List.mem_mergeSort.1 he)).1
    rw [(CircuitGraph.mem_wiresFrom.1 hmem).2, index?_eq_of_isFirst hj hfirst]
  · rw [eq_bare_of_not_isFirst hj hfirst] at he
    cases he

theorem index?_target_of_mem_incoming (hj : (build g).junctions[i]? = some j)
    (he : e ∈ j.incoming) : (build g).index? e.target = some i := by
  by_cases hfirst : g.IsFirst i j.node
  · rw [eq_junction_of_isFirst hj hfirst] at he
    have hmem := (List.mem_filter.1 he).1
    rw [(CircuitGraph.mem_wiresInto.1 hmem).2, index?_eq_of_isFirst hj hfirst]
  · rw [eq_bare_of_not_isFirst hj hfirst] at he
    cases he

/-- The wires at an end are attached there or dangle. -/
theorem length_filter_edges (g : CircuitGraph) (p : Edge → Bool) :
    (g.edges.filter p).length =
      ((g.edges.filter p).filter g.joins).length + (build g).dangling.countP p := by
  have hdangling : (build g).dangling.countP p =
      ((g.edges.filter p).filter (!g.joins ·)).length := by
    rw [dangling_build, List.countP_eq_length_filter, List.filter_filter, List.filter_filter]
    simp only [Bool.and_comm]
  rw [hdangling, ← List.length_append]
  exact (List.filter_append_perm g.joins _).length_eq.symm

end Ends

/-- **Every wire is attached at both of its ends, once, or it dangles.** -/
theorem attaches_build (g : CircuitGraph) : Attaches g (build g) where
  nodes := map_node_build g
  dangling := by
    rw [dangling_build]
    exact List.filter_congr fun e _ => by simp [CircuitGraph.joins]
  leaving := by
    rw [dangling_build]
    refine ((leaving_build g).append_left _).trans ?_
    exact List.perm_append_comm.trans (List.filter_append_perm g.joins _)
  entering := by
    rw [dangling_build]
    refine ((entering_build g).append_left _).trans ?_
    exact List.perm_append_comm.trans (List.filter_append_perm g.joins _)
  index_source := fun i j hj e => index?_source_of_mem_outgoing hj
  index_target := fun i j hj e => index?_target_of_mem_incoming hj
  outDegree := by
    intro i j hj hfirst
    have hlength := length_filter_edges g (·.source = j.node.id)
    rw [List.countP_eq_length_filter, eq_junction_of_isFirst hj hfirst]
    refine ⟨rfl, hlength.trans ?_⟩
    rw [CircuitGraph.junction, List.length_mergeSort]
    rfl
  inDegree := by
    intro i j hj hfirst
    have hlength := length_filter_edges g (·.target = j.node.id)
    rw [List.countP_eq_length_filter, eq_junction_of_isFirst hj hfirst]
    exact ⟨rfl, hlength⟩
  later := fun i j => eq_bare_of_not_isFirst
  duplicates := duplicates_build_eq g
  sorted := by
    intro j hj
    obtain ⟨k, -, rfl⟩ := List.mem_map.1 hj
    exact pairwise_mergeSort_key Edge.followKey Edge.leavesFirst_iff k.outgoing
  byId_perm := List.mergeSort_perm ..
  byId_pairwise := pairwise_byId _
  index := fun id i => index?_eq_some_iff
  index_node := map_index?_build g

end Adjacency

end QuantumWiring

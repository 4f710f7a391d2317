import QuantumWiring.Graph.Adjacency
import Mathlib.Data.List.Nodup
import Mathlib.Logic.Relation

/-!
# The wires of a graph, and what the adjacency knows of them

`wiresInto` and `wiresFrom` are read off the list of edges; nothing is sorted and nothing is
counted in passing.  The adjacency that a compilation builds says the same: the junction of an id
is the one that the raw lists give (`find?_build`), an id is noted as a duplicate exactly when
ids repeat (`duplicates_build_eq_nil_iff`), and an edge is dangling exactly when one of its ends
names no node (`dangling_build`).  None of this asks anything of the graph.
-/

namespace QuantumWiring

/-- In a list whose elements have distinct keys, a look-up by an element's key finds it. -/
theorem find?_key_eq_some {α β : Type} [DecidableEq β] {key : α → β} {l : List α}
    (h : (l.map key).Nodup) {a : α} (ha : a ∈ l) : l.find? (key · = key a) = some a := by
  induction l with
  | nil => cases ha
  | cons b l ih =>
    obtain ⟨hb, hl⟩ := List.nodup_cons.1 h
    rcases List.mem_cons.1 ha with rfl | ha
    · exact List.find?_cons_of_pos (by simp)
    · have hne : key b ≠ key a := fun e => hb (e ▸ List.mem_map_of_mem ha)
      rw [List.find?_cons_of_neg (by simpa using hne)]
      exact ih hl ha

namespace CircuitGraph

/-- The ids of the nodes, in collection order. -/
def ids (g : CircuitGraph) : List NodeId := g.nodes.map (·.id)

/-- The wires that enter a node. -/
def wiresInto (g : CircuitGraph) (id : NodeId) : List Edge := g.edges.filter (·.target = id)

/-- The wires that leave a node. -/
def wiresFrom (g : CircuitGraph) (id : NodeId) : List Edge := g.edges.filter (·.source = id)

/-- A wire leads from one id to the other. -/
def Wire (g : CircuitGraph) (a b : NodeId) : Prop := ∃ e ∈ g.edges, e.source = a ∧ e.target = b

/-- Whether both ends of an edge name nodes. -/
def joins (g : CircuitGraph) (e : Edge) : Bool := e.source ∈ g.ids && e.target ∈ g.ids

/-- The junction that a node has in a graph. -/
def junction (g : CircuitGraph) (n : Node) : Junction :=
  ⟨n, (g.wiresInto n.id).length, (g.wiresFrom n.id).length, (g.wiresInto n.id).filter g.joins,
    ((g.wiresFrom n.id).filter g.joins).mergeSort Edge.leavesFirst⟩

variable {g : CircuitGraph} {id : NodeId} {e : Edge} {n : Node}

@[simp] theorem mem_wiresInto : e ∈ g.wiresInto id ↔ e ∈ g.edges ∧ e.target = id := by
  simp [wiresInto]

@[simp] theorem mem_wiresFrom : e ∈ g.wiresFrom id ↔ e ∈ g.edges ∧ e.source = id := by
  simp [wiresFrom]

theorem mem_ids_iff : id ∈ g.ids ↔ ∃ n ∈ g.nodes, n.id = id := List.mem_map

theorem mem_ids (hn : n ∈ g.nodes) : n.id ∈ g.ids := List.mem_map_of_mem hn

theorem mem_of_node? (h : g.node? id = some n) : n ∈ g.nodes ∧ n.id = id :=
  ⟨List.mem_of_find?_eq_some h, by simpa using List.find?_some h⟩

theorem isSome_node?_iff : (g.node? id).isSome ↔ id ∈ g.ids := by
  simp [node?, mem_ids_iff]

theorem node?_eq_some (h : g.ids.Nodup) (hn : n ∈ g.nodes) : g.node? n.id = some n :=
  find?_key_eq_some h hn

theorem eq_of_id_eq (h : g.ids.Nodup) {m : Node} (hm : m ∈ g.nodes) (hn : n ∈ g.nodes)
    (e : m.id = n.id) : m = n :=
  List.inj_on_of_nodup_map h hm hn e

end CircuitGraph

/-! ## Junctions while edges are attached -/

namespace Junction

@[simp] theorem node_countIn (j : Junction) : j.countIn.node = j.node := rfl

@[simp] theorem node_countOut (j : Junction) : j.countOut.node = j.node := rfl

@[simp] theorem node_enter (e : Edge) (j : Junction) : (j.enter e).node = j.node := rfl

@[simp] theorem node_leave (e : Edge) (j : Junction) : (j.leave e).node = j.node := rfl

end Junction

theorem find?_updateFirst {id id' : NodeId} {f : Junction → Junction}
    (hf : ∀ j, (f j).node = j.node) (js : List Junction) :
    (updateFirst id f js).find? (·.node.id = id') =
      if id = id' then (js.find? (·.node.id = id')).map f else js.find? (·.node.id = id') := by
  induction js with
  | nil => simp [updateFirst]
  | cons j js ih =>
    unfold updateFirst
    by_cases hj : j.node.id = id
    · by_cases hid : id = id' <;> simp [hj, hid, hf]
    · rw [if_neg hj, List.find?_cons, List.find?_cons, ih]
      by_cases hid : j.node.id = id'
      · have : id ≠ id' := fun h => hj (hid.trans h.symm)
        simp [hid, this]
      · simp [hid]

namespace Adjacency

theorem map_node_update (a : Adjacency) (id : NodeId) {f : Junction → Junction}
    (hf : ∀ j, (f j).node = j.node) :
    (a.update id f).junctions.map (·.node) = a.junctions.map (·.node) := by
  show (updateFirst id f a.junctions).map _ = _
  induction a.junctions with
  | nil => rfl
  | cons j js ih =>
    unfold updateFirst
    split <;> simp [hf, ih]

theorem find?_update (a : Adjacency) (id id' : NodeId) {f : Junction → Junction}
    (hf : ∀ j, (f j).node = j.node) :
    (a.update id f).find? id' = if id = id' then (a.find? id').map f else a.find? id' :=
  find?_updateFirst hf a.junctions

/-- What holds of an adjacency once some of the edges are attached: the junction of every node is
the one that those edges give, with the leaving wires still in collection order. -/
structure Holds (g : CircuitGraph) (es : List Edge) (a : Adjacency) : Prop where
  graph : a.graph = g
  nodes : a.junctions.map (·.node) = g.nodes
  duplicates : a.duplicates = repeatedIds [] g.nodes
  dangling : a.dangling = es.filter (!g.joins ·)
  find? : ∀ id, a.find? id = (g.node? id).map fun n =>
    ⟨n, (es.filter (·.target = id)).length, (es.filter (·.source = id)).length,
      (es.filter (·.target = id)).filter g.joins, (es.filter (·.source = id)).filter g.joins⟩

namespace Holds

variable {g : CircuitGraph} {es : List Edge} {a : Adjacency}

theorem ofNodes (g : CircuitGraph) : Holds g [] (ofNodes g) := by
  refine ⟨rfl, ?_, rfl, rfl, fun id => ?_⟩
  · exact (List.map_map ..).trans (List.map_id g.nodes)
  · exact List.find?_map

theorem isSome_find?_iff (h : Holds g es a) (id : NodeId) : (a.find? id).isSome ↔ id ∈ g.ids := by
  rw [h.find?, Option.isSome_map, CircuitGraph.isSome_node?_iff]

theorem attach (h : Holds g es a) (e : Edge) : Holds g (es ++ [e]) (a.attach e) := by
  have hjoins : ((a.find? e.source).isSome ∧ (a.find? e.target).isSome) ↔ g.joins e := by
    rw [h.isSome_find?_iff, h.isSome_find?_iff]; simp [CircuitGraph.joins]
  unfold Adjacency.attach
  by_cases hj : g.joins e
  · rw [if_pos (hjoins.2 hj)]
    refine ⟨h.graph, ?_, h.duplicates, ?_, fun id => ?_⟩
    · rw [map_node_update _ _ (Junction.node_enter e), map_node_update _ _ (Junction.node_leave e),
        map_node_update _ _ Junction.node_countIn, map_node_update _ _ Junction.node_countOut]
      exact h.nodes
    · simp [update, hj, h.dangling]
    · rw [find?_update _ _ _ (Junction.node_enter e), find?_update _ _ _ (Junction.node_leave e),
        find?_update _ _ _ Junction.node_countIn, find?_update _ _ _ Junction.node_countOut, h.find?]
      by_cases hs : e.source = id <;> by_cases ht : e.target = id <;> cases g.node? id <;>
        simp [hs, ht, hj, Junction.countOut, Junction.countIn, Junction.leave,
          Junction.enter]
  · rw [if_neg (fun hc => hj (hjoins.1 hc))]
    refine ⟨h.graph, ?_, h.duplicates, ?_, fun id => ?_⟩
    · show ((a.update e.source .countOut).update e.target .countIn).junctions.map _ = _
      rw [map_node_update _ _ Junction.node_countIn, map_node_update _ _ Junction.node_countOut]
      exact h.nodes
    · simp [update, hj, h.dangling]
    · show ((a.update e.source .countOut).update e.target .countIn).find? id = _
      rw [find?_update _ _ _ Junction.node_countIn, find?_update _ _ _ Junction.node_countOut, h.find?]
      by_cases hs : e.source = id <;> by_cases ht : e.target = id <;> cases g.node? id <;>
        simp [hs, ht, hj, Junction.countOut, Junction.countIn]

theorem foldl_attach (h : Holds g es a) (rest : List Edge) :
    Holds g (es ++ rest) (rest.foldl Adjacency.attach a) := by
  induction rest generalizing es a with
  | nil => simpa using h
  | cons e rest ih => simpa using ih (h.attach e)

end Holds

/-! ## The finished adjacency -/

variable {g : CircuitGraph} {id : NodeId} {e : Edge} {n : Node}

theorem holds_attached (g : CircuitGraph) :
    Holds g g.edges (g.edges.foldl Adjacency.attach (ofNodes g)) :=
  (Holds.ofNodes g).foldl_attach g.edges

@[simp] theorem graph_build (g : CircuitGraph) : (build g).graph = g := (holds_attached g).graph

/-- **The junction of an id is read off the raw lists**: it belongs to the first node with the id,
its degrees count all edges that name the id, and its wires are those with both ends. -/
theorem find?_build (g : CircuitGraph) (id : NodeId) :
    (build g).find? id = (g.node? id).map g.junction := by
  show List.find? _ (List.map _ (g.edges.foldl Adjacency.attach (ofNodes g)).junctions) = _
  rw [List.find?_map]
  show ((g.edges.foldl Adjacency.attach (ofNodes g)).find? id).map _ = _
  rw [(holds_attached g).find?, Option.map_map]
  cases hn : g.node? id with
  | none => rfl
  | some n =>
    obtain ⟨-, rfl⟩ := CircuitGraph.mem_of_node? hn
    rfl

/-- Where ids are distinct, every node is found by its id. -/
theorem find?_build_of_mem (h : g.ids.Nodup) (hn : n ∈ g.nodes) :
    (build g).find? n.id = some (g.junction n) := by
  rw [find?_build, CircuitGraph.node?_eq_some h hn, Option.map_some]

theorem map_node_build (g : CircuitGraph) : (build g).junctions.map (·.node) = g.nodes := by
  refine Eq.trans ?_ (holds_attached g).nodes
  exact List.map_map ..

/-- Where ids are distinct, every node has the junction that the raw lists give. -/
theorem junctions_build (h : g.ids.Nodup) : (build g).junctions = g.nodes.map g.junction := by
  have hnodup : ((build g).junctions.map (·.node.id)).Nodup := by
    have : (build g).junctions.map (·.node.id) = g.ids := by
      rw [CircuitGraph.ids, ← map_node_build g, List.map_map]; rfl
    rwa [this]
  rw [← map_node_build g, List.map_map]
  refine (List.map_id _).symm.trans (List.map_congr_left fun j hj => ?_)
  have hnode : j.node ∈ g.nodes := map_node_build g ▸ List.mem_map_of_mem hj
  have hfind : (build g).find? j.node.id = some j := find?_key_eq_some hnodup hj
  rw [find?_build_of_mem h hnode, Option.some.injEq] at hfind
  exact hfind.symm

theorem dangling_build (g : CircuitGraph) : (build g).dangling = g.edges.filter (!g.joins ·) :=
  (holds_attached g).dangling

theorem repeatedIds_eq_nil_iff {seen : List NodeId} {ns : List Node} :
    repeatedIds seen ns = [] ↔ (ns.map (·.id)).Nodup ∧ ∀ n ∈ ns, n.id ∉ seen := by
  induction ns generalizing seen with
  | nil => simp [repeatedIds]
  | cons n ns ih =>
    unfold repeatedIds
    by_cases hn : n.id ∈ seen
    · simp [hn]
    · simp only [hn, if_false, ih, List.map_cons, List.nodup_cons, List.mem_cons]
      constructor
      · rintro ⟨hnodup, hseen⟩
        refine ⟨⟨fun hmem => ?_, hnodup⟩, ?_⟩
        · obtain ⟨m, hm, he⟩ := List.mem_map.1 hmem
          exact hseen m hm (.inl he)
        · rintro m (rfl | hm)
          · exact hn
          · exact fun hs => hseen m hm (.inr hs)
      · rintro ⟨⟨hmem, hnodup⟩, hseen⟩
        refine ⟨hnodup, fun m hm => ?_⟩
        rintro (he | hs)
        · exact hmem (he ▸ List.mem_map_of_mem hm)
        · exact hseen m (.inr hm) hs

/-- No id is noted as a duplicate exactly when ids are distinct. -/
theorem duplicates_build_eq_nil_iff : (build g).duplicates = [] ↔ g.ids.Nodup := by
  show (g.edges.foldl Adjacency.attach (ofNodes g)).duplicates = [] ↔ _
  rw [(holds_attached g).duplicates, repeatedIds_eq_nil_iff]
  simp [CircuitGraph.ids]

theorem mem_sorted {a : Adjacency} {j : Junction} : j ∈ a.sorted ↔ j ∈ a.junctions := by
  have hperm : a.sorted.Perm (a.junctions.zipIdx.map (·.1)) :=
    (List.mergeSort_perm a.junctions.zipIdx _).map _
  rw [hperm.mem_iff, List.zipIdx_map_fst]

end Adjacency

end QuantumWiring

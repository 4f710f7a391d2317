import QuantumWiring.Compile.Schedule
import QuantumWiring.Proofs.Graph.Terminal

/-!
# Histories of visits

What a schedule is, said without queue, slots and bookkeeping.  A list of visits puts lines on
wires (`lineOn`).  A source is available from the start with its own line, any other node once all
wires that enter it carry lines (`Available`).  A `History` visits available nodes only, none of
them twice; a `GreedyRun` is a history that always visits the available node with the lowest line
and goes on until nothing is available.  What holds of every history holds in particular of the
run of the scheduler, which is the greedy one.
-/

namespace QuantumWiring

/-- The line that a wire carries once the given visits are made. -/
def lineOn (done : List Token) (e : Edge) : Option Line :=
  (done.find? (·.node.id = e.source)).bind (·.lineAlong? e)

def visitedIds (done : List Token) : List NodeId := done.map (·.node.id)

/-- How many lines go through a node. -/
def NodeKind.numLines : NodeKind → Nat
  | .qubitSource _ | .singleGate _ | .measurement => 1
  | .twoGate _ => 2

theorem NodeKind.arity_of_operation? {k : NodeKind} {o : Operation} (h : k.operation? = some o) :
    o.arity = k.numLines := by
  cases k <;> cases h <;> rfl

theorem NodeKind.numLines_of_numInputs {k : NodeKind} (h : k.numInputs = 1) : k.numLines = 1 := by
  cases k <;> simp_all [numInputs, numLines]

theorem NodeKind.numLines_of_isSource {k : NodeKind} (h : k.isSource) : k.numLines = 1 := by
  cases k <;> simp_all [isSource, numLines]

theorem NodeKind.numLines_of_isTwoGate {k : NodeKind} (h : k.isTwoGate) : k.numLines = 2 := by
  cases k <;> simp_all [isTwoGate, numLines]

theorem Token.lines_ne_nil (t : Token) (h : t.lines.length = t.node.kind.numLines) :
    t.lines ≠ [] := by
  intro hnil
  cases hk : t.node.kind <;> simp [hnil, hk, NodeKind.numLines] at h

namespace CircuitGraph

/-- A node with the lines that it has by now, where `c` tells what the wires carry. -/
inductive Available (g : CircuitGraph) (c : Edge → Option Line) : Token → Prop
  | source {n : Node} {i : Line} (hi : g.orderedSources[i]? = some n) : Available g c ⟨n, [i]⟩
  | fed {n : Node} {ls : List Line} (hn : n ∈ g.nodes) (hs : n.kind.isSource = false)
      (hls : (g.inputWires n).map c = ls.map some) : Available g c ⟨n, ls⟩

/-- Visits of available nodes, none of them made twice. -/
structure History (g : CircuitGraph) (done : List Token) : Prop where
  available : ∀ {before t after}, done = before ++ t :: after → g.Available (lineOn before) t
  nodup : (visitedIds done).Nodup

/-- A history that has visited all nodes. -/
structure CompleteHistory (g : CircuitGraph) (done : List Token) : Prop extends
    History g done where
  complete : ∀ n ∈ g.nodes, n.id ∈ visitedIds done

/-- The visits of the available nodes by their lowest lines, until none is left. -/
structure GreedyRun (g : CircuitGraph) (done : List Token) : Prop extends History g done where
  lowest : ∀ {before t after}, done = before ++ t :: after → ∀ u, g.Available (lineOn before) u →
    u ∉ before → t.priority ≤ u.priority
  maximal : ∀ t, g.Available (lineOn done) t → t ∈ done

end CircuitGraph

/-! ## Lines on wires -/

section LineOn

variable {done : List Token} {t : Token} {e : Edge} {l : Line}

@[simp] theorem visitedIds_append (ts us : List Token) :
    visitedIds (ts ++ us) = visitedIds ts ++ visitedIds us := List.map_append

@[simp] theorem visitedIds_cons (t : Token) (ts : List Token) :
    visitedIds (t :: ts) = t.node.id :: visitedIds ts := rfl

@[simp] theorem visitedIds_nil : visitedIds [] = [] := rfl

theorem mem_visitedIds : t ∈ done → t.node.id ∈ visitedIds done := List.mem_map_of_mem

theorem exists_mem_of_lineOn (h : lineOn done e = some l) :
    ∃ t ∈ done, t.node.id = e.source ∧ t.lineAlong? e = some l := by
  obtain ⟨t, ht, hl⟩ := Option.bind_eq_some_iff.1 h
  exact ⟨t, List.mem_of_find?_eq_some ht, by simpa using List.find?_some ht, hl⟩

theorem lineOn_eq_none (h : e.source ∉ visitedIds done) : lineOn done e = none := by
  cases hl : lineOn done e with
  | none => rfl
  | some l =>
    obtain ⟨t, ht, hid, -⟩ := exists_mem_of_lineOn hl
    exact absurd (hid ▸ mem_visitedIds ht) h

theorem lineOn_of_mem (h : (visitedIds done).Nodup) (ht : t ∈ done) (he : e.source = t.node.id) :
    lineOn done e = t.lineAlong? e := by
  have hfind : done.find? (·.node.id = t.node.id) = some t := find?_key_eq_some h ht
  rw [lineOn, he, hfind, Option.bind_some]

theorem lineOn_append (h : lineOn done e = some l) (more : List Token) :
    lineOn (done ++ more) e = some l := by
  obtain ⟨t, ht, hl⟩ := Option.bind_eq_some_iff.1 h
  rw [lineOn, List.find?_append, ht, Option.some_or, Option.bind_some, hl]

theorem lineOn_snoc_of_ne (h : e.source ≠ t.node.id) : lineOn (done ++ [t]) e = lineOn done e := by
  rw [lineOn, List.find?_append, List.find?_cons_of_neg (by simpa using h.symm), List.find?_nil,
    Option.or_none, lineOn]

theorem lineOn_snoc_self (hnew : t.node.id ∉ visitedIds done) (h : e.source = t.node.id) :
    lineOn (done ++ [t]) e = t.lineAlong? e := by
  have hnone : done.find? (·.node.id = e.source) = none := by
    refine List.find?_eq_none.2 fun u hu hid => hnew ?_
    rw [← h, ← of_decide_eq_true hid]
    exact mem_visitedIds hu
  rw [lineOn, List.find?_append, hnone, Option.none_or, List.find?_cons_of_pos (by simp [h]),
    Option.bind_some]

end LineOn

namespace CircuitGraph

/-! ## Available nodes -/

namespace Available

variable {g : CircuitGraph} {c c' : Edge → Option Line} {t u : Token}

theorem node_mem (h : g.Available c t) : t.node ∈ g.nodes := by
  cases h with
  | source hi => exact (mem_orderedSources.1 (List.mem_of_getElem? hi)).1
  | fed hn => exact hn

/-- An available source has its own line. -/
theorem exists_index (h : g.Available c t) (hs : t.node.kind.isSource) :
    ∃ i, g.orderedSources[i]? = some t.node ∧ t.lines = [i] := by
  cases h with
  | source hi => exact ⟨_, hi, rfl⟩
  | fed hn hs' => simp [hs'] at hs

/-- The wires into another available node carry its lines in the order of its slots. -/
theorem map_inputWires (h : g.Available c t) (hs : t.node.kind.isSource = false) :
    (g.inputWires t.node).map c = t.lines.map some := by
  cases h with
  | source hi =>
    rw [(mem_orderedSources.1 (List.mem_of_getElem? hi)).2] at hs
    cases hs
  | fed hn hs hls => exact hls

theorem map_eq_map_some {es : List Edge} {ls : List Line} (h : es.map c = ls.map some)
    (hc : ∀ e ∈ es, ∀ l, c e = some l → c' e = some l) : es.map c' = ls.map some := by
  rw [← h]
  refine List.map_congr_left fun e he => ?_
  obtain ⟨l, -, hl⟩ := List.mem_map.1 (h ▸ List.mem_map_of_mem he : c e ∈ ls.map some)
  rw [← hl, hc e he l hl.symm]

theorem mono (h : g.Available c t)
    (hc : ∀ e ∈ g.inputWires t.node, ∀ l, c e = some l → c' e = some l) : g.Available c' t := by
  cases h with
  | source hi => exact .source hi
  | fed hn hs hls => exact .fed hn hs (map_eq_map_some hls hc)

section WellFormed

variable (hg : g.WellFormed)
include hg

/-- The lines of an available node are those of its wires. -/
theorem eq_of_id_eq (ht : g.Available c t) (hu : g.Available c u) (h : t.node.id = u.node.id) :
    t = u := by
  have hnode : t.node = u.node :=
    CircuitGraph.eq_of_id_eq hg.ids_nodup ht.node_mem hu.node_mem h
  suffices hlines : t.lines = u.lines by
    cases t; cases u
    simp_all
  cases hs : t.node.kind.isSource
  · have htl := ht.map_inputWires hs
    have hul := hu.map_inputWires (hnode ▸ hs)
    rw [← hnode] at hul
    exact List.map_injective_iff.2 (fun _ _ => Option.some.inj) (htl.symm.trans hul)
  · obtain ⟨i, hi, htl⟩ := ht.exists_index hs
    obtain ⟨j, hj, hul⟩ := hu.exists_index (hnode ▸ hs)
    have hi' : (g.orderedSources.map (·.id))[i]? = some t.node.id := by
      rw [List.getElem?_map, hi]; rfl
    have hj' : (g.orderedSources.map (·.id))[j]? = some t.node.id := by
      rw [List.getElem?_map, hj, hnode]; rfl
    have hlt : i < (g.orderedSources.map (·.id)).length := (List.getElem?_eq_some_iff.1 hi').1
    rw [htl, hul, (List.getElem?_inj hlt hg.orderedSources_ids_nodup).1 (hi'.trans hj'.symm)]

/-- A wire into an available node carries one of its lines. -/
theorem exists_mem_lines (h : g.Available c t) {e : Edge} (he : e ∈ g.edges)
    (ht : e.target = t.node.id) : ∃ l ∈ t.lines, c e = some l := by
  cases hs : t.node.kind.isSource
  · have hmem : c e ∈ t.lines.map some :=
      h.map_inputWires hs ▸ List.mem_map_of_mem ((hg.mem_inputWires h.node_mem).2 ⟨he, ht⟩)
    obtain ⟨l, hl, hle⟩ := List.mem_map.1 hmem
    exact ⟨l, hl, hle.symm⟩
  · exact absurd ht (hg.target_ne_of_isSource h.node_mem hs he)

/-- A line of a fed node comes in by a wire. -/
theorem exists_wire_of_mem_lines (h : g.Available c t) (hs : t.node.kind.isSource = false)
    {l : Line} (hl : l ∈ t.lines) : ∃ e ∈ g.edges, e.target = t.node.id ∧ c e = some l := by
  have hmem : some l ∈ (g.inputWires t.node).map c :=
    h.map_inputWires hs ▸ List.mem_map_of_mem hl
  obtain ⟨e, he, hc⟩ := List.mem_map.1 hmem
  obtain ⟨hmem, ht⟩ := (hg.mem_inputWires h.node_mem).1 he
  exact ⟨e, hmem, ht, hc⟩

theorem length_lines (h : g.Available c t) : t.lines.length = t.node.kind.numLines := by
  cases hs : t.node.kind.isSource
  · have hlen := congrArg List.length (h.map_inputWires hs)
    rw [List.length_map, List.length_map, hg.length_inputWires h.node_mem] at hlen
    rw [← hlen]
    cases hk : t.node.kind <;>
      simp_all [NodeKind.isSource, NodeKind.numInputs, NodeKind.numLines]
  · obtain ⟨i, -, hl⟩ := h.exists_index hs
    rw [hl, NodeKind.numLines_of_isSource hs, List.length_singleton]

theorem lines_ne_nil (h : g.Available c t) : t.lines ≠ [] :=
  t.lines_ne_nil (h.length_lines hg)

/-- **A node sends on the lines that it has**, each along one wire; a measurement keeps its
line. -/
theorem map_lineAlong_perm (h : g.Available c t) (hm : t.node.kind.isMeasurement = false) :
    ((g.wiresFrom t.node.id).map t.lineAlong?).Perm (t.lines.map some) := by
  have hlen := h.length_lines hg
  by_cases ht : t.node.kind.isTwoGate
  · obtain ⟨e₁, e₂, hp, h₁, h₂⟩ := hg.wiresFrom_perm_pair h.node_mem ht
    refine (hp.map _).trans (.of_eq ?_)
    cases hk : t.node.kind with
    | twoGate gate =>
      rw [hk] at hlen
      obtain ⟨a, b, hab⟩ := List.length_eq_two.1 hlen
      simp [Token.lineAlong?, hk, h₁, h₂, hab, Handle.slot]
    | _ => simp [hk, NodeKind.isTwoGate] at ht
  · have hone : t.node.kind.numOutputs = 1 ∧ t.node.kind.numLines = 1 := by
      cases hk : t.node.kind <;>
        simp_all [NodeKind.isTwoGate, NodeKind.isMeasurement, NodeKind.numOutputs,
          NodeKind.numLines]
    obtain ⟨e, he⟩ := hg.wiresFrom_eq_singleton h.node_mem hone.1
    obtain ⟨l, hl⟩ := List.length_eq_one_iff.1 (hlen.trans hone.2)
    rw [he, hl]
    refine .of_eq ?_
    cases hk : t.node.kind <;> simp_all [Token.lineAlong?, NodeKind.isTwoGate]

theorem exists_lineAlong (h : g.Available c t) {e : Edge} (he : e ∈ g.wiresFrom t.node.id) :
    ∃ l ∈ t.lines, t.lineAlong? e = some l := by
  cases hm : t.node.kind.isMeasurement
  · have hmem := (h.map_lineAlong_perm hg hm).mem_iff.1 (List.mem_map_of_mem he)
    obtain ⟨l, hl, hle⟩ := List.mem_map.1 hmem
    exact ⟨l, hl, hle.symm⟩
  · rw [hg.wiresFrom_eq_nil h.node_mem hm] at he
    cases he

end WellFormed

end Available

/-! ## Histories -/

namespace History

variable {g : CircuitGraph} {done : List Token} {t : Token}

theorem nil : History g [] := ⟨fun h => by simp at h, List.nodup_nil⟩

theorem of_append {more : List Token} (h : History g (done ++ more)) : History g done := by
  refine ⟨fun {before t after} hd => ?_, ?_⟩
  · have hd' : done ++ more = before ++ t :: (after ++ more) := by simp [hd]
    exact h.available hd'
  · have := h.nodup
    rw [visitedIds_append] at this
    exact this.of_append_left

theorem snoc (h : History g done) (ht : g.Available (lineOn done) t)
    (hnew : t.node.id ∉ visitedIds done) : History g (done ++ [t]) := by
  refine ⟨fun {before u after} hd => ?_, ?_⟩
  · rcases List.eq_nil_or_concat after with rfl | ⟨after, z, rfl⟩
    · obtain ⟨rfl, hu⟩ := List.append_inj' hd rfl
      obtain rfl : t = u := by simpa using hu
      exact ht
    · rw [List.concat_eq_append, ← List.cons_append, ← List.append_assoc] at hd
      exact h.available (List.append_inj' hd rfl).1
  · rw [visitedIds_append]
    refine h.nodup.append (List.nodup_singleton _) ?_
    simpa [List.disjoint_singleton] using hnew

theorem of_snoc (h : History g (done ++ [t])) :
    History g done ∧ g.Available (lineOn done) t ∧ t.node.id ∉ visitedIds done := by
  refine ⟨h.of_append, h.available rfl, fun hmem => ?_⟩
  have := h.nodup
  rw [visitedIds_append] at this
  exact (List.disjoint_of_nodup_append this) hmem (by simp)

/-- Every visit was of a node that is available, also with all the visits made. -/
theorem available_of_mem (h : History g done) (ht : t ∈ done) : g.Available (lineOn done) t := by
  obtain ⟨before, after, rfl⟩ := List.append_of_mem ht
  exact (h.available rfl).mono fun e _ l hl => lineOn_append hl _

theorem node_mem (h : History g done) (ht : t ∈ done) : t.node ∈ g.nodes :=
  (h.available_of_mem ht).node_mem

theorem mem_ids (h : History g done) {id : NodeId} (hid : id ∈ visitedIds done) : id ∈ g.ids := by
  obtain ⟨t, ht, rfl⟩ := List.mem_map.1 hid
  exact CircuitGraph.mem_ids (h.node_mem ht)

theorem eq_of_id_eq (h : History g done) {u : Token} (ht : t ∈ done) (hu : u ∈ done)
    (hid : t.node.id = u.node.id) : t = u :=
  List.inj_on_of_nodup_map h.nodup ht hu hid

variable (hg : g.WellFormed)
include hg

/-- A wire comes from a node that is visited before the node it leads to. -/
theorem source_mem (h : History g done) {before after : List Token}
    (hd : done = before ++ t :: after) {e : Edge} (he : e ∈ g.edges) (ht : e.target = t.node.id) :
    e.source ∈ visitedIds before := by
  obtain ⟨l, -, hl⟩ := (h.available hd).exists_mem_lines hg he ht
  obtain ⟨u, hu, hid, -⟩ := exists_mem_of_lineOn hl
  exact hid ▸ mem_visitedIds hu

theorem source_mem_of_target_mem (h : History g done) {e : Edge} (he : e ∈ g.edges)
    (ht : e.target ∈ visitedIds done) : e.source ∈ visitedIds done := by
  obtain ⟨t, hmem, hid⟩ := List.mem_map.1 ht
  obtain ⟨before, after, rfl⟩ := List.append_of_mem hmem
  rw [visitedIds_append]
  exact List.mem_append_left _ (h.source_mem hg rfl he hid.symm)

theorem exists_lineOn (h : History g done) {e : Edge} (he : e ∈ g.edges)
    (hs : e.source ∈ visitedIds done) : ∃ l, lineOn done e = some l := by
  obtain ⟨t, ht, hid⟩ := List.mem_map.1 hs
  obtain ⟨l, -, hl⟩ :=
    (h.available_of_mem ht).exists_lineAlong hg (mem_wiresFrom.2 ⟨he, hid.symm⟩)
  exact ⟨l, by rw [lineOn_of_mem h.nodup ht hid.symm, hl]⟩

theorem exists_available (h : History g done) {n : Node} (hn : n ∈ g.nodes)
    (hpred : ∀ e ∈ g.edges, e.target = n.id → e.source ∈ visitedIds done) :
    ∃ ls, g.Available (lineOn done) ⟨n, ls⟩ := by
  cases hs : n.kind.isSource
  · have hall : ∀ e ∈ g.inputWires n, ∃ l, lineOn done e = some l := fun e he =>
      have he := (hg.mem_inputWires hn).1 he
      h.exists_lineOn hg he.1 (hpred e he.1 he.2)
    obtain ⟨ls, hls⟩ : ∃ ls : List Line, (g.inputWires n).map (lineOn done) = ls.map some := by
      refine ⟨(g.inputWires n).filterMap (lineOn done), ?_⟩
      generalize g.inputWires n = es at hall
      induction es with
      | nil => rfl
      | cons e es ih =>
        obtain ⟨l, hl⟩ := hall e List.mem_cons_self
        rw [List.filterMap_cons_some hl, List.map_cons, List.map_cons, hl,
          ih fun e he => hall e (List.mem_cons_of_mem _ he)]
    exact ⟨ls, .fed hn hs hls⟩
  · obtain ⟨i, hi⟩ := List.mem_iff_getElem?.1 (mem_orderedSources.2 ⟨hn, hs⟩)
    exact ⟨[i], .source hi⟩

end History

end CircuitGraph

end QuantumWiring

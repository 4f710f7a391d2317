import QuantumWiring.Proofs.Schedule.Stalled
import Mathlib.Algebra.Module.Submodule.Lattice

/-!
# Where the lines of an operation come from

Whatever the graph, a line does not appear at a node by chance: `Chain` follows wires from a source
to a slot of a node, and at every gate on two qubits in between the wire that leaves names the slot
that the wire before it has entered.  The run keeps such a chain for every line in the queue and in
the slots, also for one that overwrites another (`Traced.arrive`), so each line of each operation
has one (`exists_chain_of_mem_ops`).

A wire that leaves a gate with an input handle is followed like one with the output handle of the
same slot, so the chain leaves its gates through output handles only if no wire does that;
`misnamedGraph` has such a wire.
-/

namespace QuantumWiring

/-! ## Chains of wires -/

/-- The slot in which a line arrives at a node through a wire end: at a gate on two qubits the end
has to be one of its inputs, elsewhere there is only one. -/
inductive EntersSlot : NodeKind → Option Handle → Nat → Prop
  | only {k : NodeKind} {handle : Option Handle} (hk : k.numInputs = 1) : EntersSlot k handle 0
  | input {k : NodeKind} {i : Handle} (hk : k.isTwoGate) (hi : i.isInput) :
    EntersSlot k (some i) i.slot

/-- The slot whose line leaves a node through a wire end: at a gate on two qubits the end has to be
one of its exits, elsewhere there is only one. -/
inductive LeavesSlot (exits : Handle → Prop) : NodeKind → Option Handle → Nat → Prop
  | only {k : NodeKind} {handle : Option Handle} (hk : k.numOutputs = 1) :
    LeavesSlot exits k handle 0
  | exit {k : NodeKind} {i : Handle} (hk : k.isTwoGate) (hi : exits i) :
    LeavesSlot exits k (some i) i.slot

/-- An output handle. -/
def Handle.IsOutput (i : Handle) : Prop := i.isInput = false

namespace CircuitGraph

/-- A wire with the nodes that its two ends belong to. -/
structure Link (g : CircuitGraph) (m : Node) (e : Edge) (n : Node) : Prop where
  mem : e ∈ g.edges
  source : g.node? e.source = some m
  target : g.node? e.target = some n

/-- Wires lead from a source to a slot of a node.  On the way they leave every node from the slot
that they have entered, gates on two qubits through one of the handles `exits`. -/
inductive Chain (g : CircuitGraph) (exits : Handle → Prop) (q : Node) : Node → Nat → Prop
  | start (hq : q.kind.isSource) : Chain g exits q q 0
  | wire {m n : Node} {e : Edge} {slot slot' : Nat} (hchain : Chain g exits q m slot)
    (hlink : g.Link m e n) (hleaves : LeavesSlot exits m.kind e.sourceHandle slot)
    (henters : EntersSlot n.kind e.targetHandle slot') : Chain g exits q n slot'

/-- A chain from the source at which a line starts. -/
def Delivers (g : CircuitGraph) (exits : Handle → Prop) (l : Line) (n : Node) (slot : Nat) : Prop :=
  ∃ q, g.orderedSources[l]? = some q ∧ g.Chain exits q n slot

/-- Wires leave the gates on two qubits only through the handles `exits`. -/
def LeavesThrough (g : CircuitGraph) (exits : Handle → Prop) : Prop :=
  ∀ e ∈ g.edges, ∀ m, g.node? e.source = some m → m.kind.isTwoGate →
    ∀ i, e.sourceHandle = some i → exits i

end CircuitGraph

/-- The line that leaves a node was in the slot that its wire end names. -/
theorem Token.exists_slot_of_lineAlong? {t : Token} {e : Edge} {l : Line} {exits : Handle → Prop}
    (hm : t.node.kind.isMeasurement = false)
    (hexits : t.node.kind.isTwoGate → ∀ i, e.sourceHandle = some i → exits i)
    (h : t.lineAlong? e = some l) :
    ∃ slot, t.lines[slot]? = some l ∧ LeavesSlot exits t.node.kind e.sourceHandle slot := by
  unfold lineAlong? at h
  split at h
  · next gate hk =>
    have htwo : t.node.kind.isTwoGate := by rw [hk]; rfl
    obtain ⟨i, hi, hl⟩ := Option.bind_eq_some_iff.1 h
    refine ⟨i.slot, hl, ?_⟩
    rw [hi]
    exact .exit htwo (hexits htwo i hi)
  · next hk =>
    rw [List.head?_eq_getElem?] at h
    refine ⟨0, h, .only ?_⟩
    cases hkind : t.node.kind with
    | qubitSource v => rfl
    | singleGate gate => rfl
    | twoGate gate => exact absurd hkind (hk gate)
    | measurement =>
      rw [hkind] at hm
      cases hm

theorem PendingInputs.line?_eq_of_lines? {p : PendingInputs} {lines : List Line}
    (h : p.lines? = some lines) {slot : Nat} {l : Line} (hl : lines[slot]? = some l) :
    p.line? slot = some l := by
  have hslots := lines?_eq_some_iff.1 h
  have hget : ([p.line? 0, p.line? 1] : List (Option Line))[slot]? = some (some l) := by
    rw [hslots, List.getElem?_map, hl]
    rfl
  match slot with
  | 0 => exact Option.some.inj hget
  | 1 => exact Option.some.inj hget
  | slot + 2 => cases hget

namespace Run

variable {g : CircuitGraph} {exits : Handle → Prop} {s s' : Run} {n : Node} {t : Token}
  {rest ts : List Token} {l : Line}

/-! ## The invariant -/

/-- A token of the node that its id belongs to, with a chain for each of its lines. -/
structure TracedToken (g : CircuitGraph) (exits : Handle → Prop) (t : Token) : Prop where
  node? : g.node? t.node.id = some t.node
  delivers : ∀ slot l, t.lines[slot]? = some l → g.Delivers exits l t.node slot

/-- Every line in the queue and in the slots has a chain to where it is. -/
structure Traced (g : CircuitGraph) (exits : Handle → Prop) (s : Run) : Prop where
  queue : ∀ t ∈ s.queue, TracedToken g exits t
  waiting : ∀ n, g.node? n.id = some n → ∀ slot l, (s.waiting n.id).line? slot = some l →
    g.Delivers exits l n slot

namespace Traced

theorem join (h : Traced g exits s) (hn : g.node? n.id = some n) {lines : List Line}
    (hlines : ∀ slot l, lines[slot]? = some l → g.Delivers exits l n slot) :
    Traced g exits (s.join n lines) := by
  unfold Run.join
  split
  · exact h
  · refine ⟨?_, h.waiting⟩
    intro u hu
    rcases List.mem_append.1 hu with hu | hu
    · exact h.queue u hu
    · rw [List.mem_singleton.1 hu]
      exact ⟨hn, hlines⟩

theorem join_singleton (h : Traced g exits s) (hn : g.node? n.id = some n)
    (hl : g.Delivers exits l n 0) : Traced g exits (s.join n [l]) := by
  apply h.join hn
  intro slot l' hl'
  cases slot with
  | zero => exact Option.some.inj hl' ▸ hl
  | succ slot => cases hl'

theorem park (h : Traced g exits s) (hn : g.node? n.id = some n) (i : Handle)
    (hl : g.Delivers exits l n i.slot) : Traced g exits (s.park n.id i.slot l) := by
  refine ⟨h.queue, fun m hm slot l' hl' => ?_⟩
  simp only [Run.park] at hl'
  split at hl'
  · next hid =>
    obtain rfl : m = n := Option.some.inj (hm.symm.trans (hid ▸ hn))
    by_cases hslot : slot = i.slot
    · rw [hslot, PendingInputs.line?_fill_self] at hl'
      obtain rfl := Option.some.inj hl'
      exact hslot ▸ hl
    · rw [PendingInputs.line?_fill_of_ne _ hslot] at hl'
      exact h.waiting m hm slot l' hl'
  · exact h.waiting m hm slot l' hl'

/-- **A line that arrives has a chain to its slot,** whatever becomes of it there. -/
theorem arrive (h : Traced g exits s) (hn : g.node? n.id = some n) {handle : Option Handle}
    (hl : ∀ slot, EntersSlot n.kind handle slot → g.Delivers exits l n slot) :
    Traced g exits (s.arrive n handle l) := by
  have harrival := s.arrival n handle l
  generalize s.arrive n handle l = s' at harrival ⊢
  cases harrival with
  | source _ => exact h
  | single hk => exact h.join_singleton hn (hl 0 (.only hk))
  | ignored _ _ => exact h
  | waiting hk hi hend _ =>
    subst hend
    exact h.park hn _ (hl _ (.input hk hi))
  | complete hk hi hend hlines =>
    subst hend
    have hpark := h.park hn _ (hl _ (.input hk hi))
    apply hpark.join hn
    intro slot l' hl'
    exact hpark.waiting n hn slot l' (PendingInputs.line?_eq_of_lines? hlines hl')

theorem follow (hexits : g.LeavesThrough exits) (h : Traced g exits s)
    (ht : TracedToken g exits t) (hm : t.node.kind.isMeasurement = false) {e : Edge}
    (he : e ∈ g.edges) (hsource : e.source = t.node.id) :
    Traced g exits (Run.follow (.build g) t s e) := by
  unfold Run.follow
  split
  · next l j hl hj =>
    rw [Adjacency.find?_build, Option.map_eq_some_iff] at hj
    obtain ⟨n, hn, rfl⟩ := hj
    have hid : n.id = e.target := (CircuitGraph.mem_of_node? hn).2
    have hlink : g.Link t.node e n := ⟨he, hsource ▸ ht.node?, hn⟩
    obtain ⟨slot, hslot, hleaves⟩ :=
      Token.exists_slot_of_lineAlong? hm (hexits e he t.node hlink.source) hl
    obtain ⟨q, hq, hchain⟩ := ht.delivers slot l hslot
    apply h.arrive (n := n) (hid ▸ hn)
    intro slot' henters
    exact ⟨q, hq, .wire hchain hlink hleaves henters⟩
  · exact h

theorem visit (hexits : g.LeavesThrough exits) (h : Traced g exits s)
    (ht : TracedToken g exits t) : Traced g exits (s.visit (.build g) t) := by
  have hmem : ∀ e ∈ outgoing (.build g) t, e ∈ g.edges ∧ e.source = t.node.id := by
    intro e he
    unfold outgoing at he
    rw [Adjacency.find?_build, ht.node?] at he
    have he : e ∈ ((g.wiresFrom t.node.id).filter g.joins).mergeSort Edge.leavesFirst := he
    rw [List.mem_mergeSort, List.mem_filter, CircuitGraph.mem_wiresFrom] at he
    exact he.1
  apply visit_preserves _ h
  intro hm s e he h
  exact h.follow hexits ht hm (hmem e he).1 (hmem e he).2

theorem pop (hexits : g.LeavesThrough exits) (h : Traced g exits s)
    (hq : takeLowest s.queue = some (t, rest)) :
    TracedToken g exits t ∧ Traced g exits (Run.visit (.build g) { s with queue := rest } t) := by
  have hperm := (perm_of_takeLowest hq).1
  have ht : TracedToken g exits t := h.queue t (hperm.mem_iff.2 List.mem_cons_self)
  have hrest : Traced g exits { s with queue := rest } :=
    ⟨fun u hu => h.queue u (hperm.mem_iff.2 (List.mem_cons_of_mem _ hu)), h.waiting⟩
  exact ⟨ht, hrest.visit hexits ht⟩

theorem steps (hexits : g.LeavesThrough exits) (h : Traced g exits s)
    (hsteps : Steps (.build g) s ts s') : ∀ t ∈ ts, TracedToken g exits t := by
  induction hsteps with
  | refl s => intro t ht; cases ht
  | pop hq _ ih =>
    obtain ⟨ht, hvisit⟩ := h.pop hexits hq
    exact List.forall_mem_cons.2 ⟨ht, ih hvisit⟩

theorem start (g : CircuitGraph) (exits : Handle → Prop) :
    Traced g exits (Run.start (.build g)) := by
  apply start_preserves
  · refine ⟨fun t ht => ?_, fun n _ slot l hl => ?_⟩
    · cases ht
    · unfold PendingInputs.line? at hl
      split at hl <;> cases hl
  · intro s n l hget hn h
    have hs : n.kind.isSource := (CircuitGraph.mem_orderedSources.1 (List.mem_of_getElem? hget)).2
    exact h.join_singleton hn ⟨n, hget, .start hs⟩

end Traced

end Run

/-! ## The schedule -/

section Schedule

variable {g : CircuitGraph} {exits : Handle → Prop}

theorem tracedToken_of_mem_visits (hexits : g.LeavesThrough exits) {t : Token}
    (ht : t ∈ g.visits) : Run.TracedToken g exits t := by
  obtain ⟨s, -, hsteps, -⟩ := g.exists_ledger_visits
  exact (Run.Traced.start g exits).steps hexits hsteps t ht

/-- **Every line of every operation has come along wires from its source,** in every graph.  A chain
of wires leads to the slot in which the operation has the line, and at a gate on two qubits it goes
on from the slot that it has entered; it does so through output handles if no wire of the graph
leaves such a gate with an input handle. -/
theorem exists_chain_of_mem_ops {op : ScheduledOp} (hop : op ∈ (schedule (.build g)).ops)
    {slot : Nat} {l : Line} (hl : op.inputs[slot]? = some l) :
    ∃ q n, g.orderedSources[l]? = some q ∧ g.node? op.node = some n ∧
      n.kind.operation? = some op.operation ∧
      g.Chain (fun _ => True) q n slot ∧
      (g.LeavesThrough Handle.IsOutput → g.Chain Handle.IsOutput q n slot) := by
  rw [ops_schedule] at hop
  obtain ⟨t, ht, hop⟩ := List.mem_filterMap.1 hop
  obtain ⟨o, ho, rfl⟩ := Option.map_eq_some_iff.1 hop
  have htraced : Run.TracedToken g (fun _ => True) t :=
    tracedToken_of_mem_visits (fun _ _ _ _ _ _ _ => trivial) ht
  obtain ⟨q, hq, hchain⟩ := htraced.delivers slot l hl
  refine ⟨q, t.node, hq, htraced.node?, ho, hchain, fun hexits => ?_⟩
  obtain ⟨q', hq', hchain'⟩ := (tracedToken_of_mem_visits hexits ht).delivers slot l hl
  obtain rfl : q' = q := Option.some.inj (hq'.symm.trans hq)
  exact hchain'

end Schedule

/-- Two lines change places between gates: `q` enters the first at the top and the second at the
bottom. -/
def swappedGraph : CircuitGraph :=
  ⟨[.atHeight "q" (.qubitSource .zero) .zero, .atHeight "r" (.qubitSource .one) .zero,
      .atHeight "cx" (.twoGate .cnot) .zero, .atHeight "cp" (.twoGate .cphase) .zero],
    [⟨none, "q", "cx", none, some .input1⟩, ⟨none, "r", "cx", none, some .input2⟩,
      ⟨none, "cx", "cp", some .output2, some .input1⟩,
      ⟨none, "cx", "cp", some .output1, some .input2⟩]⟩

/-- The line of `q` has come to the bottom of the second gate through output handles. -/
theorem exists_chain_swappedGraph :
    ⟨"cp", .two .cphase, [1, 0]⟩ ∈ (schedule (.build swappedGraph)).ops ∧
    swappedGraph.LeavesThrough Handle.IsOutput ∧
    ∃ q n, swappedGraph.orderedSources[0]? = some q ∧ swappedGraph.node? "cp" = some n ∧
      swappedGraph.Chain Handle.IsOutput q n 1 := by
  -- a run compares the heights of its sources; the equation for that comes with the submodules
  have hops : (schedule (.build swappedGraph)).ops =
      [⟨"cx", .two .cnot, [0, 1]⟩, ⟨"cp", .two .cphase, [1, 0]⟩] := by cbv
  have hop : ⟨"cp", .two .cphase, [1, 0]⟩ ∈ (schedule (.build swappedGraph)).ops := by
    rw [hops]
    decide
  have hexits : swappedGraph.LeavesThrough Handle.IsOutput := by
    have hends : ∀ e ∈ swappedGraph.edges, e.sourceHandle ≠ some .input1 ∧
        e.sourceHandle ≠ some .input2 := by decide
    intro e he m _ _ i hi
    obtain ⟨h₁, h₂⟩ := hends e he
    cases i with
    | input1 => exact absurd hi h₁
    | input2 => exact absurd hi h₂
    | output1 => rfl
    | output2 => rfl
  have hl : ([1, 0] : List Line)[1]? = some 0 := rfl
  obtain ⟨q, n, hq, hn, -, -, hchain⟩ := exists_chain_of_mem_ops hop hl
  exact ⟨hop, hexits, q, n, hq, hn, hchain hexits⟩

/-- A gate that is left through an input handle. -/
def misnamedGraph : CircuitGraph :=
  ⟨[.atHeight "q" (.qubitSource .zero) .zero, .atHeight "r" (.qubitSource .zero) .zero,
      .atHeight "cx" (.twoGate .cnot) .zero, .atHeight "m" .measurement .zero],
    [⟨none, "q", "cx", none, some .input1⟩, ⟨none, "r", "cx", none, some .input2⟩,
      ⟨none, "cx", "m", some .input1, none⟩]⟩

/-- The line of `q` is measured although it cannot leave the gate through an output handle. -/
theorem not_chain_misnamedGraph : misnamedGraph.ids.Nodup ∧
    ⟨"m", .measurement, [0]⟩ ∈ (schedule (.build misnamedGraph)).ops ∧
    ¬ ∃ q n, misnamedGraph.orderedSources[0]? = some q ∧ misnamedGraph.node? "m" = some n ∧
      misnamedGraph.Chain Handle.IsOutput q n 0 := by
  have hops : (schedule (.build misnamedGraph)).ops =
      [⟨"cx", .two .cnot, [0, 1]⟩, ⟨"m", .measurement, [0]⟩] := by cbv
  refine ⟨by decide, by rw [hops]; decide, ?_⟩
  rintro ⟨q, n, -, hn, hchain⟩
  obtain rfl : .atHeight "m" .measurement .zero = n := Option.some.inj hn
  cases hchain with
  | start hq => cases hq
  | @wire m' _ e slot _ _ hlink hleaves _ =>
    -- only one wire leads to the measurement
    have htarget : ∀ e ∈ misnamedGraph.edges, e.target = "m" →
        e = ⟨none, "cx", "m", some .input1, none⟩ := by decide
    obtain rfl := htarget e hlink.mem (CircuitGraph.mem_of_node? hlink.target).2.symm
    obtain rfl : .atHeight "cx" (.twoGate .cnot) .zero = m' := Option.some.inj hlink.source
    cases hleaves with
    | only hk => cases hk
    | exit _ hi => cases hi

end QuantumWiring

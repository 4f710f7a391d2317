import QuantumWiring.Proofs.Drawing.Sketch
import QuantumWiring.Proofs.Schedule.Interchange

/-!
# Drawing a program

A program is a list of gates on numbered lines.  It is drawn from left to right: one source for
each line, then each gate onto the places where its lines end by now, at last one measurement onto
each line.  The ids, the heights and the initial values are up to the layout (`Layout.Draws`).

A finished drawing is well formed (`Layout.Draws.wellFormed`), and its nodes in the order in which
they were placed are a complete history of it (`Layout.Draws.completeHistory`).  So every drawing
compiles, and what it compiles to is the program up to exchanges of neighbours without a common
line (`Layout.Draws.along_operations`).  Of all programs that differ by such exchanges it is always
the same one, whatever the layout (`Layout.Draws.map_event_visits_eq`).
-/

namespace QuantumWiring

/-- A gate on numbered lines. -/
inductive Instruction where
  | single (gate : SingleGate) (q : Line)
  | two (gate : TwoGate) (a b : Line)
deriving DecidableEq

namespace Instruction

def kind : Instruction → NodeKind
  | single gate _ => .singleGate gate
  | two gate _ _ => .twoGate gate

/-- The lines of the gate in the order of its slots. -/
def lines : Instruction → List Line
  | single _ q => [q]
  | two _ a b => [a, b]

/-- The gate acts on lines below `n`, a gate on two qubits on different ones. -/
def Fits (n : Nat) : Instruction → Prop
  | single _ q => q < n
  | two _ a b => a < n ∧ b < n ∧ a ≠ b

/-- The operation of a compiled circuit that the gate stands for. -/
def spec : Instruction → OperationSpec
  | single gate q => ⟨.single gate, [q]⟩
  | two gate a b => ⟨.two gate, [a, b]⟩

/-- What a visit of the gate does. -/
def event (i : Instruction) : Option Operation × List Line := (i.kind.operation?, i.lines)

theorem isGate_kind (i : Instruction) : i.kind.isGate := by cases i <;> rfl

theorem length_lines (i : Instruction) : i.lines.length = i.kind.numLines := by cases i <;> rfl

theorem lines_of_fits {n : Nat} {i : Instruction} (h : i.Fits n) :
    i.lines.Nodup ∧ i.lines ⊆ List.range n := by
  cases i with
  | single gate q =>
    have hq : q < n := h
    simp [lines, hq]
  | two gate a b =>
    obtain ⟨ha, hb, hab⟩ := h
    simp [lines, ha, hb, hab]

end Instruction

def OperationSpec.measure (l : Line) : OperationSpec := ⟨.measurement, [l]⟩

/-- The ids of the nodes of a drawing, their positions and the initial values of the qubits. -/
structure Layout where
  sourceId : Line → NodeId
  gateId : Nat → NodeId
  measurementId : Line → NodeId
  sourcePosition : Line → Position
  gatePosition : Nat → Position
  measurementPosition : Line → Position
  value : Line → QubitValue

namespace Layout

section Nodes

variable (L : Layout)

def source (l : Line) : Token := ⟨⟨L.sourceId l, .qubitSource (L.value l), L.sourcePosition l⟩, [l]⟩

/-- The `k`-th gate. -/
def gate (k : Nat) (i : Instruction) : Token := ⟨⟨L.gateId k, i.kind, L.gatePosition k⟩, i.lines⟩

def measurement (l : Line) : Token :=
  ⟨⟨L.measurementId l, .measurement, L.measurementPosition l⟩, [l]⟩

def sources (n : Nat) : List Token := (List.range n).map L.source

def gates (p : List Instruction) : List Token := p.zipIdx.map fun (i, k) => L.gate k i

def measurements (n : Nat) : List Token := (List.range n).map L.measurement

/-- The lines end at their sources. -/
def blank (n : Nat) : Sketch :=
  ⟨⟨(L.sources n).map (·.node), []⟩, fun l => (L.sourceId l, none)⟩

/-- The drawing of a program on `n` lines. -/
def draw (n : Nat) (p : List Instruction) : CircuitGraph :=
  ((L.gates p ++ L.measurements n).foldl Sketch.place (L.blank n)).graph

/-- The layout draws the program: there is a line, the gates fit, no id is used twice, and the
sources stand from top to bottom. -/
structure Draws (n : Nat) (p : List Instruction) : Prop where
  pos : 1 ≤ n
  fits : ∀ i ∈ p, i.Fits n
  ids_nodup : (L.draw n p).ids.Nodup
  heights : ∀ l l', l < l' → l' < n → (L.sourcePosition l).y.lt (L.sourcePosition l').y

end Nodes

end Layout

/-! ## Placing many nodes -/

namespace Sketch

variable {s : Sketch} {done ts : List Token} {ls : List Line}

theorem ids_place (s : Sketch) (t : Token) :
    (s.place t).graph.ids = s.graph.ids ++ [t.node.id] := List.map_append

theorem ids_foldl_place (s : Sketch) (ts : List Token) :
    (ts.foldl place s).graph.ids = s.graph.ids ++ visitedIds ts := by
  induction ts generalizing s with
  | nil => simp
  | cons t ts ih => rw [List.foldl_cons, ih, ids_place, visitedIds_cons, ← List.append_cons]

namespace Drawn

/-- Gates leave the open lines open. -/
theorem foldl_gates (h : s.Drawn done ls) (hids : (s.graph.ids ++ visitedIds ts).Nodup)
    (hts : ∀ t ∈ ts, t.node.kind.isGate ∧ t.lines.length = t.node.kind.numLines ∧
      t.lines.Nodup ∧ t.lines ⊆ ls) : (ts.foldl Sketch.place s).Drawn (done ++ ts) ls := by
  induction ts generalizing s done with
  | nil => simpa using h
  | cons t ts ih =>
    obtain ⟨⟨hgate, hlen, hnodup, hsub⟩, hts⟩ := List.forall_mem_cons.1 hts
    obtain ⟨ls', hls', hsublist⟩ := List.subperm_of_subset hnodup hsub
    obtain ⟨rest, hrest⟩ := hsublist.exists_perm_append
    have hrest : ls.Perm (t.lines ++ rest) := hrest.trans (hls'.append_right rest)
    have hs : t.node.kind.isSource = false := NodeKind.isSource_eq_false_iff.2 (.inl hgate)
    have hsent : t.sent = t.lines := by
      rw [Token.sent, NodeKind.isMeasurement_of_isGate hgate]
      rfl
    rw [visitedIds_cons, List.append_cons] at hids
    have hnew : t.node.id ∉ s.graph.ids := fun hmem =>
      List.disjoint_of_nodup_append hids.of_append_left hmem List.mem_cons_self
    have hplaced := (h.perm hrest).place hnew hs hlen
    rw [hsent] at hplaced
    rw [List.foldl_cons, List.append_cons]
    exact ih (hplaced.perm hrest.symm) (s.ids_place t ▸ hids) hts

/-- Measurements close all lines. -/
theorem foldl_measurements (L : Layout) (h : s.Drawn done ls)
    (hids : (s.graph.ids ++ visitedIds (ls.map L.measurement)).Nodup) :
    ((ls.map L.measurement).foldl Sketch.place s).Drawn (done ++ ls.map L.measurement) [] := by
  induction ls generalizing s done with
  | nil => simpa using h
  | cons l ls ih =>
    rw [List.map_cons, visitedIds_cons, List.append_cons] at hids
    have hnew : (L.measurement l).node.id ∉ s.graph.ids := fun hmem =>
      List.disjoint_of_nodup_append hids.of_append_left hmem List.mem_cons_self
    have hplaced := Drawn.place (t := L.measurement l) h hnew rfl rfl
    rw [List.map_cons, List.foldl_cons, List.append_cons]
    exact ih hplaced (s.ids_place _ ▸ hids)

end Drawn

end Sketch

/-! ## Sources from top to bottom -/

/-- What is lower as a number comes later in the order of bit patterns. -/
theorem Binary64.rank_lt_of_lt {x y : Binary64} (h : x.lt y) : x.rank < y.rank := by
  have hlevel : x.level < y.level := by
    simp only [lt, Bool.and_eq_true, decide_eq_true_eq] at h
    exact h.2
  revert hlevel
  unfold level rank
  cases x.isNegative <;> cases y.isNegative <;>
    simp only [Bool.false_eq_true, if_false, if_true] <;> omega

namespace Layout

variable {L : Layout} {n : Nat} {p : List Instruction}

section Blank

variable (h : ∀ l l', l < l' → l' < n → (L.sourcePosition l).y.lt (L.sourcePosition l').y)
include h

theorem orderedSources_blank :
    (L.blank n).graph.orderedSources = (L.sources n).map (·.node) := by
  have hsources : (L.blank n).graph.sources = (L.sources n).map (·.node) := by
    refine List.filter_eq_self.2 fun m hm => ?_
    obtain ⟨t, ht, rfl⟩ := List.mem_map.1 hm
    obtain ⟨l, -, rfl⟩ := List.mem_map.1 ht
    rfl
  rw [CircuitGraph.orderedSources, hsources]
  refine List.mergeSort_of_pairwise ?_
  rw [sources, List.map_map, List.pairwise_map]
  refine List.pairwise_lt_range.imp_of_mem fun {l l'} _ hl' hlt => ?_
  have hrank := Binary64.rank_lt_of_lt (h l l' hlt (List.mem_range.1 hl'))
  simp [Node.isAbove, source, hrank]

theorem drawn_blank (hids : (visitedIds (L.sources n)).Nodup) : (L.blank n).Drawn (L.sources n)
    (List.range n) := by
  refine ⟨⟨fun {before t after} hd => ?_, hids⟩, rfl, ?_, ?_, fun l hl => ?_, List.nodup_range⟩
  · have ht : t ∈ L.sources n := hd ▸ List.mem_append_right _ List.mem_cons_self
    obtain ⟨l, hl, rfl⟩ := List.mem_map.1 ht
    refine .source ?_
    rw [orderedSources_blank h, sources, List.map_map, List.getElem?_map,
      List.getElem?_range (List.mem_range.1 hl)]
    rfl
  · refine (List.flatMap_eq_nil_iff.2 fun m hm => ?_).symm
    obtain ⟨t, ht, rfl⟩ := List.mem_map.1 hm
    obtain ⟨l, -, rfl⟩ := List.mem_map.1 ht
    rfl
  · refine .of_eq ?_
    simp [blank, sources, List.map_eq_flatMap, List.flatMap_assoc, source, Node.outputPorts,
      NodeKind.outputHandles]
  · exact ⟨L.source l, List.mem_map_of_mem hl, rfl, fun _ _ => rfl⟩

end Blank

/-! ## Finished drawings -/

/-- The nodes of the drawing with their lines, in the order in which they are placed. -/
def tokens (L : Layout) (n : Nat) (p : List Instruction) : List Token :=
  L.sources n ++ (L.gates p ++ L.measurements n)

theorem ids_draw (L : Layout) (n : Nat) (p : List Instruction) :
    (L.draw n p).ids = visitedIds (L.tokens n p) := by
  rw [draw, Sketch.ids_foldl_place, tokens, visitedIds_append (L.sources n)]
  simp [CircuitGraph.ids, blank, visitedIds]

namespace Draws

variable (h : L.Draws n p)
include h

/-- A drawing ends with all lines closed. -/
theorem drawn : ((L.gates p ++ L.measurements n).foldl Sketch.place (L.blank n)).Drawn
    (L.tokens n p) [] := by
  have hids := h.ids_nodup
  rw [ids_draw, tokens, visitedIds_append, visitedIds_append, ← List.append_assoc] at hids
  have hblank := drawn_blank h.heights hids.of_append_left.of_append_left
  rw [hblank.visitedIds_eq] at hids
  have hgates := hblank.foldl_gates hids.of_append_left fun t ht => by
    obtain ⟨⟨i, k⟩, hi, rfl⟩ := List.mem_map.1 ht
    have hfits := Instruction.lines_of_fits (h.fits i (List.fst_mem_of_mem_zipIdx hi))
    exact ⟨i.isGate_kind, i.length_lines, hfits⟩
  have hmeasured := hgates.foldl_measurements L (by
    rw [Sketch.ids_foldl_place]
    exact hids)
  rw [List.foldl_append, tokens, ← List.append_assoc]
  exact hmeasured

theorem wellFormed : (L.draw n p).WellFormed := by
  have hdrawn := h.drawn
  have hsources := hdrawn.sources
  rw [List.map_nil, List.append_nil] at hsources
  refine CircuitGraph.wellFormed_of_ports h.ids_nodup (.of_eq hdrawn.targets) hsources ?_
  refine List.ne_nil_of_mem (a := (L.source 0).node) (List.mem_filter.2 ⟨?_, rfl⟩)
  have hmem : L.source 0 ∈ L.tokens n p :=
    List.mem_append_left _ (List.mem_map_of_mem (List.mem_range.2 h.pos))
  exact hdrawn.nodes ▸ List.mem_map_of_mem hmem

theorem completeHistory : (L.draw n p).CompleteHistory (L.tokens n p) := by
  refine ⟨h.drawn.history, fun m hm => ?_⟩
  rw [← ids_draw]
  exact CircuitGraph.mem_ids hm

end Draws

/-! ## What a drawing compiles to -/

/-- What is done along the lines of a drawing does not depend on the layout. -/
theorem map_event_tokens (L : Layout) (n : Nat) (p : List Instruction) :
    (L.tokens n p).map Token.event = (List.range n).map (fun l => (none, [l])) ++
      (p.map Instruction.event ++ (List.range n).map fun l => (some .measurement, [l])) := by
  have hgates : (L.gates p).map Token.event = p.map Instruction.event := by
    rw [gates, List.map_map]
    conv_rhs => rw [← List.zipIdx_map_fst 0 p, List.map_map]
    rfl
  simp only [tokens, List.map_append, hgates, sources, measurements, List.map_map]
  rfl

theorem filterMap_spec?_tokens (L : Layout) (n : Nat) (p : List Instruction) :
    (L.tokens n p).filterMap Token.spec? =
      p.map Instruction.spec ++ (List.range n).map OperationSpec.measure := by
  have hspec (i : Instruction) :
      i.event.1.map (fun op => (⟨op, i.event.2⟩ : OperationSpec)) = some i.spec := by
    cases i <;> rfl
  rw [filterMap_spec?, map_event_tokens, List.filterMap_append, List.filterMap_append,
    List.filterMap_map, List.filterMap_map, List.filterMap_map]
  simp only [Function.comp_def, hspec, Option.map_none, Option.map_some]
  simp [OperationSpec.measure]

namespace Draws

variable {L' : Layout} {p' : List Instruction} (h : L.Draws n p)
include h

theorem completeHistory_visits : (L.draw n p).CompleteHistory (L.draw n p).visits :=
  h.completeHistory.visits h.wellFormed

/-- The operations of a drawing are those of its program along every line. -/
theorem along_operations (l : Line) :
    along OperationSpec.inputs l ((L.draw n p).visits.filterMap Token.spec?) =
      along OperationSpec.inputs l
        (p.map Instruction.spec ++ (List.range n).map OperationSpec.measure) := by
  have hinputs (t : Token) (op : OperationSpec) (ht : t.spec? = some op) : op.inputs = t.lines :=
    (Token.spec?_eq_some.1 ht).2.symm
  rw [← L.filterMap_spec?_tokens, along_filterMap hinputs, along_filterMap hinputs,
    h.completeHistory_visits.along_eq h.wellFormed h.completeHistory]

/-- **Drawings of interchangeable programs are visited in the same way.** -/
theorem map_event_visits_eq (h' : L'.Draws n p') (hp : Interchangeable Instruction.lines p p') :
    (L.draw n p).visits.map Token.event = (L'.draw n p').visits.map Token.event := by
  refine h.completeHistory.map_event_visits_eq h.wellFormed h'.wellFormed h'.completeHistory
    fun l => ?_
  have hmap (p : List Instruction) : along Prod.snd l (p.map Instruction.event) =
      (along Instruction.lines l p).map Instruction.event := along_map (fun _ => rfl) p
  simp only [map_event_tokens, along_append, hmap, hp.along_eq l]

theorem exists_compile (mode : EndpointMode) : ∃ c, compile mode (L.draw n p) = .ok c ∧
    c.operations = specsFor mode (L.draw n p).visits := by
  have haccepted := CircuitGraph.accepted_iff_wellFormed.2 h.wellFormed
  have hnil := (stalled_eq_nil_iff_completeHistory h.wellFormed).2 h.completeHistory_visits
  have hc := compile_of_accepted haccepted mode
  rw [if_pos hnil] at hc
  exact ⟨_, hc, (compile_eq_ok haccepted hc).2.2⟩

end Draws

end Layout

theorem specsFor_eq_of_map_event_eq {done done' : List Token}
    (h : done.map Token.event = done'.map Token.event) (mode : EndpointMode) :
    specsFor mode done = specsFor mode done' := by
  rw [specsFor, specsFor, filterMap_spec?, filterMap_spec?, h]

theorem along_measure {n : Nat} {l : Line} (hl : l < n) :
    along OperationSpec.inputs l ((List.range n).map OperationSpec.measure) = [.measure l] := by
  have hpick : (List.range n).filter (l ∈ [·]) = [l] := by
    have := filter_key_eq_singleton id (l := List.range n) (by simp [List.nodup_range])
      (List.mem_range.2 hl)
    simpa [eq_comm] using this
  have hinputs (l : Line) : (OperationSpec.measure l).inputs = [l] := rfl
  rw [along_map hinputs, along, hpick, List.map_singleton]

/-- A drawing keeps the standard rules and compiles for both endpoints.  The circuit is the program
followed by one measurement for each line, up to exchanges of neighbours without a common line, so
along each line it does what the program does and then measures.  Programs that differ by such
exchanges compile to the same operations, however they are drawn. -/
theorem compile_draw {L : Layout} {n : Nat} {p : List Instruction} (h : L.Draws n p) :
    (L.draw n p).Accepted ∧ (∀ mode, ∃ c, compile mode (L.draw n p) = .ok c) ∧
    (∃ c, compile .circuit (L.draw n p) = .ok c ∧
      Interchangeable OperationSpec.inputs c.operations
        (p.map Instruction.spec ++ (List.range n).map OperationSpec.measure) ∧
      ∀ l < n, along OperationSpec.inputs l c.operations =
        along OperationSpec.inputs l (p.map Instruction.spec) ++ [.measure l]) ∧
    ∀ (L' : Layout) (p' : List Instruction), L'.Draws n p' →
      Interchangeable Instruction.lines p p' → ∀ mode, ∃ c c',
        compile mode (L.draw n p) = .ok c ∧ compile mode (L'.draw n p') = .ok c' ∧
        c.operations = c'.operations := by
  refine ⟨CircuitGraph.accepted_iff_wellFormed.2 h.wellFormed,
    fun mode => (h.exists_compile mode).imp fun c hc => hc.1, ?_, fun L' p' h' hp mode => ?_⟩
  · obtain ⟨c, hc, hops⟩ := h.exists_compile .circuit
    rw [specsFor_circuit] at hops
    have halong := h.along_operations
    rw [← hops] at halong
    refine ⟨c, hc, (interchangeable_iff_along_eq ?_ ?_).2 halong, fun l hl => ?_⟩
    · intro op hop hnil
      rw [hops] at hop
      obtain ⟨t, ht, hto⟩ := List.mem_filterMap.1 hop
      rw [← (Token.spec?_eq_some.1 hto).2] at hnil
      exact h.completeHistory_visits.lines_ne_nil h.wellFormed ht hnil
    · intro op hop
      rcases List.mem_append.1 hop with hop | hop
      · obtain ⟨i, -, rfl⟩ := List.mem_map.1 hop
        cases i <;> simp [Instruction.spec]
      · obtain ⟨l, -, rfl⟩ := List.mem_map.1 hop
        simp [OperationSpec.measure]
    · rw [halong, along_append, along_measure hl]
  · obtain ⟨c, hc, hops⟩ := h.exists_compile mode
    obtain ⟨c', hc', hops'⟩ := h'.exists_compile mode
    refine ⟨c, c', hc, hc', ?_⟩
    rw [hops, hops', specsFor_eq_of_map_event_eq (h.map_event_visits_eq h' hp)]

/-- A layout with one column, the sources from height 0 on. -/
def plainLayout : Layout where
  sourceId l := "q" ++ toString l
  gateId k := "g" ++ toString k
  measurementId l := "m" ++ toString l
  sourcePosition l := ⟨.zero, .ofMagnitude false l⟩
  gatePosition _ := .origin
  measurementPosition l := ⟨.zero, .ofMagnitude false l⟩
  value _ := .zero

/-- The two first gates share no line, so it does not matter which of them is drawn first. -/
theorem compile_plainLayout : ∃ c c',
    compile .circuit (plainLayout.draw 2
      [.single .hadamard 0, .single .pauliX 1, .two .cnot 1 0]) = .ok c ∧
    compile .circuit (plainLayout.draw 2
      [.single .pauliX 1, .single .hadamard 0, .two .cnot 1 0]) = .ok c' ∧
    c.operations = c'.operations := by
  have hheights (l l' : Nat) (hlt : l < l') (hl' : l' < 2) :
      (plainLayout.sourcePosition l).y.lt (plainLayout.sourcePosition l').y := by
    obtain rfl : l = 0 := by omega
    obtain rfl : l' = 1 := by omega
    decide
  have h : plainLayout.Draws 2 [.single .hadamard 0, .single .pauliX 1, .two .cnot 1 0] :=
    ⟨by decide, by simp [Instruction.Fits], by decide +kernel, hheights⟩
  have h' : plainLayout.Draws 2 [.single .pauliX 1, .single .hadamard 0, .two .cnot 1 0] :=
    ⟨by decide, by simp [Instruction.Fits], by decide +kernel, hheights⟩
  have hp : Interchangeable Instruction.lines
      [.single .hadamard 0, .single .pauliX 1, .two .cnot 1 0]
      [.single .pauliX 1, .single .hadamard 0, .two .cnot 1 0] :=
    .single (Swapped.swap [] [Instruction.two .cnot 1 0] (by simp [Instruction.lines]))
  exact (compile_draw h).2.2.2 plainLayout _ h' hp .circuit

end QuantumWiring

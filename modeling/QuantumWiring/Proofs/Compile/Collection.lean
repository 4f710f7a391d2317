import QuantumWiring.Proofs.Graph.Namesakes
import QuantumWiring.Proofs.Graph.Report
import QuantumWiring.Proofs.Schedule.Cycle
import Mathlib.Algebra.Module.Submodule.Lattice

/-!
# The collection order has no influence

The editor keeps nodes and wires in the order in which they were drawn.  Two graphs with the same
nodes and wires in different orders have the same adjacency as far as anything reads it: at each
node as many wires enter, and wires leave in the same order (`Junction.Alike`).  The wires that
leave a node are sorted by what a run reads of them, so wires that tie in that order differ in
their editor ids at most (`map_anonymous_outgoing`).  Where ids are distinct, every rule therefore
finds the same and the run makes the same visits, however malformed the wiring is
(`compileWith_eq_of_perm`); where they repeat, the rules still find the same as long as the nodes of
each id come in the same order (`Rule.check_eq_of_namesakes`).
-/

namespace QuantumWiring

/-- A wire without its editor id. -/
def Edge.anonymous (e : Edge) : Edge := { e with id := none }

/-- Junctions of one node that differ in the collection order of their wires at most. -/
structure Junction.Alike (j k : Junction) : Prop where
  node : j.node = k.node
  inDegree : j.inDegree = k.inDegree
  outDegree : j.outDegree = k.outDegree
  incoming : j.incoming.Perm k.incoming
  outgoing : j.outgoing.map Edge.anonymous = k.outgoing.map Edge.anonymous

namespace Junction.Alike

variable {j k : Junction} (h : j.Alike k)
include h

theorem entering_eq (i : Handle) : j.entering i = k.entering i := h.incoming.countP_eq _

theorem leaving_eq (i : Handle) : j.leaving i = k.leaving i := by
  have hcount (es : List Edge) : es.countP (·.sourceHandle = some i) =
      (es.map Edge.anonymous).countP (·.sourceHandle = some i) := by
    rw [List.countP_map]
    rfl
  unfold leaving
  rw [hcount, h.outgoing, ← hcount]

end Junction.Alike

theorem Rule.gateDegrees_eq_of_alike {j k : Junction} (h : j.Alike k) (arity : Nat)
    (name : String) : gateDegrees arity name j = gateDegrees arity name k := by
  unfold gateDegrees
  rw [h.node, h.inDegree, h.outDegree]

theorem Rule.handleUse_eq_of_alike {j k : Junction} (h : j.Alike k) (gate : TwoGate) :
    handleUse j gate = handleUse k gate := by
  unfold handleUse
  simp only [h.node, h.entering_eq, h.leaving_eq]

/-- The least element does not depend on the order. -/
theorem Rule.least?_eq_of_perm {α : Type} [LinearOrder α] {l l' : List α} (h : l.Perm l') :
    least? (fun a b : α => a < b) l = least? (fun a b : α => a < b) l' := by
  have hlt (a b : α) : decide (a < b) = true ↔ id a < id b := decide_eq_true_iff
  cases ha : least? (fun a b : α => a < b) l with
  | none =>
    rw [least?_eq_none_iff] at ha
    rw [eq_comm, least?_eq_none_iff, ← List.nil_perm, ← ha]
    exact h
  | some a =>
    cases hb : least? (fun a b : α => a < b) l' with
    | none =>
      rw [least?_eq_none_iff] at hb
      rw [hb, List.perm_nil] at h
      rw [h] at ha
      cases ha
    | some b =>
      obtain ⟨ha, hleast⟩ := least?_eq_some id hlt ha
      obtain ⟨hb, hleast'⟩ := least?_eq_some id hlt hb
      exact congrArg some (le_antisymm (hleast b (h.mem_iff.2 hb)) (hleast' a (h.mem_iff.1 ha)))

/-! ## What a rule finds -/

section Findings

variable (f : Junction → Option Violation)

/-- What is found at a junction, with the id there. -/
def Junction.finding (j : Junction) : NodeId × Option Violation := (j.node.id, f j)

theorem findSome?_eq_finding (js : List Junction) :
    js.findSome? f = (js.map (Junction.finding f)).findSome? (·.2) := by
  rw [List.findSome?_map]
  rfl

theorem map_finding_sorted (a : Adjacency) : a.sorted.map (Junction.finding f) =
    (a.junctions.map (Junction.finding f)).mergeSort fun p q => p.1 ≤ q.1 := by
  rw [Adjacency.sorted_eq_mergeSort]
  exact List.map_mergeSort fun _ _ _ _ => rfl

/-- What is found at the nodes of one id, in collection order. -/
theorem filter_finding_build (g : CircuitGraph) (id : NodeId) :
    ((Adjacency.build g).junctions.map (Junction.finding f)).filter (·.1 = id) =
      ((g.namesakes id).head?.map (Junction.finding f ∘ g.junction)).toList ++
        (g.namesakes id).tail.map (Junction.finding f ∘ .bare) := by
  rw [List.filter_map]
  show ((Adjacency.build g).junctions.filter (·.node.id = id)).map (Junction.finding f) = _
  rw [Adjacency.filter_junctions_build, List.map_append, List.map_map]
  cases (g.namesakes id).head? <;> rfl

end Findings

/-! ## Runs step by step -/

namespace Run

/-- Runs that make the same visits one by one make the same visits. -/
theorem visits_eq_of_visit_eq {a b : Adjacency} (h : ∀ s t, visit a s t = visit b s t) (s : Run) :
    visits a s = visits b s := by
  cases hq : takeLowest s.queue with
  | none =>
    have hnil := takeLowest_eq_none_iff.1 hq
    rw [visits_of_queue_eq_nil hnil, visits_of_queue_eq_nil hnil]
  | some p =>
    obtain ⟨t, rest⟩ := p
    have hlt : (visit a { s with queue := rest } t).pending a < s.pending a :=
      pending_visit_lt hq
    rw [visits_of_takeLowest hq, visits_of_takeLowest hq, ← h,
      visits_eq_of_visit_eq h (visit a { s with queue := rest } t)]
termination_by s.pending a

/-- Following a wire does not look at its editor id. -/
theorem visitAlong_map_anonymous (a : Adjacency) (s : Run) (t : Token) (es : List Edge) :
    visitAlong a s t (es.map Edge.anonymous) = visitAlong a s t es := by
  unfold visitAlong
  rw [List.foldl_map]
  rfl

end Run

/-! ## The adjacency -/

section Perm

variable {g g' : CircuitGraph} (hids : g.ids.Nodup) (hnodes : g.nodes.Perm g'.nodes)
  (hedges : g.edges.Perm g'.edges)

namespace CircuitGraph

theorem node?_eq_some_iff {g : CircuitGraph} (h : g.ids.Nodup) {id : NodeId} {n : Node} :
    g.node? id = some n ↔ n ∈ g.nodes ∧ n.id = id := by
  refine ⟨mem_of_node?, ?_⟩
  rintro ⟨hn, rfl⟩
  exact node?_eq_some h hn

include hnodes

theorem ids_perm : g.ids.Perm g'.ids := hnodes.map _

theorem joins_eq_of_perm : g.joins = g'.joins := by
  funext e
  simp only [joins, (ids_perm hnodes).mem_iff]

include hids

theorem ids_nodup_of_perm : g'.ids.Nodup := (ids_perm hnodes).nodup_iff.1 hids

theorem node?_eq_of_perm (id : NodeId) : g.node? id = g'.node? id := by
  ext n
  rw [node?_eq_some_iff hids, node?_eq_some_iff (ids_nodup_of_perm hids hnodes), hnodes.mem_iff]

theorem orderedSources_eq_of_perm : g.orderedSources = g'.orderedSources := by
  refine mergeSort_eq_of_perm Node.heightKey Node.isAbove_iff (fun m hm n hn heq => ?_)
    (hnodes.filter _)
  exact eq_of_id_eq hids (List.mem_filter.1 hm).1 (List.mem_filter.1 hn).1
    (Node.id_eq_of_heightKey_eq heq)

omit hids
include hedges

/-- Wires that leave a node and tie in their order are alike but for their editor ids. -/
theorem map_anonymous_outgoing (n : Node) : (g.junction n).outgoing.map Edge.anonymous =
    (g'.junction n).outgoing.map Edge.anonymous := by
  have hsort (es : List Edge) : (es.mergeSort Edge.leavesFirst).map Edge.anonymous =
      (es.map Edge.anonymous).mergeSort Edge.leavesFirst :=
    List.map_mergeSort fun _ _ _ _ => rfl
  have hperm : ((g.wiresFrom n.id).filter g.joins).Perm
      ((g'.wiresFrom n.id).filter g'.joins) := by
    rw [joins_eq_of_perm hnodes]
    exact (hedges.filter _).filter _
  unfold junction
  rw [hsort, hsort]
  refine mergeSort_eq_of_perm Edge.followKey Edge.leavesFirst_iff ?_ (hperm.map _)
  intro a' ha' b' hb' heq
  obtain ⟨a, ha, rfl⟩ := List.mem_map.1 ha'
  obtain ⟨b, hb, rfl⟩ := List.mem_map.1 hb'
  have hsource : a.source = b.source := by
    rw [(mem_wiresFrom.1 (List.mem_filter.1 ha).1).2, (mem_wiresFrom.1 (List.mem_filter.1 hb).1).2]
  obtain ⟨hfrom, hrest⟩ := Prod.mk.inj heq
  obtain ⟨htarget, hto⟩ := Prod.mk.inj hrest
  have hfrom : a.sourceHandle = b.sourceHandle := Handle.order_injective hfrom
  have hto : a.targetHandle = b.targetHandle := Handle.order_injective hto
  have htarget : a.target = b.target := htarget
  simp [Edge.anonymous, hsource, htarget, hfrom, hto]

theorem junction_alike (n : Node) : (g.junction n).Alike (g'.junction n) where
  node := rfl
  inDegree := (hedges.filter _).length_eq
  outDegree := (hedges.filter _).length_eq
  incoming := by
    unfold junction
    rw [joins_eq_of_perm hnodes]
    exact (hedges.filter _).filter _
  outgoing := map_anonymous_outgoing hnodes hedges n

end CircuitGraph

/-! ## The rules -/

section Rules

include hnodes hedges

theorem CircuitGraph.Reports.of_perm {v : Violation} (h : g.Reports .wireEndpoints v) :
    g'.Reports .wireEndpoints v := by
  have hjoins : g.joins = g'.joins := joins_eq_of_perm hnodes
  cases h with
  | @danglingWire e he hj hleast =>
    simp only [(ids_perm hnodes).mem_iff]
    refine .danglingWire (hedges.mem_iff.1 he) (hjoins ▸ hj) fun e' he' hj' => ?_
    exact hleast e' (hedges.mem_iff.2 he') (hjoins ▸ hj')
  | atNode hn hv => cases hv

/-- Where namesakes come in the same order, a rule that goes over the junctions finds the same. -/
theorem findSome?_sorted_eq_of_namesakes (hsame : ∀ id, g.namesakes id = g'.namesakes id)
    {f : Junction → Option Violation} (hf : ∀ j k : Junction, j.Alike k → f j = f k) :
    (Adjacency.build g).sorted.findSome? f = (Adjacency.build g').sorted.findSome? f := by
  have hjunction : Junction.finding f ∘ g.junction = Junction.finding f ∘ g'.junction := by
    funext n
    exact congrArg (n.id, ·) (hf _ _ (CircuitGraph.junction_alike hnodes hedges n))
  have hsorted : (Adjacency.build g).sorted.map (Junction.finding f) =
      (Adjacency.build g').sorted.map (Junction.finding f) := by
    rw [map_finding_sorted, map_finding_sorted]
    apply mergeSort_eq_of_filter_eq Prod.fst (fun p q => by simp)
    intro id
    rw [filter_finding_build, filter_finding_build, hsame, hjunction]
  rw [findSome?_eq_finding, findSome?_eq_finding, hsorted]

/-- Repeated ids and wires with a missing end are found in every collection order. -/
theorem Rule.check_wireEndpoints_eq_of_perm :
    check (.build g) .wireEndpoints = check (.build g') .wireEndpoints := by
  by_cases hids : g.ids.Nodup
  · have hids' : g'.ids.Nodup := CircuitGraph.ids_nodup_of_perm hids hnodes
    ext v
    rw [check_wireEndpoints_eq_some_iff hids, check_wireEndpoints_eq_some_iff hids']
    exact ⟨.of_perm hnodes hedges, .of_perm hnodes.symm hedges.symm⟩
  · have hleast : least? (fun a b : NodeId => a < b) (Adjacency.build g).duplicates =
        least? (fun a b : NodeId => a < b) (Adjacency.build g').duplicates := by
      rw [Adjacency.duplicates_build, Adjacency.duplicates_build]
      exact least?_eq_of_perm (repeatedIds_perm hnodes)
    unfold check
    simp only [← hleast]
    cases h : least? (fun a b : NodeId => a < b) (Adjacency.build g).duplicates with
    | none =>
      rw [least?_eq_none_iff, Adjacency.duplicates_build_eq_nil_iff] at h
      exact absurd h hids
    | some id => rfl

/-- The rules that do not go over the junctions find the same in every collection order. -/
theorem Rule.check_eq_of_perm {r : Rule}
    (hr : r ∈ [qubitPresence, measurementParity, wireEndpoints]) :
    check (.build g) r = check (.build g') r := by
  have hsources : g.sources.Perm g'.sources := hnodes.filter _
  have hmeasurements : g.measurements.Perm g'.measurements := hnodes.filter _
  simp only [List.mem_cons, List.not_mem_nil, or_false] at hr
  rcases hr with rfl | rfl | rfl
  · simp only [check, Adjacency.graph_build, ← List.length_eq_zero_iff, hsources.length_eq]
  · simp only [check, Adjacency.graph_build, hsources.length_eq, hmeasurements.length_eq]
  · exact check_wireEndpoints_eq_of_perm hnodes hedges

/-- A rule finds the same wherever namesakes come in the same order. -/
theorem Rule.check_eq_of_namesakes (hsame : ∀ id, g.namesakes id = g'.namesakes id) (r : Rule) :
    check (.build g) r = check (.build g') r := by
  have hsorted {f : Junction → Option Violation} (hf : ∀ j k : Junction, j.Alike k → f j = f k) :=
    findSome?_sorted_eq_of_namesakes hnodes hedges hsame hf
  cases r with
  | qubitPresence | measurementParity | wireEndpoints =>
    exact check_eq_of_perm hnodes hedges (by decide)
  | qubitFanOut => exact hsorted fun j k h => by rw [h.node, h.outDegree]
  | gateDegree =>
    refine congrArg₂ Option.or (hsorted fun j k h => ?_) (hsorted fun j k h => ?_)
    · simp only [h.node, gateDegrees_eq_of_alike h]
    · simp only [h.node, gateDegrees_eq_of_alike h]
  | measurementFanIn => exact hsorted fun j k h => by rw [h.node, h.inDegree]
  | noOrphanGates => exact hsorted fun j k h => by rw [h.node, h.inDegree, h.outDegree]
  | terminalDirection => exact hsorted fun j k h => by rw [h.node, h.inDegree, h.outDegree]
  | handleAssignment => exact hsorted fun j k h => by simp only [h.node, handleUse_eq_of_alike h]

theorem firstViolation?_eq_of_namesakes (hsame : ∀ id, g.namesakes id = g'.namesakes id)
    (rules : List Rule) :
    firstViolation? rules (.build g) = firstViolation? rules (.build g') := by
  unfold firstViolation?
  rw [funext (Rule.check_eq_of_namesakes hnodes hedges hsame)]

include hids

/-- **A list of rules finds the same in every collection order.** -/
theorem firstViolation?_eq_of_perm (rules : List Rule) :
    firstViolation? rules (.build g) = firstViolation? rules (.build g') :=
  firstViolation?_eq_of_namesakes hnodes hedges (CircuitGraph.namesakes_eq_of_nodup hnodes hids)
    rules

end Rules

/-! ## Runs -/

section Runs

include hids hnodes hedges

theorem Run.visit_eq_of_perm (s : Run) (t : Token) :
    visit (.build g) s t = visit (.build g') s t := by
  have hnode (id : NodeId) : g'.node? id = g.node? id :=
    (CircuitGraph.node?_eq_of_perm hids hnodes id).symm
  have hfollow : follow (.build g) t = follow (.build g') t := by
    funext s e
    simp only [follow, Adjacency.find?_build, hnode]
    cases t.lineAlong? e <;> cases g.node? e.target <;> rfl
  have hout : (outgoing (.build g) t).map Edge.anonymous =
      (outgoing (.build g') t).map Edge.anonymous := by
    unfold outgoing
    rw [Adjacency.find?_build, Adjacency.find?_build, hnode]
    cases g.node? t.node.id with
    | none => rfl
    | some n => exact CircuitGraph.map_anonymous_outgoing hnodes hedges n
  calc visitAlong (.build g) s t (outgoing (.build g) t)
      = visitAlong (.build g') s t (outgoing (.build g) t) := by
        unfold visitAlong
        rw [hfollow]
    _ = visitAlong (.build g') s t (outgoing (.build g') t) := by
        rw [← visitAlong_map_anonymous, hout, visitAlong_map_anonymous]

theorem visits_eq_of_perm : g.visits = g'.visits := by
  have hstart : Run.start (.build g) = Run.start (.build g') := by
    have hnode : g.node? = g'.node? := funext (CircuitGraph.node?_eq_of_perm hids hnodes)
    unfold Run.start
    rw [Adjacency.graph_build, Adjacency.graph_build, hnode,
      CircuitGraph.orderedSources_eq_of_perm hids hnodes]
  unfold CircuitGraph.visits
  rw [hstart]
  exact Run.visits_eq_of_visit_eq (Run.visit_eq_of_perm hids hnodes hedges) _

end Runs

/-! ## Compilation -/

section Compile

include hids hnodes hedges

theorem schedule_eq_of_perm : schedule (.build g) = schedule (.build g') := by
  have hvisits : Run.visits (.build g) (Run.start (.build g)) =
      Run.visits (.build g') (Run.start (.build g')) := visits_eq_of_perm hids hnodes hedges
  unfold schedule
  rw [hvisits, Adjacency.graph_build, Adjacency.graph_build]
  refine congrArg (Schedule.mk _) (sortIds_eq_of_mem_iff fun id => ?_)
  exact ((hnodes.filter _).map _).mem_iff

/-- Graphs with the same nodes and the same wires compile to the same result, whatever their
collection order and however they are wired. -/
theorem compileWith_eq_of_perm (rules : List Rule) (mode : EndpointMode) :
    compileWith rules mode g = compileWith rules mode g' := by
  simp only [compileWith, firstViolation?_eq_of_perm hids hnodes hedges,
    schedule_eq_of_perm hids hnodes hedges,
    CircuitGraph.orderedSources_eq_of_perm hids hnodes]

end Compile

end Perm

/-- A drawing with lines that branch, a slot that two lines enter, a wire that leads nowhere and a
loop. -/
def tangledGraph : CircuitGraph :=
  ⟨[.atHeight "m" .measurement .zero, .atHeight "cx" (.twoGate .cnot) .zero,
      .atHeight "h" (.singleGate .hadamard) .zero, .atHeight "q1" (.qubitSource .one) .zero,
      .atHeight "q0" (.qubitSource .zero) .zero, .atHeight "n" .measurement .zero],
    [⟨some "a", "q0", "cx", none, some .input1⟩, ⟨some "b", "q1", "cx", none, some .input1⟩,
      ⟨some "c", "q1", "cx", none, some .input2⟩, .plain "q0" "ghost", .plain "q0" "m",
      ⟨none, "cx", "h", some .output2, none⟩, .plain "h" "h", .plain "h" "n"]⟩

/-- Drawn the other way round, it compiles to the same circuit. -/
theorem compileWith_tangledGraph : tangledGraph.ids.Nodup ∧
    compileWith [.qubitPresence, .measurementParity] .circuit
        ⟨tangledGraph.nodes.reverse, tangledGraph.edges.reverse⟩ =
      .ok ⟨.circuit, [⟨0, "q0", .zero⟩, ⟨1, "q1", .one⟩],
        [⟨.measurement, [0]⟩, ⟨.two .cnot, [1, 1]⟩, ⟨.single .hadamard, [1]⟩,
          ⟨.measurement, [1]⟩]⟩ := by
  have hids : tangledGraph.ids.Nodup := by decide
  refine ⟨hids, ?_⟩
  rw [← compileWith_eq_of_perm hids (List.reverse_perm _).symm (List.reverse_perm _).symm]
  -- a run compares the heights of its sources; the equation for that comes with the submodules
  cbv

end QuantumWiring

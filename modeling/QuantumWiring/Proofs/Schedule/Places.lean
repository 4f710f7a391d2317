import QuantumWiring.Proofs.Schedule.Conservation
import QuantumWiring.Proofs.Schedule.Cycle
import QuantumWiring.Proofs.Schedule.Deposit

/-!
# Where the lines are

In the loop of the scheduler a line is in one of three places: a token in the queue carries it, a
slot of a gate that has not joined the queue holds it, or a measurement in the output has taken it.
What stands in the slots of a gate that has joined does not count, for the gate took it along.  A
line that arrives at a node is added in one of the first two places (`Incoming.perm_arrive`), so a
visit only moves lines on (`Progress.perm_visit`), and the three places together hold each line
once after any number of rounds (`lines_conserved`).  When the loop ends nothing is in the queue;
as there are as many measurements as sources, a measurement is left without a line for each line
that is left in a slot (`Conserves.length_stalled`).
-/

open scoped List

namespace QuantumWiring

/-! ## Places -/

/-- The lines that have arrived, in the order of the slots. -/
def PendingInputs.filled (p : PendingInputs) : List Line := p.first.toList ++ p.second.toList

namespace PendingInputs

variable {p : PendingInputs}

theorem filled_fill_perm {i : Handle} (hi : i.isInput) (h : p.line? i.slot = .none) (l : Line) :
    (p.fill i.slot l).filled.Perm (l :: p.filled) := by
  obtain ⟨first, second⟩ := p
  cases i with
  | input1 =>
    obtain rfl : first = .none := h
    exact .refl _
  | input2 =>
    obtain rfl : second = .none := h
    simp [fill, filled, Handle.slot]
  | output1 => cases hi
  | output2 => cases hi

theorem filled_of_lines? {lines : List Line} (h : p.lines? = some lines) : p.filled = lines := by
  unfold lines? at h
  unfold filled
  split at h
  · next a b ha hb =>
    rw [ha, hb]
    exact Option.some.inj h
  · cases h

end PendingInputs

namespace Run

/-- The lines that the tokens in the queue carry. -/
def queued (s : Run) : List Line := s.queue.flatMap Token.lines

/-- The lines in the slots of a node, if it is a gate on two qubits that has not joined. -/
def parkedAt (s : Run) (n : Node) : List Line :=
  if n.kind.isTwoGate ∧ n.id ∉ s.joined then (s.waiting n.id).filled else []

/-- The lines in the slots of all gates that have not joined. -/
def parked (g : CircuitGraph) (s : Run) : List Line := g.nodes.flatMap s.parkedAt

/-- The lines that have not come to an end. -/
def inHand (g : CircuitGraph) (s : Run) : List Line := s.queued ++ parked g s

/-- The lines of the measurements in the output after some visits. -/
def measured (done : List Token) : List Line :=
  ((done.filterMap Token.op?).filter (·.operation.isMeasurement)).flatMap (·.inputs)

variable {g : CircuitGraph} {s s' : Run} {n : Node} {t : Token} {done rest ts : List Token}
  {e : Edge} {c : Edge → Option Line}

theorem measured_eq (done : List Token) : measured done = done.flatMap Token.kept := by
  have hspec : done.filterMap Token.spec? =
      (done.filterMap Token.op?).map fun op => ⟨op.operation, op.inputs⟩ := by
    rw [List.map_filterMap]
    refine List.filterMap_congr fun t _ => ?_
    simp [Token.spec?, Token.op?, Function.comp_def]
  rw [← flatMap_inputs_measurements, hspec, List.filter_map, List.flatMap_map]
  rfl

/-! ## Moving lines -/

theorem parkedAt_eq_nil (h : n.kind.isTwoGate = false ∨ n.id ∈ s.joined) : s.parkedAt n = [] := by
  unfold parkedAt
  rw [if_neg]
  rintro ⟨hk, hnew⟩
  rcases h with h | h
  · rw [h] at hk
    cases hk
  · exact hnew h

/-- What changes at one node changes the slots of that node. -/
theorem parked_perm (s s' : Run) (hids : g.ids.Nodup) (hn : n ∈ g.nodes)
    (hframe : ∀ m, m.id ≠ n.id → s'.parkedAt m = s.parkedAt m) : ∃ others,
    (parked g s).Perm (s.parkedAt n ++ others) ∧ (parked g s').Perm (s'.parkedAt n ++ others) := by
  have hsplit : g.nodes.Perm (n :: g.nodes.erase n) := List.perm_cons_erase hn
  have hothers : (g.nodes.erase n).flatMap s'.parkedAt = (g.nodes.erase n).flatMap s.parkedAt := by
    refine List.flatMap_congr fun m hm => hframe m fun hid => ?_
    obtain ⟨hne, hm⟩ := (hids.of_map).mem_erase_iff.1 hm
    exact hne (CircuitGraph.eq_of_id_eq hids hm hn hid)
  refine ⟨(g.nodes.erase n).flatMap s.parkedAt, ?_, ?_⟩
  · exact hsplit.flatMap_right _
  · rw [← hothers]
    exact hsplit.flatMap_right _

/-- A node that joins moves the lines from its slots into the queue. -/
theorem inHand_join_perm (hids : g.ids.Nodup) (hn : n ∈ g.nodes) (hnew : n.id ∉ s.joined)
    (lines : List Line) :
    (s.parkedAt n ++ inHand g (s.join n lines)).Perm (lines ++ inHand g s) := by
  have hjoin : s.join n lines =
      { s with queue := s.queue ++ [⟨n, lines⟩], joined := n.id :: s.joined } := if_neg hnew
  have hqueued : (s.join n lines).queued = s.queued ++ lines := by simp [hjoin, queued]
  have hnone : (s.join n lines).parkedAt n = [] :=
    parkedAt_eq_nil (.inr (hjoin ▸ List.mem_cons_self))
  obtain ⟨others, hbefore, hafter⟩ := parked_perm s (s.join n lines) hids hn fun m hm => by
    simp [parkedAt, hjoin, hm]
  -- the slots of the node are still full, but they do not count any more
  rw [hnone, List.nil_append] at hafter
  unfold inHand
  rw [hqueued]
  calc s.parkedAt n ++ (s.queued ++ lines ++ parked g (s.join n lines))
    _ ~ s.parkedAt n ++ (s.queued ++ lines ++ others) := (hafter.append_left _).append_left _
    _ ~ lines ++ (s.queued ++ (s.parkedAt n ++ others)) := by
        rw [List.perm_iff_count]
        intro l
        simp only [List.count_append]
        omega
    _ ~ lines ++ (s.queued ++ parked g s) := (hbefore.symm.append_left _).append_left _

/-- A line that is put into an empty slot is one more. -/
theorem inHand_park_perm (hids : g.ids.Nodup) (hn : n ∈ g.nodes) (hk : n.kind.isTwoGate)
    (hnew : n.id ∉ s.joined) {i : Handle} (hi : i.isInput)
    (hempty : (s.waiting n.id).line? i.slot = none) (l : Line) :
    (inHand g (s.park n.id i.slot l)).Perm (l :: inHand g s) := by
  obtain ⟨others, hbefore, hafter⟩ := parked_perm s (s.park n.id i.slot l) hids hn
    fun m hm => by simp [parkedAt, park, hm]
  have hslot : ((s.park n.id i.slot l).parkedAt n).Perm (l :: s.parkedAt n) := by
    have := PendingInputs.filled_fill_perm hi hempty l
    simpa [parkedAt, park, hk, hnew] using this
  calc inHand g (s.park n.id i.slot l)
    _ ~ s.queued ++ (l :: s.parkedAt n ++ others) :=
        (hafter.trans (hslot.append_right _)).append_left _
    _ ~ l :: (s.queued ++ (s.parkedAt n ++ others)) := List.perm_middle
    _ ~ l :: inHand g s := (hbefore.symm.append_left _).cons l

/-- **A line that arrives is in hand once more**: in the queue or in a slot. -/
theorem Incoming.perm_arrive (hg : g.WellFormed) (h : Incoming g c done s e n) (l : Line) :
    (inHand g (s.arrive n e.targetHandle l)).Perm (l :: inHand g s) := by
  have hnew := h.not_mem_joined hg
  have harrival := s.arrival n e.targetHandle l
  generalize s.arrive n e.targetHandle l = s' at harrival ⊢
  cases harrival with
  | source hk => exact absurd h.target.symm (hg.target_ne_of_isSource h.target_mem hk h.mem)
  | single hk =>
    have hjoin := inHand_join_perm hg.ids_nodup h.target_mem hnew [l]
    rwa [parkedAt_eq_nil (.inl (NodeKind.isTwoGate_of_numInputs hk))] at hjoin
  | ignored hk hnot =>
    obtain ⟨i, hend, hi⟩ := hg.exists_targetHandle h.target_mem hk h.mem h.target.symm
    exact absurd hend (hnot i hi)
  | @waiting i hk hi hend _ =>
    have hempty := h.line?_eq_none hk hend hi
    exact inHand_park_perm hg.ids_nodup h.target_mem hk hnew hi hempty l
  | @complete i lines hk hi hend hlines =>
    have hempty := h.line?_eq_none hk hend hi
    have hpark := inHand_park_perm hg.ids_nodup h.target_mem hk hnew hi hempty l
    -- both lines leave the slots with the gate
    have hslots : (s.park n.id i.slot l).parkedAt n = lines := by
      unfold parkedAt
      rw [if_pos ⟨hk, hnew⟩]
      exact PendingInputs.filled_of_lines? hlines
    have hjoin := inHand_join_perm (s := s.park n.id i.slot l) hg.ids_nodup h.target_mem hnew lines
    rw [hslots] at hjoin
    exact ((List.perm_append_left_iff lines).1 hjoin).trans hpark

/-- **A visit moves lines on**: those of its token are sent, unless they come to an end. -/
theorem Progress.perm_visit (hg : g.WellFormed) (h : Progress g done s)
    (hq : takeLowest s.queue = some (t, rest)) :
    (t.kept ++ inHand g (Run.visit (.build g) { s with queue := rest } t)).Perm (inHand g s) := by
  obtain ⟨hav, -⟩ := h.available hq
  have hsent : ((outgoing (.build g) t).filterMap t.lineAlong?).Perm t.sent :=
    ((outgoing_build_perm hg hav.node_mem).filterMap _).trans (hav.filterMap_lineAlong_perm hg)
  have hvisit := h.visit_induction hg hq
    (I := fun es s' =>
      (inHand g s').Perm (es.filterMap t.lineAlong? ++ inHand g { s with queue := rest }))
    (.refl _)
    (fun c s' es e n l hin hl ih => by
      have harrive := (hin.perm_arrive hg l).trans (ih.cons l)
      rw [List.filterMap_append, List.filterMap_cons_some hl, List.append_assoc]
      exact harrive.trans List.perm_middle.symm)
  have hqueued : s.queued.Perm (t.lines ++ rest.flatMap Token.lines) :=
    (perm_of_takeLowest hq).1.flatMap_right _
  calc t.kept ++ inHand g (Run.visit (.build g) { s with queue := rest } t)
    _ ~ t.kept ++ (t.sent ++ inHand g { s with queue := rest }) :=
        (hvisit.trans (hsent.append_right _)).append_left _
    _ = t.lines ++ (rest.flatMap Token.lines ++ parked g s) := by
        rw [← List.append_assoc, Token.kept_append_sent]
        rfl
    _ ~ inHand g s := by
        rw [← List.append_assoc]
        exact (hqueued.append_right _).symm

/-- At the start each source carries its line. -/
theorem inHand_start_perm (hg : g.WellFormed) :
    (inHand g (start (.build g))).Perm (List.range g.sources.length) := by
  have hparked : parked g (start (.build g)) = [] := by
    refine List.flatMap_eq_nil_iff.2 fun n _ => ?_
    rw [start_build hg.ids_nodup]
    exact ite_self _
  have hqueued : (start (.build g)).queued = g.orderedSources.zipIdx.map (·.2) := by
    rw [start_build hg.ids_nodup, queued, List.flatMap_map, List.map_eq_flatMap]
  rw [inHand, hparked, hqueued, List.append_nil, List.zipIdx_map_snd, List.range_eq_range',
    CircuitGraph.orderedSources_perm.length_eq]

/-! ## Whole runs -/

/-- After the visits `done` each line is in one place, and each deposit has a slot of its own. -/
structure Conserves (g : CircuitGraph) (done : List Token) (s : Run) : Prop extends
    Progress g done s where
  lines : (measured done ++ inHand g s).Perm (List.range g.sources.length)
  recorded : Recorded (done.flatMap (Token.deposits (.build g))) s.waiting

namespace Conserves

variable (hg : g.WellFormed)
include hg

theorem start : Conserves g [] (Run.start (.build g)) :=
  ⟨.start hg, inHand_start_perm hg, List.nodup_nil, fun d hd => by cases hd⟩

theorem visit (h : Conserves g done s) (hq : takeLowest s.queue = some (t, rest)) :
    Conserves g (done ++ [t]) (Run.visit (.build g) { s with queue := rest } t) := by
  have hlines := h.lines
  rw [measured_eq] at hlines
  refine ⟨h.toProgress.visit hg hq, ?_, ?_⟩
  · rw [measured_eq, List.flatMap_append, List.flatMap_singleton, List.append_assoc]
    exact ((h.perm_visit hg hq).append_left _).trans hlines
  · rw [List.flatMap_append, List.flatMap_singleton]
    exact h.recorded_visit hg hq h.recorded

theorem steps (h : Conserves g done s) (hsteps : Steps (.build g) s ts s') :
    Conserves g (done ++ ts) s' := by
  apply hsteps.preserves _ h
  intro done s t rest h hq
  exact h.visit hg hq

end Conserves

end Run

/-! ## The end of the loop -/

theorem Token.length_kept {t : Token} (h : t.lines.length = t.node.kind.numLines) :
    t.kept.length = if t.node.kind.isMeasurement then 1 else 0 := by
  unfold kept
  cases hk : t.node.kind <;> simp_all [NodeKind.isMeasurement, NodeKind.numLines]

namespace CircuitGraph

variable {g : CircuitGraph} {done : List Token}

theorem length_flatMap_kept (h : ∀ t ∈ done, t.lines.length = t.node.kind.numLines) :
    (done.flatMap Token.kept).length = done.countP (·.node.kind.isMeasurement) := by
  induction done with
  | nil => rfl
  | cons t done ih =>
    rw [List.flatMap_cons, List.length_append, List.countP_cons,
      Token.length_kept (h t List.mem_cons_self), Nat.add_comm,
      ih fun u hu => h u (List.mem_cons_of_mem _ hu)]

theorem History.measurements_perm (hg : g.WellFormed) (h : g.History done) :
    ((done.filter (·.node.kind.isMeasurement)).map (·.node)).Perm
      (g.measurements.filter (·.id ∈ visitedIds done)) := by
  -- both lists are free of repetitions, since ids are
  refine (List.perm_ext_iff_of_nodup ?_ ?_).2 fun n => ?_
  · refine .of_map Node.id ?_
    rw [List.map_map]
    exact h.nodup.sublist (List.filter_sublist.map _)
  · exact (hg.ids_nodup.of_map.filter _).filter _
  · simp only [List.mem_map, List.mem_filter, measurements, decide_eq_true_eq]
    constructor
    · rintro ⟨t, ⟨ht, hm⟩, rfl⟩
      exact ⟨⟨h.node_mem ht, hm⟩, mem_visitedIds ht⟩
    · rintro ⟨⟨hn, hm⟩, hid⟩
      obtain ⟨t, ht, hid⟩ := List.mem_map.1 hid
      obtain rfl := CircuitGraph.eq_of_id_eq hg.ids_nodup (h.node_mem ht) hn hid
      exact ⟨t, ⟨ht, hm⟩, rfl⟩

/-- Each visited measurement keeps one line. -/
theorem History.length_kept (hg : g.WellFormed) (h : g.History done) :
    (done.flatMap Token.kept).length =
      (g.measurements.filter (·.id ∈ visitedIds done)).length := by
  have hlen := length_flatMap_kept fun t ht => (h.available_of_mem ht).length_lines hg
  rw [hlen, List.countP_eq_length_filter, ← (h.measurements_perm hg).length_eq, List.length_map]

end CircuitGraph

theorem filter_stalled_measurements {g : CircuitGraph} (hg : g.WellFormed) :
    g.measurements.filter (·.id ∈ (schedule (.build g)).stalled) =
      g.measurements.filter fun n => !decide (n.id ∈ visitedIds g.visits) := by
  refine List.filter_congr fun n hn => ?_
  obtain ⟨hn, hm⟩ := List.mem_filter.1 hn
  have hop : n.kind.operation?.isSome :=
    NodeKind.isSome_operation?_iff.2 (NodeKind.isSource_eq_false_iff.2 (.inr hm))
  rw [← decide_not, decide_eq_decide, mem_stalled_iff hg]
  constructor
  · rintro ⟨m, -, -, -, hnew⟩
    exact hnew
  · intro hnew
    exact ⟨n, hn, rfl, hop, hnew⟩

namespace Run

variable {g : CircuitGraph} {s : Run} {done : List Token}

/-- For each line in a slot there is a measurement that waits for one. -/
theorem Conserves.length_stalled (hg : g.WellFormed) (h : Conserves g g.visits s)
    (hq : s.queue = []) :
    (g.measurements.filter (·.id ∈ (schedule (.build g)).stalled)).length =
      (parked g s).length := by
  -- a line is measured or in a slot, and there are as many lines as measurements
  have hlines := h.lines.length_eq
  rw [inHand, queued, hq, List.flatMap_nil, List.nil_append, List.length_append, measured_eq,
    h.history.length_kept hg, List.length_range, hg.parity] at hlines
  have hsplit := (List.filter_append_perm (fun n : Node => decide (n.id ∈ visitedIds g.visits))
    g.measurements).length_eq
  rw [List.length_append] at hsplit
  rw [filter_stalled_measurements hg]
  omega

/-- In a graph that keeps the standard rules, with cycles or without, each line is in one place
after any number of rounds: with a token in the queue, in a slot of a gate on two qubits that has
not joined the queue, or with a measurement in the output.  What is in the slots was put there by
the visits, no slot being written twice.  When the loop ends, the gates that have not joined are
those that were not visited, and the measurements that are stalled are as many as the lines in
slots of these gates. -/
theorem lines_conserved (h : g.Accepted)
    (hsteps : Steps (.build g) (start (.build g)) done s) :
    (s.queued ++ parked g s ++ measured done).Perm (List.range g.sources.length) ∧
    s.waiting = (done.flatMap (Token.deposits (.build g))).foldl Deposit.into (fun _ => .none) ∧
    ((done.flatMap (Token.deposits (.build g))).map Deposit.place).Nodup ∧
    (s.queue = [] → (∀ id, id ∈ s.joined ↔ id ∈ visitedIds done) ∧
      (g.measurements.filter (·.id ∈ (schedule (.build g)).stalled)).length =
        (parked g s).length) := by
  have hg := CircuitGraph.accepted_iff_wellFormed.1 h
  have hrun : Conserves g done s := (Conserves.start hg).steps hg hsteps
  refine ⟨?lines, ?waiting, hrun.recorded.once, fun hq => ⟨?joined, ?stalled⟩⟩
  case lines => exact List.perm_append_comm.trans hrun.lines
  case waiting =>
    rw [waiting_of_steps hsteps, start_build hg.ids_nodup]
  case joined =>
    intro id
    have hjoined := hrun.sound.joined_perm
    rw [hq, List.append_nil] at hjoined
    exact hjoined.mem_iff
  case stalled =>
    have hvisits : g.visits = done := by
      rw [CircuitGraph.visits, hsteps.visits_eq, visits_of_queue_eq_nil hq, List.append_nil]
    exact (hvisits ▸ hrun).length_stalled hg hq

/-- The qubit of the looped graph ends in the first slot of the gate, and its measurement waits. -/
theorem parked_loopedGraph : loopedGraph.Accepted ∧ ∃ done s,
    Steps (.build loopedGraph) (start (.build loopedGraph)) done s ∧ s.queue = [] ∧
    parked loopedGraph s = [0] ∧ "m0" ∈ (schedule (.build loopedGraph)).stalled := by
  have haccepted : loopedGraph.Accepted := by cbv
  have hstalled : (schedule (.build loopedGraph)).stalled = ["cx", "h", "m0"] := by cbv
  obtain ⟨s, hsteps, hq⟩ := steps_visits (.build loopedGraph) (start (.build loopedGraph))
  obtain ⟨hlines, -, -, hend⟩ := lines_conserved haccepted hsteps
  have hlen := (hend hq).2
  rw [hstalled] at hlen
  have hone : (parked loopedGraph s).length = 1 := hlen.symm.trans (by decide)
  obtain ⟨l, hl⟩ := List.length_eq_one_iff.1 hone
  rw [hl] at hlines
  have hmem : l ∈ List.range 1 := hlines.mem_iff.1 (by simp)
  obtain rfl : l = 0 := by simpa using hmem
  exact ⟨haccepted, _, s, hsteps, hq, hl, by rw [hstalled]; decide⟩

end Run

end QuantumWiring

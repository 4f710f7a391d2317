import QuantumWiring.Proofs.Schedule.Loop
import Mathlib.Data.Set.Insert

/-!
# The tally of a run

Where ids are distinct, which slots are filled and which ids have joined the queue is a matter of
the followed wires alone (`Tallies`): a slot is filled when a line was sent along some wire to its
handle, however many such wires there are, and an id has joined when its node waits for nothing more
(`Supplied`).  Following one more wire adds it to the tally (`Tallies.arrive`), and a visit adds
those that its node sends lines along (`Tallies.visit`).
-/

namespace QuantumWiring

/-- Whether a visited node sends a line along a wire that leaves it: a measurement keeps its line,
and a gate on two qubits has to be told which one is meant. -/
def NodeKind.sendsAlong (k : NodeKind) (e : Edge) : Bool :=
  match k with
  | .measurement => false
  | .twoGate _ => e.sourceHandle.isSome
  | .qubitSource _ | .singleGate _ => true

/-- The wires along which the visited nodes have sent lines. -/
def CircuitGraph.sentBy (g : CircuitGraph) (done : List Token) : Set Edge :=
  {e | e ∈ g.edges ∧ g.joins e ∧ ∃ t ∈ done, e.source = t.node.id ∧ t.node.kind.sendsAlong e}

/-! ## What a node waits for -/

/-- A node waits for nothing more when lines are sent along some wires. -/
def Supplied (sent : Set Edge) (n : Node) : Prop :=
  match n.kind with
  | .qubitSource _ => True
  | .singleGate _ | .measurement => ∃ e ∈ sent, e.target = n.id
  | .twoGate _ => ∀ h : Handle, h.isInput → ∃ e ∈ sent, e.target = n.id ∧ e.targetHandle = some h

section Supplied

variable {sent : Set Edge} {n : Node} {e : Edge}

theorem Supplied.mono {sent' : Set Edge} (hsub : sent ⊆ sent') (h : Supplied sent n) :
    Supplied sent' n := by
  unfold Supplied at h ⊢
  split at h
  · trivial
  · obtain ⟨e, he, htarget⟩ := h
    exact ⟨e, hsub he, htarget⟩
  · obtain ⟨e, he, htarget⟩ := h
    exact ⟨e, hsub he, htarget⟩
  · intro i hi
    obtain ⟨e, he, hend⟩ := h i hi
    exact ⟨e, hsub he, hend⟩

theorem supplied_of_isSource (hk : n.kind.isSource) : Supplied sent n := by
  unfold Supplied
  cases hn : n.kind <;> simp_all [NodeKind.isSource]

theorem supplied_iff_of_numInputs (hk : n.kind.numInputs = 1) :
    Supplied sent n ↔ ∃ e ∈ sent, e.target = n.id := by
  unfold Supplied
  cases hn : n.kind <;> simp_all [NodeKind.numInputs]

theorem supplied_iff_of_isTwoGate (hk : n.kind.isTwoGate) : Supplied sent n ↔
    ∀ h : Handle, h.isInput → ∃ e ∈ sent, e.target = n.id ∧ e.targetHandle = some h := by
  unfold Supplied
  cases hn : n.kind <;> simp_all [NodeKind.isTwoGate]

/-- A wire to another node supplies nothing. -/
theorem supplied_insert_of_ne (hne : e.target ≠ n.id) :
    Supplied (insert e sent) n ↔ Supplied sent n := by
  unfold Supplied
  split <;> simp [hne]

end Supplied

/-! ## Slots -/

namespace PendingInputs

variable {p : PendingInputs}

/-- Both lines have arrived when each input has its line. -/
theorem isSome_lines?_iff :
    p.lines?.isSome ↔ ∀ h : Handle, h.isInput → (p.line? h.slot).isSome := by
  have hinputs : (∀ h : Handle, h.isInput → (p.line? h.slot).isSome) ↔
      p.first.isSome ∧ p.second.isSome := by
    constructor
    · intro h
      exact ⟨h .input1 rfl, h .input2 rfl⟩
    · rintro ⟨h₁, h₂⟩ h hi
      cases h with
      | input1 => exact h₁
      | input2 => exact h₂
      | output1 => cases hi
      | output2 => cases hi
  rw [hinputs]
  unfold lines?
  cases p.first <;> cases p.second <;> simp

theorem isSome_line?_fill_iff {i j : Handle} (hi : i.isInput) (hj : j.isInput) {l : Line} :
    ((p.fill i.slot l).line? j.slot).isSome ↔ i = j ∨ (p.line? j.slot).isSome := by
  cases i <;> cases hi <;> cases j <;> cases hj <;> simp [fill, line?, Handle.slot]

end PendingInputs

/-! ## The tally of a run -/

namespace Run

variable {g : CircuitGraph} {sent : Set Edge} {s : Run} {n : Node} {t : Token} {e : Edge}

theorem mem_joined_join {id : NodeId} {lines : List Line} :
    id ∈ (s.join n lines).joined ↔ id = n.id ∨ id ∈ s.joined := by
  unfold join
  split
  · next hn =>
    constructor
    · exact .inr
    · rintro (rfl | hid)
      · exact hn
      · exact hid
  · exact List.mem_cons

@[simp] theorem waiting_join (s : Run) (n : Node) (lines : List Line) :
    (s.join n lines).waiting = s.waiting := by
  unfold join
  split <;> rfl

/-- The slots that are filled and the ids that have joined the queue are accounted for by the wires
that lines are sent along. -/
structure Tallies (g : CircuitGraph) (sent : Set Edge) (s : Run) : Prop where
  slot : ∀ n ∈ g.nodes, n.kind.isTwoGate → ∀ h : Handle, h.isInput →
    (((s.waiting n.id).line? h.slot).isSome ↔
      ∃ e ∈ sent, e.target = n.id ∧ e.targetHandle = some h)
  joined : ∀ n ∈ g.nodes, (n.id ∈ s.joined ↔ Supplied sent n)

namespace Tallies

/-- A wire changes the tally at the node that it leads to, and nowhere else. -/
theorem frame (hids : g.ids.Nodup) (h : Tallies g sent s) (hn : n ∈ g.nodes)
    (htarget : e.target = n.id) {s' : Run}
    (hwaiting : ∀ id, id ≠ n.id → s'.waiting id = s.waiting id)
    (hothers : ∀ id, id ≠ n.id → (id ∈ s'.joined ↔ id ∈ s.joined))
    (hslot : n.kind.isTwoGate → ∀ i : Handle, i.isInput →
      (((s'.waiting n.id).line? i.slot).isSome ↔
        e.targetHandle = some i ∨ ((s.waiting n.id).line? i.slot).isSome))
    (hjoined : n.id ∈ s'.joined ↔ Supplied (insert e sent) n) :
    Tallies g (insert e sent) s' := by
  constructor
  · intro m hm hk i hi
    by_cases hid : m.id = n.id
    · obtain rfl := CircuitGraph.eq_of_id_eq hids hm hn hid
      rw [hslot hk i hi, h.slot m hm hk i hi]
      simp [htarget]
    · have hne : e.target ≠ m.id := fun heq => hid (heq.symm.trans htarget)
      rw [hwaiting _ hid, h.slot m hm hk i hi]
      simp [hne]
  · intro m hm
    by_cases hid : m.id = n.id
    · obtain rfl := CircuitGraph.eq_of_id_eq hids hm hn hid
      exact hjoined
    · have hne : e.target ≠ m.id := fun heq => hid (heq.symm.trans htarget)
      rw [hothers _ hid, h.joined m hm, supplied_insert_of_ne hne]

/-! ## Arriving lines -/

section Slot

variable {i : Handle} {l : Line}

theorem waiting_park_of_ne {id : NodeId} (hne : id ≠ n.id) :
    (s.park n.id i.slot l).waiting id = s.waiting id :=
  if_neg hne

theorem isSome_line?_park_iff (hi : i.isInput) (hend : e.targetHandle = some i) {j : Handle}
    (hj : j.isInput) : (((s.park n.id i.slot l).waiting n.id).line? j.slot).isSome ↔
      e.targetHandle = some j ∨ ((s.waiting n.id).line? j.slot).isSome := by
  have hfill : (s.park n.id i.slot l).waiting n.id = (s.waiting n.id).fill i.slot l := if_pos rfl
  rw [hfill, PendingInputs.isSome_line?_fill_iff hi hj, hend, Option.some.injEq]

/-- A gate has both lines once the wire supplies it. -/
theorem isSome_lines?_park_iff (h : Tallies g sent s) (hn : n ∈ g.nodes)
    (htarget : e.target = n.id) (hk : n.kind.isTwoGate) (hi : i.isInput)
    (hend : e.targetHandle = some i) :
    ((s.park n.id i.slot l).waiting n.id).lines?.isSome ↔ Supplied (insert e sent) n := by
  rw [PendingInputs.isSome_lines?_iff, supplied_iff_of_isTwoGate hk]
  refine forall₂_congr fun j hj => ?_
  rw [isSome_line?_park_iff hi hend hj, h.slot n hn hk j hj]
  simp [htarget]

end Slot

/-- **A line that arrives adds its wire to the tally.** -/
theorem arrive (hids : g.ids.Nodup) (h : Tallies g sent s) (hn : n ∈ g.nodes)
    (htarget : e.target = n.id) (l : Line) :
    Tallies g (insert e sent) (s.arrive n e.targetHandle l) := by
  have harrival := s.arrival n e.targetHandle l
  generalize s.arrive n e.targetHandle l = s' at harrival ⊢
  cases harrival with
  | source hk =>
    apply h.frame hids hn htarget
    · intro id _
      rfl
    · intro id _
      rfl
    · intro htwo
      rw [NodeKind.isTwoGate_of_isSource hk] at htwo
      cases htwo
    · rw [h.joined n hn]
      exact iff_of_true (supplied_of_isSource hk) (supplied_of_isSource hk)
  | single hk =>
    apply h.frame hids hn htarget
    · intro id _
      rw [waiting_join]
    · intro id hne
      exact mem_joined_join.trans (or_iff_right hne)
    · intro htwo
      rw [NodeKind.isTwoGate_of_numInputs hk] at htwo
      cases htwo
    · have hsupplied : Supplied (insert e sent) n :=
        (supplied_iff_of_numInputs hk).2 ⟨e, Set.mem_insert e sent, htarget⟩
      exact iff_of_true (mem_joined_join.2 (.inl rfl)) hsupplied
  | ignored hk hnot =>
    apply h.frame hids hn htarget
    · intro id _
      rfl
    · intro id _
      rfl
    · intro _ i hi
      rw [or_iff_right (hnot i hi)]
    · rw [h.joined n hn, supplied_iff_of_isTwoGate hk, supplied_iff_of_isTwoGate hk]
      refine forall₂_congr fun i hi => ?_
      simp [hnot i hi]
  | waiting hk hi hend hlines =>
    have hready := h.isSome_lines?_park_iff (l := l) hn htarget hk hi hend
    have hnot : ¬ Supplied (insert e sent) n := by simp [← hready, hlines]
    apply h.frame hids hn htarget
    · intro id hne
      exact waiting_park_of_ne hne
    · intro id _
      rfl
    · intro _ j hj
      exact isSome_line?_park_iff hi hend hj
    · -- what is not supplied with the wire was not supplied without it
      refine iff_of_false (fun hmem => hnot ?_) hnot
      exact ((h.joined n hn).1 hmem).mono (Set.subset_insert e sent)
  | complete hk hi hend hlines =>
    have hready := h.isSome_lines?_park_iff (l := l) hn htarget hk hi hend
    have hsupplied : Supplied (insert e sent) n := hready.1 (by rw [hlines]; rfl)
    apply h.frame hids hn htarget
    · intro id hne
      rw [waiting_join]
      exact waiting_park_of_ne hne
    · intro id hne
      exact mem_joined_join.trans (or_iff_right hne)
    · intro _ j hj
      rw [waiting_join]
      exact isSome_line?_park_iff hi hend hj
    · exact iff_of_true (mem_joined_join.2 (.inl rfl)) hsupplied

/-! ## Following wires -/

/-- A token with its lines sends one along each wire that its node may send one along. -/
theorem isSome_lineAlong?_iff (hlen : t.lines.length = t.node.kind.numLines)
    (hm : t.node.kind.isMeasurement = false) :
    (t.lineAlong? e).isSome ↔ t.node.kind.sendsAlong e := by
  unfold Token.lineAlong?
  cases hk : t.node.kind with
  | qubitSource v =>
    rw [hk] at hlen
    obtain ⟨l, hl⟩ := List.length_eq_one_iff.1 hlen
    simp [hl, NodeKind.sendsAlong]
  | singleGate gate =>
    rw [hk] at hlen
    obtain ⟨l, hl⟩ := List.length_eq_one_iff.1 hlen
    simp [hl, NodeKind.sendsAlong]
  | measurement => simp [hk, NodeKind.isMeasurement] at hm
  | twoGate gate =>
    rw [hk] at hlen
    obtain ⟨l, l', hl⟩ := List.length_eq_two.1 hlen
    cases hs : e.sourceHandle with
    | none => simp [hs, NodeKind.sendsAlong]
    | some i => cases i <;> simp [hl, hs, Handle.slot, NodeKind.sendsAlong]

theorem follow (hids : g.ids.Nodup) (h : Tallies g sent s)
    (hlen : t.lines.length = t.node.kind.numLines) (hm : t.node.kind.isMeasurement = false)
    (htarget : e.target ∈ g.ids) :
    Tallies g (if t.node.kind.sendsAlong e then insert e sent else sent)
      (Run.follow (.build g) t s e) := by
  have hsends := isSome_lineAlong?_iff (e := e) hlen hm
  obtain ⟨n, hn, hid⟩ := CircuitGraph.mem_ids_iff.1 htarget
  have hfind : (Adjacency.build g).find? e.target = some (g.junction n) :=
    hid ▸ Adjacency.find?_build_of_mem hids hn
  unfold Run.follow
  cases hl : t.lineAlong? e with
  | none =>
    rw [hl, Option.isSome_none] at hsends
    rw [if_neg fun hc => Bool.false_ne_true (hsends.2 hc)]
    exact h
  | some l =>
    rw [hl, Option.isSome_some] at hsends
    rw [if_pos (hsends.1 rfl), hfind]
    exact h.arrive hids hn hid.symm l

theorem foldl_follow (hids : g.ids.Nodup) (hlen : t.lines.length = t.node.kind.numLines)
    (hm : t.node.kind.isMeasurement = false) {es : List Edge} (hes : ∀ e ∈ es, e.target ∈ g.ids)
    (h : Tallies g sent s) :
    Tallies g (sent ∪ {e | e ∈ es ∧ t.node.kind.sendsAlong e})
      (es.foldl (Run.follow (.build g) t) s) := by
  induction es generalizing sent s with
  | nil => simpa using h
  | cons e es ih =>
    have hsent : sent ∪ {e' | e' ∈ e :: es ∧ t.node.kind.sendsAlong e'} =
        (if t.node.kind.sendsAlong e then insert e sent else sent) ∪
          {e' | e' ∈ es ∧ t.node.kind.sendsAlong e'} := by
      ext e'
      split <;> simp <;> grind
    rw [hsent]
    apply ih
    · intro e' he'
      exact hes e' (List.mem_cons_of_mem _ he')
    · exact h.follow hids hlen hm (hes e List.mem_cons_self)

theorem visit (hids : g.ids.Nodup) (hn : t.node ∈ g.nodes)
    (hlen : t.lines.length = t.node.kind.numLines) {done : List Token}
    (h : Tallies g (g.sentBy done) s) :
    Tallies g (g.sentBy (done ++ [t])) (Run.visit (.build g) s t) := by
  unfold Run.visit
  rw [Adjacency.find?_build_of_mem hids hn, Option.map_some, Option.getD_some]
  have hmem : ∀ e, e ∈ (g.junction t.node).outgoing ↔
      e ∈ g.edges ∧ e.source = t.node.id ∧ g.joins e := by
    intro e
    simp [CircuitGraph.junction, and_assoc]
  -- a measurement follows no wire, and so it must add none to those that lines are sent along
  cases hm : t.node.kind.isMeasurement with
  | true =>
    have hsent : g.sentBy (done ++ [t]) = g.sentBy done := by
      have hnot : ∀ e, ¬ t.node.kind.sendsAlong e := by
        cases hk : t.node.kind <;> simp_all [NodeKind.isMeasurement, NodeKind.sendsAlong]
      ext e
      simp [CircuitGraph.sentBy, hnot]
    rw [hsent]
    exact h
  | false =>
    have hsent : g.sentBy (done ++ [t]) = g.sentBy done ∪
        {e | e ∈ (g.junction t.node).outgoing ∧ t.node.kind.sendsAlong e} := by
      ext e
      simp [CircuitGraph.sentBy, hmem]
      grind
    rw [hsent]
    apply h.foldl_follow hids hlen hm
    intro e he
    have hjoins := ((hmem e).1 he).2.2
    simp only [CircuitGraph.joins, Bool.and_eq_true, decide_eq_true_eq] at hjoins
    exact hjoins.2

/-- At the start no line is sent, and the sources have joined. -/
theorem start (hids : g.ids.Nodup) : Tallies g (g.sentBy []) (Run.start (.build g)) := by
  have hsent : g.sentBy [] = ∅ := by simp [CircuitGraph.sentBy]
  rw [start_build hids, hsent]
  constructor
  · intro n _ _ i hi
    cases i <;> cases hi <;> simp [PendingInputs.line?, PendingInputs.none, Handle.slot]
  · intro n hn
    have hjoined : n.id ∈ g.orderedSources.map (·.id) ↔ n.kind.isSource := by
      rw [List.mem_map]
      constructor
      · rintro ⟨m, hm, hid⟩
        obtain ⟨hm, hs⟩ := CircuitGraph.mem_orderedSources.1 hm
        exact CircuitGraph.eq_of_id_eq hids hm hn hid ▸ hs
      · intro hs
        exact ⟨n, CircuitGraph.mem_orderedSources.2 ⟨hn, hs⟩, rfl⟩
    rw [List.mem_reverse, hjoined]
    unfold Supplied
    cases hk : n.kind with
    | twoGate gate =>
      have hnot : ¬ ∀ i : Handle, i.isInput = false := fun h => by cases h .input1
      simpa [NodeKind.isSource] using hnot
    | _ => simp [NodeKind.isSource]

end Tallies

end Run

end QuantumWiring

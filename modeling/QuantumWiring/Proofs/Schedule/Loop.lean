import QuantumWiring.Proofs.Schedule.Run

/-!
# The loop of the scheduler

`Steps` makes the rounds of the loop visible, one by one and with the state in which each ends, so
that an invariant is shown for one round and holds after any number of them (`Steps.preserves`).
The loop stops with an empty queue, after the visits of the run (`steps_visits`).  Within a round an
invariant only has to be shown for a line that arrives at a node, where one of five things happens
(`Arrival`).

The first such invariant asks nothing of the graph: every token in the queue has as many lines as
its node takes, and a property of the lines that sources start with is one of all lines
(`Carries`).
-/

namespace QuantumWiring

namespace Run

variable {a : Adjacency} {s s' : Run} {n : Node} {t : Token} {rest ts : List Token}

/-! ## Rounds -/

/-- Some rounds of the loop, with the tokens that are taken from the queue. -/
inductive Steps (a : Adjacency) : Run → List Token → Run → Prop
  | refl (s : Run) : Steps a s [] s
  | pop {s s' : Run} {t : Token} {rest ts : List Token} (ht : takeLowest s.queue = some (t, rest))
      (h : Steps a (visit a { s with queue := rest } t) ts s') : Steps a s (t :: ts) s'

/-- What a round preserves is preserved by any number of rounds. -/
theorem Steps.preserves {I : List Token → Run → Prop}
    (hpop : ∀ done s t rest, I done s → takeLowest s.queue = some (t, rest) →
      I (done ++ [t]) (visit a { s with queue := rest } t))
    (h : Steps a s ts s') {done : List Token} (hi : I done s) : I (done ++ ts) s' := by
  -- each round moves its token to the end of `done`
  induction h generalizing done with
  | refl s => rwa [List.append_nil]
  | pop ht _ ih =>
    rw [← List.singleton_append, ← List.append_assoc]
    apply ih
    exact hpop _ _ _ _ hi ht

/-- **The loop stops**, with nothing left in the queue. -/
theorem steps_visits (a : Adjacency) (s : Run) :
    ∃ s', Steps a s (visits a s) s' ∧ s'.queue = [] := by
  cases hq : takeLowest s.queue with
  | none =>
    have hnil := takeLowest_eq_none_iff.1 hq
    rw [visits_of_queue_eq_nil hnil]
    exact ⟨s, .refl s, hnil⟩
  | some p =>
    obtain ⟨t, rest⟩ := p
    have hlt : (visit a { s with queue := rest } t).pending a < s.pending a := pending_visit_lt hq
    obtain ⟨s', hsteps, hnil⟩ := steps_visits a (visit a { s with queue := rest } t)
    rw [visits_of_takeLowest hq]
    exact ⟨s', .pop hq hsteps, hnil⟩
termination_by s.pending a

/-- The visits that are still to come are the rest of the run. -/
theorem Steps.visits_eq (h : Steps a s ts s') : visits a s = ts ++ visits a s' := by
  induction h with
  | refl s => rfl
  | pop ht _ ih => rw [visits_of_takeLowest ht, ih, List.cons_append]

/-- What holds before anything has happened and is kept by every source that joins holds at the
start. -/
theorem start_preserves {g : CircuitGraph} {I : Run → Prop} (hempty : I empty)
    (hjoin : ∀ s n l, g.orderedSources[l]? = some n → g.node? n.id = some n → I s →
      I (s.join n [l])) : I (start (.build g)) := by
  have hline : ∀ p ∈ g.orderedSources.zipIdx, g.orderedSources[p.2]? = some p.1 := by
    intro p hp
    exact List.mem_zipIdx_iff_getElem?.1 hp
  unfold start
  rw [Adjacency.graph_build]
  generalize g.orderedSources.zipIdx = ns at hline ⊢
  generalize empty = s at hempty ⊢
  induction ns generalizing s with
  | nil => exact hempty
  | cons p ns ih =>
    refine ih (fun q hq => hline q (List.mem_cons_of_mem _ hq)) _ ?_
    show I (if g.node? p.1.id = some p.1 then s.join p.1 [p.2] else s)
    split
    · next hn => exact hjoin s p.1 p.2 (hline p List.mem_cons_self) hn hempty
    · exact hempty

/-! ## What a visit does -/

/-- What becomes of a line that arrives at a node. -/
inductive Arrival (s : Run) (n : Node) (handle : Option Handle) (l : Line) : Run → Prop
  | source (hk : n.kind.isSource) : Arrival s n handle l s
  | single (hk : n.kind.numInputs = 1) : Arrival s n handle l (s.join n [l])
  | ignored (hk : n.kind.isTwoGate) (hnot : ∀ i : Handle, i.isInput → handle ≠ some i) :
    Arrival s n handle l s
  | waiting {i : Handle} (hk : n.kind.isTwoGate) (hi : i.isInput) (hend : handle = some i)
    (hlines : ((s.park n.id i.slot l).waiting n.id).lines? = none) :
    Arrival s n handle l (s.park n.id i.slot l)
  | complete {i : Handle} {lines : List Line} (hk : n.kind.isTwoGate) (hi : i.isInput)
    (hend : handle = some i)
    (hlines : ((s.park n.id i.slot l).waiting n.id).lines? = some lines) :
    Arrival s n handle l ((s.park n.id i.slot l).join n lines)

theorem arrival (s : Run) (n : Node) (handle : Option Handle) (l : Line) :
    Arrival s n handle l (s.arrive n handle l) := by
  unfold arrive
  cases hk : n.kind with
  | qubitSource v => exact .source (by rw [hk]; rfl)
  | singleGate gate => exact .single (by rw [hk]; rfl)
  | measurement => exact .single (by rw [hk]; rfl)
  | twoGate gate =>
    have htwo : n.kind.isTwoGate := by rw [hk]; rfl
    cases handle with
    | none => exact .ignored htwo fun i _ => nofun
    | some i =>
      by_cases hi : i.isInput
      · simp only [hi, if_true]
        split
        · next lines hlines => exact .complete htwo hi rfl hlines
        · next hlines => exact .waiting htwo hi rfl hlines
      · simp only [hi]
        refine .ignored htwo ?_
        rintro j hj heq
        exact hi (Option.some.inj heq ▸ hj)

/-- A wire that is followed leads a line of the token to a node, or nothing happens. -/
theorem follow_cases (a : Adjacency) (t : Token) (s : Run) (e : Edge) :
    follow a t s e = s ∨ ∃ l ∈ t.lines, ∃ j, a.find? e.target = some j ∧
      follow a t s e = s.arrive j.node e.targetHandle l := by
  unfold follow
  split
  · next l j hl hj =>
    refine .inr ⟨l, ?_, j, hj, rfl⟩
    unfold Token.lineAlong? at hl
    split at hl
    · obtain ⟨i, -, hi⟩ := Option.bind_eq_some_iff.1 hl
      exact List.mem_of_getElem? hi
    · exact List.mem_of_head? hl
  · exact .inl rfl

/-- What every wire that is followed preserves is preserved by a visit. -/
theorem visit_preserves {I : Run → Prop} (hfollow : t.node.kind.isMeasurement = false →
    ∀ s, ∀ e ∈ outgoing a t, I s → I (follow a t s e)) (h : I s) : I (visit a s t) := by
  unfold visit
  split
  · exact h
  · next hm =>
    have hfollow := hfollow (Bool.eq_false_iff.2 hm)
    show I ((outgoing a t).foldl (follow a t) s)
    generalize outgoing a t = es at hfollow ⊢
    induction es generalizing s with
    | nil => exact h
    | cons e es ih =>
      apply ih (hfollow s e List.mem_cons_self h)
      intro s e he
      exact hfollow s e (List.mem_cons_of_mem _ he)

/-! ## The lines of a state -/

/-- Every line in the queue and in the slots has a property, and every token has its lines. -/
structure Carries (P : Line → Prop) (s : Run) : Prop where
  queue : ∀ t ∈ s.queue, t.lines.length = t.node.kind.numLines ∧ ∀ l ∈ t.lines, P l
  waiting : ∀ id slot l, (s.waiting id).line? slot = some l → P l

namespace Carries

variable {P : Line → Prop} {l : Line}

theorem lines_ne_nil (h : Carries P s) (ht : t ∈ s.queue) : t.lines ≠ [] :=
  t.lines_ne_nil (h.queue t ht).1

theorem join (h : Carries P s) {lines : List Line} (hlen : lines.length = n.kind.numLines)
    (hl : ∀ l ∈ lines, P l) : Carries P (s.join n lines) := by
  unfold Run.join
  split
  · exact h
  · refine ⟨?_, h.waiting⟩
    intro u hu
    rcases List.mem_append.1 hu with hu | hu
    · exact h.queue u hu
    · rw [List.mem_singleton.1 hu]
      exact ⟨hlen, hl⟩

theorem park (h : Carries P s) (id : NodeId) (handle : Handle) (hl : P l) :
    Carries P (s.park id handle.slot l) := by
  refine ⟨h.queue, fun i slot l' hl' => ?_⟩
  simp only [Run.park] at hl'
  split at hl'
  · by_cases hslot : slot = handle.slot
    · rw [hslot, PendingInputs.line?_fill_self] at hl'
      exact Option.some.inj hl' ▸ hl
    · rw [PendingInputs.line?_fill_of_ne _ hslot] at hl'
      exact h.waiting _ _ _ hl'
  · exact h.waiting _ _ _ hl'

/-- The two lines that a gate has waited for. -/
theorem lines? (h : Carries P s) {id : NodeId} {lines : List Line}
    (hlines : (s.waiting id).lines? = some lines) : lines.length = 2 ∧ ∀ l ∈ lines, P l := by
  have hslots := PendingInputs.lines?_eq_some_iff.1 hlines
  constructor
  · simpa using (congrArg List.length hslots).symm
  · intro l hl
    have hmem : some l ∈ [(s.waiting id).line? 0, (s.waiting id).line? 1] :=
      hslots ▸ List.mem_map_of_mem hl
    rcases List.mem_cons.1 hmem with hl | hmem
    · exact h.waiting _ _ _ hl.symm
    · exact h.waiting _ _ _ (List.mem_singleton.1 hmem).symm

theorem arrive (h : Carries P s) (n : Node) (handle : Option Handle) (hl : P l) :
    Carries P (s.arrive n handle l) := by
  have harrival := s.arrival n handle l
  generalize s.arrive n handle l = s' at harrival ⊢
  cases harrival with
  | source _ => exact h
  | single hk =>
    apply h.join
    · exact (NodeKind.numLines_of_numInputs hk).symm
    · intro l' hl'
      exact List.mem_singleton.1 hl' ▸ hl
  | ignored _ _ => exact h
  | @waiting i _ _ _ _ => exact h.park n.id i hl
  | @complete i lines hk _ _ hlines =>
    have hpark : Carries P (s.park n.id i.slot l) := h.park n.id i hl
    obtain ⟨hlen, hlines⟩ := hpark.lines? hlines
    apply hpark.join _ hlines
    rw [NodeKind.numLines_of_isTwoGate hk, hlen]

theorem follow (h : Carries P s) (a : Adjacency) (ht : ∀ l ∈ t.lines, P l) (e : Edge) :
    Carries P (follow a t s e) := by
  rcases follow_cases a t s e with heq | ⟨l, hl, j, -, heq⟩
  · rwa [heq]
  · rw [heq]
    exact h.arrive j.node _ (ht l hl)

theorem visit (h : Carries P s) (a : Adjacency) (ht : ∀ l ∈ t.lines, P l) :
    Carries P (visit a s t) := by
  apply visit_preserves _ h
  intro _ s e _ h
  exact h.follow a ht e

theorem pop (h : Carries P s) (hq : takeLowest s.queue = some (t, rest)) :
    (t.lines.length = t.node.kind.numLines ∧ ∀ l ∈ t.lines, P l) ∧
      Carries P { s with queue := rest } := by
  have hperm := (perm_of_takeLowest hq).1
  refine ⟨h.queue t (hperm.mem_iff.2 List.mem_cons_self), ?_, h.waiting⟩
  intro u hu
  exact h.queue u (hperm.mem_iff.2 (List.mem_cons_of_mem _ hu))

theorem steps (h : Carries P s) (hsteps : Steps a s ts s') :
    ∀ t ∈ ts, t.lines.length = t.node.kind.numLines ∧ ∀ l ∈ t.lines, P l := by
  induction hsteps with
  | refl s => intro t ht; cases ht
  | pop hq _ ih =>
    obtain ⟨htoken, hpop⟩ := h.pop hq
    intro u hu
    rcases List.mem_cons.1 hu with rfl | hu
    · exact htoken
    · exact ih (hpop.visit a htoken.2) u hu

end Carries

/-- Each source starts with one line, and there are as many lines as sources. -/
theorem carries_start (g : CircuitGraph) :
    (start (.build g)).Carries (· < g.sources.length) := by
  apply start_preserves
  · refine ⟨fun t ht => ?_, fun id slot l hl => ?_⟩
    · cases ht
    · unfold PendingInputs.line? at hl
      split at hl <;> cases hl
  · intro s n l hget _ h
    have hs : n.kind.isSource := (CircuitGraph.mem_orderedSources.1 (List.mem_of_getElem? hget)).2
    have hlt : l < g.sources.length := by
      rw [← CircuitGraph.orderedSources_perm.length_eq]
      exact (List.getElem?_eq_some_iff.1 hget).1
    exact h.join (NodeKind.numLines_of_isSource hs).symm fun l' hl' =>
      List.mem_singleton.1 hl' ▸ hlt

theorem priority_mem (h : t.lines ≠ []) : t.priority ∈ t.lines := by
  unfold Token.priority
  cases hm : t.lines.min? with
  | none => exact absurd (List.min?_eq_none_iff.1 hm) h
  | some l => exact List.min?_mem hm

end Run

end QuantumWiring

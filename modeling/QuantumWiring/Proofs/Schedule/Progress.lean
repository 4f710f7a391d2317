import QuantumWiring.Proofs.Schedule.Loop

/-!
# The progress of a run

On a well-formed graph a round of the loop follows wires that have carried nothing, each once, and
every one of them brings a line to a node that has not joined the queue (`Incoming`).  So what each
such arrival preserves is preserved by a visit (`Progress.visit_induction`), and then by any number
of rounds.
-/

namespace QuantumWiring

namespace Run

variable {g : CircuitGraph} {s : Run} {n : Node} {t : Token} {done rest : List Token}

/-! ## Arrivals -/

/-- A line is about to arrive by a wire that has carried none. -/
structure Incoming (g : CircuitGraph) (c : Edge → Option Line) (done : List Token) (s : Run)
    (e : Edge) (n : Node) : Prop where
  sound : Sound g c done s
  mem : e ∈ g.edges
  target_mem : n ∈ g.nodes
  target : n.id = e.target
  fresh : c e = none

namespace Incoming

variable {c : Edge → Option Line} {e : Edge} {i : Handle}

theorem not_mem_joined (hg : g.WellFormed) (h : Incoming g c done s e n) : n.id ∉ s.joined :=
  h.sound.not_mem_joined hg h.mem h.target h.fresh

/-- The slot that the wire leads to is empty. -/
theorem line?_eq_none (h : Incoming g c done s e n) (hk : n.kind.isTwoGate)
    (hend : e.targetHandle = some i) (hi : i.isInput) : (s.waiting n.id).line? i.slot = none :=
  (h.sound.slot e h.mem n h.target_mem h.target hk i hend hi).trans h.fresh

end Incoming

/-- What every arrival preserves holds after some wires have been followed. -/
theorem Sound.foldl_induction (hg : g.WellFormed) {I : List Edge → Run → Prop}
    (hstep : ∀ c s es e n l, Incoming g c done s e n → t.lineAlong? e = some l →
      I es s → I (es ++ [e]) (s.arrive n e.targetHandle l))
    {es : List Edge} (hes : es.Nodup) {c : Edge → Option Line}
    (hwires : ∀ e ∈ es, e ∈ g.edges ∧ c e = none ∧ ∃ l, t.lineAlong? e = some l)
    {before : List Edge} (hI : I before s) (h : Sound g c done s) :
    I (before ++ es) (es.foldl (follow (.build g) t) s) := by
  -- with each wire that is followed, one more wire carries a line
  induction es generalizing c s before with
  | nil => rwa [List.append_nil]
  | cons e es ih =>
    obtain ⟨hnot, hes⟩ := List.nodup_cons.1 hes
    obtain ⟨he, hnone, l, hl⟩ := hwires e List.mem_cons_self
    obtain ⟨n, hn, hid⟩ := hg.exists_target he
    have hincoming : Incoming g c done s e n := ⟨h, he, hn, hid, hnone⟩
    rw [List.append_cons, List.foldl_cons, follow_build hg hn hid hl]
    refine ih hes (fun e' he' => ?_) (hstep c s before e n l hincoming hl hI)
      (h.arrive hg he hn hid hnone)
    obtain ⟨hedge, hfresh, hline⟩ := hwires e' (List.mem_cons_of_mem _ he')
    have hne : e' ≠ e := fun heq => hnot (heq ▸ he')
    exact ⟨hedge, (Function.update_of_ne hne ..).trans hfresh, hline⟩

/-! ## Rounds -/

/-- What is known of a run after the visits `done`. -/
structure Progress (g : CircuitGraph) (done : List Token) (s : Run) : Prop where
  history : g.History done
  sound : Sound g (lineOn done) done s

namespace Progress

theorem start (hg : g.WellFormed) : Progress g [] (Run.start (.build g)) :=
  ⟨.nil, sound_start hg⟩

/-- What is taken from the queue is available and new. -/
theorem available (h : Progress g done s) (hq : takeLowest s.queue = some (t, rest)) :
    g.Available (lineOn done) t ∧ t.node.id ∉ visitedIds done := by
  have ht : t ∈ s.queue := (perm_of_takeLowest hq).1.mem_iff.2 List.mem_cons_self
  exact ⟨h.sound.available t (List.mem_append_right _ ht), h.sound.notMem_visitedIds ht⟩

theorem visit (hg : g.WellFormed) (h : Progress g done s)
    (hq : takeLowest s.queue = some (t, rest)) :
    Progress g (done ++ [t]) (Run.visit (.build g) { s with queue := rest } t) := by
  obtain ⟨hav, hnew⟩ := h.available hq
  have hpop := h.sound.pop (perm_of_takeLowest hq).1
  exact ⟨h.history.snoc hav hnew, hpop.visit hg hav hnew (.refl _)⟩

/-- What every arrival of a visit preserves holds after the visit, where `I` is about the wires
that were followed so far. -/
theorem visit_induction (hg : g.WellFormed) (h : Progress g done s)
    (hq : takeLowest s.queue = some (t, rest)) {I : List Edge → Run → Prop}
    (hnil : I [] { s with queue := rest })
    (hstep : ∀ c s es e n l, Incoming g c (done ++ [t]) s e n → t.lineAlong? e = some l →
      I es s → I (es ++ [e]) (s.arrive n e.targetHandle l)) :
    I (outgoing (.build g) t) (Run.visit (.build g) { s with queue := rest } t) := by
  obtain ⟨hav, hnew⟩ := h.available hq
  have hfrom := outgoing_build_perm hg hav.node_mem
  have hvisit : Run.visit (.build g) { s with queue := rest } t =
      (outgoing (.build g) t).foldl (follow (.build g) t) { s with queue := rest } :=
    visitAlong_build hg hav.node_mem (.refl _) _
  rw [hvisit]
  refine (h.sound.pop (perm_of_takeLowest hq).1).foldl_induction hg hstep ?nodup ?wires hnil
  case nodup => exact hfrom.nodup_iff.2 (hg.wiresFrom_nodup hav.node_mem)
  case wires =>
    intro e he
    have hmem := hfrom.mem_iff.1 he
    obtain ⟨he, hsource⟩ := CircuitGraph.mem_wiresFrom.1 hmem
    obtain ⟨l, -, hl⟩ := hav.exists_lineAlong hg hmem
    exact ⟨he, lineOn_eq_none (hsource ▸ hnew), l, hl⟩

end Progress

end Run

end QuantumWiring

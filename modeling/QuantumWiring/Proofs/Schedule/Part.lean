import QuantumWiring.Proofs.Schedule.Loop

/-!
# Runs side by side

A run on a graph that falls into two parts is two runs that know nothing of each other.  `Run.part`
is what one half of the ids sees of a state.  A visit in a half is a visit there and changes nothing
in the other half (`visit_part`, `visit_part_of_not`), so two halves only compete for the queue.
When the lines of one half are below those of the other, the first half is visited to its end before
the second begins (`visits_eq_append`), however the two are wired.
-/

namespace QuantumWiring

/-! ## The lowest token -/

section TakeLowest

variable {p : Token → Bool} {q rest : List Token} {t : Token}

theorem takeLowest_cons_of_lt {u : Token} (h : takeLowest q = some (t, rest))
    (hlt : t.priority < u.priority) : takeLowest (u :: q) = some (t, u :: rest) := by
  simp only [takeLowest, h]
  rw [if_neg (Nat.not_le.2 hlt)]

theorem takeLowest_cons_of_le (h : ∀ u ∈ q, t.priority ≤ u.priority) :
    takeLowest (t :: q) = some (t, q) := by
  cases hq : takeLowest q with
  | none =>
    rw [takeLowest_eq_none_iff.1 hq]
    rfl
  | some v =>
    obtain ⟨u, others⟩ := v
    have hu : u ∈ q := (perm_of_takeLowest hq).1.mem_iff.2 List.mem_cons_self
    simp only [takeLowest, hq]
    rw [if_pos (h u hu)]

/-- The token taken is below those before it, and not above those behind it. -/
theorem takeLowest_eq_some_iff : takeLowest q = some (t, rest) ↔
    ∃ before after, q = before ++ t :: after ∧ before ++ after = rest ∧
      (∀ u ∈ before, t.priority < u.priority) ∧ ∀ u ∈ after, t.priority ≤ u.priority := by
  constructor
  · intro h
    induction q generalizing rest with
    | nil => simp [takeLowest] at h
    | cons u q ih =>
      cases hq : takeLowest q with
      | none =>
        simp only [takeLowest, hq] at h
        obtain ⟨rfl, rfl⟩ : u = t ∧ [] = rest := by simpa using h
        obtain rfl := takeLowest_eq_none_iff.1 hq
        exact ⟨[], [], rfl, rfl, by simp, by simp⟩
      | some v =>
        obtain ⟨v, others⟩ := v
        simp only [takeLowest, hq] at h
        by_cases hle : u.priority ≤ v.priority
        · rw [if_pos hle] at h
          obtain ⟨rfl, rfl⟩ : u = t ∧ q = rest := by simpa using h
          exact ⟨[], q, rfl, rfl, by simp, fun w hw =>
            Nat.le_trans hle ((perm_of_takeLowest hq).2 w hw)⟩
        · rw [if_neg hle] at h
          obtain ⟨rfl, rfl⟩ : v = t ∧ u :: others = rest := by simpa using h
          obtain ⟨before, after, rfl, rfl, hbefore, hafter⟩ := ih hq
          refine ⟨u :: before, after, rfl, rfl, fun w hw => ?_, hafter⟩
          rcases List.mem_cons.1 hw with rfl | hw
          · exact Nat.not_le.1 hle
          · exact hbefore w hw
  · rintro ⟨before, after, rfl, rfl, hbefore, hafter⟩
    induction before with
    | nil => exact takeLowest_cons_of_le hafter
    | cons u before ih =>
      exact takeLowest_cons_of_lt (ih fun w hw => hbefore w (List.mem_cons_of_mem _ hw))
        (hbefore u List.mem_cons_self)

/-- The lowest token of a part is taken from the whole queue, if the others are above it. -/
theorem takeLowest_of_filter (h : takeLowest (q.filter p) = some (t, rest))
    (hlow : ∀ u ∈ q, p u = false → t.priority < u.priority) :
    ∃ others, takeLowest q = some (t, others) ∧ others.filter p = rest ∧
      others.filter (!p ·) = q.filter (!p ·) := by
  obtain ⟨before, after, hq, rfl, hbefore, hafter⟩ := takeLowest_eq_some_iff.1 h
  obtain ⟨l, l', rfl, rfl, hl'⟩ := List.filter_eq_append_iff.1 hq
  obtain ⟨m, after', rfl, hm, hpt, rfl⟩ := List.filter_eq_cons_iff.1 hl'
  have hm' : m.filter p = [] := List.filter_eq_nil_iff.2 hm
  refine ⟨(l ++ m) ++ after', takeLowest_eq_some_iff.2
    ⟨l ++ m, after', (List.append_assoc ..).symm, rfl, fun u hu => ?_, fun u hu => ?_⟩, ?_, ?_⟩
  · have hmem : u ∈ l ++ (m ++ t :: after') := by
      rw [← List.append_assoc]
      exact List.mem_append_left _ hu
    cases hu' : p u with
    | false => exact hlow u hmem hu'
    | true =>
      rcases List.mem_append.1 hu with hu | hu
      · exact hbefore u (List.mem_filter.2 ⟨hu, hu'⟩)
      · exact absurd hu' (hm u hu)
  · cases hu' : p u with
    | false => exact Nat.le_of_lt (hlow u (by simp [hu]) hu')
    | true => exact hafter u (List.mem_filter.2 ⟨hu, hu'⟩)
  · rw [List.filter_append, List.filter_append, hm', List.append_nil]
  · simp [hpt]

end TakeLowest

/-- `b` knows the nodes with the ids in `p` as `a` does, and no wire leads from them to others. -/
structure Adjacency.Part (a b : Adjacency) (p : NodeId → Bool) : Prop where
  find?_eq : ∀ id, p id → a.find? id = b.find? id
  closed : ∀ id, p id → ∀ j, a.find? id = some j → ∀ e ∈ j.outgoing, p e.target

namespace Run

/-- What the nodes with the ids in `p` see of a state. -/
def part (p : NodeId → Bool) (s : Run) : Run :=
  ⟨s.queue.filter (p ·.node.id), s.joined.filter p, fun id => if p id then s.waiting id else .none⟩

variable {a b c : Adjacency} {p : NodeId → Bool} {s : Run} {n : Node} {t : Token}

/-! ## Steps inside and outside of a part -/

theorem part_join (hn : p n.id) (lines : List Line) :
    (s.join n lines).part p = (s.part p).join n lines := by
  have hmem : n.id ∈ (s.part p).joined ↔ n.id ∈ s.joined := by simp [part, hn]
  unfold join
  simp only [hmem]
  split
  · rfl
  · simp [part, hn]

theorem part_join_of_not (hn : p n.id = false) (lines : List Line) :
    (s.join n lines).part p = s.part p := by
  unfold join
  split
  · rfl
  · simp [part, hn]

theorem part_park {id : NodeId} (hid : p id) (slot : Nat) (l : Line) :
    (s.park id slot l).part p = (s.part p).park id slot l := by
  refine congrArg (Run.mk _ _) (funext fun i => ?_)
  by_cases hi : i = id
  · simp [park, part, hi, hid]
  · simp [park, part, hi]

theorem part_park_of_not {id : NodeId} (hid : p id = false) (slot : Nat) (l : Line) :
    (s.park id slot l).part p = s.part p := by
  refine congrArg (Run.mk _ _) (funext fun i => ?_)
  by_cases hi : i = id
  · simp [hi, hid]
  · simp [park, hi]

theorem part_arrive (hn : p n.id) (handle : Option Handle) (l : Line) :
    (s.arrive n handle l).part p = (s.part p).arrive n handle l := by
  unfold arrive
  split
  · rfl
  · exact part_join hn _
  · exact part_join hn _
  · split
    · next i =>
      split
      · have hwaiting : ((s.part p).park n.id i.slot l).waiting n.id =
            (s.park n.id i.slot l).waiting n.id := by
          rw [← part_park hn]
          simp [part, hn]
        simp only [hwaiting]
        split
        · rw [part_join hn, part_park hn]
        · exact part_park hn _ _
      · rfl
    · rfl

theorem part_arrive_of_not (hn : p n.id = false) (handle : Option Handle) (l : Line) :
    (s.arrive n handle l).part p = s.part p := by
  unfold arrive
  split
  · rfl
  · exact part_join_of_not hn _
  · exact part_join_of_not hn _
  · split
    · split
      · simp only
        split
        · rw [part_join_of_not hn, part_park_of_not hn]
        · exact part_park_of_not hn _ _
      · rfl
    · rfl

theorem part_follow (h : a.Part b p) {e : Edge} (he : p e.target) (t : Token) :
    (follow a t s e).part p = follow b t (s.part p) e := by
  unfold follow
  rw [← h.find?_eq _ he]
  cases t.lineAlong? e with
  | none => rfl
  | some l =>
    cases hj : a.find? e.target with
    | none => rfl
    | some j =>
      have hid : j.node.id = e.target := by simpa using List.find?_some hj
      exact part_arrive (hid ▸ he) _ _

theorem part_follow_of_not {e : Edge} (he : p e.target = false) (t : Token) :
    (follow a t s e).part p = s.part p := by
  unfold follow
  split
  · next j _ hj =>
    have hid : j.node.id = e.target := by simpa using List.find?_some hj
    exact part_arrive_of_not (hid ▸ he) _ _
  · rfl

theorem mem_outgoing_target (h : a.Part b p) (ht : p t.node.id) {e : Edge}
    (he : e ∈ outgoing a t) : p e.target := by
  unfold outgoing at he
  cases hj : a.find? t.node.id with
  | none => simp [hj] at he
  | some j => exact h.closed _ ht j hj e (by simpa [hj] using he)

/-- **A visit in a part is a visit of the part.** -/
theorem part_visit (h : a.Part b p) (ht : p t.node.id) :
    (visit a s t).part p = visit b (s.part p) t := by
  have hout : outgoing a t = outgoing b t := by unfold outgoing; rw [h.find?_eq _ ht]
  show (visitAlong a s t (outgoing a t)).part p = visitAlong b (s.part p) t (outgoing b t)
  rw [← hout]
  unfold visitAlong
  split
  · rfl
  · have htarget : ∀ e ∈ outgoing a t, p e.target := fun _ => mem_outgoing_target h ht
    generalize outgoing a t = es at htarget ⊢
    induction es generalizing s with
    | nil => rfl
    | cons e es ih =>
      rw [List.foldl_cons, List.foldl_cons, ih fun e he => htarget e (List.mem_cons_of_mem _ he),
        part_follow h (htarget e List.mem_cons_self)]

/-- **A visit in a part changes nothing outside of it.** -/
theorem part_visit_of_not (h : a.Part b p) (ht : p t.node.id) :
    (visit a s t).part (!p ·) = s.part (!p ·) := by
  show (visitAlong a s t (outgoing a t)).part (!p ·) = s.part (!p ·)
  unfold visitAlong
  split
  · rfl
  · have htarget : ∀ e ∈ outgoing a t, p e.target := fun _ => mem_outgoing_target h ht
    generalize outgoing a t = es at htarget ⊢
    induction es generalizing s with
    | nil => rfl
    | cons e es ih =>
      rw [List.foldl_cons, ih fun e he => htarget e (List.mem_cons_of_mem _ he),
        part_follow_of_not (by simp [htarget e List.mem_cons_self])]

/-! ## Two parts -/

/-- A run in which only one part has tokens is a run of this part. -/
theorem visits_eq_visits_part (h : a.Part b p) {s : Run} (hq : ∀ t ∈ s.queue, p t.node.id) :
    visits a s = visits b (s.part p) := by
  have hpart : (s.part p).queue = s.queue := List.filter_eq_self.2 hq
  cases ht : takeLowest s.queue with
  | none =>
    have hnil := takeLowest_eq_none_iff.1 ht
    rw [visits_of_queue_eq_nil hnil, visits_of_queue_eq_nil (hpart.trans hnil)]
  | some v =>
    obtain ⟨t, rest⟩ := v
    have hlt : (visit a { s with queue := rest } t).pending a < s.pending a := pending_visit_lt ht
    have hperm := (perm_of_takeLowest ht).1
    have hpt : p t.node.id := hq t (hperm.mem_iff.2 List.mem_cons_self)
    have hrest : ∀ u ∈ rest, p u.node.id := fun u hu =>
      hq u (hperm.mem_iff.2 (List.mem_cons_of_mem _ hu))
    have hpop : ({ s with queue := rest } : Run).part p = { s.part p with queue := rest } := by
      simp only [part, List.filter_eq_self.2 hrest]
    have hstep := part_visit (s := { s with queue := rest }) h hpt
    rw [hpop] at hstep
    have ht' : takeLowest (s.part p).queue = some (t, rest) := by rw [hpart, ht]
    rw [visits_of_takeLowest ht, visits_of_takeLowest ht', ← hstep,
      visits_eq_visits_part h (s := visit a { s with queue := rest } t)]
    intro u hu
    by_contra hpu
    have hmem : u ∈ ((visit a { s with queue := rest } t).part (!p ·)).queue :=
      List.mem_filter.2 ⟨hu, by simpa using hpu⟩
    rw [part_visit_of_not h hpt] at hmem
    exact hpu (hrest u (List.mem_filter.1 hmem).1)
termination_by s.pending a

/-- **Two parts run one after the other**, if the lines of the first are below those of the
second. -/
theorem visits_eq_append {P : Line → Prop} (h : a.Part b p) (h' : a.Part c (!p ·)) {s : Run}
    (hcarries : (s.part p).Carries P)
    (habove : ∀ u ∈ s.queue, p u.node.id = false → ∀ l, P l → l < u.priority) :
    visits a s = visits b (s.part p) ++ visits c (s.part (!p ·)) := by
  cases ht : takeLowest (s.part p).queue with
  | none =>
    have hnil := takeLowest_eq_none_iff.1 ht
    rw [visits_of_queue_eq_nil hnil, List.nil_append]
    exact visits_eq_visits_part h' fun u hu => by simpa using List.filter_eq_nil_iff.1 hnil u hu
  | some v =>
    obtain ⟨t, rest⟩ := v
    obtain ⟨⟨-, hlines⟩, hpop⟩ := hcarries.pop ht
    have hmem : t ∈ (s.part p).queue := (perm_of_takeLowest ht).1.mem_iff.2 List.mem_cons_self
    have hpt : p t.node.id := (List.mem_filter.1 hmem).2
    obtain ⟨others, htake, hrest, hothers⟩ := takeLowest_of_filter (p := (p ·.node.id)) ht
      fun u hu hpu => habove u hu hpu _ (hlines _ (priority_mem (hcarries.lines_ne_nil hmem)))
    have hlt : (visit a { s with queue := others } t).pending a < s.pending a :=
      pending_visit_lt htake
    have hin : (visit a { s with queue := others } t).part p =
        visit b { s.part p with queue := rest } t := by
      rw [part_visit h hpt]
      exact congrArg (visit b · t) (congrArg (Run.mk · _ _) hrest)
    have hout : (visit a { s with queue := others } t).part (!p ·) = s.part (!p ·) := by
      rw [part_visit_of_not h hpt]
      exact congrArg (Run.mk · _ _) hothers
    rw [visits_of_takeLowest htake, visits_of_takeLowest ht, List.cons_append, ← hin, ← hout,
      visits_eq_append h h' (s := visit a { s with queue := others } t)]
    · rw [hin]
      exact hpop.visit b hlines
    · intro u hu hpu
      have hmem : u ∈ ((visit a { s with queue := others } t).part (!p ·)).queue :=
        List.mem_filter.2 ⟨hu, by simp [hpu]⟩
      rw [hout] at hmem
      exact habove u (List.mem_filter.1 hmem).1 hpu
termination_by s.pending a

end Run

end QuantumWiring

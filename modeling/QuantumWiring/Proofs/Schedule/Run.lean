import QuantumWiring.Proofs.Schedule.History
import Mathlib.Logic.Function.Basic

/-!
# The run of the scheduler

On a well-formed graph the queue of the scheduler holds, at every visit, exactly the nodes that
are available and not visited (`Sound`).  The invariant is carried through each wire that is
followed: a line that arrives fills a slot that was free, since the slot has one wire, and a node
joins the queue with the last line that it waited for.  `greedyRun_of_proceeds` draws the
conclusion: the visits of a run are a greedy run, whatever the sequence in which nodes joined the
queue and whatever the order in which wires are followed (`Proceeds`).
-/

namespace QuantumWiring

/-! ## Slots and the queue -/

namespace PendingInputs

def line? (p : PendingInputs) (slot : Nat) : Option Line :=
  match slot with
  | 0 => p.first
  | 1 => p.second
  | _ => .none

theorem line?_fill_self (p : PendingInputs) (h : Handle) (l : Line) :
    (p.fill h.slot l).line? h.slot = some l := by
  cases h <;> rfl

theorem line?_fill_of_ne (p : PendingInputs) {i j : Nat} (h : j ≠ i) (l : Line) :
    (p.fill i l).line? j = p.line? j := by
  match i, j with
  | 0, 0 => exact absurd rfl h
  | 0, 1 | 0, j + 2 | 1, 0 | 1, j + 2 | i + 2, 0 | i + 2, 1 | i + 2, j + 2 => rfl
  | 1, 1 => exact absurd rfl h

theorem lines?_eq_some_iff {p : PendingInputs} {ls : List Line} :
    p.lines? = some ls ↔ [p.line? 0, p.line? 1] = ls.map some := by
  unfold lines? line?
  cases p.first <;> cases p.second <;> rcases ls with _ | ⟨a, _ | ⟨b, _ | ⟨c, ls⟩⟩⟩ <;> simp

end PendingInputs

theorem takeLowest_eq_none_iff {q : List Token} : takeLowest q = none ↔ q = [] := by
  cases q with
  | nil => simp [takeLowest]
  | cons t rest =>
    simp only [takeLowest]
    split
    · simp
    · split <;> simp

/-- The token taken is one of the queue with the lowest line. -/
theorem perm_of_takeLowest {q others : List Token} {t : Token}
    (h : takeLowest q = some (t, others)) :
    q.Perm (t :: others) ∧ ∀ u ∈ q, t.priority ≤ u.priority := by
  induction q generalizing t others with
  | nil => simp [takeLowest] at h
  | cons a rest ih =>
    simp only [takeLowest] at h
    split at h
    · next hrest =>
      obtain ⟨rfl, rfl⟩ : a = t ∧ [] = others := by simpa using h
      rw [takeLowest_eq_none_iff.1 hrest]
      exact ⟨.refl _, by simp⟩
    · next u others' hrest =>
      obtain ⟨hperm, hlow⟩ := ih hrest
      split at h
      · next hle =>
        obtain ⟨rfl, rfl⟩ : a = t ∧ rest = others := by simpa using h
        refine ⟨.refl _, fun v hv => ?_⟩
        rcases List.mem_cons.1 hv with rfl | hv
        · exact Nat.le_refl _
        · exact Nat.le_trans hle (hlow v hv)
      · next hle =>
        obtain ⟨rfl, rfl⟩ : u = t ∧ a :: others' = others := by simpa using h
        refine ⟨(hperm.cons a).trans (.swap ..), fun v hv => ?_⟩
        rcases List.mem_cons.1 hv with rfl | hv
        · exact Nat.le_of_lt (Nat.not_le.1 hle)
        · exact hlow v hv

namespace Run

/-! ## Runs that are free in their order -/

/-- The wires that are followed from a node. -/
def outgoing (a : Adjacency) (t : Token) : List Edge :=
  ((a.find? t.node.id).map Junction.outgoing).getD []

/-- Visit a node and follow its wires in the order given. -/
def visitAlong (a : Adjacency) (s : Run) (t : Token) (es : List Edge) : Run :=
  if t.node.kind.isMeasurement then s else es.foldl (follow a t) s

/-- The visits of a run that takes any token with the lowest line, wherever it stands in the queue,
and follows the wires from its node in any order. -/
inductive Proceeds (a : Adjacency) : Run → List Token → Prop
  | stop {s : Run} (hq : s.queue = []) : Proceeds a s []
  | visit {s : Run} {t : Token} {rest ts : List Token} {es : List Edge}
    (hq : s.queue.Perm (t :: rest)) (hlow : ∀ u ∈ s.queue, t.priority ≤ u.priority)
    (hes : es.Perm (outgoing a t))
    (hts : Proceeds a (visitAlong a { s with queue := rest } t es) ts) : Proceeds a s (t :: ts)

/-! ## Following wires of a well-formed graph -/

section Follow

variable {g : CircuitGraph} {t : Token} (hg : g.WellFormed)
include hg

/-- A wire that carries a line of the visited node brings it to the node it leads to. -/
theorem follow_build {n : Node} {e : Edge} {l : Line} (hn : n ∈ g.nodes) (hid : n.id = e.target)
    (hl : t.lineAlong? e = some l) (s : Run) :
    follow (.build g) t s e = s.arrive n e.targetHandle l := by
  have hfind : (Adjacency.build g).find? e.target = some (g.junction n) :=
    hid ▸ Adjacency.find?_build_of_mem hg.ids_nodup hn
  simp only [follow, hl, hfind, CircuitGraph.junction]

theorem outgoing_build_perm (ht : t.node ∈ g.nodes) :
    (outgoing (.build g) t).Perm (g.wiresFrom t.node.id) := by
  refine .trans (.of_eq ?_) hg.outgoing_perm
  rw [outgoing, Adjacency.find?_build_of_mem hg.ids_nodup ht]
  rfl

theorem outgoing_build_eq_nil (ht : t.node ∈ g.nodes) (hm : t.node.kind.isMeasurement) :
    outgoing (.build g) t = [] := by
  have hfrom := outgoing_build_perm hg ht
  rw [hg.wiresFrom_eq_nil ht hm] at hfrom
  exact hfrom.eq_nil

/-- No wire leaves a measurement, so nothing has to stop at one. -/
theorem visitAlong_build (ht : t.node ∈ g.nodes) {es : List Edge}
    (hes : es.Perm (outgoing (.build g) t)) (s : Run) :
    s.visitAlong (.build g) t es = es.foldl (follow (.build g) t) s := by
  unfold visitAlong
  split
  · next hm =>
    rw [outgoing_build_eq_nil hg ht hm] at hes
    rw [hes.eq_nil, List.foldl_nil]
  · rfl

end Follow

/-! ## The invariant -/

/-- The slots of the gates on two qubits hold what their wires carry. -/
def SlotsHold (g : CircuitGraph) (c : Edge → Option Line) (w : NodeId → PendingInputs) : Prop :=
  ∀ e ∈ g.edges, ∀ n ∈ g.nodes, n.id = e.target → n.kind.isTwoGate →
    ∀ h : Handle, e.targetHandle = some h → h.isInput → (w n.id).line? h.slot = c e

/-- The state of a run after the visits `done`, when the wires carry the lines that `c` tells. -/
structure Sound (g : CircuitGraph) (c : Edge → Option Line) (done : List Token) (s : Run) :
    Prop where
  joined_perm : s.joined.Perm (visitedIds (done ++ s.queue))
  joined_nodup : s.joined.Nodup
  available : ∀ t ∈ done ++ s.queue, g.Available c t
  mem_joined : ∀ t, g.Available c t → t.node.id ∈ s.joined
  slot : SlotsHold g c s.waiting

/-- A node that joins the queue is entered in the books. -/
theorem joined_perm_snoc {joined : List NodeId} {done queue : List Token}
    (h : joined.Perm (visitedIds (done ++ queue))) (t : Token) :
    (t.node.id :: joined).Perm (visitedIds (done ++ (queue ++ [t]))) := by
  rw [← List.append_assoc, visitedIds_append]
  exact (h.cons t.node.id).trans (List.perm_append_singleton ..).symm

theorem append_perm_of_pop {done queue rest : List Token} {t : Token}
    (ht : queue.Perm (t :: rest)) : (done ++ queue).Perm (done ++ [t] ++ rest) := by
  rw [List.append_assoc]
  exact ht.append_left done

namespace Sound

variable {g : CircuitGraph} {c c' : Edge → Option Line} {done : List Token} {s : Run}

theorem congr (hg : g.WellFormed) (h : Sound g c done s) (hc : ∀ e ∈ g.edges, c e = c' e) :
    Sound g c' done s := by
  have himp (t : Token) (hn : t.node ∈ g.nodes) (e : Edge) (he : e ∈ g.inputWires t.node) :
      c e = c' e := hc e ((hg.mem_inputWires hn).1 he).1
  refine ⟨h.joined_perm, h.joined_nodup, fun t ht => ?_, fun t ht => ?_, ?_⟩
  · have hav := h.available t ht
    exact hav.mono fun e he l hl => himp t hav.node_mem e he ▸ hl
  · exact h.mem_joined t (ht.mono fun e he l hl => (himp t ht.node_mem e he).symm ▸ hl)
  · intro e he n hn hid ht i hi hin
    rw [← hc e he]
    exact h.slot e he n hn hid ht i hi hin

/-- What is available has been visited or waits in the queue. -/
theorem mem_of_available (hg : g.WellFormed) (h : Sound g c done s) {t : Token}
    (ht : g.Available c t) : t ∈ done ++ s.queue := by
  obtain ⟨u, hu, hid⟩ := List.mem_map.1 (h.joined_perm.mem_iff.1 (h.mem_joined t ht))
  exact (h.available u hu).eq_of_id_eq hg ht hid ▸ hu

theorem notMem_visitedIds (h : Sound g c done s) {t : Token} (ht : t ∈ s.queue) :
    t.node.id ∉ visitedIds done := by
  have hnodup := h.joined_perm.nodup_iff.1 h.joined_nodup
  rw [visitedIds_append] at hnodup
  exact fun hmem => List.disjoint_of_nodup_append hnodup hmem (mem_visitedIds ht)

theorem pop (h : Sound g c done s) {t : Token} {rest : List Token}
    (ht : s.queue.Perm (t :: rest)) : Sound g c (done ++ [t]) { s with queue := rest } := by
  have hperm : (done ++ s.queue).Perm (done ++ [t] ++ rest) := append_perm_of_pop ht
  exact ⟨h.joined_perm.trans (hperm.map _), h.joined_nodup,
    fun u hu => h.available u (hperm.mem_iff.2 hu), h.mem_joined, h.slot⟩

/-! ## Following a wire -/

variable {n : Node} {e : Edge} {l : Line}

theorem update_eq_self_or {e' : Edge} (hnone : c e = none) {l' : Line} (h : c e' = some l') :
    Function.update c e (some l) e' = some l' := by
  rw [Function.update_of_ne, h]
  rintro rfl
  rw [hnone] at h
  cases h

/-- A node whose entering wire carries nothing has not joined the queue. -/
theorem not_mem_joined (hg : g.WellFormed) (h : Sound g c done s) (he : e ∈ g.edges)
    (hid : n.id = e.target) (hnone : c e = none) : n.id ∉ s.joined := by
  intro hmem
  obtain ⟨t, ht, htid⟩ := List.mem_map.1 (h.joined_perm.mem_iff.1 hmem)
  obtain ⟨l, -, hl⟩ := (h.available t ht).exists_mem_lines hg he (hid.symm.trans htid.symm)
  rw [hnone] at hl
  cases hl

/-- What a wire makes available is the node that it leads to. -/
theorem available_or_of_update (hg : g.WellFormed) (hid : n.id = e.target) {t : Token}
    (ht : g.Available (Function.update c e (some l)) t) :
    t.node.id = n.id ∨ g.Available c t := by
  by_cases htid : t.node.id = n.id
  · exact .inl htid
  · refine .inr (ht.mono fun e' he' l' hl' => ?_)
    have : e' ≠ e := by
      rintro rfl
      exact htid (((hg.mem_inputWires ht.node_mem).1 he').2.symm.trans hid.symm)
    rwa [Function.update_of_ne this] at hl'

theorem join (hg : g.WellFormed) (h : Sound g c done s) (he : e ∈ g.edges)
    (hid : n.id = e.target) (hnone : c e = none) {ls : List Line}
    (hav : g.Available (Function.update c e (some l)) ⟨n, ls⟩) {w : NodeId → PendingInputs}
    (hslot : SlotsHold g (Function.update c e (some l)) w) :
    Sound g (Function.update c e (some l)) done ({ s with waiting := w }.join n ls) := by
  have hnew : n.id ∉ s.joined := h.not_mem_joined hg he hid hnone
  rw [Run.join, if_neg hnew]
  refine ⟨joined_perm_snoc h.joined_perm ⟨n, ls⟩, List.nodup_cons.2 ⟨hnew, h.joined_nodup⟩, ?_, ?_,
    hslot⟩
  · intro t ht
    rw [← List.append_assoc] at ht
    rcases List.mem_append.1 ht with ht | ht
    · exact (h.available t ht).mono fun _ _ _ => update_eq_self_or hnone
    · rw [List.mem_singleton.1 ht]
      exact hav
  · intro t ht
    rcases available_or_of_update hg hid ht with htid | ht
    · exact htid ▸ List.mem_cons_self
    · exact List.mem_cons_of_mem _ (h.mem_joined t ht)

/-- A line that arrives at a gate on two qubits is put into the slot of its wire. -/
theorem slot_park (hg : g.WellFormed) (h : Sound g c done s) (he : e ∈ g.edges) (hn : n ∈ g.nodes)
    (hid : n.id = e.target) (ht : n.kind.isTwoGate) {i : Handle} (hi : e.targetHandle = some i)
    (hin : i.isInput) :
    SlotsHold g (Function.update c e (some l)) (s.park n.id i.slot l).waiting := by
  intro e' he' m hm hmid hmt j hj hjn
  show (if m.id = n.id then (s.waiting n.id).fill i.slot l else s.waiting m.id).line? j.slot = _
  by_cases hmn : m.id = n.id
  · obtain rfl := CircuitGraph.eq_of_id_eq hg.ids_nodup hm hn hmn
    rw [if_pos rfl]
    by_cases hij : j = i
    · subst hij
      obtain rfl := hg.eq_of_targetHandle hm hmt hin he' he hmid.symm hid.symm hj hi
      rw [PendingInputs.line?_fill_self, Function.update_self]
    · have hslot : j.slot ≠ i.slot := by
        revert hij hin hjn
        cases i <;> cases j <;> decide
      have hne : e' ≠ e := by
        rintro rfl
        exact hij (Option.some.inj (hj.symm.trans hi))
      rw [PendingInputs.line?_fill_of_ne _ hslot, Function.update_of_ne hne]
      exact h.slot e' he' m hm hmid hmt j hj hjn
  · have hne : e' ≠ e := by
      rintro rfl
      exact hmn (hmid.trans hid.symm)
    rw [if_neg hmn, Function.update_of_ne hne]
    exact h.slot e' he' m hm hmid hmt j hj hjn

/-- The slots of a gate on two qubits hold what its wires carry. -/
theorem map_inputWires (hg : g.WellFormed) (hn : n ∈ g.nodes) (ht : n.kind.isTwoGate)
    {w : NodeId → PendingInputs} (hslot : SlotsHold g c w) :
    (g.inputWires n).map c = [(w n.id).line? 0, (w n.id).line? 1] := by
  obtain ⟨e₁, e₂, hin, h₁, h₂⟩ := hg.inputWires_eq_pair hn ht
  have hm₁ := (hg.mem_inputWires hn).1 (hin ▸ List.mem_cons_self : e₁ ∈ g.inputWires n)
  have hm₂ := (hg.mem_inputWires hn).1
    (hin ▸ List.mem_cons_of_mem _ List.mem_cons_self : e₂ ∈ g.inputWires n)
  have hs₁ := hslot e₁ hm₁.1 n hn hm₁.2.symm ht .input1 h₁ rfl
  have hs₂ := hslot e₂ hm₂.1 n hn hm₂.2.symm ht .input2 h₂ rfl
  rw [hin, List.map_cons, List.map_cons, List.map_nil, ← hs₁, ← hs₂]
  rfl

/-- **A line that arrives keeps the invariant**, with one more wire that carries a line. -/
theorem arrive (hg : g.WellFormed) (h : Sound g c done s) (he : e ∈ g.edges) (hn : n ∈ g.nodes)
    (hid : n.id = e.target) (hnone : c e = none) :
    Sound g (Function.update c e (some l)) done (s.arrive n e.targetHandle l) := by
  have hself : n.kind.isTwoGate = false →
      SlotsHold g (Function.update c e (some l)) s.waiting := by
    intro hk e' he' m hm hmid hmt i hi hin
    rw [Function.update_of_ne]
    · exact h.slot e' he' m hm hmid hmt i hi hin
    · rintro rfl
      obtain rfl := CircuitGraph.eq_of_id_eq hg.ids_nodup hm hn (hmid.trans hid.symm)
      rw [hk] at hmt
      cases hmt
  have hone (hs : n.kind.isSource = false) (hk : n.kind.numInputs = 1) :
      g.Available (Function.update c e (some l)) ⟨n, [l]⟩ := by
    obtain ⟨e', hin⟩ := hg.inputWires_eq_singleton hn hk
    have hmem := (hg.mem_inputWires hn).2 ⟨he, hid.symm⟩
    rw [hin, List.mem_singleton] at hmem
    exact .fed hn hs (by rw [hin, ← hmem, List.map_singleton, Function.update_self]; rfl)
  unfold Run.arrive
  cases hk : n.kind with
  | qubitSource v =>
    exact absurd hid.symm (hg.target_ne_of_isSource hn (by simp [hk, NodeKind.isSource]) he)
  | singleGate gate =>
    exact h.join hg he hid hnone (hone (by simp [hk, NodeKind.isSource])
      (by simp [hk, NodeKind.numInputs])) (hself (by simp [hk, NodeKind.isTwoGate]))
  | measurement =>
    exact h.join hg he hid hnone (hone (by simp [hk, NodeKind.isSource])
      (by simp [hk, NodeKind.numInputs])) (hself (by simp [hk, NodeKind.isTwoGate]))
  | twoGate gate =>
    have ht : n.kind.isTwoGate := by simp [hk, NodeKind.isTwoGate]
    have hs : n.kind.isSource = false := by simp [hk, NodeKind.isSource]
    obtain ⟨i, hi, hin⟩ := hg.exists_targetHandle hn ht he hid.symm
    have hslot := h.slot_park (l := l) hg he hn hid ht hi hin
    have hmap := map_inputWires hg hn ht hslot
    simp only [hi, hin, if_true]
    cases hl : ((s.park n.id i.slot l).waiting n.id).lines? with
    | some ls =>
      rw [PendingInputs.lines?_eq_some_iff, ← hmap] at hl
      exact h.join hg he hid hnone (.fed hn hs hl) hslot
    | none =>
      refine ⟨h.joined_perm, h.joined_nodup, ?_, ?_, hslot⟩
      · intro t ht
        exact (h.available t ht).mono fun _ _ _ => update_eq_self_or hnone
      · intro t hav
        rcases available_or_of_update hg hid hav with htid | hav
        · -- the gate itself still waits for a line
          obtain rfl := CircuitGraph.eq_of_id_eq hg.ids_nodup hav.node_mem hn htid
          have hls := hav.map_inputWires hs
          rw [hmap, ← PendingInputs.lines?_eq_some_iff, hl] at hls
          cases hls
        · exact h.mem_joined t hav

/-! ## Visits -/

variable {t : Token}

/-- Sending the lines of a visited node along its wires keeps the invariant. -/
theorem foldl_follow (hg : g.WellFormed) {es : List Edge} (hes : es.Nodup)
    (hmem : ∀ e ∈ es, e ∈ g.edges ∧ ∃ l, t.lineAlong? e = some l) (hnone : ∀ e ∈ es, c e = none)
    (h : Sound g c done s) :
    Sound g (fun e => if e ∈ es then t.lineAlong? e else c e) done
      (es.foldl (follow (.build g) t) s) := by
  induction es generalizing c s with
  | nil => simpa using h
  | cons e es ih =>
    obtain ⟨he, l, hl⟩ := hmem e List.mem_cons_self
    obtain ⟨n, hn, hid⟩ := hg.exists_target he
    obtain ⟨hnew, hes⟩ := List.nodup_cons.1 hes
    rw [List.foldl_cons, follow_build hg hn hid hl]
    have hne (e' : Edge) (he' : e' ∈ es) : e' ≠ e := fun heq => hnew (heq ▸ he')
    have hstep := ih hes (fun e' he' => hmem e' (List.mem_cons_of_mem _ he'))
      (fun e' he' => by
        rw [Function.update_of_ne (hne e' he')]
        exact hnone e' (List.mem_cons_of_mem _ he'))
      (h.arrive (l := l) hg he hn hid (hnone e List.mem_cons_self))
    refine hstep.congr hg fun e' _ => ?_
    by_cases heq : e' = e
    · subst heq
      simp [hnew, hl]
    · simp [heq, Function.update_of_ne]

/-- **A visit keeps the invariant**, in whatever order the wires are followed. -/
theorem visit (hg : g.WellFormed) (ht : g.Available (lineOn done) t)
    (hnew : t.node.id ∉ visitedIds done) {es : List Edge} (hes : es.Perm (outgoing (.build g) t))
    (h : Sound g (lineOn done) (done ++ [t]) s) :
    Sound g (lineOn (done ++ [t])) (done ++ [t]) (s.visitAlong (.build g) t es) := by
  have hfrom : es.Perm (g.wiresFrom t.node.id) := hes.trans (outgoing_build_perm hg ht.node_mem)
  rw [visitAlong_build hg ht.node_mem hes]
  refine (h.foldl_follow hg (hfrom.nodup_iff.2 (hg.wiresFrom_nodup ht.node_mem))
    (fun e he => ?_) fun e he => ?_).congr hg fun e he => ?_
  · have he := hfrom.mem_iff.1 he
    obtain ⟨l, -, hl⟩ := ht.exists_lineAlong hg he
    exact ⟨(CircuitGraph.mem_wiresFrom.1 he).1, l, hl⟩
  · have hs := (CircuitGraph.mem_wiresFrom.1 (hfrom.mem_iff.1 he)).2
    exact lineOn_eq_none (hs ▸ hnew)
  · by_cases hs : e.source = t.node.id
    · rw [if_pos (hfrom.mem_iff.2 (CircuitGraph.mem_wiresFrom.2 ⟨he, hs⟩)),
        lineOn_snoc_self hnew hs]
    · rw [if_neg fun hc => hs (CircuitGraph.mem_wiresFrom.1 (hfrom.mem_iff.1 hc)).2,
        lineOn_snoc_of_ne hs]

end Sound

/-! ## The start -/

theorem foldl_join {g : CircuitGraph} (hids : g.ids.Nodup) {ns : List Node}
    (hns : ∀ n ∈ ns, n ∈ g.nodes) (hnodup : (ns.map (·.id)).Nodup) (k : Nat) (s : Run)
    (hnew : ∀ n ∈ ns, n.id ∉ s.joined) :
    (ns.zipIdx k).foldl
        (fun s (n, line) => if g.node? n.id = some n then s.join n [line] else s) s =
      ⟨s.queue ++ (ns.zipIdx k).map fun (n, line) => ⟨n, [line]⟩,
        (ns.map (·.id)).reverse ++ s.joined, s.waiting⟩ := by
  induction ns generalizing k s with
  | nil => simp
  | cons n ns ih =>
    obtain ⟨hn, hnodup⟩ := List.nodup_cons.1 hnodup
    have hnode := CircuitGraph.node?_eq_some hids (hns n List.mem_cons_self)
    have hjoin : s.join n [k] = ⟨s.queue ++ [⟨n, [k]⟩], n.id :: s.joined, s.waiting⟩ :=
      if_neg (hnew n List.mem_cons_self)
    simp only [List.zipIdx_cons, List.foldl_cons, if_pos hnode, hjoin]
    rw [ih (fun m hm => hns m (List.mem_cons_of_mem _ hm)) hnodup]
    · simp
    · intro m hm hmem
      rcases List.mem_cons.1 hmem with heq | hmem
      · exact hn (List.mem_map.2 ⟨m, hm, heq⟩)
      · exact hnew m (List.mem_cons_of_mem _ hm) hmem

/-- Where ids are distinct, every source starts with its own line. -/
theorem start_build {g : CircuitGraph} (hids : g.ids.Nodup) :
    start (.build g) = ⟨g.orderedSources.zipIdx.map fun (n, line) => ⟨n, [line]⟩,
      (g.orderedSources.map (·.id)).reverse, fun _ => .none⟩ := by
  have hmem : ∀ n ∈ g.orderedSources, n ∈ g.nodes := fun n hn =>
    (CircuitGraph.mem_orderedSources.1 hn).1
  have hrun := foldl_join hids hmem (CircuitGraph.nodup_ids_orderedSources hids) 0 empty
    (by simp [empty])
  simpa [start, empty] using hrun

theorem sound_start {g : CircuitGraph} (hg : g.WellFormed) :
    Sound g (lineOn []) [] (start (.build g)) := by
  have hids : visitedIds (g.orderedSources.zipIdx.map fun (n, line) => ⟨n, [line]⟩) =
      g.orderedSources.map (·.id) := by
    rw [visitedIds, List.map_map, ← List.zipIdx_map_fst 0 g.orderedSources, List.map_map]
    simp [Function.comp_def]
  rw [start_build hg.ids_nodup]
  refine ⟨?_, List.nodup_reverse.2 hg.orderedSources_ids_nodup, ?_, ?_, ?_⟩
  · show (g.orderedSources.map (·.id)).reverse.Perm (visitedIds _)
    rw [List.nil_append, hids]
    exact List.reverse_perm _
  · intro t ht
    obtain ⟨⟨n, i⟩, hni, rfl⟩ := List.mem_map.1 ht
    exact .source (List.mem_zipIdx_iff_getElem?.1 hni)
  · intro t ht
    refine List.mem_reverse.2 ?_
    cases ht with
    | source hi => exact List.mem_map_of_mem (List.mem_of_getElem? hi)
    | @fed n ls hn hs hls =>
      -- a node that is no source has an entering wire, and so far no wire carries a line
      have hlen := hg.length_inputWires hn
      cases hin : g.inputWires n with
      | nil =>
        rw [hin] at hlen
        cases hk : n.kind <;> simp_all [NodeKind.isSource, NodeKind.numInputs]
      | cons e es =>
        rw [hin] at hls
        cases ls <;> simp [lineOn] at hls
  · intro e _ n _ _ _ h _ hi
    cases h <;> rfl

/-! ## The whole run -/

theorem visits_of_takeLowest {a : Adjacency} {s : Run} {t : Token} {rest : List Token}
    (h : takeLowest s.queue = some (t, rest)) :
    visits a s = t :: visits a (visit a { s with queue := rest } t) := by
  rw [visits]
  split
  · next hn => rw [h] at hn; cases hn
  · next u others hu =>
    obtain ⟨rfl, rfl⟩ : t = u ∧ rest = others := by simpa using h.symm.trans hu
    rfl

theorem visits_of_queue_eq_nil {a : Adjacency} {s : Run} (h : s.queue = []) :
    visits a s = [] := by
  rw [visits]
  split
  · rfl
  · next u others hu => rw [h] at hu; cases hu

/-- The run of the scheduler is one of those that are free in their order. -/
theorem proceeds_visits (a : Adjacency) (s : Run) : Proceeds a s (visits a s) := by
  cases hq : takeLowest s.queue with
  | none =>
    have hnil := takeLowest_eq_none_iff.1 hq
    rw [visits_of_queue_eq_nil hnil]
    exact .stop hnil
  | some p =>
    obtain ⟨t, rest⟩ := p
    have hlt : (visit a { s with queue := rest } t).pending a < s.pending a :=
      pending_visit_lt hq
    obtain ⟨hperm, hlow⟩ := perm_of_takeLowest hq
    rw [visits_of_takeLowest hq]
    exact .visit hperm hlow (.refl _) (proceeds_visits a (visit a { s with queue := rest } t))
termination_by s.pending a

/-- From a state that satisfies the invariant on, the visits complete a greedy run. -/
theorem greedyRun_of_proceeds {g : CircuitGraph} (hg : g.WellFormed) {s : Run} {ts : List Token}
    (hts : Proceeds (.build g) s ts) {done : List Token} (hdone : g.History done)
    (h : Sound g (lineOn done) done s)
    (hlow : ∀ {before t after}, done = before ++ t :: after →
      ∀ u, g.Available (lineOn before) u → u ∉ before → t.priority ≤ u.priority) :
    g.GreedyRun (done ++ ts) := by
  induction hts generalizing done with
  | stop hnil =>
    rw [List.append_nil]
    refine ⟨hdone, hlow, fun t ht => ?_⟩
    have := h.mem_of_available hg ht
    rwa [hnil, List.append_nil] at this
  | @visit s t rest es ts hperm hmin hes _ ih =>
    have htmem : t ∈ s.queue := hperm.mem_iff.2 List.mem_cons_self
    have hav : g.Available (lineOn done) t := h.available t (List.mem_append_right _ htmem)
    have hnew : t.node.id ∉ visitedIds done := h.notMem_visitedIds htmem
    rw [← List.singleton_append, ← List.append_assoc]
    refine ih (hdone.snoc hav hnew) ((h.pop hperm).visit hg hav hnew hes)
      fun {before u after} hd v hv hnv => ?_
    rcases List.eq_nil_or_concat after with rfl | ⟨after, z, rfl⟩
    · obtain ⟨rfl, hu⟩ := List.append_inj' hd rfl
      obtain rfl : t = u := by simpa using hu
      rcases List.mem_append.1 (h.mem_of_available hg hv) with hv | hv
      · exact absurd hv hnv
      · exact hmin v hv
    · rw [List.concat_eq_append, ← List.cons_append, ← List.append_assoc] at hd
      exact hlow (List.append_inj' hd rfl).1 v hv hnv

end Run

/-- The visits that a graph is scheduled by. -/
def CircuitGraph.visits (g : CircuitGraph) : List Token :=
  Run.visits (.build g) (Run.start (.build g))

namespace CircuitGraph.WellFormed

variable {g : CircuitGraph} (hg : g.WellFormed)
include hg

theorem greedyRun_of_proceeds {ts : List Token}
    (h : Run.Proceeds (.build g) (Run.start (.build g)) ts) : g.GreedyRun ts :=
  Run.greedyRun_of_proceeds hg h .nil (Run.sound_start hg) fun h => by simp at h

/-- **The scheduler makes the greedy run**: it visits the available node with the lowest line,
until none is left. -/
theorem greedyRun_visits : g.GreedyRun g.visits :=
  hg.greedyRun_of_proceeds (Run.proceeds_visits _ _)

end CircuitGraph.WellFormed

end QuantumWiring

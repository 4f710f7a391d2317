import QuantumWiring.Proofs.Schedule.Progress
import QuantumWiring.Proofs.Schedule.Tally

/-!
# What is put into the slots

A visit puts lines into slots of the gates on two qubits that its wires lead to (`Deposit`).
Whatever the graph, the slots hold what a run has put there so far, and nothing is ever taken out
(`waiting_of_steps`).  In a well-formed graph a line that arrives finds its slot empty, so no two
deposits of a run go to the same slot (`Progress.recorded_visit`).
-/

namespace QuantumWiring

/-- A line that is put into a slot of a gate. -/
structure Deposit where
  node : NodeId
  slot : Nat
  line : Line

namespace Deposit

def place (d : Deposit) : NodeId × Nat := (d.node, d.slot)

/-- The slots of all gates, with the line put into its place. -/
def into (w : NodeId → PendingInputs) (d : Deposit) : NodeId → PendingInputs :=
  fun id => if id = d.node then (w d.node).fill d.slot d.line else w id

end Deposit

/-- What a line that arrives at a node through a wire end puts into a slot. -/
def Node.deposit? (n : Node) (handle : Option Handle) (l : Line) : Option Deposit :=
  match n.kind, handle with
  | .twoGate _, some i => if i.isInput then some ⟨n.id, i.slot, l⟩ else none
  | _, _ => none

theorem Node.deposit?_eq_some {n : Node} {handle : Option Handle} {l : Line} {d : Deposit}
    (h : n.deposit? handle l = some d) :
    n.kind.isTwoGate ∧ ∃ i : Handle, handle = some i ∧ i.isInput ∧ d = ⟨n.id, i.slot, l⟩ := by
  unfold deposit? at h
  split at h
  · next gate i hk =>
    split at h
    · next hi =>
      rw [hk]
      exact ⟨rfl, i, rfl, hi, (Option.some.inj h).symm⟩
    · cases h
  · cases h

namespace Token

/-- What is put into a slot when a wire from the node is followed. -/
def deposit? (a : Adjacency) (t : Token) (e : Edge) : Option Deposit :=
  match t.lineAlong? e, a.find? e.target with
  | some l, some j => j.node.deposit? e.targetHandle l
  | _, _ => none

/-- What is put into slots by a visit. -/
def deposits (a : Adjacency) (t : Token) : List Deposit :=
  if t.node.kind.isMeasurement then [] else (Run.outgoing a t).filterMap (t.deposit? a)

end Token

namespace Run

variable {a : Adjacency} {g : CircuitGraph} {s s' : Run} {n : Node} {t : Token} {ts : List Token}

theorem waiting_arrive (s : Run) (n : Node) (handle : Option Handle) (l : Line) :
    (s.arrive n handle l).waiting = (n.deposit? handle l).toList.foldl Deposit.into s.waiting := by
  unfold arrive Node.deposit?
  cases n.kind with
  | qubitSource v => rfl
  | singleGate gate => exact waiting_join ..
  | measurement => exact waiting_join ..
  | twoGate gate =>
    cases handle with
    | none => rfl
    | some i =>
      by_cases hi : i.isInput
      · simp only [hi, if_true]
        split
        · exact waiting_join ..
        · rfl
      · simp only [hi]
        rfl

theorem waiting_follow (a : Adjacency) (t : Token) (s : Run) (e : Edge) :
    (follow a t s e).waiting = (t.deposit? a e).toList.foldl Deposit.into s.waiting := by
  unfold follow Token.deposit?
  cases t.lineAlong? e with
  | none => rfl
  | some l =>
    cases a.find? e.target with
    | none => rfl
    | some j => exact waiting_arrive ..

theorem waiting_visit (a : Adjacency) (s : Run) (t : Token) :
    (visit a s t).waiting = (t.deposits a).foldl Deposit.into s.waiting := by
  unfold Token.deposits
  show (s.visitAlong a t (outgoing a t)).waiting = _
  unfold visitAlong
  split
  · rfl
  · generalize outgoing a t = es
    induction es generalizing s with
    | nil => rfl
    | cons e es ih =>
      rw [List.foldl_cons, ih, waiting_follow, List.filterMap_cons]
      cases t.deposit? a e <;> rfl

/-- **What is in the slots is what was put there**, in the order of the visits. -/
theorem waiting_of_steps (h : Steps a s ts s') :
    s'.waiting = (ts.flatMap (Token.deposits a)).foldl Deposit.into s.waiting := by
  induction h with
  | refl s => rfl
  | pop ht _ ih => rw [ih, waiting_visit, List.flatMap_cons, List.foldl_append]

/-- The deposits went into different slots, and what was put there is there still. -/
structure Recorded (ds : List Deposit) (w : NodeId → PendingInputs) : Prop where
  once : (ds.map Deposit.place).Nodup
  kept : ∀ d ∈ ds, (w d.node).line? d.slot = some d.line

theorem Recorded.into {ds : List Deposit} {w : NodeId → PendingInputs} (h : Recorded ds w)
    {id : NodeId} {i : Handle} (hempty : (w id).line? i.slot = none) (l : Line) :
    Recorded (ds ++ [⟨id, i.slot, l⟩]) (Deposit.into w ⟨id, i.slot, l⟩) := by
  -- what is recorded stands in its slot, so nothing is recorded for an empty one
  have hnew : ∀ d ∈ ds, d.node = id → d.slot ≠ i.slot := by
    rintro d hd rfl hslot
    rw [← hslot, h.kept d hd] at hempty
    cases hempty
  constructor
  · rw [List.map_append, List.map_singleton]
    refine h.once.append (List.nodup_singleton _) (List.disjoint_singleton.2 fun hmem => ?_)
    obtain ⟨d, hd, hplace⟩ := List.mem_map.1 hmem
    obtain ⟨hnode, hslot⟩ := Prod.mk.inj hplace
    exact hnew d hd hnode hslot
  · intro d hd
    unfold Deposit.into
    rcases List.mem_append.1 hd with hd | hd
    · split
      · next hnode =>
        rw [PendingInputs.line?_fill_of_ne _ (hnew d hd hnode), ← hnode]
        exact h.kept d hd
      · exact h.kept d hd
    · rw [List.mem_singleton.1 hd, if_pos rfl]
      exact PendingInputs.line?_fill_self ..

/-- **A line that arrives is written over none.** -/
theorem Incoming.recorded {c : Edge → Option Line} {e : Edge} {done : List Token}
    (h : Incoming g c done s e n) {ds : List Deposit} (hds : Recorded ds s.waiting) (l : Line) :
    Recorded (ds ++ (n.deposit? e.targetHandle l).toList)
      (s.arrive n e.targetHandle l).waiting := by
  rw [waiting_arrive]
  cases hd : n.deposit? e.targetHandle l with
  | none =>
    rw [Option.toList_none, List.append_nil]
    exact hds
  | some d =>
    obtain ⟨hk, i, hend, hi, rfl⟩ := Node.deposit?_eq_some hd
    exact hds.into (h.line?_eq_none hk hend hi) l

theorem Progress.recorded_visit (hg : g.WellFormed) {done rest : List Token}
    (h : Progress g done s) (hq : takeLowest s.queue = some (t, rest)) {ds : List Deposit}
    (hds : Recorded ds s.waiting) : Recorded (ds ++ t.deposits (.build g))
      (Run.visit (.build g) { s with queue := rest } t).waiting := by
  have hdeposits : t.deposits (.build g) =
      (outgoing (.build g) t).filterMap (t.deposit? (.build g)) := by
    unfold Token.deposits
    split
    · next hm => rw [outgoing_build_eq_nil hg (h.available hq).1.node_mem hm, List.filterMap_nil]
    · rfl
  rw [hdeposits]
  refine h.visit_induction hg hq (I := fun es s' =>
    Recorded (ds ++ es.filterMap (t.deposit? (.build g))) s'.waiting) ?_ ?_
  · rwa [List.filterMap_nil, List.append_nil]
  · intro c s' es e n l hin hl ih
    have hdeposit : t.deposit? (.build g) e = n.deposit? e.targetHandle l := by
      rw [Token.deposit?, hl, ← hin.target,
        Adjacency.find?_build_of_mem hg.ids_nodup hin.target_mem]
      rfl
    have hrec := hin.recorded ih l
    rw [List.append_assoc, ← hdeposit] at hrec
    rw [List.filterMap_append, List.filterMap_eq_flatMap_toList _ [e], List.flatMap_singleton]
    exact hrec

end Run

end QuantumWiring

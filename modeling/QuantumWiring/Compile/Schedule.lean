import QuantumWiring.Graph.Adjacency

/-!
# Scheduling

Each qubit source starts one line, numbered from top to bottom.  Lines travel along the wires; a
gate on two qubits waits in two slots until both of its lines have arrived.  A node that has its
lines joins the queue, once and for all.  The queue gives out the node with the lowest line, and
of several such nodes the one that joined first; visiting it sends its lines on.

The run ends because every visit takes a node from the queue and no node joins it twice
(`Run.pending_visit_lt`).  Nothing is asked of the graph: a node whose lines never arrive is
stalled.
-/

namespace QuantumWiring

/-- The number of a line. -/
abbrev Line := Nat

/-- The name of a line in messages. -/
def lineName (l : Line) : String := "q" ++ toString l

/-- The two slots of a waiting gate. -/
structure PendingInputs where
  first : Option Line
  second : Option Line
deriving DecidableEq

namespace PendingInputs

def none : PendingInputs := ⟨.none, .none⟩

/-- Put a line into a slot, over the one that may be there; there are no slots but 0 and 1. -/
def fill (p : PendingInputs) (slot : Nat) (line : Line) : PendingInputs :=
  match slot with
  | 0 => { p with first := some line }
  | 1 => { p with second := some line }
  | _ => p

/-- Both lines in the order of the slots, once they have arrived. -/
def lines? (p : PendingInputs) : Option (List Line) :=
  match p.first, p.second with
  | some a, some b => some [a, b]
  | _, _ => .none

def isReady (p : PendingInputs) : Bool := p.first.isSome && p.second.isSome

end PendingInputs

/-- A gate or measurement in its place, with the lines it takes in the order of its slots. -/
structure ScheduledOp where
  node : NodeId
  operation : Operation
  inputs : List Line
deriving DecidableEq

/-- A node that has its lines. -/
structure Token where
  node : Node
  lines : List Line

namespace Token

/-- The lowest line of the token. -/
def priority (t : Token) : Line := t.lines.min?.getD 0

/-- What visiting the node puts into the circuit. -/
def op? (t : Token) : Option ScheduledOp :=
  t.node.kind.operation?.map fun op => ⟨t.node.id, op, t.lines⟩

/-- The line that leaves the node along a wire: at a gate on two qubits the one that the handle
names, elsewhere the only one. -/
def lineAlong? (t : Token) (e : Edge) : Option Line :=
  match t.node.kind with
  | .twoGate _ => e.sourceHandle.bind fun h => t.lines[h.slot]?
  | _ => t.lines.head?

end Token

/-- The state of a run. -/
structure Run where
  /-- The nodes that have their lines and are not visited yet, in the order they joined. -/
  queue : List Token
  /-- The ids of all nodes that ever joined the queue. -/
  joined : List NodeId
  /-- The slots of the gates on two qubits. -/
  waiting : NodeId → PendingInputs

/-- Take the token with the lowest line from a queue, the first of several. -/
def takeLowest : List Token → Option (Token × List Token)
  | [] => none
  | t :: rest =>
    match takeLowest rest with
    | none => some (t, [])
    | some (u, others) =>
      if t.priority ≤ u.priority then some (t, rest) else some (u, t :: others)

theorem length_of_takeLowest {q : List Token} {t : Token} {others : List Token}
    (h : takeLowest q = some (t, others)) : q.length = others.length + 1 := by
  induction q generalizing t others with
  | nil => simp [takeLowest] at h
  | cons a rest ih =>
    simp only [takeLowest] at h
    split at h
    · next hrest =>
      cases rest with
      | nil => simp_all
      | cons b rest =>
        simp only [takeLowest] at hrest
        split at hrest
        · cases hrest
        · split at hrest <;> cases hrest
    · next u others' hrest =>
      have := ih hrest
      split at h <;> simp only [Option.some.injEq, Prod.mk.injEq] at h <;>
        obtain ⟨-, rfl⟩ := h <;> simp_all

namespace Run

/-- Nothing has happened. -/
def empty : Run := ⟨[], [], fun _ => .none⟩

/-- Let a node join the queue with its lines, unless it has joined before. -/
def join (s : Run) (n : Node) (lines : List Line) : Run :=
  if n.id ∈ s.joined then s
  else { s with queue := s.queue ++ [⟨n, lines⟩], joined := n.id :: s.joined }

/-- Put a line into a slot of a waiting gate. -/
def park (s : Run) (id : NodeId) (slot : Nat) (line : Line) : Run :=
  { s with waiting := fun i => if i = id then (s.waiting id).fill slot line else s.waiting i }

/-- Let a line arrive at a node through a wire end. -/
def arrive (s : Run) (n : Node) (handle : Option Handle) (line : Line) : Run :=
  match n.kind with
  | .qubitSource _ => s
  | .singleGate _ | .measurement => s.join n [line]
  | .twoGate _ =>
    match handle with
    | some h =>
      if h.isInput then
        let s := s.park n.id h.slot line
        match (s.waiting n.id).lines? with
        | some lines => s.join n lines
        | none => s
      else s
    | none => s

/-- Send the line that leaves a visited node along a wire. -/
def follow (a : Adjacency) (t : Token) (s : Run) (e : Edge) : Run :=
  match t.lineAlong? e, a.find? e.target with
  | some line, some j => s.arrive j.node e.targetHandle line
  | _, _ => s

/-- Send the lines of a visited node along its wires; nothing leaves a measurement. -/
def visit (a : Adjacency) (s : Run) (t : Token) : Run :=
  if t.node.kind.isMeasurement then s
  else (((a.find? t.node.id).map Junction.outgoing).getD []).foldl (follow a t) s

/-- Let the sources join from top to bottom, each with its own line.  A source whose id belongs
to an earlier node starts nothing. -/
def start (a : Adjacency) : Run :=
  a.graph.orderedSources.zipIdx.foldl
    (fun s (n, line) => if a.graph.node? n.id = some n then s.join n [line] else s) empty

/-- How many visits may still come: the nodes in the queue and those that have not joined it. -/
def pending (a : Adjacency) (s : Run) : Nat :=
  s.queue.length + a.junctions.countP fun j => j.node.id ∉ s.joined

/-! ## Termination -/

theorem countP_not_joined_lt {js : List Junction} {joined : List NodeId} {id : NodeId}
    (hid : id ∉ joined) (hjs : ∃ j ∈ js, j.node.id = id) :
    (js.countP fun j => j.node.id ∉ id :: joined) < js.countP fun j => j.node.id ∉ joined := by
  have le (js : List Junction) : (js.countP fun j => j.node.id ∉ id :: joined) ≤
      js.countP fun j => j.node.id ∉ joined :=
    List.countP_mono_left fun j _ h => by simp_all
  induction js with
  | nil => simp at hjs
  | cons j rest ih =>
    by_cases hj : j.node.id = id
    · subst hj
      rw [List.countP_cons_of_neg (by simp), List.countP_cons_of_pos (by simpa using hid)]
      exact Nat.lt_succ_of_le (le rest)
    · obtain ⟨k, hk, rfl⟩ := hjs
      have hk : k ∈ rest := by
        rcases List.mem_cons.1 hk with rfl | hk
        · exact absurd rfl hj
        · exact hk
      have := ih ⟨k, hk, rfl⟩
      by_cases hm : j.node.id ∈ joined <;> simp_all

theorem pending_join_le {a : Adjacency} {s : Run} {n : Node} {lines : List Line}
    (hn : ∃ j ∈ a.junctions, j.node.id = n.id) : (s.join n lines).pending a ≤ s.pending a := by
  unfold join
  split
  · exact Nat.le_refl _
  · next h =>
    have := countP_not_joined_lt h hn
    simp only [pending, List.length_append, List.length_singleton]
    omega

theorem pending_arrive_le {a : Adjacency} {s : Run} {n : Node} {handle : Option Handle}
    {line : Line} (hn : ∃ j ∈ a.junctions, j.node.id = n.id) :
    (s.arrive n handle line).pending a ≤ s.pending a := by
  unfold arrive
  split
  · exact Nat.le_refl _
  · exact pending_join_le hn
  · exact pending_join_le hn
  · split
    · split
      · simp only
        split
        · exact Nat.le_trans (pending_join_le hn) (Nat.le_refl _)
        · exact Nat.le_refl _
      · exact Nat.le_refl _
    · exact Nat.le_refl _

theorem pending_follow_le {a : Adjacency} {t : Token} {s : Run} {e : Edge} :
    (follow a t s e).pending a ≤ s.pending a := by
  unfold follow
  split
  · next line j _ hj => exact pending_arrive_le ⟨j, List.mem_of_find?_eq_some hj, rfl⟩
  · exact Nat.le_refl _

theorem pending_visit_le {a : Adjacency} {s : Run} {t : Token} :
    (s.visit a t).pending a ≤ s.pending a := by
  unfold visit
  split
  · exact Nat.le_refl _
  · generalize (((a.find? t.node.id).map Junction.outgoing).getD []) = es
    induction es generalizing s with
    | nil => exact Nat.le_refl _
    | cons e rest ih => exact Nat.le_trans ih pending_follow_le

theorem pending_visit_lt {a : Adjacency} {s : Run} {t : Token} {rest : List Token}
    (h : takeLowest s.queue = some (t, rest)) :
    (visit a { s with queue := rest } t).pending a < s.pending a := by
  refine Nat.lt_of_le_of_lt pending_visit_le ?_
  simp only [pending, length_of_takeLowest h]
  omega

/-! ## The whole run -/

/-- The nodes that are visited from a state on, in order. -/
def visits (a : Adjacency) (s : Run) : List Token :=
  match h : takeLowest s.queue with
  | none => []
  | some (t, rest) =>
    have : (visit a { s with queue := rest } t).pending a < s.pending a := pending_visit_lt h
    t :: visits a (visit a { s with queue := rest } t)
termination_by s.pending a

end Run

/-- Put an id into its place in a sorted list, unless it is there. -/
def insertId (id : NodeId) : List NodeId → List NodeId
  | [] => [id]
  | a :: rest => if id = a then a :: rest else if id < a then id :: a :: rest
    else a :: insertId id rest

/-- The ids of a list in order, each once. -/
def sortIds (ids : List NodeId) : List NodeId := ids.foldr insertId []

/-- The outcome of a run. -/
structure Schedule where
  /-- The gates and measurements in the order in which they were visited. -/
  ops : List ScheduledOp
  /-- The ids of the gates and measurements that were not visited, in order. -/
  stalled : List NodeId
deriving DecidableEq

namespace Schedule

def isComplete (s : Schedule) : Bool := s.stalled.isEmpty

end Schedule

/-- Put the gates and measurements of a graph in order. -/
def schedule (a : Adjacency) : Schedule :=
  let ops := (Run.visits a (Run.start a)).filterMap Token.op?
  let visited := ops.map (·.node)
  let left := a.graph.nodes.filter fun n => n.kind.operation?.isSome ∧ n.id ∉ visited
  ⟨ops, sortIds (left.map (·.id))⟩

end QuantumWiring

import QuantumWiring.Proofs.Schedule.Part
import Mathlib.Order.Monotone.Basic

/-!
# Lines under other numbers

A run does not know what number its first line has: when every line of a state gets another number
and no two lines change their order, the run makes the same visits with the new numbers
(`visits_mapLines`).
-/

namespace QuantumWiring

namespace PendingInputs

def mapLines (f : Line → Line) (p : PendingInputs) : PendingInputs :=
  ⟨p.first.map f, p.second.map f⟩

theorem mapLines_fill (f : Line → Line) (p : PendingInputs) (slot : Nat) (l : Line) :
    (p.fill slot l).mapLines f = (p.mapLines f).fill slot (f l) := by
  unfold fill
  split <;> rfl

theorem lines?_mapLines (f : Line → Line) (p : PendingInputs) :
    (p.mapLines f).lines? = p.lines?.map (List.map f) := by
  unfold lines? mapLines
  cases p.first <;> cases p.second <;> rfl

end PendingInputs

def ScheduledOp.mapLines (f : Line → Line) (op : ScheduledOp) : ScheduledOp :=
  { op with inputs := op.inputs.map f }

namespace Token

variable {f : Line → Line} {t u : Token}

def mapLines (f : Line → Line) (t : Token) : Token := { t with lines := t.lines.map f }

theorem op?_mapLines (f : Line → Line) (t : Token) :
    (t.mapLines f).op? = t.op?.map (ScheduledOp.mapLines f) := by
  unfold op?
  rw [Option.map_map]
  rfl

theorem lineAlong?_mapLines (f : Line → Line) (t : Token) (e : Edge) :
    (t.mapLines f).lineAlong? e = (t.lineAlong? e).map f := by
  unfold lineAlong? mapLines
  cases t.node.kind <;> cases e.sourceHandle <;> simp

theorem priority_mapLines (hf : StrictMono f) (h : t.lines ≠ []) :
    (t.mapLines f).priority = f t.priority := by
  obtain ⟨l, hl⟩ : ∃ l, t.lines.min? = some l :=
    Option.ne_none_iff_exists'.1 (mt List.min?_eq_none_iff.1 h)
  obtain ⟨hmem, hle⟩ := List.min?_eq_some_iff.1 hl
  have hmap : (t.lines.map f).min? = some (f l) := by
    rw [List.min?_eq_some_iff]
    exact ⟨List.mem_map_of_mem hmem, List.forall_mem_map.2 fun k hk => hf.monotone (hle k hk)⟩
  simp [priority, mapLines, hl, hmap]

end Token

theorem takeLowest_map {f : Token → Token} {q : List Token}
    (hf : ∀ t ∈ q, ∀ u ∈ q, (f t).priority ≤ (f u).priority ↔ t.priority ≤ u.priority) :
    takeLowest (q.map f) = (takeLowest q).map fun (t, rest) => (f t, rest.map f) := by
  induction q with
  | nil => rfl
  | cons t q ih =>
    have ih := ih fun t ht u hu => hf t (List.mem_cons_of_mem _ ht) u (List.mem_cons_of_mem _ hu)
    cases hq : takeLowest q with
    | none => simp [takeLowest, ih, hq]
    | some v =>
      obtain ⟨u, others⟩ := v
      have hu : u ∈ q := (perm_of_takeLowest hq).1.mem_iff.2 List.mem_cons_self
      have hiff := hf t List.mem_cons_self u (List.mem_cons_of_mem _ hu)
      by_cases hle : t.priority ≤ u.priority
      · simp [takeLowest, ih, hq, hle, hiff.2 hle]
      · simp [takeLowest, ih, hq, hle, mt hiff.1 hle]

namespace Run

variable {a : Adjacency} {f : Line → Line}

def mapLines (f : Line → Line) (s : Run) : Run :=
  ⟨s.queue.map (.mapLines f), s.joined, fun id => (s.waiting id).mapLines f⟩

theorem mapLines_join (s : Run) (n : Node) (lines : List Line) :
    (s.join n lines).mapLines f = (s.mapLines f).join n (lines.map f) := by
  unfold join
  show _ = if n.id ∈ s.joined then _ else _
  split
  · rfl
  · simp [mapLines, Token.mapLines]

theorem mapLines_park (s : Run) (id : NodeId) (slot : Nat) (l : Line) :
    (s.park id slot l).mapLines f = (s.mapLines f).park id slot (f l) := by
  refine congrArg (Run.mk _ _) (funext fun i => ?_)
  simp only [park, mapLines]
  split
  · exact PendingInputs.mapLines_fill ..
  · rfl

theorem mapLines_arrive (s : Run) (n : Node) (handle : Option Handle) (l : Line) :
    (s.arrive n handle l).mapLines f = (s.mapLines f).arrive n handle (f l) := by
  unfold arrive
  split
  · rfl
  · exact mapLines_join ..
  · exact mapLines_join ..
  · split
    · next i =>
      split
      · rw [← mapLines_park]
        have hlines : (((s.park n.id i.slot l).mapLines f).waiting n.id).lines? =
            ((s.park n.id i.slot l).waiting n.id).lines?.map (List.map f) :=
          PendingInputs.lines?_mapLines ..
        simp only [hlines]
        cases ((s.park n.id i.slot l).waiting n.id).lines? with
        | none => rfl
        | some lines => exact mapLines_join ..
      · rfl
    · rfl

theorem mapLines_follow (s : Run) (t : Token) (e : Edge) :
    (follow a t s e).mapLines f = follow a (t.mapLines f) (s.mapLines f) e := by
  unfold follow
  rw [Token.lineAlong?_mapLines]
  cases t.lineAlong? e with
  | none => rfl
  | some l =>
    cases a.find? e.target with
    | none => rfl
    | some j => exact mapLines_arrive ..

theorem mapLines_visit (s : Run) (t : Token) :
    (visit a s t).mapLines f = visit a (s.mapLines f) (t.mapLines f) := by
  unfold visit
  show _ = if t.node.kind.isMeasurement then _ else List.foldl _ _
    (((a.find? t.node.id).map Junction.outgoing).getD [])
  split
  · rfl
  · generalize ((a.find? t.node.id).map Junction.outgoing).getD [] = es
    induction es generalizing s with
    | nil => rfl
    | cons e es ih => rw [List.foldl_cons, ih, List.foldl_cons, mapLines_follow]

/-- **A run with other numbers** makes the same visits, if the order of the lines is kept. -/
theorem visits_mapLines (hf : StrictMono f) {P : Line → Prop} {s : Run} (h : s.Carries P) :
    visits a (s.mapLines f) = (visits a s).map (.mapLines f) := by
  have hprio : ∀ t ∈ s.queue, ∀ u ∈ s.queue, (t.mapLines f).priority ≤ (u.mapLines f).priority ↔
      t.priority ≤ u.priority := by
    intro t ht u hu
    rw [Token.priority_mapLines hf (h.lines_ne_nil ht),
      Token.priority_mapLines hf (h.lines_ne_nil hu)]
    exact hf.le_iff_le
  have htake : takeLowest (s.mapLines f).queue =
      (takeLowest s.queue).map fun (t, rest) => (t.mapLines f, rest.map (.mapLines f)) :=
    takeLowest_map hprio
  cases hq : takeLowest s.queue with
  | none =>
    rw [hq, Option.map_none] at htake
    rw [visits_of_queue_eq_nil (takeLowest_eq_none_iff.1 hq),
      visits_of_queue_eq_nil (takeLowest_eq_none_iff.1 htake), List.map_nil]
  | some v =>
    obtain ⟨t, rest⟩ := v
    rw [hq, Option.map_some] at htake
    obtain ⟨⟨-, hlines⟩, hpop⟩ := h.pop hq
    have hlt : (visit a { s with queue := rest } t).pending a < s.pending a := pending_visit_lt hq
    have hstep : visit a { s.mapLines f with queue := rest.map (.mapLines f) } (t.mapLines f) =
        (visit a { s with queue := rest } t).mapLines f :=
      (mapLines_visit { s with queue := rest } t).symm
    rw [visits_of_takeLowest hq, visits_of_takeLowest htake, hstep, List.map_cons,
      visits_mapLines hf (s := visit a { s with queue := rest } t) (hpop.visit a hlines)]
termination_by s.pending a

end Run

end QuantumWiring

import QuantumWiring.Proofs.Schedule.Loop

/-!
# Every run keeps its books

Nothing is asked of the graph in this module.  However its wires run and whichever ids repeat, an
id joins the queue once, the ids that joined are those of the visited and of the waiting nodes,
and every token stands for the node that its id belongs to (`Ledger`).  So a run visits each id at
most once (`visitedIds_visits_nodup`), and never a node behind another one of the same id
(`node?_of_mem_visits`).
-/

namespace QuantumWiring

namespace Run

/-- The state of a run of any graph after the visits `done`. -/
structure Ledger (g : CircuitGraph) (done : List Token) (s : Run) : Prop where
  joined_perm : s.joined.Perm (visitedIds (done ++ s.queue))
  joined_nodup : s.joined.Nodup
  node? : ∀ t ∈ done ++ s.queue, g.node? t.node.id = some t.node

namespace Ledger

variable {g : CircuitGraph} {done : List Token} {s : Run} {n : Node} {t : Token}

theorem mem_ids_of_mem_queue (h : Ledger g done s) (ht : t ∈ s.queue) : t.node.id ∈ g.ids :=
  CircuitGraph.mem_ids (CircuitGraph.mem_of_node? (h.node? t (List.mem_append_right _ ht))).1

theorem mem_ids_of_mem_joined (h : Ledger g done s) {id : NodeId} (hid : id ∈ s.joined) :
    id ∈ g.ids := by
  obtain ⟨t, ht, rfl⟩ := List.mem_map.1 (h.joined_perm.mem_iff.1 hid)
  exact CircuitGraph.mem_ids (CircuitGraph.mem_of_node? (h.node? t ht)).1

theorem empty (g : CircuitGraph) : Ledger g [] .empty :=
  ⟨.refl _, List.nodup_nil, fun t ht => by cases ht⟩

theorem join (h : Ledger g done s) (hn : g.node? n.id = some n) (lines : List Line) :
    Ledger g done (s.join n lines) := by
  unfold Run.join
  split
  · exact h
  · next hnew =>
    refine ⟨joined_perm_snoc h.joined_perm ⟨n, lines⟩,
      List.nodup_cons.2 ⟨hnew, h.joined_nodup⟩, fun u hu => ?_⟩
    rw [← List.append_assoc] at hu
    rcases List.mem_append.1 hu with hu | hu
    · exact h.node? u hu
    · rw [List.mem_singleton.1 hu]
      exact hn

theorem arrive (h : Ledger g done s) (hn : g.node? n.id = some n) (handle : Option Handle)
    (line : Line) : Ledger g done (s.arrive n handle line) := by
  have hpark (i : Handle) : Ledger g done (s.park n.id i.slot line) :=
    ⟨h.joined_perm, h.joined_nodup, h.node?⟩
  have harrival := s.arrival n handle line
  generalize s.arrive n handle line = s' at harrival ⊢
  cases harrival with
  | source _ => exact h
  | single _ => exact h.join hn _
  | ignored _ _ => exact h
  | @waiting i _ _ _ _ => exact hpark i
  | @complete i lines _ _ _ _ => exact (hpark i).join hn lines

theorem follow (h : Ledger g done s) (t : Token) (e : Edge) :
    Ledger g done (Run.follow (.build g) t s e) := by
  rcases follow_cases (.build g) t s e with heq | ⟨line, -, j, hj, heq⟩
  · rwa [heq]
  · rw [Adjacency.find?_build, Option.map_eq_some_iff] at hj
    obtain ⟨n, hn, rfl⟩ := hj
    have hid : n.id = e.target := (CircuitGraph.mem_of_node? hn).2
    rw [heq]
    exact h.arrive (n := n) (hid ▸ hn) _ _

theorem visit (h : Ledger g done s) (t : Token) : Ledger g done (s.visit (.build g) t) := by
  apply visit_preserves _ h
  intro _ s e _ h
  exact h.follow t e

theorem pop (h : Ledger g done s) {rest : List Token} (ht : s.queue.Perm (t :: rest)) :
    Ledger g (done ++ [t]) { s with queue := rest } := by
  have hperm : (done ++ s.queue).Perm (done ++ [t] ++ rest) := append_perm_of_pop ht
  exact ⟨h.joined_perm.trans (hperm.map _), h.joined_nodup,
    fun u hu => h.node? u (hperm.mem_iff.2 hu)⟩

theorem start (g : CircuitGraph) : Ledger g [] (Run.start (.build g)) := by
  apply start_preserves (empty g)
  intro s n l _ hn h
  exact h.join hn _

theorem steps (h : Ledger g done s) {s' : Run} {ts : List Token}
    (hsteps : Steps (.build g) s ts s') : Ledger g (done ++ ts) s' := by
  apply hsteps.preserves _ h
  intro done s t rest h hq
  exact (h.pop (perm_of_takeLowest hq).1).visit t

/-- What is entered in the books of the visited nodes. -/
theorem visited (h : Ledger g done s) :
    (visitedIds done).Nodup ∧ ∀ t ∈ done, g.node? t.node.id = some t.node := by
  have hnodup : (visitedIds (done ++ s.queue)).Nodup := h.joined_perm.nodup_iff.1 h.joined_nodup
  rw [visitedIds_append] at hnodup
  exact ⟨hnodup.of_append_left, fun t ht => h.node? t (List.mem_append_left _ ht)⟩

end Ledger

end Run

namespace CircuitGraph

variable {g : CircuitGraph} {t : Token}

/-- **A run ends with its books in order.** -/
theorem exists_ledger_visits (g : CircuitGraph) :
    ∃ s : Run, s.queue = [] ∧ Run.Steps (.build g) (Run.start (.build g)) g.visits s ∧
      Run.Ledger g g.visits s := by
  obtain ⟨s, hsteps, hnil⟩ := Run.steps_visits (.build g) (Run.start (.build g))
  exact ⟨s, hnil, hsteps, (Run.Ledger.start g).steps hsteps⟩

theorem visitedIds_visits_nodup (g : CircuitGraph) : (visitedIds g.visits).Nodup := by
  obtain ⟨s, -, -, h⟩ := g.exists_ledger_visits
  exact h.visited.1

theorem node?_of_mem_visits (ht : t ∈ g.visits) : g.node? t.node.id = some t.node := by
  obtain ⟨s, -, -, h⟩ := g.exists_ledger_visits
  exact h.visited.2 t ht

end CircuitGraph

end QuantumWiring

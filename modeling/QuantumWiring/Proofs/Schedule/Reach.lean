import QuantumWiring.Proofs.Schedule.Stalled
import QuantumWiring.Proofs.Schedule.Tally

/-!
# Which nodes are visited

Where ids are distinct, the scheduler visits the nodes that lines can reach, and this does not
depend on the order of the visits, on lines that are overwritten in a slot or on wires that are
followed in vain.  `Reached` is the least set of nodes that contains the sources and, with the nodes
at the beginning of its wires, any node that waits for nothing else.  By the tally of the run, what
is visited is reached (`Advances.pop`), and once the queue is empty, what is reached is visited
(`Advances.mem_visitedIds`).
-/

namespace QuantumWiring

namespace CircuitGraph

/-- A wire with both ends, along which the node at its beginning sends a line. -/
structure LiveWire (g : CircuitGraph) (m : Node) (e : Edge) (n : Node) : Prop where
  mem : e ∈ g.edges
  source_mem : m ∈ g.nodes
  target_mem : n ∈ g.nodes
  source : e.source = m.id
  target : e.target = n.id
  sends : m.kind.sendsAlong e

/-- The nodes that lines can reach: every source; a gate on one qubit or a measurement behind one
live wire from a reached node; a gate on two qubits behind two of them, one for each input. -/
inductive Reached (g : CircuitGraph) : Node → Prop
  | source {n : Node} (hn : n ∈ g.nodes) (hs : n.kind.isSource) : Reached g n
  | single {m n : Node} {e : Edge} (hk : n.kind.numInputs = 1) (hm : Reached g m)
      (he : g.LiveWire m e n) : Reached g n
  | pair {m₁ m₂ n : Node} {e₁ e₂ : Edge} (hk : n.kind.isTwoGate) (hm₁ : Reached g m₁)
      (hm₂ : Reached g m₂) (he₁ : g.LiveWire m₁ e₁ n) (he₂ : g.LiveWire m₂ e₂ n)
      (h₁ : e₁.targetHandle = some .input1) (h₂ : e₂.targetHandle = some .input2) : Reached g n

variable {g : CircuitGraph} {done : List Token} {n : Node} {e : Edge}

theorem mem_sentBy_iff (hdone : ∀ t ∈ done, t.node ∈ g.nodes) (hn : n ∈ g.nodes) :
    e ∈ g.sentBy done ∧ e.target = n.id ↔ ∃ t ∈ done, g.LiveWire t.node e n := by
  constructor
  · rintro ⟨⟨he, -, t, ht, hsource, hsends⟩, htarget⟩
    exact ⟨t, ht, he, hdone t ht, hn, hsource, htarget, hsends⟩
  · rintro ⟨t, ht, h⟩
    have hjoins : g.joins e := by
      simp [joins, h.source, h.target, mem_ids h.source_mem, mem_ids h.target_mem]
    exact ⟨⟨h.mem, hjoins, t, ht, h.source, h.sends⟩, h.target⟩

end CircuitGraph

namespace Run

variable {g : CircuitGraph} {s : Run} {n : Node} {t : Token}

/-! ## The run -/

/-- After the visits `done` the books are in order, the tally is theirs, and they reached the nodes
that they visited. -/
structure Advances (g : CircuitGraph) (done : List Token) (s : Run) : Prop where
  ledger : Ledger g done s
  carries : s.Carries (· < g.sources.length)
  tallies : Tallies g (g.sentBy done) s
  reached : ∀ t ∈ done, g.Reached t.node

namespace Advances

variable {done : List Token}

theorem node_mem (h : Advances g done s) : ∀ t ∈ done, t.node ∈ g.nodes := by
  intro t ht
  exact (CircuitGraph.mem_of_node? (h.ledger.visited.2 t ht)).1

/-- A node that waits for nothing more is reached. -/
theorem reached_of_supplied (h : Advances g done s) (hn : n ∈ g.nodes)
    (hsupplied : Supplied (g.sentBy done) n) : g.Reached n := by
  have hlive {e : Edge} (he : e ∈ g.sentBy done) (htarget : e.target = n.id) :
      ∃ m, g.Reached m ∧ g.LiveWire m e n := by
    obtain ⟨t, ht, hwire⟩ := (CircuitGraph.mem_sentBy_iff h.node_mem hn).1 ⟨he, htarget⟩
    exact ⟨t.node, h.reached t ht, hwire⟩
  have hsingle (hk : n.kind.numInputs = 1) : g.Reached n := by
    obtain ⟨e, he, htarget⟩ := (supplied_iff_of_numInputs hk).1 hsupplied
    obtain ⟨m, hm, hwire⟩ := hlive he htarget
    exact .single hk hm hwire
  cases hk : n.kind with
  | qubitSource v => exact .source hn (by rw [hk]; rfl)
  | singleGate gate => exact hsingle (by rw [hk]; rfl)
  | measurement => exact hsingle (by rw [hk]; rfl)
  | twoGate gate =>
    have htwo : n.kind.isTwoGate := by rw [hk]; rfl
    have hinputs := (supplied_iff_of_isTwoGate htwo).1 hsupplied
    obtain ⟨e₁, he₁, htarget₁, hend₁⟩ := hinputs .input1 rfl
    obtain ⟨e₂, he₂, htarget₂, hend₂⟩ := hinputs .input2 rfl
    obtain ⟨m₁, hm₁, hwire₁⟩ := hlive he₁ htarget₁
    obtain ⟨m₂, hm₂, hwire₂⟩ := hlive he₂ htarget₂
    exact .pair htwo hm₁ hm₂ hwire₁ hwire₂ hend₁ hend₂

theorem start (hids : g.ids.Nodup) : Advances g [] (Run.start (.build g)) :=
  ⟨.start g, carries_start g, .start hids, fun t ht => by cases ht⟩

theorem pop (hids : g.ids.Nodup) (h : Advances g done s) {rest : List Token}
    (hq : takeLowest s.queue = some (t, rest)) :
    Advances g (done ++ [t]) (Run.visit (.build g) { s with queue := rest } t) := by
  have hperm := (perm_of_takeLowest hq).1
  have ht : t ∈ s.queue := hperm.mem_iff.2 List.mem_cons_self
  have hn : t.node ∈ g.nodes :=
    (CircuitGraph.mem_of_node? (h.ledger.node? t (List.mem_append_right _ ht))).1
  obtain ⟨⟨hlen, hlines⟩, hpop⟩ := h.carries.pop hq
  -- what waits in the queue has joined it, so the wires followed so far supply it
  have hjoined : t.node.id ∈ s.joined :=
    h.ledger.joined_perm.mem_iff.2 (mem_visitedIds (List.mem_append_right _ ht))
  have hreached : g.Reached t.node :=
    h.reached_of_supplied hn ((h.tallies.joined t.node hn).1 hjoined)
  have htallies : Tallies g (g.sentBy done) { s with queue := rest } :=
    ⟨h.tallies.slot, h.tallies.joined⟩
  refine ⟨(h.ledger.pop hperm).visit t, hpop.visit _ hlines, htallies.visit hids hn hlen, ?_⟩
  intro u hu
  rcases List.mem_append.1 hu with hu | hu
  · exact h.reached u hu
  · rw [List.mem_singleton.1 hu]
    exact hreached

theorem steps (hids : g.ids.Nodup) (h : Advances g done s) {s' : Run} {ts : List Token}
    (hsteps : Steps (.build g) s ts s') : Advances g (done ++ ts) s' := by
  apply hsteps.preserves _ h
  intro done s t rest h hq
  exact h.pop hids hq

/-- Once the queue is empty, every reached node is visited. -/
theorem mem_visitedIds (hids : g.ids.Nodup) (h : Advances g done s) (hq : s.queue = [])
    (hn : g.Reached n) : n.id ∈ visitedIds done := by
  have hvisited {n : Node} (hn : n ∈ g.nodes) (hsupplied : Supplied (g.sentBy done) n) :
      n.id ∈ visitedIds done := by
    have hmem := h.ledger.joined_perm.mem_iff.1 ((h.tallies.joined n hn).2 hsupplied)
    rwa [hq, List.append_nil] at hmem
  have hsent {m n : Node} {e : Edge} (hm : m.id ∈ visitedIds done) (he : g.LiveWire m e n) :
      e ∈ g.sentBy done ∧ e.target = n.id := by
    obtain ⟨t, ht, hid⟩ := List.mem_map.1 hm
    obtain rfl := CircuitGraph.eq_of_id_eq hids (h.node_mem t ht) he.source_mem hid
    exact (CircuitGraph.mem_sentBy_iff h.node_mem he.target_mem).2 ⟨t, ht, he⟩
  -- by the way in which a node is reached: its wires come from nodes that were visited before
  induction hn with
  | source hn hs => exact hvisited hn (supplied_of_isSource hs)
  | single hk _ he ih =>
    obtain ⟨hmem, htarget⟩ := hsent ih he
    exact hvisited he.target_mem ((supplied_iff_of_numInputs hk).2 ⟨_, hmem, htarget⟩)
  | pair hk _ _ he₁ he₂ h₁ h₂ ih₁ ih₂ =>
    obtain ⟨hmem₁, htarget₁⟩ := hsent ih₁ he₁
    obtain ⟨hmem₂, htarget₂⟩ := hsent ih₂ he₂
    refine hvisited he₁.target_mem ((supplied_iff_of_isTwoGate hk).2 fun i hi => ?_)
    cases i with
    | input1 => exact ⟨_, hmem₁, htarget₁, h₁⟩
    | input2 => exact ⟨_, hmem₂, htarget₂, h₂⟩
    | output1 => cases hi
    | output2 => cases hi

end Advances

end Run

/-! ## The schedule -/

section Schedule

variable {g : CircuitGraph} {n : Node}

theorem CircuitGraph.Reached.mem (h : g.Reached n) : n ∈ g.nodes := by
  cases h with
  | source hn _ => exact hn
  | single _ _ he => exact he.target_mem
  | pair _ _ _ he _ _ _ => exact he.target_mem

/-- **The scheduler visits what lines can reach.** -/
theorem exists_mem_visits_iff (hids : g.ids.Nodup) :
    (∃ t ∈ g.visits, t.node = n) ↔ g.Reached n := by
  obtain ⟨s, hnil, hsteps, -⟩ := g.exists_ledger_visits
  have h : Run.Advances g g.visits s := (Run.Advances.start hids).steps hids hsteps
  constructor
  · rintro ⟨t, ht, rfl⟩
    exact h.reached t ht
  · intro hn
    obtain ⟨t, ht, hid⟩ := List.mem_map.1 (h.mem_visitedIds hids hnil hn)
    exact ⟨t, ht, CircuitGraph.eq_of_id_eq hids (h.node_mem t ht) hn.mem hid⟩

theorem exists_mem_ops_iff (hids : g.ids.Nodup) {id : NodeId} {o : Operation} :
    (∃ lines, ⟨id, o, lines⟩ ∈ (schedule (.build g)).ops) ↔
      ∃ n, g.Reached n ∧ n.id = id ∧ n.kind.operation? = some o := by
  rw [ops_schedule]
  constructor
  · rintro ⟨lines, hop⟩
    obtain ⟨t, ht, hto⟩ := List.mem_filterMap.1 hop
    obtain ⟨o', ho, heq⟩ := Option.map_eq_some_iff.1 hto
    cases heq
    exact ⟨t.node, (exists_mem_visits_iff hids).1 ⟨t, ht, rfl⟩, rfl, ho⟩
  · rintro ⟨n, hn, rfl, ho⟩
    obtain ⟨t, ht, rfl⟩ := (exists_mem_visits_iff hids).2 hn
    refine ⟨t.lines, List.mem_filterMap.2 ⟨t, ht, ?_⟩⟩
    rw [Token.op?, ho]
    rfl

theorem mem_stalled_iff_not_reached (hids : g.ids.Nodup) {id : NodeId} :
    id ∈ (schedule (.build g)).stalled ↔ ∃ n ∈ g.operationNodes, ¬ g.Reached n ∧ n.id = id := by
  rw [mem_stalled_iff_notMem_ids, mem_ids_schedule_iff]
  constructor
  · rintro ⟨⟨n, hn, rfl⟩, hnot⟩
    refine ⟨n, hn, fun hreached => hnot ?_, rfl⟩
    obtain ⟨t, ht, rfl⟩ := (exists_mem_visits_iff hids).2 hreached
    exact ⟨t, ht, (CircuitGraph.mem_operationNodes.1 hn).2, rfl⟩
  · rintro ⟨n, hn, hnot, rfl⟩
    refine ⟨⟨n, hn, rfl⟩, ?_⟩
    rintro ⟨t, ht, -, hid⟩
    have hreached : g.Reached t.node := (exists_mem_visits_iff hids).1 ⟨t, ht, rfl⟩
    have hmem : n ∈ g.nodes := (CircuitGraph.mem_operationNodes.1 hn).1
    exact hnot (CircuitGraph.eq_of_id_eq hids hreached.mem hmem hid ▸ hreached)

/-- A graph in which no id repeats is scheduled as far as lines can reach: the visited nodes are the
reached ones, the operations are those of the reached gates and measurements, and stalled are, in
order and each once, the ids of the gates and measurements that are not reached. -/
theorem schedule_reached (hids : g.ids.Nodup) :
    (∀ n, (∃ t ∈ g.visits, t.node = n) ↔ g.Reached n) ∧
    (∀ id o, (∃ lines, ⟨id, o, lines⟩ ∈ (schedule (.build g)).ops) ↔
      ∃ n, g.Reached n ∧ n.id = id ∧ n.kind.operation? = some o) ∧
    (schedule (.build g)).stalled.Pairwise (· < ·) ∧
    ∀ id, id ∈ (schedule (.build g)).stalled ↔
      ∃ n ∈ g.operationNodes, ¬ g.Reached n ∧ n.id = id := by
  refine ⟨?visited, ?ops, pairwise_sortIds _, ?stalled⟩
  case visited =>
    intro n
    exact exists_mem_visits_iff hids
  case ops =>
    intro id o
    exact exists_mem_ops_iff hids
  case stalled =>
    intro id
    exact mem_stalled_iff_not_reached hids

end Schedule

/-- A gate on two qubits that gets the same line twice, and sends one on without saying which. -/
def strandedGraph : CircuitGraph :=
  ⟨[.atHeight "q" (.qubitSource .zero) .zero, .atHeight "cx" (.twoGate .cnot) .zero,
      .atHeight "m" .measurement .zero, .atHeight "x" (.singleGate .pauliX) .zero],
    [⟨none, "q", "cx", none, some .input1⟩, ⟨none, "q", "cx", none, some .input2⟩,
      ⟨none, "cx", "m", some .output1, none⟩, .plain "cx" "x", .plain "x" "x"]⟩

/-- The measurement behind the gate is reached, the gate behind the wire without handle is not. -/
theorem schedule_strandedGraph : strandedGraph.ids.Nodup ∧
    strandedGraph.Reached (.atHeight "m" .measurement .zero) ∧
    ¬ strandedGraph.Reached (.atHeight "x" (.singleGate .pauliX) .zero) := by
  have hids : strandedGraph.ids.Nodup := by decide
  obtain ⟨-, hops, -, hstalled⟩ := schedule_reached hids
  have hout : (schedule (.build strandedGraph)) =
      ⟨[⟨"cx", .two .cnot, [0, 0]⟩, ⟨"m", .measurement, [0]⟩], ["x"]⟩ := by cbv
  rw [hout] at hops hstalled
  refine ⟨hids, ?_, ?_⟩
  · obtain ⟨n, hn, hid, -⟩ := (hops "m" .measurement).1 ⟨[0], by decide⟩
    have heq := CircuitGraph.eq_of_id_eq hids hn.mem
      (by decide : .atHeight "m" .measurement .zero ∈ strandedGraph.nodes) hid
    exact heq ▸ hn
  · intro hx
    obtain ⟨n, hn, hnot, hid⟩ := (hstalled "x").1 (by decide)
    have heq := CircuitGraph.eq_of_id_eq hids (CircuitGraph.mem_operationNodes.1 hn).1 hx.mem hid
    exact hnot (heq ▸ hx)

end QuantumWiring

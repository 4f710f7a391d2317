import QuantumWiring.Proofs.Schedule.Interchange

/-!
# The greedy run is determined

Nodes that can be visited at the same time have no line in common (`History.disjoint_lines`), so
one of them has the lowest line of all, and a graph has one greedy run only (`GreedyRun.eq`).  The
run is stated once more in the words of a reference: a node is open when it is a source or all
nodes that are wired into it are visited, and the open node with the lowest line is visited next
(`ReferenceRun`).  Neither the sequence in which nodes became ready nor the order of wires occurs
there, so neither has any influence on a schedule (`ops_eq_referenceRun`).
-/

namespace QuantumWiring

namespace CircuitGraph

variable {g : CircuitGraph} {done done' rest rest' : List Token} {t u : Token}

/-! ## One greedy run -/

section Unique

variable (hg : g.WellFormed)
include hg

theorem History.mem_of_mem_visitedIds (h : g.History done) (ht : g.Available (lineOn done) t)
    (hid : t.node.id ∈ visitedIds done) : t ∈ done := by
  obtain ⟨u, hu, hut⟩ := List.mem_map.1 hid
  rwa [ht.eq_of_id_eq hg (h.available_of_mem hu) hut.symm]

/-- **Nodes that can be visited at the same time have no line in common.** -/
theorem History.disjoint_lines (h : g.History done) (ht : g.Available (lineOn done) t)
    (hu : g.Available (lineOn done) u) (htnew : t.node.id ∉ visitedIds done)
    (hunew : u.node.id ∉ visitedIds done) (hne : t.node.id ≠ u.node.id) :
    t.lines.Disjoint u.lines := by
  intro l hlt hlu
  cases hst : t.node.kind.isSource
  · -- the wire that brings the line to one of them offers it to the other
    obtain ⟨e, he, htarget, hl⟩ := ht.exists_wire_of_mem_lines hg hst hlt
    have hopen : e.target ∉ visitedIds done := htarget ▸ htnew
    have hu' := (h.snoc hu hunew).target_eq_of_mem_lines hg hlu he hopen hl
    exact hne (htarget.symm.trans hu')
  · cases hsu : u.node.kind.isSource
    · obtain ⟨e, he, htarget, hl⟩ := hu.exists_wire_of_mem_lines hg hsu hlu
      have hopen : e.target ∉ visitedIds done := htarget ▸ hunew
      have ht' := (h.snoc ht htnew).target_eq_of_mem_lines hg hlt he hopen hl
      exact hne (ht'.symm.trans htarget)
    · obtain ⟨i, hi, hti⟩ := ht.exists_index hst
      obtain ⟨j, hj, huj⟩ := hu.exists_index hsu
      obtain rfl : l = i := by simpa [hti] using hlt
      obtain rfl : l = j := by simpa [huj] using hlu
      rw [hi, Option.some.injEq] at hj
      exact hne (congrArg Node.id hj)

theorem Available.priority_mem {c : Edge → Option Line} (ht : g.Available c t) :
    t.priority ∈ t.lines := by
  have hmem : lowestLine Token.lines t ∈ t.lines := lowestLine_mem (ht.lines_ne_nil hg)
  exact hmem

theorem History.eq_of_priority_eq (h : g.History done) (ht : g.Available (lineOn done) t)
    (hu : g.Available (lineOn done) u) (htnew : t.node.id ∉ visitedIds done)
    (hunew : u.node.id ∉ visitedIds done) (heq : t.priority = u.priority) : t = u := by
  by_contra hne
  have hid : t.node.id ≠ u.node.id := fun hid => hne (ht.eq_of_id_eq hg hu hid)
  exact h.disjoint_lines hg ht hu htnew hunew hid (ht.priority_mem hg)
    (heq ▸ hu.priority_mem hg)

/-- Greedy runs that agree so far go on alike. -/
theorem GreedyRun.append_eq (h : g.GreedyRun (done ++ rest)) (h' : g.GreedyRun (done ++ rest')) :
    rest = rest' := by
  induction rest generalizing done rest' with
  | nil =>
    cases rest' with
    | nil => rfl
    | cons u rest' =>
      obtain ⟨-, hav, hnew⟩ := History.of_snoc (List.append_cons .. ▸ h'.toHistory).of_append
      rw [List.append_nil] at h
      exact absurd (mem_visitedIds (h.maximal u hav)) hnew
  | cons t rest ih =>
    obtain ⟨hdone, hav, hnew⟩ := History.of_snoc (List.append_cons .. ▸ h.toHistory).of_append
    cases rest' with
    | nil =>
      rw [List.append_nil] at h'
      exact absurd (mem_visitedIds (h'.maximal t hav)) hnew
    | cons u rest' =>
      obtain ⟨-, hav', hnew'⟩ := History.of_snoc (List.append_cons .. ▸ h'.toHistory).of_append
      have hle := h.lowest rfl u hav' fun hmem => hnew' (mem_visitedIds hmem)
      have hge := h'.lowest rfl t hav fun hmem => hnew (mem_visitedIds hmem)
      obtain rfl := hdone.eq_of_priority_eq hg hav hav' hnew hnew' (Nat.le_antisymm hle hge)
      rw [List.append_cons] at h h'
      rw [ih h h']

/-- **A graph has one greedy run.** -/
theorem GreedyRun.eq (h : g.GreedyRun done) (h' : g.GreedyRun done') : done = done' := by
  rw [← List.nil_append done] at h
  exact h.append_eq hg h'

end Unique

/-! ## The reference run -/

/-- The lines that a node has after some visits: a source its own one, any other node those that
its wires carry. -/
def linesAt (g : CircuitGraph) (done : List Token) (n : Node) : List Line :=
  if n.kind.isSource then [g.orderedSources.idxOf n]
  else (g.inputWires n).filterMap (lineOn done)

/-- A node that is not visited can be visited when it is a source or when all nodes that are wired
into it are visited. -/
structure Open (g : CircuitGraph) (done : List Token) (n : Node) : Prop where
  mem : n ∈ g.nodes
  new : n.id ∉ visitedIds done
  wired : n.kind.isSource ∨ ∀ a, g.Wire a n.id → a ∈ visitedIds done

/-- Visits of open nodes, always of one whose lowest line is smallest. -/
inductive ReferenceRun (g : CircuitGraph) : List Token → Prop
  | nil : ReferenceRun g []
  | snoc {done : List Token} {n : Node} (h : ReferenceRun g done) (hn : g.Open done n)
    (hlow : ∀ m, g.Open done m → lowestLine (g.linesAt done) n ≤ lowestLine (g.linesAt done) m) :
    ReferenceRun g (done ++ [⟨n, g.linesAt done n⟩])

section Reference

variable (hg : g.WellFormed)
include hg

/-- An available node has its lines. -/
theorem Available.linesAt_eq (ht : g.Available (lineOn done) t) :
    g.linesAt done t.node = t.lines := by
  unfold linesAt
  cases hs : t.node.kind.isSource
  · exact filterMap_eq_of_map_eq (ht.map_inputWires hs)
  · obtain ⟨i, hi, hlines⟩ := ht.exists_index hs
    obtain ⟨hlt, hget⟩ := List.getElem?_eq_some_iff.1 hi
    have hnodup : g.orderedSources.Nodup := .of_map _ hg.orderedSources_ids_nodup
    rw [hlines, if_pos rfl, ← hget, hnodup.idxOf_getElem]

/-- The open nodes are those that are available and not visited. -/
theorem History.open_iff (h : g.History done) {n : Node} :
    g.Open done n ↔
      g.Available (lineOn done) ⟨n, g.linesAt done n⟩ ∧ n.id ∉ visitedIds done := by
  constructor
  · rintro ⟨hn, hnew, hwired⟩
    have hpred : ∀ e ∈ g.edges, e.target = n.id → e.source ∈ visitedIds done := by
      intro e he ht
      rcases hwired with hs | hall
      · exact absurd ht (hg.target_ne_of_isSource hn hs he)
      · exact hall e.source ⟨e, he, rfl, ht⟩
    obtain ⟨ls, hls⟩ := h.exists_available hg hn hpred
    have hlines : g.linesAt done n = ls := hls.linesAt_eq hg
    exact ⟨hlines ▸ hls, hnew⟩
  · rintro ⟨hav, hnew⟩
    refine ⟨hav.node_mem, hnew, .inr ?_⟩
    rintro a ⟨e, he, rfl, ht⟩
    exact (h.snoc hav hnew).source_mem hg rfl he ht

theorem ReferenceRun.history (h : g.ReferenceRun done) : g.History done := by
  induction h with
  | nil => exact .nil
  | snoc _ hn _ ih =>
    obtain ⟨hav, hnew⟩ := (ih.open_iff hg).1 hn
    exact ih.snoc hav hnew

theorem Available.lowestLine_eq (ht : g.Available (lineOn done) t) :
    lowestLine (g.linesAt done) t.node = t.priority := by
  rw [lowestLine, ht.linesAt_eq hg, Token.priority]

theorem ReferenceRun.lowest (h : g.ReferenceRun done) {before after : List Token}
    (hd : done = before ++ t :: after) (hu : g.Available (lineOn before) u) (hnew : u ∉ before) :
    t.priority ≤ u.priority := by
  induction h generalizing after with
  | nil => simp at hd
  | @snoc done n h hn hlow ih =>
    rcases List.eq_nil_or_concat after with rfl | ⟨after, z, rfl⟩
    · obtain ⟨rfl, ht⟩ := List.append_inj' hd rfl
      obtain rfl : ⟨n, g.linesAt done n⟩ = t := by simpa using ht
      have hhist := h.history hg
      have hopen : g.Open done u.node := by
        refine (hhist.open_iff hg).2 ⟨?_, fun hid => hnew (hhist.mem_of_mem_visitedIds hg hu hid)⟩
        rw [hu.linesAt_eq hg]
        exact hu
      rw [← hu.lowestLine_eq hg]
      exact hlow u.node hopen
    · rw [List.concat_eq_append, ← List.cons_append, ← List.append_assoc] at hd
      exact ih (List.append_inj' hd rfl).1

/-- A reference run that has come to its end is the greedy run. -/
theorem ReferenceRun.greedyRun (h : g.ReferenceRun done) (hend : ∀ n, ¬ g.Open done n) :
    g.GreedyRun done := by
  have hhist := h.history hg
  refine ⟨hhist, fun hd u hu hnew => h.lowest hg hd hu hnew, fun t ht => ?_⟩
  by_contra hmem
  refine hend t.node ((hhist.open_iff hg).2 ⟨?_, fun hid => ?_⟩)
  · rw [ht.linesAt_eq hg]
    exact ht
  · exact hmem (hhist.mem_of_mem_visitedIds hg ht hid)

theorem GreedyRun.referenceRun (h : g.GreedyRun done) :
    g.ReferenceRun done ∧ ∀ n, ¬ g.Open done n := by
  have hpart : ∀ ts more, done = ts ++ more → g.ReferenceRun ts := by
    intro ts
    induction ts using List.reverseRecOn with
    | nil => exact fun _ _ => .nil
    | append_singleton ts t ih =>
      intro more hd
      rw [List.append_assoc, List.singleton_append] at hd
      obtain ⟨hhist, hav, hnew⟩ := History.of_snoc (List.append_cons .. ▸ hd ▸ h.toHistory).of_append
      have hlines := hav.linesAt_eq hg
      have hopen : g.Open ts t.node := by
        refine (hhist.open_iff hg).2 ⟨?_, hnew⟩
        rw [hlines]
        exact hav
      have hstep := (ih _ hd).snoc hopen fun m hm => ?_
      · rwa [hlines] at hstep
      · obtain ⟨hm, hmnew⟩ := (hhist.open_iff hg).1 hm
        rw [hav.lowestLine_eq hg, hm.lowestLine_eq hg]
        exact h.lowest hd _ hm fun hmem => hmnew (mem_visitedIds hmem)
  refine ⟨hpart done [] (List.append_nil done).symm, fun n hn => ?_⟩
  obtain ⟨hav, hnew⟩ := (h.open_iff hg).1 hn
  exact hnew (mem_visitedIds (h.maximal _ hav))

/-- Open nodes have no line in common, so they differ in their lowest lines. -/
theorem History.disjoint_linesAt (h : g.History done) {m n : Node} (hm : g.Open done m)
    (hn : g.Open done n) (hne : m ≠ n) :
    (g.linesAt done m).Disjoint (g.linesAt done n) ∧
      lowestLine (g.linesAt done) m ≠ lowestLine (g.linesAt done) n := by
  obtain ⟨hmav, hmnew⟩ := (h.open_iff hg).1 hm
  obtain ⟨hnav, hnnew⟩ := (h.open_iff hg).1 hn
  have hid : m.id ≠ n.id := fun hid =>
    hne (CircuitGraph.eq_of_id_eq hg.ids_nodup hm.mem hn.mem hid)
  refine ⟨h.disjoint_lines hg hmav hnav hmnew hnnew hid, fun heq => ?_⟩
  rw [hmav.lowestLine_eq hg, hnav.lowestLine_eq hg] at heq
  have htoken := h.eq_of_priority_eq hg hmav hnav hmnew hnnew heq
  exact hne (congrArg Token.node htoken)

end Reference

end CircuitGraph

/-! ## Schedules -/

/-- The operations of a schedule are the gates and measurements of the reference run, which is the
only one.  At each of its steps the open nodes have no line in common and differ in their lowest
lines; and whichever token with the lowest line is taken from the queue, and in whatever order
wires are followed, the visits are the same. -/
theorem ops_eq_referenceRun {g : CircuitGraph} (h : g.Accepted) :
    ∃ done, g.ReferenceRun done ∧ (∀ n, ¬ g.Open done n) ∧
      (schedule (.build g)).ops = done.filterMap Token.op? ∧
      (∀ done', g.ReferenceRun done' → (∀ n, ¬ g.Open done' n) → done' = done) ∧
      (∀ done', g.ReferenceRun done' → ∀ m n, g.Open done' m → g.Open done' n → m ≠ n →
        (g.linesAt done' m).Disjoint (g.linesAt done' n) ∧
        lowestLine (g.linesAt done') m ≠ lowestLine (g.linesAt done') n) ∧
      ∀ ts, Run.Proceeds (.build g) (Run.start (.build g)) ts → ts = done := by
  have hg := CircuitGraph.accepted_iff_wellFormed.1 h
  have hrun := hg.greedyRun_visits
  obtain ⟨href, hend⟩ := hrun.referenceRun hg
  refine ⟨g.visits, href, hend, ops_schedule, ?_, ?_, ?_⟩
  · intro done' href' hend'
    exact (href'.greedyRun hg hend').eq hg hrun
  · intro done' href' m n hm hn hne
    exact (href'.history hg).disjoint_linesAt hg hm hn hne
  · intro ts hts
    exact (hg.greedyRun_of_proceeds hts).eq hg hrun

/-- A qubit beside a gate that waits for its own second output. -/
def besideLoopGraph : CircuitGraph :=
  ⟨loopedGraph.nodes ++
      [.atHeight "q1" (.qubitSource .one) (.ofMagnitude false 1), .atHeight "m1" .measurement .zero],
    loopedGraph.edges ++ [.plain "q1" "m1"]⟩

/-- The qubit is measured, the loop stays open. -/
theorem referenceRun_besideLoopGraph : besideLoopGraph.Accepted ∧
    ∃ done, besideLoopGraph.ReferenceRun done ∧ (∀ n, ¬ besideLoopGraph.Open done n) ∧
      done.filterMap Token.op? = [⟨"m1", .measurement, [1]⟩] := by
  have haccepted : besideLoopGraph.Accepted := by cbv
  have hops : (schedule (.build besideLoopGraph)).ops = [⟨"m1", .measurement, [1]⟩] := by cbv
  obtain ⟨done, href, hend, hdone, -⟩ := ops_eq_referenceRun haccepted
  exact ⟨haccepted, done, href, hend, hdone.symm.trans hops⟩

end QuantumWiring

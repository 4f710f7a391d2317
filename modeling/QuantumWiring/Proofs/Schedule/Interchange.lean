import QuantumWiring.Proofs.Schedule.Conservation
import QuantumWiring.Proofs.Schedule.Trace

/-!
# Histories of one graph

The visits that take a line form a chain of wires (`History.chain`), so two histories that visit
all nodes of a graph agree along every line (`CompleteHistory.along_eq`): they can be turned into
each other by exchanging neighbours without a common line.  The run of the scheduler is the
distinguished one among them (`GreedyRun.leastFirst`).  Hence what a graph compiles to depends only
on what happens along its lines (`CompleteHistory.map_event_visits_eq`), whatever the ids, the
heights and the collection order are.
-/

namespace QuantumWiring

open Relation

namespace CircuitGraph

variable {g : CircuitGraph} {done done' : List Token} {t u : Token} {l : Line}

/-! ## The wires of a line -/

namespace History

variable (hg : g.WellFormed)
include hg

theorem exists_mem_lines_of_lineOn (h : g.History done) {e : Edge} (he : e ∈ g.edges)
    (hl : lineOn done e = some l) : ∃ t ∈ done, t.node.id = e.source ∧ l ∈ t.lines := by
  obtain ⟨t, ht, hid, hle⟩ := exists_mem_of_lineOn hl
  have hav := h.available_of_mem ht
  obtain ⟨l', hl', hle'⟩ := hav.exists_lineAlong hg (mem_wiresFrom.2 ⟨he, hid.symm⟩)
  rw [hle, Option.some.injEq] at hle'
  exact ⟨t, ht, hid, hle' ▸ hl'⟩

/-- A line that a node has taken was started by its source. -/
theorem exists_started (h : g.History done) (ht : t ∈ done) (hl : l ∈ t.lines) :
    ∃ n, g.orderedSources[l]? = some n ∧ n.id ∈ visitedIds done := by
  induction done using List.reverseRecOn generalizing t with
  | nil => cases ht
  | append_singleton done u ih =>
    obtain ⟨hdone, hav, -⟩ := h.of_snoc
    suffices ∃ n, g.orderedSources[l]? = some n ∧ (n.id ∈ visitedIds done ∨ n = u.node) by
      obtain ⟨n, hn, hid⟩ := this
      refine ⟨n, hn, ?_⟩
      rcases hid with hid | rfl <;> simp [*]
    rcases List.mem_append.1 ht with ht | ht
    · obtain ⟨n, hn, hid⟩ := ih hdone ht hl
      exact ⟨n, hn, .inl hid⟩
    obtain rfl := List.mem_singleton.1 ht
    cases hs : t.node.kind.isSource
    · obtain ⟨e, he, -, hc⟩ := hav.exists_wire_of_mem_lines hg hs hl
      obtain ⟨s, hs, -, hls⟩ := hdone.exists_mem_lines_of_lineOn hg he hc
      obtain ⟨n, hn, hid⟩ := ih hdone hs hls
      exact ⟨n, hn, .inl hid⟩
    · obtain ⟨i, hi, hlines⟩ := hav.exists_index hs
      obtain rfl : l = i := by simpa [hlines] using hl
      exact ⟨t.node, hi, .inr rfl⟩

/-- Nothing has taken the line of a source before the source is visited. -/
theorem notMem_lines_of_isSource (h : g.History (done ++ [u])) (hs : u.node.kind.isSource)
    (hl : l ∈ u.lines) (ht : t ∈ done) : l ∉ t.lines := by
  intro hlt
  obtain ⟨hdone, hav, hnew⟩ := h.of_snoc
  obtain ⟨i, hi, hlines⟩ := hav.exists_index hs
  obtain rfl : l = i := by simpa [hlines] using hl
  obtain ⟨n, hn, hid⟩ := hdone.exists_started hg ht hlt
  rw [hi, Option.some.injEq] at hn
  exact hnew (hn ▸ hid)

theorem eq_of_lineOn_eq (h : g.History done) {e e' : Edge} (he : e ∈ g.edges) (he' : e' ∈ g.edges)
    (ht : e.target ∉ visitedIds done) (ht' : e'.target ∉ visitedIds done)
    (hl : lineOn done e = some l) (hl' : lineOn done e' = some l) : e = e' := by
  have hnodup := (h.lines_perm hg).nodup_iff.2 List.nodup_range
  have hcarried : (g.carried done).Nodup := hnodup.of_append_right.of_append_right
  exact eq_of_nodup_flatMap hcarried he he' (c := l) (by simp [ht, hl]) (by simp [ht', hl'])

/-- A visit takes a line from the only wire that offers it. -/
theorem target_eq_of_mem_lines (h : g.History (done ++ [u])) (hl : l ∈ u.lines) {e : Edge}
    (he : e ∈ g.edges) (ht : e.target ∉ visitedIds done) (hle : lineOn done e = some l) :
    e.target = u.node.id := by
  obtain ⟨hdone, hav, hnew⟩ := h.of_snoc
  cases hs : u.node.kind.isSource
  · obtain ⟨e', he', ht', hc⟩ := hav.exists_wire_of_mem_lines hg hs hl
    rw [hdone.eq_of_lineOn_eq hg he he' ht (ht' ▸ hnew) hle hc, ht']
  · obtain ⟨s, hmem, -, hls⟩ := hdone.exists_mem_lines_of_lineOn hg he hle
    exact absurd hls (h.notMem_lines_of_isSource hg hs hl hmem)

/-- Along each line the visits are linked by wires, and the last of them sends the line on. -/
theorem chain (h : g.History done) :
    (done.Pairwise fun t u => ∀ l ∈ t.lines, l ∈ u.lines →
      TransGen g.Wire t.node.id u.node.id) ∧
    ∀ t ∈ done, ∀ l ∈ t.lines, ∀ e ∈ g.edges, lineOn done e = some l →
      e.target ∉ visitedIds done → ReflTransGen g.Wire t.node.id e.source := by
  induction done using List.reverseRecOn with
  | nil => exact ⟨.nil, fun t ht => by cases ht⟩
  | append_singleton done u ih =>
    obtain ⟨hdone, hav, hnew⟩ := h.of_snoc
    obtain ⟨hpair, hreach⟩ := ih hdone
    have hlink : ∀ t ∈ done, ∀ l ∈ t.lines, l ∈ u.lines →
        TransGen g.Wire t.node.id u.node.id := by
      intro t ht l hlt hlu
      cases hs : u.node.kind.isSource
      · obtain ⟨e, he, htarget, hc⟩ := hav.exists_wire_of_mem_lines hg hs hlu
        exact .tail' (hreach t ht l hlt e he hc (htarget ▸ hnew)) ⟨e, he, rfl, htarget⟩
      · exact absurd hlt (h.notMem_lines_of_isSource hg hs hlu ht)
    refine ⟨List.pairwise_append.2 ⟨hpair, List.pairwise_singleton .., fun t ht v hv => ?_⟩,
      fun t ht l hlt e he hl htarget => ?_⟩
    · obtain rfl := List.mem_singleton.1 hv
      exact hlink t ht
    · have ⟨hopen, hne⟩ : e.target ∉ visitedIds done ∧ e.target ≠ u.node.id := by
        simpa using htarget
      by_cases hs : e.source = u.node.id
      · rw [hs]
        rcases List.mem_append.1 ht with ht | ht
        · rw [lineOn_snoc_self hnew hs] at hl
          obtain ⟨l', hl', hle⟩ := hav.exists_lineAlong hg (mem_wiresFrom.2 ⟨he, hs⟩)
          rw [hl, Option.some.injEq] at hle
          exact (hlink t ht l hlt (hle ▸ hl')).to_reflTransGen
        · rw [List.mem_singleton.1 ht]
      · rw [lineOn_snoc_of_ne hs] at hl
        rcases List.mem_append.1 ht with ht | ht
        · exact hreach t ht l hlt e he hl hopen
        · obtain rfl := List.mem_singleton.1 ht
          exact absurd (h.target_eq_of_mem_lines hg hlt he hopen hl) hne

end History

namespace CompleteHistory

variable (hg : g.WellFormed)
include hg

theorem mem_of_mem (h : g.History done) (h' : g.CompleteHistory done') (ht : t ∈ done) :
    t ∈ done' := by
  have hlabel := h'.isLabelling_lineOn hg
  have hav := h.available_of_mem ht
  obtain ⟨u, hu, hid⟩ := List.mem_map.1 (h'.complete t.node hav.node_mem)
  have hav' : g.Available (lineOn done') t := hav.mono fun e he l hl => by
    -- both histories follow the same labelling
    have he := ((hg.mem_inputWires hav.node_mem).1 he).1
    obtain ⟨n, hn, hsource⟩ := hg.exists_source he
    obtain ⟨l', hl'⟩ := h'.exists_lineOn hg he (hsource ▸ h'.complete n hn)
    rw [hl', ← hlabel.lineOn_eq hg h e he l hl, hlabel.lineOn_eq hg h'.toHistory e he l' hl']
  exact hav'.eq_of_id_eq hg (h'.available_of_mem hu) hid.symm ▸ hu

theorem perm (h : g.CompleteHistory done) (h' : g.CompleteHistory done') : done.Perm done' :=
  (List.perm_ext_iff_of_nodup h.nodup.of_map h'.nodup.of_map).2 fun _ =>
    ⟨mem_of_mem hg h.toHistory h', mem_of_mem hg h'.toHistory h⟩

/-- **Complete histories agree along every line.** -/
theorem along_eq (h : g.CompleteHistory done) (h' : g.CompleteHistory done') (l : Line) :
    along Token.lines l done = along Token.lines l done' := by
  have hlinked {ts : List Token} (hts : g.History ts) : (along Token.lines l ts).Pairwise
      fun t u => TransGen g.Wire t.node.id u.node.id := by
    refine List.pairwise_filter.2 ((hts.chain hg).1.imp fun {t u} hlink ht hu => ?_)
    exact hlink l (of_decide_eq_true ht) (of_decide_eq_true hu)
  refine List.Perm.eq_of_pairwise (fun t u ht _ htu hut => ?_) (hlinked h.toHistory)
    (hlinked h'.toHistory) ((h.perm hg h').filter _)
  have hid : t.node.id ∈ visitedIds done := mem_visitedIds (List.mem_filter.1 ht).1
  exact absurd ⟨_, htu.trans hut, .refl⟩ (h.not_fedByCycle hg hid)

/-- The run of the scheduler is complete if any history is. -/
theorem visits (h : g.CompleteHistory done) : g.CompleteHistory g.visits := by
  have hrun := hg.greedyRun_visits
  refine ⟨hrun.toHistory, fun n hn => (hrun.mem_visitedIds_iff hg (mem_ids hn)).2 ?_⟩
  exact h.not_fedByCycle hg (h.complete n hn)

end CompleteHistory

/-- **A greedy run is the distinguished history**: what could be visited earlier is available
earlier. -/
theorem GreedyRun.leastFirst (hg : g.WellFormed) (h : g.GreedyRun done) :
    LeastFirst Token.lines done := by
  intro before t between u after hd hdisj
  have hd' : done = (before ++ t :: between) ++ u :: after := by simp [hd]
  have hhist : g.History (before ++ t :: between) := (hd' ▸ h.toHistory).of_append
  have hav := h.available hd'
  have hnodup : (visitedIds before).Nodup := hhist.of_append.nodup
  have havail : g.Available (lineOn before) u := hav.mono fun e he l hl => by
    have hwire := (hg.mem_inputWires hav.node_mem).1 he
    obtain ⟨s, hs, hid, hle⟩ := exists_mem_of_lineOn hl
    obtain ⟨s', hs', hid', hls⟩ := hhist.exists_mem_lines_of_lineOn hg hwire.1 hl
    obtain rfl := hhist.eq_of_id_eq hs hs' (hid.trans hid'.symm)
    obtain ⟨l', hlu, hl'⟩ := hav.exists_mem_lines hg hwire.1 hwire.2
    obtain rfl : l = l' := Option.some.inj (hl.symm.trans hl')
    rcases List.mem_append.1 hs with hs | hs
    · rw [lineOn_of_mem hnodup hs hid.symm, hle]
    · exact absurd hlu (hdisj s hs hls)
  refine h.lowest hd u havail fun hmem => ?_
  have hids := h.nodup
  rw [hd', visitedIds_append, visitedIds_append] at hids
  exact List.disjoint_of_nodup_append hids (List.mem_append_left _ (mem_visitedIds hmem))
    List.mem_cons_self

end CircuitGraph

/-! ## What a graph compiles to -/

/-- What a visit does, whatever the node is called. -/
def Token.event (t : Token) : Option Operation × List Line := (t.node.kind.operation?, t.lines)

theorem filterMap_spec? (done : List Token) : done.filterMap Token.spec? =
    (done.map Token.event).filterMap fun p => p.1.map fun op => ⟨op, p.2⟩ := by
  rw [List.filterMap_map]
  rfl

namespace CircuitGraph

variable {g g' : CircuitGraph} {done done' : List Token}

theorem History.lines_ne_nil (hg : g.WellFormed) (h : g.History done) {t : Token} (ht : t ∈ done) :
    t.lines ≠ [] :=
  (h.available_of_mem ht).lines_ne_nil hg

/-- **Graphs whose histories agree along all lines are visited in the same way.** -/
theorem CompleteHistory.map_event_visits_eq (hg : g.WellFormed) (hg' : g'.WellFormed)
    (h : g.CompleteHistory done) (h' : g'.CompleteHistory done')
    (halong : ∀ l, along Prod.snd l (done.map Token.event) =
      along Prod.snd l (done'.map Token.event)) :
    g.visits.map Token.event = g'.visits.map Token.event := by
  have hmap (l : Line) (ts : List Token) : along Prod.snd l (ts.map Token.event) =
      (along Token.lines l ts).map Token.event := along_map (fun _ => rfl) ts
  have hrun := hg.greedyRun_visits
  have hrun' := hg'.greedyRun_visits
  have hne : ∀ p ∈ g.visits.map Token.event, p.2 ≠ [] :=
    List.forall_mem_map.2 fun t ht => hrun.lines_ne_nil hg ht
  have hne' : ∀ p ∈ g'.visits.map Token.event, p.2 ≠ [] :=
    List.forall_mem_map.2 fun t ht => hrun'.lines_ne_nil hg' ht
  refine LeastFirst.eq_of_along_eq ((hrun.leastFirst hg).map fun _ => rfl)
    ((hrun'.leastFirst hg').map fun _ => rfl) hne hne' fun l => ?_
  have hl := halong l
  rw [hmap, hmap] at hl ⊢
  rw [(h.visits hg).along_eq hg h l, hl, (h'.visits hg').along_eq hg' h' l]

end CircuitGraph

end QuantumWiring

import QuantumWiring.Proofs.Graph.Order
import Mathlib.Data.List.Permutation

/-!
# What the standard rules report

Each rule asks something of the raw lists of nodes and edges (`Keeps`).  Where a graph does not
keep a rule, the violation that is reported says what is wrong at the first node that the rule
complains of, with the number of wires that the edges really give (`Finds`, `Reports`).  The rules
read degrees, junctions and dangling wires that were counted in passing; `check_eq_some_iff` says
that they report exactly this, and `firstViolation?_standard` that the first rule in the standard
order that is not kept decides.
-/

namespace QuantumWiring

namespace CircuitGraph

/-- How many wires are attached to a terminal of a gate on two qubits. -/
def wiresAt (g : CircuitGraph) (id : NodeId) (h : Handle) : Nat :=
  if h.isInput then (g.wiresInto id).countP (·.targetHandle = some h)
  else (g.wiresFrom id).countP (·.sourceHandle = some h)

/-- What a rule asks of a graph. -/
def Keeps (g : CircuitGraph) : Rule → Prop
  | .qubitPresence => g.sources ≠ []
  | .measurementParity => g.sources.length = g.measurements.length
  | .qubitFanOut => ∀ n ∈ g.nodes, n.kind.isSource → (g.wiresFrom n.id).length = 1
  | .gateDegree => ∀ n ∈ g.nodes, n.kind.isGate →
      (g.wiresInto n.id).length = n.kind.numInputs ∧
      (g.wiresFrom n.id).length = n.kind.numOutputs
  | .measurementFanIn => ∀ n ∈ g.nodes, n.kind.isMeasurement → (g.wiresInto n.id).length = 1
  | .noOrphanGates => ∀ n ∈ g.nodes, n.kind.isGate →
      g.wiresInto n.id ≠ [] ∨ g.wiresFrom n.id ≠ []
  | .wireEndpoints => g.ids.Nodup ∧ ∀ e ∈ g.edges, g.joins e
  | .terminalDirection => ∀ n ∈ g.nodes,
      (n.kind.isSource → (g.wiresInto n.id).length = 0) ∧
      (n.kind.isMeasurement → (g.wiresFrom n.id).length = 0)
  | .handleAssignment => ∀ n ∈ g.nodes, n.kind.isTwoGate → ∀ h, g.wiresAt n.id h = 1

/-- What a rule has to say against a node. -/
inductive Finds (g : CircuitGraph) (n : Node) : Rule → Violation → Prop
  | qubitOutputs (hk : n.kind.isSource) (h : (g.wiresFrom n.id).length ≠ 1) :
    Finds g n .qubitFanOut (.qubitOutputs n.id (g.wiresFrom n.id).length)
  | gateInputs {name : String} (hk : n.kind.gateName? = some name)
    (h : (g.wiresInto n.id).length ≠ n.kind.numInputs) :
    Finds g n .gateDegree
      (.gateInputs n.id n.kind.label name n.kind.numInputs (g.wiresInto n.id).length)
  | gateOutputs {name : String} (hk : n.kind.gateName? = some name)
    (hin : (g.wiresInto n.id).length = n.kind.numInputs)
    (h : (g.wiresFrom n.id).length ≠ n.kind.numOutputs) :
    Finds g n .gateDegree
      (.gateOutputs n.id n.kind.label name n.kind.numOutputs (g.wiresFrom n.id).length)
  | measurementInputs (hk : n.kind.isMeasurement) (h : (g.wiresInto n.id).length ≠ 1) :
    Finds g n .measurementFanIn (.measurementInputs n.id (g.wiresInto n.id).length)
  | orphanedGate {name : String} (hk : n.kind.gateName? = some name)
    (hin : g.wiresInto n.id = []) (hout : g.wiresFrom n.id = []) :
    Finds g n .noOrphanGates (.orphanedGate n.id name)
  | wireIntoQubit (hk : n.kind.isSource) (h : g.wiresInto n.id ≠ []) :
    Finds g n .terminalDirection (.wireIntoQubit n.id)
  | wireFromMeasurement (hk : n.kind.isMeasurement) (h : g.wiresFrom n.id ≠ []) :
    Finds g n .terminalDirection (.wireFromMeasurement n.id)
  | handleUse {gate : TwoGate} {before after : List Handle} {h : Handle}
    (hk : n.kind = .twoGate gate) (hall : Handle.all = before ++ h :: after)
    (hbefore : ∀ h' ∈ before, g.wiresAt n.id h' = 1) (hh : g.wiresAt n.id h ≠ 1) :
    Finds g n .handleAssignment (.handleUse n.id gate.name h (g.wiresAt n.id h))

end CircuitGraph

/-- Whether a rule looks at one node before another: all rules go by ids, but the degrees of gates
on one qubit come before those of gates on two. -/
def Rule.LooksFirst (r : Rule) (m n : Node) : Prop :=
  match r with
  | .gateDegree => (m.kind.isTwoGate = false ∧ n.kind.isTwoGate) ∨
      (m.kind.isTwoGate = n.kind.isTwoGate ∧ m.id ≤ n.id)
  | _ => m.id ≤ n.id

namespace CircuitGraph

/-- The violation that a rule reports: of all that it finds, the one at the node that it looks at
first, and of all dangling wires the one with the least ends. -/
inductive Reports (g : CircuitGraph) : Rule → Violation → Prop
  | noQubits (h : g.sources = []) : Reports g .qubitPresence .noQubits
  | measurementCount (h : g.sources.length ≠ g.measurements.length) :
    Reports g .measurementParity (.measurementCount g.sources.length g.measurements.length)
  | danglingWire {e : Edge} (he : e ∈ g.edges) (hj : g.joins e = false)
    (hleast : ∀ e' ∈ g.edges, g.joins e' = false →
      toLex (e.source, e.target) ≤ toLex (e'.source, e'.target)) :
    Reports g .wireEndpoints (.danglingWire e.source e.target
      (if e.source ∈ g.ids then e.target else e.source))
  | atNode {r : Rule} {n : Node} {v : Violation} (hn : n ∈ g.nodes) (hv : g.Finds n r v)
    (hfirst : ∀ m ∈ g.nodes, ∀ w, g.Finds m r w → r.LooksFirst n m) : Reports g r v

end CircuitGraph

/-! ## Findings at a node -/

namespace Rule

variable {g : CircuitGraph} {n : Node} {v : Violation}

theorem gateDegrees_eq_some_iff {arity : Nat} {name : String} {j : Junction} :
    gateDegrees arity name j = some v ↔
      (j.inDegree ≠ arity ∧
        v = .gateInputs j.node.id j.node.kind.label name arity j.inDegree) ∨
      (j.inDegree = arity ∧ j.outDegree ≠ arity ∧
        v = .gateOutputs j.node.id j.node.kind.label name arity j.outDegree) := by
  unfold gateDegrees
  by_cases hin : j.inDegree = arity <;> by_cases hout : j.outDegree = arity <;>
    simp [hin, hout, eq_comm]

theorem finds_gateDegree_iff {name : String} (hk : n.kind.gateName? = some name)
    (hnum : n.kind.numOutputs = n.kind.numInputs) :
    gateDegrees n.kind.numInputs name (g.junction n) = some v ↔ g.Finds n .gateDegree v := by
  rw [gateDegrees_eq_some_iff]
  constructor
  · rintro (⟨h, rfl⟩ | ⟨hin, h, rfl⟩)
    · exact .gateInputs hk h
    · have hout := CircuitGraph.Finds.gateOutputs (g := g) hk hin (by rwa [hnum])
      rwa [hnum] at hout
  · rintro (_ | ⟨hk', h⟩ | ⟨hk', hin, h⟩)
    · obtain rfl := Option.some.inj (hk.symm.trans hk')
      exact .inl ⟨h, rfl⟩
    · obtain rfl := Option.some.inj (hk.symm.trans hk')
      rw [hnum] at h ⊢
      exact .inr ⟨hin, h, rfl⟩

theorem isGate_of_finds (h : g.Finds n .gateDegree v) : n.kind.isGate := by
  have hname : ∃ name, n.kind.gateName? = some name := by
    rcases h with _ | ⟨hk, -⟩ | ⟨hk, -, -⟩
    · exact ⟨_, hk⟩
    · exact ⟨_, hk⟩
  obtain ⟨name, hname⟩ := hname
  cases hk : n.kind <;> rw [hk] at hname <;> first | rfl | cases hname

theorem handleUse_eq_some_iff (hj : ∀ e ∈ g.edges, g.joins e) {gate : TwoGate}
    (hk : n.kind = .twoGate gate) :
    handleUse (g.junction n) gate = some v ↔ g.Finds n .handleAssignment v := by
  have hinto : (g.wiresInto n.id).filter g.joins = g.wiresInto n.id :=
    List.filter_eq_self.2 fun e he => hj e (CircuitGraph.mem_wiresInto.1 he).1
  have hfrom : (g.wiresFrom n.id).filter g.joins = g.wiresFrom n.id :=
    List.filter_eq_self.2 fun e he => hj e (CircuitGraph.mem_wiresFrom.1 he).1
  have hcount (h : Handle) : (if h.isInput then (g.junction n).entering h
      else (g.junction n).leaving h) = g.wiresAt n.id h := by
    unfold Junction.entering Junction.leaving CircuitGraph.junction CircuitGraph.wiresAt
    rw [hinto, hfrom, (List.mergeSort_perm ..).countP_eq]
  unfold handleUse
  simp only [hcount, List.findSome?_eq_some_iff]
  constructor
  · rintro ⟨before, h, after, hall, hv, hbefore⟩
    split at hv
    · next hh =>
      cases hv
      refine .handleUse hk hall (fun h' hh' => ?_) hh
      simpa using hbefore h' hh'
    · cases hv
  · rintro (_ | _ | _ | _ | _ | _ | _ | ⟨hk', hall, hbefore, hh⟩)
    obtain rfl := NodeKind.twoGate.inj (hk.symm.trans hk')
    refine ⟨_, _, _, hall, if_pos hh, fun h' hh' => ?_⟩
    simp [hbefore h' hh']

end Rule

/-! ## Each rule reports what it finds first -/

namespace Rule

variable {g : CircuitGraph} {v : Violation}

section Passes

variable (h : g.ids.Nodup) {r : Rule} {p : Node → Prop} {f : Junction → Option Violation}
  (hfinds : ∀ n ∈ g.nodes, ∀ v, f (g.junction n) = some v ↔ p n ∧ g.Finds n r v)
include h hfinds

/-- A pass over some of the nodes by their ids comes to the finding at the least id. -/
theorem pass_eq_some_iff :
    (Adjacency.build g).sorted.findSome? f = some v ↔ ∃ n ∈ g.nodes, p n ∧ g.Finds n r v ∧
      ∀ m ∈ g.nodes, p m → ∀ w, g.Finds m r w → n.id ≤ m.id := by
  rw [findSome?_sorted_eq_some_iff h]
  constructor
  · rintro ⟨n, hn, hv, hleast⟩
    obtain ⟨hp, hv⟩ := (hfinds n hn v).1 hv
    refine ⟨n, hn, hp, hv, fun m hm hpm w hw => hleast m hm ?_⟩
    rw [(hfinds m hm w).2 ⟨hpm, hw⟩]
    exact Option.some_ne_none w
  · rintro ⟨n, hn, hp, hv, hleast⟩
    refine ⟨n, hn, (hfinds n hn v).2 ⟨hp, hv⟩, fun m hm hne => ?_⟩
    obtain ⟨w, hw⟩ := Option.ne_none_iff_exists'.1 hne
    obtain ⟨hpm, hw⟩ := (hfinds m hm w).1 hw
    exact hleast m hm hpm w hw

theorem pass_eq_none_iff : (Adjacency.build g).sorted.findSome? f = none ↔
    ∀ n ∈ g.nodes, p n → ∀ v, ¬ g.Finds n r v := by
  rw [findSome?_sorted_eq_none_iff h]
  refine forall₂_congr fun n hn => ?_
  rw [Option.eq_none_iff_forall_ne_some]
  simp only [ne_eq, hfinds n hn, not_and]
  exact forall_comm

end Passes

/-- A rule that goes over the nodes by their ids reports the first finding. -/
theorem findSome?_sorted_iff_reports (h : g.ids.Nodup) {r : Rule}
    (hr : r ∉ [.qubitPresence, .measurementParity, .gateDegree, .wireEndpoints])
    {f : Junction → Option Violation}
    (hfinds : ∀ n ∈ g.nodes, ∀ v, f (g.junction n) = some v ↔ g.Finds n r v) :
    (Adjacency.build g).sorted.findSome? f = some v ↔ g.Reports r v := by
  have horder (m n : Node) : r.LooksFirst m n ↔ m.id ≤ n.id := by
    cases r <;> first | exact Iff.rfl | simp at hr
  rw [pass_eq_some_iff (p := fun _ => True) h fun n hn v =>
    (hfinds n hn v).trans (and_iff_right trivial).symm]
  constructor
  · rintro ⟨n, hn, -, hv, hleast⟩
    exact .atNode hn hv fun m hm w hw => (horder n m).2 (hleast m hm trivial w hw)
  · intro hv
    cases hv with
    | noQubits => simp at hr
    | measurementCount => simp at hr
    | danglingWire => simp at hr
    | @atNode _ n _ hn hv hfirst =>
      exact ⟨n, hn, trivial, hv, fun m hm _ w hw => (horder n m).1 (hfirst m hm w hw)⟩

/-- The rule about the degrees of gates goes over the gates on one qubit, then over those on two. -/
theorem exists_passes_gateDegree (g : CircuitGraph) : ∃ single two : Junction → Option Violation,
    check (Adjacency.build g) .gateDegree =
      ((Adjacency.build g).sorted.findSome? single).or
        ((Adjacency.build g).sorted.findSome? two) ∧
    (∀ n v, single (g.junction n) = some v ↔
      n.kind.isTwoGate = false ∧ g.Finds n .gateDegree v) ∧
    (∀ n v, two (g.junction n) = some v ↔ n.kind.isTwoGate ∧ g.Finds n .gateDegree v) := by
  refine ⟨_, _, rfl, fun n v => ?_, fun n v => ?_⟩
  · have hgate := isGate_of_finds (g := g) (n := n) (v := v)
    have hkind : (g.junction n).node.kind = n.kind := rfl
    cases hk : n.kind with
    | singleGate gate =>
      have hname : n.kind.gateName? = some gate.name := by rw [hk]; rfl
      have hiff := finds_gateDegree_iff (g := g) (v := v) hname (by rw [hk]; rfl)
      rw [hk] at hiff hkind
      simp only [hkind]
      exact hiff.trans (and_iff_right rfl).symm
    | twoGate gate => simp [hkind, hk, NodeKind.isTwoGate]
    | qubitSource value => simpa [hkind, hk, NodeKind.isTwoGate, NodeKind.isGate] using hgate
    | measurement => simpa [hkind, hk, NodeKind.isTwoGate, NodeKind.isGate] using hgate
  · have hkind : (g.junction n).node.kind = n.kind := rfl
    cases hk : n.kind with
    | twoGate gate =>
      have hname : n.kind.gateName? = some gate.name := by rw [hk]; rfl
      have hiff := finds_gateDegree_iff (g := g) (v := v) hname (by rw [hk]; rfl)
      rw [hk] at hiff hkind
      simp only [hkind]
      exact hiff.trans (and_iff_right rfl).symm
    | _ => simp [hkind, hk, NodeKind.isTwoGate]

theorem check_gateDegree_eq_some_iff (h : g.ids.Nodup) :
    check (Adjacency.build g) .gateDegree = some v ↔ g.Reports .gateDegree v := by
  obtain ⟨single, two, hcheck, hsingle, htwo⟩ := exists_passes_gateDegree g
  rw [hcheck, Option.or_eq_some_iff, pass_eq_some_iff h fun n _ => hsingle n,
    pass_eq_none_iff h fun n _ => hsingle n, pass_eq_some_iff h fun n _ => htwo n]
  constructor
  · rintro (⟨n, hn, hk, hv, hleast⟩ | ⟨hnone, n, hn, hk, hv, hleast⟩)
    · refine .atNode hn hv fun m hm w hw => ?_
      cases hkm : m.kind.isTwoGate
      · exact .inr ⟨hk.trans hkm.symm, hleast m hm hkm w hw⟩
      · exact .inl ⟨hk, hkm⟩
    · refine .atNode hn hv fun m hm w hw => ?_
      cases hkm : m.kind.isTwoGate
      · exact absurd hw (hnone m hm hkm w)
      · exact .inr ⟨hk.trans hkm.symm, hleast m hm hkm w hw⟩
  · rintro (_ | _ | _ | @⟨_, n, _, hn, hv, hfirst⟩)
    cases hk : n.kind.isTwoGate
    · refine .inl ⟨n, hn, hk, hv, fun m hm hkm w hw => ?_⟩
      rcases hfirst m hm w hw with ⟨-, hkm'⟩ | ⟨-, hle⟩
      · simp [hkm] at hkm'
      · exact hle
    · refine .inr ⟨fun m hm hkm w hw => ?_, n, hn, hk, hv, fun m hm hkm w hw => ?_⟩
      · rcases hfirst m hm w hw with ⟨hk', -⟩ | ⟨heq, -⟩
        · simp [hk] at hk'
        · simp [hk, hkm] at heq
      · rcases hfirst m hm w hw with ⟨hk', -⟩ | ⟨-, hle⟩
        · simp [hk] at hk'
        · exact hle

/-- The first of the least elements is a least element. -/
theorem least?_eq_some {α κ : Type} [LinearOrder κ] (key : α → κ) {before : α → α → Bool}
    (hbefore : ∀ a b, before a b ↔ key a < key b) {l : List α} {a : α}
    (h : least? before l = some a) : a ∈ l ∧ ∀ b ∈ l, key a ≤ key b := by
  cases l with
  | nil => cases h
  | cons b l =>
    obtain rfl := Option.some.inj h
    clear h
    induction l generalizing b with
    | nil => simp
    | cons c l ih =>
      rw [List.foldl_cons]
      obtain ⟨hmem, hleast⟩ := ih (if before c b then c else b)
      have hpick : key (if before c b then c else b) ≤ key b ∧
          key (if before c b then c else b) ≤ key c := by
        split
        · next hlt => exact ⟨le_of_lt ((hbefore c b).1 hlt), le_refl _⟩
        · next hlt => exact ⟨le_refl _, not_lt.1 fun hc => hlt ((hbefore c b).2 hc)⟩
      have hhead := hleast _ List.mem_cons_self
      refine ⟨?_, fun d hd => ?_⟩
      · rcases List.mem_cons.1 hmem with hmem | hmem
        · rw [hmem]
          split <;> simp
        · exact List.mem_cons_of_mem _ (List.mem_cons_of_mem _ hmem)
      · rcases List.mem_cons.1 hd with rfl | hd
        · exact le_trans hhead hpick.1
        · rcases List.mem_cons.1 hd with rfl | hd
          · exact le_trans hhead hpick.2
          · exact hleast d (List.mem_cons_of_mem _ hd)

theorem endsBefore_iff (a b : Edge) :
    endsBefore a b ↔ toLex (a.source, a.target) < toLex (b.source, b.target) := by
  simp [endsBefore, Prod.Lex.toLex_lt_toLex]

/-- Where ids are distinct, the dangling wire with the least ends is reported. -/
theorem check_wireEndpoints_eq_some_iff (h : g.ids.Nodup) :
    check (Adjacency.build g) .wireEndpoints = some v ↔ g.Reports .wireEndpoints v := by
  have hcheck : check (Adjacency.build g) .wireEndpoints =
      (least? endsBefore (g.edges.filter (!g.joins ·))).map fun e =>
        .danglingWire e.source e.target (if e.source ∈ g.ids then e.target else e.source) := by
    have hmissing (id : NodeId) : ((Adjacency.build g).find? id).isNone = decide (id ∉ g.ids) := by
      rw [Adjacency.find?_build, Option.isNone_map, Bool.eq_iff_iff, Option.isNone_iff_eq_none,
        decide_eq_true_iff, ← CircuitGraph.isSome_node?_iff, Option.not_isSome_iff_eq_none]
    unfold check
    simp only [Adjacency.duplicates_build_eq_nil_iff.2 h, Adjacency.dangling_build, hmissing]
    simp [least?]
  have hmem {e : Edge} : e ∈ g.edges.filter (!g.joins ·) ↔ e ∈ g.edges ∧ g.joins e = false := by
    simp
  rw [hcheck, Option.map_eq_some_iff]
  constructor
  · rintro ⟨e, he, rfl⟩
    obtain ⟨he, hleast⟩ := least?_eq_some (fun e : Edge => toLex (e.source, e.target))
      endsBefore_iff he
    obtain ⟨he, hj⟩ := hmem.1 he
    exact .danglingWire he hj fun e' he' hj' => hleast e' (hmem.2 ⟨he', hj'⟩)
  · rintro (_ | _ | @⟨e, he, hj, hleast⟩ | ⟨-, hv, -⟩)
    · cases hl : least? endsBefore (g.edges.filter (!g.joins ·)) with
      | none =>
        have := hmem.2 ⟨he, hj⟩
        rw [least?_eq_none_iff.1 hl] at this
        cases this
      | some e' =>
        obtain ⟨he', hleast'⟩ := least?_eq_some (fun e : Edge => toLex (e.source, e.target))
          endsBefore_iff hl
        obtain ⟨he', hj'⟩ := hmem.1 he'
        have hends := le_antisymm (hleast' e (hmem.2 ⟨he, hj⟩)) (hleast e' he' hj')
        obtain ⟨hs, ht⟩ := Prod.mk.inj hends
        exact ⟨e', rfl, by rw [hs, ht]⟩
    · cases hv

/-! ## Rules that are kept -/

theorem check_eq_none_iff_keeps (h : g.ids.Nodup) {r : Rule}
    (hr : r = .handleAssignment → ∀ e ∈ g.edges, g.joins e) :
    check (Adjacency.build g) r = none ↔ g.Keeps r := by
  cases r with
  | qubitPresence => exact check_qubitPresence
  | measurementParity => exact check_measurementParity
  | qubitFanOut => exact check_qubitFanOut h
  | gateDegree => exact check_gateDegree h
  | measurementFanIn => exact check_measurementFanIn h
  | noOrphanGates =>
    rw [check, findSome?_sorted_eq_none_iff h]
    refine forall₂_congr fun n _ => ?_
    cases hk : n.kind <;>
      simp [CircuitGraph.junction, hk, NodeKind.gateName?, NodeKind.isGate, or_iff_not_imp_left]
  | wireEndpoints => exact check_wireEndpoints
  | terminalDirection => exact check_terminalDirection h
  | handleAssignment =>
    rw [check_handleAssignment h (hr rfl)]
    refine forall₂_congr fun n _ => imp_congr_right fun _ => ?_
    unfold CircuitGraph.wiresAt
    constructor
    · intro huse i
      split
      · next hi => exact huse.1 i hi
      · next hi => exact huse.2 i (Bool.eq_false_iff.2 hi)
    · intro huse
      refine ⟨fun i hi => ?_, fun i hi => ?_⟩
      · simpa [hi] using huse i
      · simpa [hi] using huse i

/-- **A rule reports what it finds first.** -/
theorem check_eq_some_iff_reports (h : g.ids.Nodup) {r : Rule}
    (hr : r = .handleAssignment → ∀ e ∈ g.edges, g.joins e) :
    check (Adjacency.build g) r = some v ↔ g.Reports r v := by
  cases r with
  | qubitPresence =>
    rw [check, Adjacency.graph_build]
    constructor
    · intro hv
      split at hv
      · next hnone => cases hv; exact .noQubits hnone
      · cases hv
    · rintro (hnone | _ | _ | ⟨-, hv, -⟩)
      · exact if_pos hnone
      · cases hv
  | measurementParity =>
    rw [check, Adjacency.graph_build]
    constructor
    · intro hv
      split at hv
      · next hne => cases hv; exact .measurementCount hne
      · cases hv
    · rintro (_ | hne | _ | ⟨-, hv, -⟩)
      · exact if_pos hne
      · cases hv
  | qubitFanOut =>
    refine findSome?_sorted_iff_reports h (by decide) fun n _ w => ?_
    constructor
    · intro hw
      split at hw
      · next hc => cases hw; exact .qubitOutputs hc.1 hc.2
      · cases hw
    · rintro ⟨hk, hc⟩
      exact if_pos ⟨hk, hc⟩
  | gateDegree => exact check_gateDegree_eq_some_iff h
  | measurementFanIn =>
    refine findSome?_sorted_iff_reports h (by decide) fun n _ w => ?_
    constructor
    · intro hw
      split at hw
      · next hc => cases hw; exact .measurementInputs hc.1 hc.2
      · cases hw
    · rintro (_ | _ | _ | ⟨hk, hc⟩)
      exact if_pos ⟨hk, hc⟩
  | noOrphanGates =>
    refine findSome?_sorted_iff_reports h (by decide) fun n _ w => ?_
    constructor
    · intro hw
      split at hw
      · next name hname =>
        split at hw
        · next hc =>
          cases hw
          exact .orphanedGate hname (List.length_eq_zero_iff.1 hc.1)
            (List.length_eq_zero_iff.1 hc.2)
        · cases hw
      · cases hw
    · rintro (_ | _ | _ | _ | @⟨name, hname, hin, hout⟩)
      simp [CircuitGraph.junction, hname, hin, hout]
  | wireEndpoints => exact check_wireEndpoints_eq_some_iff h
  | terminalDirection =>
    refine findSome?_sorted_iff_reports h (by decide) fun n _ w => ?_
    have hpos (es : List Edge) : 0 < es.length ↔ es ≠ [] := List.length_pos_iff
    constructor
    · intro hw
      split at hw
      · next hc => cases hw; exact .wireIntoQubit hc.1 ((hpos _).1 hc.2)
      · split at hw
        · next hc => cases hw; exact .wireFromMeasurement hc.1 ((hpos _).1 hc.2)
        · cases hw
    · rintro (_ | _ | _ | _ | _ | ⟨hk, hc⟩ | ⟨hk, hc⟩)
      · exact if_pos ⟨hk, (hpos _).2 hc⟩
      · have hs : n.kind.isSource = false := NodeKind.isSource_eq_false_iff.2 (.inr hk)
        rw [if_neg fun hc' => by rw [show (g.junction n).node = n from rfl, hs] at hc'; cases hc'.1]
        exact if_pos ⟨hk, (hpos _).2 hc⟩
  | handleAssignment =>
    refine findSome?_sorted_iff_reports h (by decide) fun n _ w => ?_
    have hkind : (g.junction n).node.kind = n.kind := rfl
    cases hk : n.kind with
    | twoGate gate =>
      simp only [hkind, hk]
      exact handleUse_eq_some_iff (hr rfl) hk
    | _ =>
      simp only [hkind, hk]
      constructor
      · intro hw
        cases hw
      · rintro (_ | _ | _ | _ | _ | _ | _ | ⟨hk', -, -, -⟩)
        rw [hk] at hk'
        cases hk'

end Rule

/-! ## The standard rules -/

variable {g : CircuitGraph} {v : Violation}

/-- The standard rules look at the terminals of gates once they have seen that wires have both
ends. -/
theorem joins_of_keeps {before after : List Rule}
    (hsplit : Rule.standard = before ++ .handleAssignment :: after)
    (hkeeps : ∀ r ∈ before, g.Keeps r) : ∀ e ∈ g.edges, g.joins e := by
  have hnodup : (before ++ .handleAssignment :: after).Nodup := hsplit ▸ (by decide)
  have hbefore : before = Rule.standard.takeWhile (· ≠ .handleAssignment) := by
    rw [hsplit, List.takeWhile_append_of_pos, List.takeWhile_cons_of_neg (by simp),
      List.append_nil]
    intro r hr
    refine decide_eq_true fun he => ?_
    exact List.disjoint_of_nodup_append hnodup (he ▸ hr) List.mem_cons_self
  have hmem : Rule.wireEndpoints ∈ before := hbefore ▸ (by decide)
  exact (hkeeps _ hmem).2

/-- **The first standard rule that is not kept reports.** -/
theorem firstViolation?_standard_eq_some_iff (h : g.ids.Nodup) :
    firstViolation? Rule.standard (.build g) = some v ↔
      ∃ before r after, Rule.standard = before ++ r :: after ∧ (∀ r' ∈ before, g.Keeps r') ∧
        g.Reports r v := by
  have hjoins {before after : List Rule} {r : Rule}
      (hsplit : Rule.standard = before ++ r :: after) (hkeeps : ∀ r' ∈ before, g.Keeps r')
      (hr : r = .handleAssignment) : ∀ e ∈ g.edges, g.joins e :=
    joins_of_keeps (hr ▸ hsplit) hkeeps
  -- the rule about terminals is the last one, so it stands before no other
  have hothers {before after : List Rule} {r r' : Rule}
      (hsplit : Rule.standard = before ++ r :: after) (hr' : r' ∈ before)
      (he : r' = .handleAssignment) : ∀ e ∈ g.edges, g.joins e := by
    have hmem : r' ∈ Rule.standard.dropLast := by
      rw [hsplit, List.dropLast_append_cons]
      exact List.mem_append_left _ hr'
    rw [he] at hmem
    exact absurd hmem (by decide)
  unfold firstViolation?
  rw [List.findSome?_eq_some_iff]
  constructor
  · rintro ⟨before, r, after, hsplit, hv, hnone⟩
    have hkeeps : ∀ r' ∈ before, g.Keeps r' := fun r' hr' =>
      (Rule.check_eq_none_iff_keeps h (hothers hsplit hr')).1 (hnone r' hr')
    exact ⟨before, r, after, hsplit, hkeeps,
      (Rule.check_eq_some_iff_reports h (hjoins hsplit hkeeps)).1 hv⟩
  · rintro ⟨before, r, after, hsplit, hkeeps, hv⟩
    refine ⟨before, r, after, hsplit,
      (Rule.check_eq_some_iff_reports h (hjoins hsplit hkeeps)).2 hv, fun r' hr' => ?_⟩
    exact (Rule.check_eq_none_iff_keeps h (hothers hsplit hr')).2 (hkeeps r' hr')

/-- The standard rules accept the well-formed graphs.  Where ids are distinct, a graph that they
reject is reported for the first rule that it does not keep, at the first node that the rule
complains of. -/
theorem standard_verdict (g : CircuitGraph) : (g.Accepted ↔ g.WellFormed) ∧
    (g.ids.Nodup → ∀ v, firstViolation? Rule.standard (.build g) = some v ↔
      ∃ before r after, Rule.standard = before ++ r :: after ∧ (∀ r' ∈ before, g.Keeps r') ∧
        g.Reports r v) :=
  ⟨CircuitGraph.accepted_iff_wellFormed, fun h _ => firstViolation?_standard_eq_some_iff h⟩

/-- Two gates without wires beside a qubit that is measured. -/
def strayGraph : CircuitGraph :=
  ⟨[.atHeight "cx" (.twoGate .cnot) .zero, .atHeight "h" (.singleGate .hadamard) .zero,
      .atHeight "q0" (.qubitSource .zero) .zero, .atHeight "m0" .measurement .zero],
    [.plain "q0" "m0"]⟩

/-- The gate on one qubit is reported although the id of the other one is less. -/
theorem verdict_strayGraph : ¬ strayGraph.WellFormed ∧ strayGraph.ids.Nodup ∧
    ∃ before r after, Rule.standard = before ++ r :: after ∧
      (∀ r' ∈ before, strayGraph.Keeps r') ∧
      strayGraph.Reports r (.gateInputs "h" "single qubit gate" "hadamard" 1 0) := by
  have hids : strayGraph.ids.Nodup := by decide
  have hv : firstViolation? Rule.standard (.build strayGraph) =
      some (.gateInputs "h" "single qubit gate" "hadamard" 1 0) := by cbv
  obtain ⟨haccepted, hreports⟩ := standard_verdict strayGraph
  refine ⟨fun hg => ?_, hids, (hreports hids _).1 hv⟩
  have hnone : firstViolation? Rule.standard (.build strayGraph) = none := haccepted.2 hg
  rw [hnone] at hv
  cases hv

end QuantumWiring

import QuantumWiring.Proofs.Binary64.Value
import QuantumWiring.Proofs.Graph.Terminal
import QuantumWiring.Proofs.Graph.Order

/-!
# Sources by their heights

Lines are numbered in the order of `orderedSources`, which goes by the bit patterns of the heights.
Among numbers that is the order of their values.  A NaN stands beyond all numbers, on the side that
its sign says: without a sign it comes after them, with a sign before them
(`heights_orderedSources`).
-/

namespace QuantumWiring

/-! ## The order of bit patterns -/

namespace Binary64

variable {x y : Binary64}

theorem le_of_rank_le (h : x.rank ≤ y.rank) (hx : x.isNaN = false) (hy : y.isNaN = false) :
    x.le y := by
  have hlevel : x.level ≤ y.level := by
    revert h
    unfold rank level
    cases x.isNegative <;> cases y.isNegative <;>
      simp only [Bool.false_eq_true, if_false, if_true] <;> omega
  simp [le, hx, hy, hlevel]

/-- Whatever follows a NaN without a sign is a NaN. -/
theorem isNaN_of_rank_le (h : x.rank ≤ y.rank) (hx : x.isNaN) (hsign : x.isNegative = false) :
    y.isNaN := by
  simp only [isNaN, decide_eq_true_eq] at hx ⊢
  have hrank : x.rank = x.magnitude := by simp [rank, hsign]
  rw [hrank, rank] at h
  split at h <;> omega

/-- Whatever precedes a NaN with a sign is a NaN. -/
theorem isNaN_of_le_rank (h : x.rank ≤ y.rank) (hy : y.isNaN) (hsign : y.isNegative) :
    x.isNaN := by
  simp only [isNaN, decide_eq_true_eq] at hy ⊢
  have hrank : y.rank = -(y.magnitude : Int) - 1 := by simp [rank, hsign]
  rw [hrank, rank] at h
  split at h <;> omega

end Binary64

/-! ## Sources -/

namespace Node

/-- How far down a node stands on the canvas. -/
def height (n : Node) : Binary64 := n.position.y

variable {m n : Node}

theorem rank_le_of_heightKey_le (h : m.heightKey ≤ n.heightKey) :
    m.height.rank ≤ n.height.rank := by
  rw [heightKey, heightKey, Prod.Lex.toLex_le_toLex] at h
  rcases h with hlt | ⟨heq, -⟩
  · exact hlt.le
  · exact heq.le

theorem id_le_of_heightKey_le (h : m.heightKey ≤ n.heightKey)
    (hheight : m.height.bits = n.height.bits) : m.id ≤ n.id := by
  have hrank : m.height.rank = n.height.rank :=
    congrArg Binary64.rank (congrArg Binary64.mk hheight)
  rw [heightKey, heightKey, Prod.Lex.toLex_le_toLex] at h
  rcases h with hlt | ⟨-, hid⟩
  · exact absurd hrank hlt.ne
  · exact hid

end Node

namespace CircuitGraph

variable {g : CircuitGraph}

theorem pairwise_orderedSources (g : CircuitGraph) :
    g.orderedSources.Pairwise (·.heightKey ≤ ·.heightKey) :=
  pairwise_mergeSort_key Node.heightKey Node.isAbove_iff g.sources

/-- NaNs come last as far as no NaN with a sign stands before a number. -/
theorem pairwise_isNaN_iff :
    (g.orderedSources.Pairwise fun m n => m.height.isNaN → n.height.isNaN) ↔
      ∀ m ∈ g.sources, m.height.isNaN → m.height.isNegative → ∀ n ∈ g.sources, n.height.isNaN := by
  have hmem {n : Node} : n ∈ g.orderedSources ↔ n ∈ g.sources := orderedSources_perm.mem_iff
  have hsorted := g.pairwise_orderedSources.imp Node.rank_le_of_heightKey_le
  constructor
  · intro hlast
    let Beside (m n : Node) : Prop :=
      (m.height.isNaN → m.height.isNegative → n.height.isNaN) ∧
        (n.height.isNaN → n.height.isNegative → m.height.isNaN)
    have : Std.Symm Beside := ⟨fun _ _ h => ⟨h.2, h.1⟩⟩
    have hpairs : g.orderedSources.Pairwise Beside := by
      refine (hlast.and hsorted).imp ?_
      rintro m n ⟨hmn, hrank⟩
      exact ⟨fun hm _ => hmn hm, Binary64.isNaN_of_le_rank hrank⟩
    intro m hm hnan hsign n hn
    have hself : ∀ k ∈ g.orderedSources, Beside k k := fun k _ => ⟨fun h _ => h, fun h _ => h⟩
    exact (hpairs.forall_of_forall hself (hmem.2 hm) (hmem.2 hn)).1 hnan hsign
  · intro hall
    refine hsorted.imp_of_mem ?_
    intro m n hm hn hrank hnan
    cases hsign : m.height.isNegative
    · exact Binary64.isNaN_of_rank_le hrank hnan hsign
    · exact hall m (hmem.1 hm) hnan hsign n (hmem.1 hn)

/-- **Sources from top to bottom.**  They are put in an order in which those at numbers come by the
values of their heights, those at the same height by their ids, a NaN without a sign behind all
numbers and a NaN with a sign before them.  So the NaNs come last exactly when none has a sign or
there are no numbers. -/
theorem heights_orderedSources (g : CircuitGraph) :
    g.orderedSources.Perm g.sources ∧
    (g.orderedSources.Pairwise fun m n => m.height.isNaN = false → n.height.isNaN = false →
      m.height.value ≤ n.height.value) ∧
    (g.orderedSources.Pairwise fun m n => m.height.bits = n.height.bits → m.id ≤ n.id) ∧
    (g.orderedSources.Pairwise fun m n =>
      m.height.isNaN → m.height.isNegative = false → n.height.isNaN) ∧
    (g.orderedSources.Pairwise fun m n =>
      n.height.isNaN → n.height.isNegative → m.height.isNaN) ∧
    ((g.orderedSources.Pairwise fun m n => m.height.isNaN → n.height.isNaN) ↔
      ∀ m ∈ g.sources, m.height.isNaN → m.height.isNegative →
        ∀ n ∈ g.sources, n.height.isNaN) := by
  have hsorted := g.pairwise_orderedSources
  have hranks := hsorted.imp Node.rank_le_of_heightKey_le
  refine ⟨orderedSources_perm, ?values, ?ids, ?behind, ?before, pairwise_isNaN_iff⟩
  case values =>
    refine hranks.imp ?_
    intro m n hrank hm hn
    exact (Binary64.le_iff_value_le hm hn).1 (Binary64.le_of_rank_le hrank hm hn)
  case ids => exact hsorted.imp Node.id_le_of_heightKey_le
  case behind => exact hranks.imp Binary64.isNaN_of_rank_le
  case before => exact hranks.imp Binary64.isNaN_of_le_rank

/-- A qubit at height 0, and one whose height is a NaN with a sign. -/
def misplacedGraph : CircuitGraph :=
  ⟨[.atHeight "a" (.qubitSource .zero) .zero,
      .atHeight "b" (.qubitSource .zero) (.ofMagnitude true (Binary64.infiniteMagnitude + 1))], []⟩

/-- It comes first although it is at a NaN and the other one is not. -/
theorem orderedSources_misplacedGraph :
    misplacedGraph.orderedSources.map (·.id) = ["b", "a"] ∧
    ¬ misplacedGraph.orderedSources.Pairwise fun m n => m.height.isNaN → n.height.isNaN := by
  have hids : ∀ m ∈ misplacedGraph.sources, ∀ n ∈ misplacedGraph.sources, m.id = n.id → m = n := by
    decide
  have horder : misplacedGraph.orderedSources = misplacedGraph.sources.reverse := calc
    misplacedGraph.orderedSources = misplacedGraph.sources.reverse.mergeSort Node.isAbove :=
      mergeSort_eq_of_perm Node.heightKey Node.isAbove_iff
        (fun m hm n hn h => hids m hm n hn (Node.id_eq_of_heightKey_eq h)) (List.reverse_perm _).symm
    _ = misplacedGraph.sources.reverse := List.mergeSort_of_pairwise (by decide)
  constructor
  · rw [horder]
    rfl
  · rw [pairwise_isNaN_iff]
    decide

end CircuitGraph

end QuantumWiring

import QuantumWiring.Compile.Schedule
import Mathlib.Data.List.Nodup
import Mathlib.Logic.Relation

/-!
# Traces of operations on lines

Neighbours in a list that share no line may be exchanged (`Swapped`).  Exchanges leave alone what
happens along each line, and two lists that agree along all lines can be turned into each other
(`interchangeable_iff_along_eq`).  Among the lists that can be turned into each other one is
distinguished: the one in which every element that could be moved to a place has no lower lowest
line than the element there (`LeastFirst.eq_of_along_eq`).  The elements may be anything that
occupies lines.
-/

namespace QuantumWiring

variable {α : Type} {lines : α → List Line} {xs ys : List α} {a b : α}

/-- Two neighbours without a common line change places. -/
inductive Swapped (lines : α → List Line) : List α → List α → Prop
  | swap (xs ys : List α) {a b : α} (h : (lines a).Disjoint (lines b)) :
    Swapped lines (xs ++ a :: b :: ys) (xs ++ b :: a :: ys)

/-- The lists can be turned into each other by exchanges. -/
def Interchangeable (lines : α → List Line) : List α → List α → Prop :=
  Relation.ReflTransGen (Swapped lines)

/-- The elements that occupy a line. -/
def along (lines : α → List Line) (l : Line) (xs : List α) : List α := xs.filter (l ∈ lines ·)

section Along

variable {l : Line}

@[simp] theorem along_nil : along lines l [] = [] := rfl

@[simp] theorem along_append (xs ys : List α) :
    along lines l (xs ++ ys) = along lines l xs ++ along lines l ys := List.filter_append ..

theorem along_cons_of_mem (h : l ∈ lines a) (xs : List α) :
    along lines l (a :: xs) = a :: along lines l xs := List.filter_cons_of_pos (by simpa using h)

theorem along_cons_of_notMem (h : l ∉ lines a) (xs : List α) :
    along lines l (a :: xs) = along lines l xs := List.filter_cons_of_neg (by simpa using h)

theorem along_eq_nil (h : ∀ a ∈ xs, l ∉ lines a) : along lines l xs = [] :=
  List.filter_eq_nil_iff.2 fun a ha => by simpa using h a ha

theorem along_map {β : Type} {lines' : β → List Line} {f : α → β} (hf : ∀ a, lines' (f a) = lines a)
    (xs : List α) : along lines' l (xs.map f) = (along lines l xs).map f := by
  simp only [along, List.filter_map, Function.comp_def, hf]

theorem along_filterMap {β : Type} {lines' : β → List Line} {f : α → Option β}
    (hf : ∀ a b, f a = some b → lines' b = lines a) (xs : List α) :
    along lines' l (xs.filterMap f) = (along lines l xs).filterMap f := by
  induction xs with
  | nil => rfl
  | cons a xs ih =>
    cases hfa : f a with
    | none =>
      rw [List.filterMap_cons_none hfa, ih]
      by_cases hl : l ∈ lines a
      · rw [along_cons_of_mem hl, List.filterMap_cons_none hfa]
      · rw [along_cons_of_notMem hl]
    | some b =>
      rw [List.filterMap_cons_some hfa]
      by_cases hl : l ∈ lines a
      · rw [along_cons_of_mem hl, List.filterMap_cons_some hfa,
          along_cons_of_mem (hf a b hfa ▸ hl), ih]
      · rw [along_cons_of_notMem hl, along_cons_of_notMem (hf a b hfa ▸ hl), ih]

end Along

/-! ## Exchanges and what happens along a line -/

theorem Swapped.along_eq (h : Swapped lines xs ys) (l : Line) :
    along lines l xs = along lines l ys := by
  cases h with | @swap xs ys a b hab
  rw [along_append, along_append]
  congr 1
  by_cases ha : l ∈ lines a
  · have hb : l ∉ lines b := hab ha
    rw [along_cons_of_mem ha, along_cons_of_notMem hb, along_cons_of_notMem hb,
      along_cons_of_mem ha]
  · by_cases hb : l ∈ lines b
    · rw [along_cons_of_notMem ha, along_cons_of_mem hb, along_cons_of_mem hb,
        along_cons_of_notMem ha]
    · rw [along_cons_of_notMem ha, along_cons_of_notMem hb, along_cons_of_notMem hb,
        along_cons_of_notMem ha]

theorem Interchangeable.along_eq (h : Interchangeable lines xs ys) (l : Line) :
    along lines l xs = along lines l ys := by
  induction h with
  | refl => rfl
  | tail _ hstep ih => exact ih.trans (hstep.along_eq l)

theorem Interchangeable.cons (h : Interchangeable lines xs ys) (a : α) :
    Interchangeable lines (a :: xs) (a :: ys) := by
  induction h with
  | refl => exact .refl
  | tail _ hstep ih =>
    cases hstep with | swap xs ys hab
    exact ih.tail (.swap (a :: xs) ys hab)

theorem interchangeable_cons_append (h : ∀ b ∈ xs, (lines b).Disjoint (lines a)) (ys : List α) :
    Interchangeable lines (a :: (xs ++ ys)) (xs ++ a :: ys) := by
  induction xs with
  | nil => exact .refl
  | cons b xs ih =>
    have hab : (lines a).Disjoint (lines b) := List.disjoint_symm (h b List.mem_cons_self)
    have htail := ih fun c hc => h c (List.mem_cons_of_mem _ hc)
    exact .head (.swap [] (xs ++ ys) hab) (htail.cons b)

/-- What comes first along all its lines can be found behind elements that share none of them. -/
theorem exists_eq_append_of_along_eq (ha : lines a ≠ [])
    (h : ∀ l, along lines l (a :: xs) = along lines l ys) :
    ∃ ys₁ ys₂, ys = ys₁ ++ a :: ys₂ ∧ (∀ b ∈ ys₁, (lines b).Disjoint (lines a)) ∧
      ∀ l, along lines l xs = along lines l (ys₁ ++ ys₂) := by
  have hfirst : ∀ l ∈ lines a, ∃ rest, along lines l ys = a :: rest := fun l hl =>
    ⟨_, (h l).symm.trans (along_cons_of_mem hl xs)⟩
  obtain ⟨ys₁, ys₂, rfl, hdisj⟩ : ∃ ys₁ ys₂, ys = ys₁ ++ a :: ys₂ ∧
      ∀ b ∈ ys₁, (lines b).Disjoint (lines a) := by
    clear h
    induction ys with
    | nil =>
      obtain ⟨l, hl⟩ := List.exists_mem_of_ne_nil _ ha
      obtain ⟨rest, hrest⟩ := hfirst l hl
      cases hrest
    | cons b ys ih =>
      by_cases hshare : ∃ l ∈ lines a, l ∈ lines b
      · obtain ⟨l, hla, hlb⟩ := hshare
        obtain ⟨rest, hrest⟩ := hfirst l hla
        rw [along_cons_of_mem hlb] at hrest
        obtain rfl := (List.cons.inj hrest).1
        exact ⟨[], ys, rfl, by simp⟩
      · have hdisj : (lines b).Disjoint (lines a) := fun l hlb hla => hshare ⟨l, hla, hlb⟩
        obtain ⟨ys₁, ys₂, rfl, hrest⟩ := ih fun l hl => by
          obtain ⟨rest, hrest⟩ := hfirst l hl
          exact ⟨rest, by rwa [along_cons_of_notMem fun hlb => hdisj hlb hl] at hrest⟩
        exact ⟨b :: ys₁, ys₂, rfl, List.forall_mem_cons.2 ⟨hdisj, hrest⟩⟩
  refine ⟨ys₁, ys₂, rfl, hdisj, fun l => ?_⟩
  have hl := h l
  rw [along_append] at hl ⊢
  by_cases hmem : l ∈ lines a
  · have hnil : along lines l ys₁ = [] := along_eq_nil fun b hb hlb => hdisj b hb hlb hmem
    rw [along_cons_of_mem hmem, along_cons_of_mem hmem, hnil, List.nil_append] at hl
    rw [hnil, List.nil_append]
    exact (List.cons.inj hl).2
  · rwa [along_cons_of_notMem hmem, along_cons_of_notMem hmem] at hl

theorem eq_nil_of_along_eq_nil (hys : ∀ b ∈ ys, lines b ≠ []) (h : ∀ l, along lines l ys = []) :
    ys = [] := by
  cases ys with
  | nil => rfl
  | cons b ys =>
    obtain ⟨l, hl⟩ := List.exists_mem_of_ne_nil _ (hys b List.mem_cons_self)
    have := h l
    rw [along_cons_of_mem hl] at this
    cases this

/-- **Lists can be turned into each other exactly when they agree along every line.** -/
theorem interchangeable_iff_along_eq (hxs : ∀ a ∈ xs, lines a ≠ []) (hys : ∀ b ∈ ys, lines b ≠ []) :
    Interchangeable lines xs ys ↔ ∀ l, along lines l xs = along lines l ys := by
  refine ⟨Interchangeable.along_eq, fun h => ?_⟩
  induction xs generalizing ys with
  | nil => rw [eq_nil_of_along_eq_nil hys fun l => (h l).symm]; exact .refl
  | cons a xs ih =>
    obtain ⟨hne, hxs⟩ := List.forall_mem_cons.1 hxs
    obtain ⟨ys₁, ys₂, rfl, hdisj, hrest⟩ := exists_eq_append_of_along_eq hne h
    have hys' : ∀ b ∈ ys₁ ++ ys₂, lines b ≠ [] := fun b hb => hys b (by
      rcases List.mem_append.1 hb with hb | hb <;> simp [hb])
    exact ((ih hxs hys' hrest).cons a).trans (interchangeable_cons_append hdisj ys₂)

/-! ## The distinguished list -/

def lowestLine (lines : α → List Line) (a : α) : Line := (lines a).min?.getD 0

theorem lowestLine_mem (h : lines a ≠ []) : lowestLine lines a ∈ lines a := by
  cases hm : (lines a).min? with
  | none => exact absurd (List.min?_eq_none_iff.1 hm) h
  | some l => rw [lowestLine, hm]; exact List.min?_mem hm

/-- No element can be moved to the place of one with a higher lowest line. -/
def LeastFirst (lines : α → List Line) (xs : List α) : Prop :=
  ∀ before a between b after, xs = before ++ a :: (between ++ b :: after) →
    (∀ c ∈ a :: between, (lines c).Disjoint (lines b)) → lowestLine lines a ≤ lowestLine lines b

theorem LeastFirst.tail (h : LeastFirst lines (a :: xs)) : LeastFirst lines xs :=
  fun before b between c after hxs => h (a :: before) b between c after (by rw [hxs]; rfl)

theorem LeastFirst.map {β : Type} {lines' : β → List Line} {f : α → β}
    (hf : ∀ a, lines' (f a) = lines a) (h : LeastFirst lines xs) :
    LeastFirst lines' (xs.map f) := by
  intro before a between b after hxs hdisj
  obtain ⟨before', xs₁, rfl, rfl, hxs₁⟩ := List.map_eq_append_iff.1 hxs
  obtain ⟨a', xs₂, rfl, rfl, hxs₂⟩ := List.map_eq_cons_iff.1 hxs₁
  obtain ⟨between', xs₃, rfl, rfl, hxs₃⟩ := List.map_eq_append_iff.1 hxs₂
  obtain ⟨b', after', rfl, rfl, -⟩ := List.map_eq_cons_iff.1 hxs₃
  have hlowest (c : α) : lowestLine lines' (f c) = lowestLine lines c := by
    rw [lowestLine, lowestLine, hf]
  rw [hlowest, hlowest]
  refine h before' a' between' b' after' rfl fun c hc => ?_
  rw [← hf, ← hf]
  exact hdisj (f c) (by rw [← List.map_cons]; exact List.mem_map_of_mem hc)

/-- The head of such a list comes before an element that it could change places with. -/
theorem LeastFirst.lowestLine_lt (h : LeastFirst lines (a :: xs)) (ha : lines a ≠ [])
    (hb : lines b ≠ []) {ys₁ ys₂ : List α} (hxs : a :: xs = ys₁ ++ b :: ys₂)
    (hdisj : ∀ c ∈ ys₁, (lines c).Disjoint (lines b)) (hab : (lines a).Disjoint (lines b)) :
    lowestLine lines a < lowestLine lines b := by
  cases ys₁ with
  | nil =>
    obtain rfl := (List.cons.inj hxs).1
    exact absurd (lowestLine_mem ha) fun hl => hab hl hl
  | cons c ys₁ =>
    obtain ⟨rfl, hxs⟩ := List.cons.inj hxs
    have hle := h [] a ys₁ b ys₂ (by rw [hxs]; rfl) hdisj
    refine Nat.lt_of_le_of_ne hle fun heq => ?_
    exact hab (lowestLine_mem ha) (heq ▸ lowestLine_mem hb)

/-- **There is only one such list** among those that agree along all lines. -/
theorem LeastFirst.eq_of_along_eq (hx : LeastFirst lines xs) (hy : LeastFirst lines ys)
    (hxs : ∀ a ∈ xs, lines a ≠ []) (hys : ∀ b ∈ ys, lines b ≠ [])
    (h : ∀ l, along lines l xs = along lines l ys) : xs = ys := by
  induction xs generalizing ys with
  | nil => exact (eq_nil_of_along_eq_nil hys fun l => (h l).symm).symm
  | cons a xs ih =>
    have ha := hxs a List.mem_cons_self
    obtain ⟨ys₁, ys₂, rfl, hdisj, hrest⟩ := exists_eq_append_of_along_eq ha h
    cases ys₁ with
    | nil =>
      rw [ih hx.tail hy.tail (fun c hc => hxs c (List.mem_cons_of_mem _ hc))
        (fun c hc => hys c (List.mem_cons_of_mem _ hc)) hrest]
      rfl
    | cons b ys₁ =>
      -- each head could be moved before the other
      have hb := hys b List.mem_cons_self
      have hba := hdisj b List.mem_cons_self
      obtain ⟨zs₁, zs₂, hzs, hdisj', -⟩ := exists_eq_append_of_along_eq hb fun l => (h l).symm
      have hlt := hx.lowestLine_lt ha hb hzs hdisj' (List.disjoint_symm hba)
      have hgt := hy.lowestLine_lt hb ha (List.cons_append ..) hdisj hba
      exact absurd hlt (Nat.lt_asymm hgt)

end QuantumWiring

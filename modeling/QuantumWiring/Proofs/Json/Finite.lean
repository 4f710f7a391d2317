import QuantumWiring.Proofs.Json.Restoring

/-!
# Documents with finite numbers

A number of a document can be beyond the finite ones only in a value made at hand.  What a decoder
takes from a document without such numbers has none either, wherever it comes from: `Yields` lifts
a property of what is decoded through lists, refinements and records.
-/

namespace QuantumWiring.Json

def Number.IsFinite (n : Number) : Prop := n.toBinary64.isFinite

mutual

/-- No number of the document is infinite or a NaN. -/
def Document.IsFinite : Document → Prop
  | .number (some n) => n.IsFinite
  | .array ds => finiteItems ds
  | .object ds => finiteFields ds
  | _ => True

def finiteItems : List Document → Prop
  | [] => True
  | d :: ds => d.IsFinite ∧ finiteItems ds

def finiteFields : List (Option String × Document) → Prop
  | [] => True
  | (_, d) :: ds => d.IsFinite ∧ finiteFields ds

end

theorem finiteItems_iff {ds : List Document} : finiteItems ds ↔ ∀ d ∈ ds, d.IsFinite := by
  induction ds with
  | nil => simp [finiteItems]
  | cons d ds ih => simp [finiteItems, ih]

theorem finiteFields_iff {ds : List (Option String × Document)} :
    finiteFields ds ↔ ∀ p ∈ ds, p.2.IsFinite := by
  induction ds with
  | nil => simp [finiteFields]
  | cons p ds ih => simp [finiteFields, ih]

/-- Whatever is decoded from a document with finite numbers has the property. -/
def Decoder.Yields {α : Type} (decode : Decoder α) (P : α → Prop) : Prop :=
  ∀ (origin : Origin) (d : Document) (a : α), d.IsFinite → decode origin d = .ok a → P a

namespace Decoder.Yields

variable {α β : Type} {decode : Decoder α} {P : α → Prop}

theorem anything (decode : Decoder α) : decode.Yields fun _ => True := fun _ _ _ _ _ => trivial

theorem real : Decoder.real.Yields fun x => x.isFinite := by
  intro origin d x hd h
  unfold Decoder.real at h
  split at h
  · obtain rfl := Except.ok.inj h
    exact hd
  · cases h

theorem refine (hdecode : decode.Yields P) {check : α → Except String β} {Q : β → Prop}
    (hcheck : ∀ a b, P a → check a = .ok b → Q b) : (decode.refine check).Yields Q := by
  intro origin d b hd h
  obtain ⟨a, ha, hb⟩ := bind_eq_ok_iff.1 h
  split at hb
  · next c hc =>
    obtain rfl := Except.ok.inj hb
    exact hcheck a c (hdecode origin d a hd ha) hc
  · cases hb

theorem items {decode : Document → Except Problem α} {ds : List Document} {as : List α}
    (hds : ∀ d ∈ ds, ∀ a, decode d = .ok a → P a) (h : Decoder.items decode ds = .ok as) :
    ∀ a ∈ as, P a := by
  induction ds generalizing as with
  | nil =>
    obtain rfl := Except.ok.inj h
    simp
  | cons d ds ih =>
    obtain ⟨a, ha, h⟩ := bind_eq_ok_iff.1 h
    obtain ⟨as, has, h⟩ := bind_eq_ok_iff.1 h
    obtain rfl := Except.ok.inj h
    obtain ⟨hd, hds⟩ := List.forall_mem_cons.1 hds
    exact List.forall_mem_cons.2 ⟨hd a ha, ih hds has⟩

theorem list (hdecode : decode.Yields P) : (Decoder.list decode).Yields fun as => ∀ a ∈ as, P a := by
  intro origin d as hd h
  unfold Decoder.list at h
  split at h
  · obtain ⟨inside, -, h⟩ := bind_eq_ok_iff.1 h
    exact items (fun d hmem a ha => hdecode inside d a (finiteItems_iff.1 hd d hmem) ha) h
  · cases h

end Decoder.Yields

namespace Fields

variable {ρ α : Type} {origin : Origin} {other : Document → Except Problem Unit}

/-- A document under another name goes to the rest of the record. -/
theorem acceptAll_cons_of_ne {field : Field α} {rest : Fields ρ} {name : String} {d : Document}
    {ds : List (Option String × Document)} {slot : Option α} {slots : rest.Slots}
    {all : (Fields.cons field rest).Slots} (hname : name ≠ field.name)
    (h : (Fields.cons field rest).acceptAll origin other ((some name, d) :: ds) (push slot slots) =
      .ok all) :
    ∃ slots₁, (Fields.cons field rest).acceptAll origin other ds (push slot slots₁) = .ok all ∧
      ∀ ds', rest.acceptAll origin other ((some name, d) :: ds') slots =
        rest.acceptAll origin other ds' slots₁ := by
  simp only [acceptAll, accept?_of_ne hname] at h
  cases hr : rest.accept? origin name d slots with
  | none =>
    simp only [hr, Option.map_none] at h
    obtain ⟨_, hother, h⟩ := bind_eq_ok_iff.1 h
    refine ⟨slots, h, fun ds' => ?_⟩
    simp only [acceptAll, hr, hother]
    rfl
  | some r =>
    simp only [hr, Option.map_some] at h
    cases r with
    | error e => cases h
    | ok slots₁ =>
      refine ⟨slots₁, h, fun ds' => ?_⟩
      simp only [acceptAll, hr]
      rfl

/-- A document under the field's own name is decoded by the field, which has to be empty. -/
theorem acceptAll_cons_self {field : Field α} {rest : Fields ρ} {d : Document}
    {ds : List (Option String × Document)} {slot : Option α} {slots : rest.Slots}
    {all : (Fields.cons field rest).Slots}
    (h : (Fields.cons field rest).acceptAll origin other ((some field.name, d) :: ds)
      (push slot slots) = .ok all) :
    ∃ a, field.decode origin d = .ok a ∧
      (Fields.cons field rest).acceptAll origin other ds (push (some a) slots) = .ok all := by
  cases slot with
  | some a =>
    simp only [acceptAll, accept?_self_some] at h
    cases h
  | none =>
    simp only [acceptAll, accept?_self] at h
    obtain ⟨filled, hfilled, h⟩ := bind_eq_ok_iff.1 h
    cases hd : field.decode origin d with
    | error e =>
      rw [hd] at hfilled
      cases hfilled
    | ok a =>
      rw [hd] at hfilled
      obtain rfl := Except.ok.inj hfilled
      exact ⟨a, rfl, h⟩

/-- The first field of a record is decoded from one of the documents, if it is there, and the rest
of the record from others of them. -/
theorem exists_of_acceptAll_cons {field : Field α} {rest : Fields ρ}
    {ds : List (Option String × Document)} {slot : Option α} {slots : rest.Slots}
    {all : (Fields.cons field rest).Slots}
    (h : (Fields.cons field rest).acceptAll origin other ds (push slot slots) = .ok all) :
    ∃ slot' slots' ds', all = push slot' slots' ∧
      (slot' = slot ∨ ∃ p ∈ ds, ∃ a, field.decode origin p.2 = .ok a ∧ slot' = some a) ∧
      (∀ p ∈ ds', p ∈ ds) ∧ rest.acceptAll origin other ds' slots = .ok slots' := by
  induction ds generalizing slot slots with
  | nil => exact ⟨slot, slots, [], (Except.ok.inj h).symm, .inl rfl, by simp, rfl⟩
  | cons p ds ih =>
    obtain ⟨name, d⟩ := p
    cases name with
    | none => cases h
    | some name =>
      by_cases hname : name = field.name
      · subst hname
        obtain ⟨a, hd, h⟩ := acceptAll_cons_self h
        obtain ⟨slot', slots', ds', rfl, hslot, hsub, hrest⟩ := ih h
        refine ⟨slot', slots', ds', rfl, .inr ?_, fun p hp => List.mem_cons_of_mem _ (hsub p hp),
          hrest⟩
        rcases hslot with rfl | ⟨p, hp, hslot⟩
        · exact ⟨_, List.mem_cons_self, a, hd, rfl⟩
        · exact ⟨p, List.mem_cons_of_mem _ hp, hslot⟩
      · obtain ⟨slots₁, h, hfirst⟩ := acceptAll_cons_of_ne hname h
        obtain ⟨slot', slots', ds', rfl, hslot, hsub, hrest⟩ := ih h
        refine ⟨slot', slots', (some name, d) :: ds', rfl, ?_, fun p hp => ?_,
          (hfirst ds').trans hrest⟩
        · rcases hslot with hslot | ⟨p, hp, hslot⟩
          · exact .inl hslot
          · exact .inr ⟨p, List.mem_cons_of_mem _ hp, hslot⟩
        · rcases List.mem_cons.1 hp with rfl | hp
          · exact List.mem_cons_self
          · exact List.mem_cons_of_mem _ (hsub p hp)

/-- What is decoded for each field has the property, and so has what stands for one left out. -/
inductive Yields : {ρ : Type} → Fields ρ → (ρ → Prop) → Prop
  | nil : Yields .nil fun _ => True
  | cons {α ρ : Type} {field : Field α} {rest : Fields ρ} {P : α → Prop} {Q : ρ → Prop}
    (hdecode : field.decode.Yields P) (hdefault : ∀ a, field.absence.default? = some a → P a)
    (hrest : Yields rest Q) : Yields (.cons field rest) fun r => P r.1 ∧ Q r.2

theorem exists_of_finish_cons {field : Field α} {rest : Fields ρ} {slot : Option α}
    {slots : rest.Slots} {r : α × ρ}
    (h : (Fields.cons field rest).finish (push slot slots) = .ok r) :
    (slot = some r.1 ∨ field.absence.default? = some r.1) ∧ rest.finish slots = .ok r.2 := by
  rw [finish_push] at h
  split at h
  · next a ha =>
    obtain ⟨r', hr', h⟩ := bind_eq_ok_iff.1 h
    obtain rfl := Except.ok.inj h
    exact ⟨Option.or_eq_some_iff.1 ha |>.imp_right And.right, hr'⟩
  · cases h

theorem Yields.acceptAll {fs : Fields ρ} {P : ρ → Prop} (h : fs.Yields P)
    {ds : List (Option String × Document)} (hds : ∀ p ∈ ds, p.2.IsFinite) {slots : fs.Slots}
    (hslots : fs.acceptAll origin other ds fs.empty = .ok slots) {r : ρ}
    (hr : fs.finish slots = .ok r) : P r := by
  induction h generalizing ds with
  | nil => trivial
  | @cons α ρ field rest P Q hdecode hdefault _ ih =>
    obtain ⟨slot, others, ds', rfl, hslot, hsub, hrest⟩ := exists_of_acceptAll_cons hslots
    obtain ⟨hfirst, hr⟩ := exists_of_finish_cons hr
    refine ⟨?_, ih (fun p hp => hds p (hsub p hp)) hrest hr⟩
    rcases hfirst with hfirst | hfirst
    · rcases hslot with rfl | ⟨p, hp, a, ha, rfl⟩
      · cases hfirst
      · obtain rfl := Option.some.inj hfirst
        exact hdecode origin p.2 _ (hds p hp) ha
    · exact hdefault _ hfirst

theorem Yields.ofItems {fs : Fields ρ} {P : ρ → Prop} (h : fs.Yields P) {expected : String}
    {position : Nat} {ds rest : List Document} (hds : ∀ d ∈ ds, d.IsFinite) {r : ρ}
    (hr : fs.ofItems origin expected position ds = .ok (r, rest)) : P r := by
  induction h generalizing ds position with
  | nil => trivial
  | @cons α ρ field fs P Q hdecode hdefault _ ih =>
    cases ds with
    | nil =>
      obtain ⟨name, decode, absence⟩ := field
      cases absence with
      | required | inObject => cases hr
      | anywhere a =>
        obtain ⟨_, ha, hr⟩ := bind_eq_ok_iff.1 hr
        obtain rfl := Except.ok.inj ha
        obtain ⟨⟨r', rest'⟩, hr', hr⟩ := bind_eq_ok_iff.1 hr
        obtain ⟨rfl, rfl⟩ := Prod.mk.inj (Except.ok.inj hr)
        exact ⟨hdefault a rfl, ih (by simp) hr'⟩
    | cons d ds =>
      obtain ⟨a, ha, hr⟩ := bind_eq_ok_iff.1 hr
      obtain ⟨⟨r', rest'⟩, hr', hr⟩ := bind_eq_ok_iff.1 hr
      obtain ⟨rfl, rfl⟩ := Prod.mk.inj (Except.ok.inj hr)
      obtain ⟨hd, hds⟩ := List.forall_mem_cons.1 hds
      exact ⟨hdecode origin d a hd ha, ih hds hr'⟩

end Fields

theorem Decoder.Yields.record {ρ α : Type} {fs : Fields ρ} {P : ρ → Prop} (h : fs.Yields P)
    (name : String) {build : ρ → α} {Q : α → Prop} (hbuild : ∀ r, P r → Q (build r)) :
    (Decoder.record name fs build).Yields Q := by
  intro origin d a hd ha
  unfold Decoder.record at ha
  split at ha
  · obtain ⟨inside, -, ha⟩ := bind_eq_ok_iff.1 ha
    obtain ⟨⟨r, rest⟩, hr, ha⟩ := bind_eq_ok_iff.1 ha
    simp only at ha
    split at ha
    · obtain rfl := Except.ok.inj ha
      exact hbuild r (h.ofItems (finiteItems_iff.1 hd) hr)
    · cases ha
  · obtain ⟨r, hr, ha⟩ := bind_eq_ok_iff.1 ha
    obtain rfl := Except.ok.inj ha
    unfold object at hr
    split at hr
    · obtain ⟨inside, -, hr⟩ := bind_eq_ok_iff.1 hr
      obtain ⟨slots, hslots, hr⟩ := bind_eq_ok_iff.1 hr
      exact hbuild r (h.acceptAll (finiteFields_iff.1 hd) hslots hr)
    · cases hr

end QuantumWiring.Json

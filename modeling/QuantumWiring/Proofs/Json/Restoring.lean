import QuantumWiring.Json.Record
import QuantumWiring.Proofs.Failure
import QuantumWiring.Proofs.Json.Writing

/-!
# Records are restored

The fields of a record are accepted one by one, in whatever order they arrive.  Taking one field
out of a record takes its document out of the object and leaves the rest alone
(`acceptAll_of_notMem`, `acceptAll_of_mem`), so an object that holds what was written of each field
is the record again, whatever fields of other names stand between them (`acceptAll_of_written`).
-/

namespace QuantumWiring.Json

/-- What a field has that is left out of an object. -/
def Absence.default? {α : Type} : Absence α → Option α
  | .required => none
  | .inObject a | .anywhere a => some a

namespace Fields

variable {ρ α : Type} {origin : Origin} {other : Document → Except Problem Unit}

def names : {ρ : Type} → Fields ρ → List String
  | _, .nil => []
  | _, .cons field rest => field.name :: rest.names

/-- The slots of a record from that of its first field and those of the rest. -/
def push {field : Field α} {rest : Fields ρ} (slot : Option α) (slots : rest.Slots) :
    (Fields.cons field rest).Slots := (slot, slots)

theorem accept?_self {field : Field α} {rest : Fields ρ} (d : Document) (slots : rest.Slots) :
    (Fields.cons field rest).accept? origin field.name d (push none slots) =
      some ((field.decode origin d).map fun a => push (some a) slots) := by
  show (if field.name = field.name then _ else _) = _
  rw [if_pos rfl]
  rfl

theorem accept?_self_some {field : Field α} {rest : Fields ρ} (d : Document) (a : α)
    (slots : rest.Slots) :
    (Fields.cons field rest).accept? origin field.name d (push (some a) slots) =
      some (.error (.duplicateField field.name)) := by
  show (if field.name = field.name then _ else _) = _
  rw [if_pos rfl]
  rfl

theorem accept?_of_ne {field : Field α} {rest : Fields ρ} {name : String}
    (h : name ≠ field.name) (d : Document) (slot : Option α) (slots : rest.Slots) :
    (Fields.cons field rest).accept? origin name d (push slot slots) =
      (rest.accept? origin name d slots).map fun r => r.map (push slot) := by
  show (if name = field.name then _ else _) = _
  rw [if_neg h]
  rfl

/-- The record has what was decoded of a field, or else what stands for it when it is left out. -/
theorem finish_push (field : Field α) (rest : Fields ρ) (slot : Option α) (slots : rest.Slots) :
    (Fields.cons field rest).finish (push slot slots) =
      match slot.or field.absence.default? with
      | some a => rest.finish slots >>= fun r => .ok (a, r)
      | none => .error (.missingField field.name) := by
  obtain ⟨name, decode, absence⟩ := field
  cases slot <;> cases absence <;> rfl

theorem acceptAll_append (fs : Fields ρ) (ds ds' : List (Option String × Document))
    (slots : fs.Slots) : fs.acceptAll origin other (ds ++ ds') slots =
      (fs.acceptAll origin other ds slots >>= fs.acceptAll origin other ds') := by
  induction ds generalizing slots with
  | nil => rfl
  | cons p ds ih =>
    obtain ⟨name, d⟩ := p
    cases name with
    | none => rfl
    | some name =>
      simp only [List.cons_append, acceptAll]
      cases fs.accept? origin name d slots with
      | none => simp only [bind_assoc, ih]
      | some r => simp only [bind_assoc, ih]

/-- Documents under other names do not reach a field. -/
theorem acceptAll_of_notMem {field : Field α} {rest : Fields ρ}
    {ds : List (Option String × Document)} (h : some field.name ∉ ds.map (·.1)) (slot : Option α)
    (slots : rest.Slots) : (Fields.cons field rest).acceptAll origin other ds (push slot slots) =
      (rest.acceptAll origin other ds slots).map (push slot) := by
  induction ds generalizing slots with
  | nil => rfl
  | cons p ds ih =>
    obtain ⟨name, d⟩ := p
    rw [List.map_cons, List.mem_cons, not_or] at h
    cases name with
    | none => rfl
    | some name =>
      have hne : name ≠ field.name := fun heq => h.1 (heq ▸ rfl)
      simp only [acceptAll, accept?_of_ne hne]
      cases rest.accept? origin name d slots with
      | none =>
        simp only [Option.map_none, ih h.2]
        cases other d <;> rfl
      | some r =>
        cases r with
        | error e => rfl
        | ok slots => exact ih h.2 slots

/-- The document of a field is decoded where it stands. -/
theorem acceptAll_of_mem {field : Field α} {rest : Fields ρ} {d : Document} {a : α}
    {before after : List (Option String × Document)} {slots slots' : rest.Slots}
    (hbefore : some field.name ∉ before.map (·.1)) (hafter : some field.name ∉ after.map (·.1))
    (hd : field.decode origin d = .ok a)
    (hrest : rest.acceptAll origin other (before ++ after) slots = .ok slots') :
    (Fields.cons field rest).acceptAll origin other (before ++ (some field.name, d) :: after)
      (push none slots) = .ok (push (some a) slots') := by
  rw [acceptAll_append, bind_eq_ok_iff] at hrest
  obtain ⟨middle, hmiddle, hlast⟩ := hrest
  rw [acceptAll_append, acceptAll_of_notMem hbefore, hmiddle]
  show (Fields.cons field rest).acceptAll origin other ((some field.name, d) :: after)
    (push none middle) = _
  simp only [acceptAll, accept?_self, hd]
  show (Fields.cons field rest).acceptAll origin other after (push (some a) middle) = _
  rw [acceptAll_of_notMem hafter, hlast]
  rfl

/-! ## Written fields -/

/-- The fields of an object hold what a record has, in declaration order, each field with a value
that its decoder restores or left out where it may be. -/
inductive Written (depth : Nat) :
    {ρ : Type} → Fields ρ → ρ → List (String × Value) → Prop
  | nil : Written depth .nil () []
  | field {α ρ : Type} {field : Field α} {rest : Fields ρ} {a : α} {r : ρ} {v : Value}
    {fields : List (String × Value)} (h : field.decode.Restores depth v a)
    (hrest : Written depth rest r fields) :
    Written depth (.cons field rest) (a, r) ((field.name, v) :: fields)
  | absent {α ρ : Type} {field : Field α} {rest : Fields ρ} {a : α} {r : ρ}
    {fields : List (String × Value)} (h : field.absence.default? = some a)
    (hrest : Written depth rest r fields) : Written depth (.cons field rest) (a, r) fields

theorem Written.names_subset {depth : Nat} {fs : Fields ρ} {r : ρ}
    {fields : List (String × Value)} (h : fs.Written depth r fields) :
    ∀ p ∈ fields, p.1 ∈ fs.names := by
  induction h with
  | nil => exact fun p hp => by cases hp
  | field _ _ ih =>
    intro p hp
    rcases List.mem_cons.1 hp with rfl | hp
    · exact List.mem_cons_self
    · exact List.mem_cons_of_mem _ (ih p hp)
  | absent _ _ ih => exact fun p hp => List.mem_cons_of_mem _ (ih p hp)

/-- Documents that no field is named for leave nothing behind. -/
theorem acceptAll_nil {ds : List (Option String × Document)}
    (h : ∀ p ∈ ds, p.1.isSome ∧ other p.2 = .ok ()) :
    Fields.nil.acceptAll origin other ds () = .ok () := by
  induction ds with
  | nil => rfl
  | cons p ds ih =>
    obtain ⟨name, d⟩ := p
    obtain ⟨⟨hname, hother⟩, hrest⟩ := List.forall_mem_cons.1 h
    obtain ⟨name, rfl⟩ := Option.isSome_iff_exists.1 hname
    simp only [acceptAll, accept?, hother]
    exact ih hrest

/-- The name of a first field does not stand among what is known of the rest. -/
theorem Written.notMem_map_fst {depth : Nat} {rest : Fields ρ} {r : ρ}
    {fields : List (String × Value)} (h : rest.Written depth r fields) {name : String}
    (hname : name ∉ rest.names) {ds known extra : List (Option String × Document)}
    (hknown : WritesFields known fields) (hextra : ∀ p ∈ extra, p.1 ≠ some name)
    (hperm : ds.Perm (known ++ extra)) : some name ∉ ds.map (·.1) := by
  rw [(hperm.map (·.1)).mem_iff, List.map_append, hknown.map_fst]
  intro hmem
  rcases List.mem_append.1 hmem with hmem | hmem
  · obtain ⟨p, hp, heq⟩ := List.mem_map.1 hmem
    exact hname (Option.some.inj heq ▸ h.names_subset p hp)
  · obtain ⟨p, hp, heq⟩ := List.mem_map.1 hmem
    exact hextra p hp heq

/-- **What was written of a record is the record again**, in whatever order its fields arrive and
whatever others stand between them. -/
theorem acceptAll_of_written {depth : Nat} {fs : Fields ρ} {r : ρ} {fields : List (String × Value)}
    (h : fs.Written depth r fields) (hnames : fs.names.Nodup) (hallows : origin.Allows depth)
    {ds known extra : List (Option String × Document)} (hknown : WritesFields known fields)
    (hextra : ∀ p ∈ extra, (p.1.isSome ∧ other p.2 = .ok ()) ∧ ∀ name ∈ fs.names, p.1 ≠ some name)
    (hperm : ds.Perm (known ++ extra)) :
    ∃ slots, fs.acceptAll origin other ds fs.empty = .ok slots ∧ fs.finish slots = .ok r := by
  induction h generalizing ds known with
  | nil =>
    cases hknown
    refine ⟨(), acceptAll_nil fun p hp => ?_, rfl⟩
    exact (hextra p (hperm.mem_iff.1 hp)).1
  | @field α ρ field rest a r v fields hdecode hrest ih =>
    obtain ⟨hfield, hnames⟩ := List.nodup_cons.1 hnames
    cases hknown with
    | @cons d _ known _ _ hd hknown =>
      obtain ⟨before, after, rfl⟩ :=
        List.append_of_mem (hperm.mem_iff.2 (List.mem_append_left _ List.mem_cons_self))
      have hothers : (before ++ after).Perm (known ++ extra) :=
        (List.perm_middle.symm.trans hperm).cons_inv
      have hnot := hrest.notMem_map_fst hfield hknown
        (fun p hp => (hextra p hp).2 field.name List.mem_cons_self) hothers
      rw [List.map_append, List.mem_append, not_or] at hnot
      obtain ⟨slots, hslots, hfinish⟩ := ih hnames hknown
        (fun p hp => ⟨(hextra p hp).1, fun name hname =>
          (hextra p hp).2 name (List.mem_cons_of_mem _ hname)⟩) hothers
      refine ⟨push (some a) slots,
        acceptAll_of_mem hnot.1 hnot.2 (hdecode origin d hallows hd) hslots, ?_⟩
      rw [finish_push, Option.some_or]
      simp only [hfinish, bind, Except.bind]
  | @absent α ρ field rest a r fields hdefault hrest ih =>
    obtain ⟨hfield, hnames⟩ := List.nodup_cons.1 hnames
    have hnot := hrest.notMem_map_fst hfield hknown
      (fun p hp => (hextra p hp).2 field.name List.mem_cons_self) hperm
    obtain ⟨slots, hslots, hfinish⟩ := ih hnames hknown
      (fun p hp => ⟨(hextra p hp).1, fun name hname =>
        (hextra p hp).2 name (List.mem_cons_of_mem _ hname)⟩) hperm
    refine ⟨push none slots, ?_, ?_⟩
    · show (Fields.cons field rest).acceptAll origin other ds (push none rest.empty) = _
      rw [acceptAll_of_notMem hnot, hslots]
      rfl
    · rw [finish_push, Option.none_or, hdefault]
      simp only [hfinish, bind, Except.bind]

end Fields

namespace Decoder

variable {ρ α : Type} {depth : Nat} {fs : Fields ρ} {r : ρ} {fields : List (String × Value)}

/-- An object that holds what was written of a record, and others that may be passed over. -/
theorem object_eq_ok (h : fs.Written depth r fields) (hnames : fs.names.Nodup) (name : String)
    {other : Decoder Unit} {origin inside : Origin} (henter : origin.enter = .ok inside)
    (hinside : inside.Allows depth) {ds known extra : List (Option String × Document)}
    (hknown : WritesFields known fields) (hperm : ds.Perm (known ++ extra))
    (hextra : ∀ p ∈ extra,
      (p.1.isSome ∧ other inside p.2 = .ok ()) ∧ ∀ name ∈ fs.names, p.1 ≠ some name) :
    object name other fs origin (.object ds) = .ok r := by
  obtain ⟨slots, hslots, hfinish⟩ :=
    Fields.acceptAll_of_written h hnames hinside hknown hextra hperm
  simp only [object, henter, bind, Except.bind, hslots, hfinish]

theorem restores_object (h : fs.Written depth r fields) (hnames : fs.names.Nodup) (name : String)
    (other : Decoder Unit) : (object name other fs).Restores (depth + 1) (.object fields) r := by
  intro origin d hallows hd
  obtain ⟨inside, henter, hinside⟩ := hallows.enter
  cases hd with
  | @object ds known _ hperm hknown =>
    have hperm : ds.Perm (known ++ []) := by rwa [List.append_nil]
    exact object_eq_ok h hnames name henter hinside hknown hperm (by simp)

/-- **A record is restored** from an object that holds what was written of its fields. -/
theorem restores_record (h : fs.Written depth r fields) (hnames : fs.names.Nodup) (name : String)
    (build : ρ → α) : (record name fs build).Restores (depth + 1) (.object fields) (build r) := by
  intro origin d hallows hd
  have hobject := restores_object h hnames name (fun _ => skip) origin d hallows hd
  cases hd
  simp only [record, hobject, bind, Except.bind]

end Decoder

end QuantumWiring.Json

import QuantumWiring.Json.Decoder

/-!
# Documents that are written for a value

A value may be handed on as it is or written to a text and read again.  `Writes` says which
documents can arrive: the same tree, but the fields of an object in any order, and null where a
number is not finite.  `Decoder.Restores` says that a decoder makes one result of all of them.
-/

namespace QuantumWiring.Json

mutual

/-- The document may arrive where the value was sent. -/
inductive Writes : Document → Value → Prop
  | null : Writes .null .null
  | bool (b : Bool) : Writes (.bool b) (.bool b)
  | number (n : Number) : Writes (.number (some n)) (.number n)
  | notFinite {x : Binary64} (h : x.isFinite = false) : Writes .null (.number (.real x))
  | string (s : String) : Writes (.string (some s)) (.string s)
  | array {ds : List Document} {vs : List Value} (h : WritesItems ds vs) :
    Writes (.array ds) (.array vs)
  | object {ds ds' : List (Option String × Document)} {fields : List (String × Value)}
    (hperm : ds.Perm ds') (h : WritesFields ds' fields) : Writes (.object ds) (.object fields)

inductive WritesItems : List Document → List Value → Prop
  | nil : WritesItems [] []
  | cons {d : Document} {v : Value} {ds : List Document} {vs : List Value} (h : Writes d v)
    (hrest : WritesItems ds vs) : WritesItems (d :: ds) (v :: vs)

inductive WritesFields : List (Option String × Document) → List (String × Value) → Prop
  | nil : WritesFields [] []
  | cons {d : Document} {v : Value} {ds : List (Option String × Document)}
    {fields : List (String × Value)} (name : String) (h : Writes d v)
    (hrest : WritesFields ds fields) : WritesFields ((some name, d) :: ds) ((name, v) :: fields)

end

mutual

/-- A value at hand may be handed on as it is. -/
theorem writes_toDocument : (v : Value) → Writes v.toDocument v
  | .null => .null
  | .bool b => .bool b
  | .number n => .number n
  | .string s => .string s
  | .array items => .array (writesItems_toDocuments items)
  | .object fields => .object (.refl _) (writesFields_fieldDocuments fields)

theorem writesItems_toDocuments : (vs : List Value) → WritesItems (toDocuments vs) vs
  | [] => .nil
  | v :: vs => .cons (writes_toDocument v) (writesItems_toDocuments vs)

theorem writesFields_fieldDocuments :
    (fields : List (String × Value)) → WritesFields (fieldDocuments fields) fields
  | [] => .nil
  | (name, v) :: fields => .cons name (writes_toDocument v) (writesFields_fieldDocuments fields)

end

namespace WritesFields

theorem map_fst {ds : List (Option String × Document)} {fields : List (String × Value)}
    (h : WritesFields ds fields) : ds.map (·.1) = fields.map fun p => some p.1 := by
  induction fields generalizing ds with
  | nil =>
    cases h
    rfl
  | cons p fields ih =>
    cases h with
    | cons name _ hrest => rw [List.map_cons, List.map_cons, ih hrest]

theorem exists_append {ds : List (Option String × Document)} {fields more : List (String × Value)}
    (h : WritesFields ds (fields ++ more)) :
    ∃ ds₁ ds₂, ds = ds₁ ++ ds₂ ∧ WritesFields ds₁ fields ∧ WritesFields ds₂ more := by
  induction fields generalizing ds with
  | nil => exact ⟨[], ds, rfl, .nil, h⟩
  | cons p fields ih =>
    cases h with
    | cons name hd hrest =>
      obtain ⟨ds₁, ds₂, rfl, h₁, h₂⟩ := ih hrest
      exact ⟨_ :: ds₁, ds₂, rfl, .cons name hd h₁, h₂⟩

end WritesFields

/-! ## Origins -/

/-- Whether so many brackets may be opened inside each other. -/
def Origin.Allows (depth : Nat) : Origin → Prop
  | .value => True
  | .text room => depth ≤ room

theorem Origin.Allows.mono {depth depth' : Nat} {origin : Origin} (h : origin.Allows depth')
    (hle : depth ≤ depth') : origin.Allows depth := by
  cases origin with
  | value => trivial
  | text room => exact Nat.le_trans hle h

theorem Origin.Allows.enter {depth : Nat} {origin : Origin} (h : origin.Allows (depth + 1)) :
    ∃ inside, origin.enter = .ok inside ∧ inside.Allows depth := by
  cases origin with
  | value => exact ⟨.value, rfl, trivial⟩
  | text room =>
    cases room with
    | zero => exact absurd h (Nat.not_succ_le_zero depth)
    | succ room => exact ⟨.text room, rfl, Nat.le_of_succ_le_succ h⟩

/-! ## Decoders that restore -/

namespace Decoder

/-- Whatever arrives where the value was sent is decoded to `a`, as long as `depth` brackets may be
opened. -/
def Restores {α : Type} (decode : Decoder α) (depth : Nat) (v : Value) (a : α) : Prop :=
  ∀ (origin : Origin) (d : Document), origin.Allows depth → Writes d v → decode origin d = .ok a

variable {α β : Type} {decode : Decoder α} {depth : Nat} {v : Value} {a : α}

theorem Restores.ofValue (h : decode.Restores depth v a) : decode.ofValue v = .ok a :=
  h .value v.toDocument trivial (writes_toDocument v)

theorem Restores.mono (h : decode.Restores depth v a) {depth' : Nat} (hle : depth ≤ depth') :
    decode.Restores depth' v a :=
  fun origin d hallows hd => h origin d (hallows.mono hle) hd

theorem restores_string (s : String) : string.Restores 0 (.string s) s := by
  intro origin d _ hd
  cases hd
  rfl

theorem restores_bool (b : Bool) : bool.Restores 0 (.bool b) b := by
  intro origin d _ hd
  cases hd
  rfl

theorem restores_nat {limit n : Nat} (h : n < limit) (kind : String) :
    (nat limit kind).Restores 0 (.nat n) n := by
  intro origin d _ hd
  cases hd
  have hrange : 0 ≤ (n : Int) ∧ (n : Int) < limit := by omega
  exact if_pos hrange

theorem restores_byte (b : UInt8) : byte.Restores 0 (.nat b.toNat) b := by
  intro origin d hallows hd
  have hnat := restores_nat b.toNat_lt "u8" origin d hallows hd
  show ((nat UInt8.size "u8" origin d).map UInt8.ofNat) = .ok b
  rw [hnat]
  exact congrArg Except.ok (UInt8.ofNat_toNat)

/-- A number that is not finite may arrive as null, which is no number. -/
theorem restores_real {x : Binary64} (h : x.isFinite) : real.Restores 0 (.real x) x := by
  intro origin d _ hd
  cases hd with
  | number => rfl
  | notFinite hx =>
    rw [h] at hx
    cases hx

theorem Restores.optional_some (h : decode.Restores depth v a) (hnull : ¬ Writes .null v) :
    (optional decode).Restores depth v (some a) := by
  intro origin d hallows hd
  have hdecode := h origin d hallows hd
  unfold optional
  split
  · exact absurd hd hnull
  · rw [hdecode]
    rfl

theorem restores_optional_none (decode : Decoder α) :
    (optional decode).Restores depth .null none := by
  intro origin d _ hd
  cases hd
  rfl

/-- What may be absent, and is then written as null, is restored if what is there is. -/
theorem restores_optional {encode : α → Value} {o : Option α}
    (h : ∀ a ∈ o, decode.Restores depth (encode a) a) (hnull : ∀ a ∈ o, ¬ Writes .null (encode a)) :
    (optional decode).Restores depth (.ofOption encode o) o := by
  cases o with
  | none => exact restores_optional_none decode
  | some a => exact (h a rfl).optional_some (hnull a rfl)

theorem Restores.refine (h : decode.Restores depth v a) {check : α → Except String β} {b : β}
    (hcheck : check a = .ok b) : (decode.refine check).Restores depth v b := by
  intro origin d hallows hd
  unfold Decoder.refine
  rw [h origin d hallows hd]
  simp only [bind, Except.bind, hcheck]

/-! ## Lists -/

theorem items_eq_ok {decode : Document → Except Problem α} {encode : α → Value} {ds : List Document}
    {as : List α} (hds : WritesItems ds (as.map encode))
    (h : ∀ a ∈ as, ∀ d, Writes d (encode a) → decode d = .ok a) : items decode ds = .ok as := by
  induction as generalizing ds with
  | nil =>
    cases hds
    rfl
  | cons a as ih =>
    cases hds with
    | cons hd hrest =>
      have hhead := h a List.mem_cons_self _ hd
      have htail := ih hrest fun b hb => h b (List.mem_cons_of_mem _ hb)
      simp only [items, hhead, htail, bind, Except.bind]

theorem restores_list {encode : α → Value} {as : List α}
    (h : ∀ a ∈ as, decode.Restores depth (encode a) a) :
    (list decode).Restores (depth + 1) (.ofList encode as) as := by
  intro origin d hallows hd
  obtain ⟨inside, henter, hinside⟩ := hallows.enter
  cases hd with
  | array hds =>
    simp only [list, henter, bind, Except.bind]
    exact items_eq_ok hds fun a ha d hd => h a ha inside d hinside hd

/-! ## Named values -/

theorem restores_variant {table : List (String × α)} {name : String}
    (h : table.find? (·.1 = name) = some (name, a)) :
    (variant table).Restores 0 (.string name) a := by
  intro origin d _ hd
  cases hd
  unfold variant
  simp only [h]

/-! ## Any value -/

theorem valueItems_eq_items (origin : Origin) (ds : List Document) :
    valueItems origin ds = items (value origin) ds := by
  induction ds with
  | nil => rfl
  | cons d ds ih => simp only [valueItems, items, ih]

theorem restores_value_string (s : String) : value.Restores 0 (.string s) (.string s) := by
  intro origin d _ hd
  cases hd
  rfl

theorem restores_value_nat (n : Nat) : value.Restores 0 (.nat n) (.nat n) := by
  intro origin d _ hd
  cases hd
  rfl

theorem restores_value_list {encode : α → Value} {as : List α}
    (h : ∀ a ∈ as, value.Restores depth (encode a) (encode a)) :
    value.Restores (depth + 1) (.ofList encode as) (.ofList encode as) := by
  intro origin d hallows hd
  obtain ⟨inside, henter, hinside⟩ := hallows.enter
  cases hd with
  | @array ds _ hds =>
    have hds' : WritesItems ds ((as.map encode).map id) := by rwa [List.map_id]
    have hitems : items (value inside) ds = .ok (as.map encode) :=
      items_eq_ok hds' fun v hv d hd => by
        obtain ⟨a, ha, rfl⟩ := List.mem_map.1 hv
        exact h a ha inside d hinside hd
    simp only [value, henter, bind, Except.bind, valueItems_eq_items, hitems]
    rfl

/-- An object without fields is read as it is. -/
theorem restores_value_nil : value.Restores 1 (.object []) (.object []) := by
  intro origin d hallows hd
  obtain ⟨inside, henter, -⟩ := hallows.enter
  cases hd with
  | object hperm hds =>
    cases hds
    rw [hperm.eq_nil]
    simp only [value, henter, valueFields, bind, Except.bind]

/-- An object with one field is read as it is. -/
theorem Restores.value_singleton (h : value.Restores depth v v) (name : String) :
    value.Restores (depth + 1) (.object [(name, v)]) (.object [(name, v)]) := by
  intro origin d hallows hd
  obtain ⟨inside, henter, hinside⟩ := hallows.enter
  cases hd with
  | object hperm hds =>
    cases hds with
    | cons _ hd hrest =>
      cases hrest
      rw [hperm.eq_singleton]
      simp only [value, henter, valueFields, h inside _ hinside hd, insertField, bind, Except.bind]

end Decoder

end QuantumWiring.Json

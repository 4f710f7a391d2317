import QuantumWiring.Proofs.Json.Spelling
import QuantumWiring.Proofs.Json.Interchange

/-!
# Reading what was written

The tokens of a value are read as the document of the value, as long as its numbers are read as what
they are: a reader that awaits a value is, behind its tokens, where it is once the document is complete
(`readFrom_tokens`), whatever containers are open.  So a text that was written for a value holds its
document and nothing more, and what a decoder restores from the value it restores from the text
(`Decoder.Restores.ofText_pretty`).  A request has no other numbers than counts, and a graph none but
its coordinates.
-/

namespace QuantumWiring.Json

mutual

/-- The numbers of the value are read as what they are. -/
def Value.Rereads : Value → Prop
  | .number n => n.Rereads
  | .array items => rereadsItems items
  | .object fields => rereadsFields fields
  | _ => True

def rereadsItems : List Value → Prop
  | [] => True
  | v :: rest => v.Rereads ∧ rereadsItems rest

def rereadsFields : List (String × Value) → Prop
  | [] => True
  | (_, v) :: rest => v.Rereads ∧ rereadsFields rest

end

/-! ## Reading tokens -/

variable {stack : List Frame} {rest : List Token}

/-- The reading goes on behind a complete document. -/
def resume (d : Document) (stack : List Frame) (rest : List Token) : Reading :=
  match complete d stack with
  | .inl d => ⟨d, !rest.isEmpty⟩
  | .inr stack => readFrom .separator stack rest

theorem readFrom_leaf {t : Token} {d : Document} (h : t.leaf? = some d) :
    readFrom .value stack (t :: rest) = resume d stack rest := by
  cases t <;> cases h <;> cases stack <;> rfl

theorem readFrom_closeArray (ds : List Document) :
    readFrom .separator (.array ds :: stack) (.closeArray :: rest) =
      resume (.array ds.reverse) stack rest := by
  cases stack <;> rfl

theorem readFrom_closeObject (ds : List (Option String × Document)) (name : Option String) :
    readFrom .separator (.object ds name :: stack) (.closeObject :: rest) =
      resume (.object ds.reverse) stack rest := by
  cases stack <;> rfl

/-- Tokens with a comma in front of each group. -/
def commaTokens (tss : List (List Token)) : List Token := tss.flatMap (.comma :: ·)

theorem intercalate_cons_eq (ts : List Token) (tss : List (List Token)) :
    List.intercalate [.comma] (ts :: tss) = ts ++ commaTokens tss := by
  induction tss generalizing ts with
  | nil => simp [commaTokens]
  | cons ts' tss ih =>
    rw [List.intercalate_cons_cons, ih]
    simp [commaTokens]

/-- No container ends where a value starts. -/
theorem readFrom_firstItem_tokens (v : Value) :
    readFrom .firstItem stack (v.tokens ++ rest) = readFrom .value stack (v.tokens ++ rest) := by
  cases v with
  | number n =>
    rw [Value.tokens, Number.token]
    split <;> rfl
  | _ => rfl

mutual

/-- **The tokens of a value are read as its document.** -/
theorem readFrom_tokens (stack : List Frame) (rest : List Token) :
    (v : Value) → v.Rereads → readFrom .value stack (v.tokens ++ rest) = resume v.toDocument stack rest
  | .null, _ => readFrom_leaf rfl
  | .bool _, _ => readFrom_leaf rfl
  | .number n, h => by
    rw [Value.tokens, Number.Rereads.token_eq h]
    exact readFrom_leaf rfl
  | .string _, _ => readFrom_leaf rfl
  | .array [], _ => by cases stack <;> rfl
  | .array (v :: items), h => by
    have hfirst := readFrom_tokens (.array [] :: stack)
      (commaTokens (itemTokens items) ++ .closeArray :: rest) v h.1
    have hrest := readFrom_itemTokens [v.toDocument] stack rest items h.2
    rw [Value.tokens, itemTokens, intercalate_cons_eq]
    simp only [List.cons_append, List.append_assoc, List.nil_append]
    show readFrom .firstItem (.array [] :: stack) _ = _
    rw [readFrom_firstItem_tokens, hfirst]
    exact hrest
  | .object [], _ => by cases stack <;> rfl
  | .object ((name, v) :: fields), h => by
    have hfirst := readFrom_tokens (.object [] (some name) :: stack)
      (commaTokens (fieldTokens fields) ++ .closeObject :: rest) v h.1
    have hrest := readFrom_fieldTokens [(some name, v.toDocument)] stack rest fields h.2
    rw [Value.tokens, fieldTokens, intercalate_cons_eq]
    simp only [List.cons_append, List.append_assoc, List.nil_append]
    show readFrom .value (.object [] (some name) :: stack) _ = _
    rw [hfirst]
    exact hrest

/-- Items behind commas are read after those that are there. -/
theorem readFrom_itemTokens (ds : List Document) (stack : List Frame) (rest : List Token) :
    (items : List Value) → rereadsItems items →
      readFrom .separator (.array ds :: stack)
        (commaTokens (itemTokens items) ++ .closeArray :: rest) =
      resume (.array (ds.reverse ++ toDocuments items)) stack rest
  | [], _ => by
    rw [toDocuments, List.append_nil]
    exact readFrom_closeArray ds
  | v :: items, h => by
    have hfirst := readFrom_tokens (.array ds :: stack)
      (commaTokens (itemTokens items) ++ .closeArray :: rest) v h.1
    have hrest := readFrom_itemTokens (v.toDocument :: ds) stack rest items h.2
    rw [itemTokens, commaTokens, List.flatMap_cons, ← commaTokens]
    simp only [List.cons_append, List.append_assoc]
    show readFrom .value (.array ds :: stack) _ = _
    rw [hfirst]
    show readFrom .separator (.array (v.toDocument :: ds) :: stack) _ = _
    rw [hrest, List.reverse_cons, List.append_assoc]
    rfl

/-- Fields behind commas are read after those that are there. -/
theorem readFrom_fieldTokens (ds : List (Option String × Document)) (stack : List Frame)
    (rest : List Token) :
    (fields : List (String × Value)) → rereadsFields fields →
      readFrom .separator (.object ds none :: stack)
        (commaTokens (fieldTokens fields) ++ .closeObject :: rest) =
      resume (.object (ds.reverse ++ fieldDocuments fields)) stack rest
  | [], _ => by
    rw [fieldDocuments, List.append_nil]
    exact readFrom_closeObject ds none
  | (name, v) :: fields, h => by
    have hfirst := readFrom_tokens (.object ds (some name) :: stack)
      (commaTokens (fieldTokens fields) ++ .closeObject :: rest) v h.1
    have hrest := readFrom_fieldTokens ((some name, v.toDocument) :: ds) stack rest fields h.2
    rw [fieldTokens, commaTokens, List.flatMap_cons, ← commaTokens]
    simp only [List.cons_append, List.append_assoc]
    show readFrom .value (.object ds (some name) :: stack) _ = _
    rw [hfirst]
    show readFrom .separator (.object ((some name, v.toDocument) :: ds) none :: stack) _ = _
    rw [hrest, List.reverse_cons, List.append_assoc]
    rfl

end

variable {v : Value}

/-- A text that was written for a value holds its document and nothing more. -/
theorem read_pretty (h : v.Rereads) : read v.pretty = ⟨v.toDocument, false⟩ := by
  have htokens := readFrom_tokens [] [] v h
  rw [List.append_nil] at htokens
  unfold read
  rw [tokens_pretty, htokens]
  rfl

theorem Decoder.Restores.ofText_pretty {α : Type} {decode : Decoder α} {depth : Nat} {a : α}
    (h : decode.Restores depth v a) (hdepth : depth ≤ 127) (hnumbers : v.Rereads) :
    decode.ofText v.pretty = .ok a := by
  have hdecode := h .ofText v.toDocument hdepth (writes_toDocument v)
  unfold Decoder.ofText
  simp only [read_pretty hnumbers, hdecode, bind, Except.bind]
  rfl

/-! ## Numbers in an encoding -/

theorem rereads_nat {n : Nat} (h : n < Numeral.wordLimit) : (Value.nat n).Rereads :=
  Number.rereads_of_lt h

theorem rereads_ofList {α : Type} {encode : α → Value} {as : List α}
    (h : ∀ a ∈ as, (encode a).Rereads) : (Value.ofList encode as).Rereads := by
  show rereadsItems (as.map encode)
  induction as with
  | nil => trivial
  | cons a as ih =>
    obtain ⟨ha, has⟩ := List.forall_mem_cons.1 h
    exact ⟨ha, ih has⟩

theorem rereadsFields_append {fields more : List (String × Value)} (h : rereadsFields fields)
    (hmore : rereadsFields more) : rereadsFields (fields ++ more) := by
  induction fields with
  | nil => exact hmore
  | cons p fields ih => exact ⟨h.1, ih h.2⟩

theorem rereads_bytes (bs : List UInt8) : (Value.ofList Tableau.byteJson bs).Rereads :=
  rereads_ofList fun b _ => rereads_nat (b.toNat_lt.trans (by decide))

end QuantumWiring.Json

/-! ## Requests -/

namespace QuantumWiring

open Json

theorem Tableau.rereads_toJson (t : Tableau) : t.toJson.Rereads := by
  have hrows (bss : List (List UInt8)) : (Value.ofList (.ofList byteJson) bss).Rereads :=
    rereads_ofList fun bs _ => rereads_bytes bs
  exact ⟨hrows t.x, hrows t.z, rereads_bytes t.r, trivial⟩

theorem QubitValue.rereads_toJson (v : QubitValue) : v.toJson.Rereads :=
  rereads_nat (by cases v <;> decide)

theorem OperationSpec.rereads_toJson {op : OperationSpec} (h : op.InRange) : op.toJson.Rereads :=
  ⟨trivial, rereads_ofList fun l hl => rereads_nat ((h l hl).trans (by decide)), trivial⟩

theorem CircuitRequest.rereads_toJson {r : CircuitRequest} (h : r.InRange) : r.toJson.Rereads :=
  ⟨rereads_ofList fun q _ => ⟨trivial, q.value.rereads_toJson, trivial⟩,
    rereads_ofList fun op hop => OperationSpec.rereads_toJson (h op hop), trivial⟩

theorem StabilizerRequest.rereads_toJson {r : StabilizerRequest} (h : r.InRange) :
    r.toJson.Rereads := by
  have hinitial : (Value.ofOption Tableau.toJson r.initialTableau).Rereads := by
    cases r.initialTableau with
    | none => trivial
    | some t => exact t.rereads_toJson
  exact ⟨rereads_nat h.1, rereads_ofList fun op hop => OperationSpec.rereads_toJson (h.2 op hop),
    hinitial, trivial⟩

/-- A request that is written to a text is read back from it. -/
theorem CircuitRequest.ofText_pretty {r : CircuitRequest} (h : r.InRange) :
    decoder.ofText r.toJson.pretty = .ok r :=
  (restores h).ofText_pretty (by decide) (rereads_toJson h)

theorem StabilizerRequest.ofText_pretty {r : StabilizerRequest} (h : r.InRange) :
    decoder.ofText r.toJson.pretty = .ok r :=
  (restores h).ofText_pretty (by decide) (rereads_toJson h)

/-! ## Graphs -/

/-- The coordinates are read as what they are. -/
def Position.Rereads (p : Position) : Prop := (Number.real p.x).Rereads ∧ (Number.real p.y).Rereads

theorem Node.rereads_toJson {n : Node} (h : n.position.Rereads) : n.toJson.Rereads := by
  have hdata : n.kind.data.Rereads := by
    cases n.kind with
    | qubitSource v => exact ⟨v.rereads_toJson, trivial⟩
    | singleGate _ => exact ⟨trivial, trivial⟩
    | twoGate _ => exact ⟨trivial, trivial⟩
    | measurement => trivial
  exact ⟨trivial, trivial, ⟨h.1, h.2, trivial⟩, hdata, trivial⟩

theorem Edge.rereads_toJson (e : Edge) : e.toJson.Rereads := by
  have hid : rereadsFields (optionalField "id" .string e.id) := by
    cases e.id <;> simp [optionalField, rereadsFields, Value.Rereads]
  have hhandle (name : String) (o : Option Handle) :
      rereadsFields (optionalField name Handle.toJson o) := by
    cases o <;> simp [optionalField, rereadsFields, Handle.toJson, Value.Rereads]
  exact rereadsFields_append (rereadsFields_append (rereadsFields_append hid
    ⟨trivial, trivial, trivial⟩) (hhandle "sourceHandle" e.sourceHandle))
    (hhandle "targetHandle" e.targetHandle)

theorem CircuitGraph.rereads_toJson {g : CircuitGraph} (h : ∀ n ∈ g.nodes, n.position.Rereads) :
    g.toJson.Rereads :=
  ⟨rereads_ofList fun n hn => Node.rereads_toJson (h n hn),
    rereads_ofList fun e _ => e.rereads_toJson, trivial⟩

end QuantumWiring

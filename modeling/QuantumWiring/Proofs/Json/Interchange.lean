import QuantumWiring.Compile.Circuit
import QuantumWiring.Correction.Basic
import QuantumWiring.Graph.Basic
import QuantumWiring.Proofs.Json.Restoring

/-!
# The interchange formats are restored

Encoders and decoders are written apart from each other: fields are renamed, left out, null or
filled in, a snapshot lays the fields of its tableau beside its own, and a node keeps its payload in
a data object.  Still, each decoder restores what its encoder has written, as long as coordinates
are finite and numbers fit the sizes in which they are kept.
-/

namespace QuantumWiring

open Json

/-! ## Tableaux -/

namespace Tableau

theorem restores_byteRow (bs : List UInt8) :
    (Decoder.list .byte).Restores 1 (.ofList byteJson bs) bs :=
  Decoder.restores_list fun b _ => Decoder.restores_byte b

theorem restores_byteRows (bss : List (List UInt8)) :
    (Decoder.list (.list .byte)).Restores 2 (.ofList (.ofList byteJson) bss) bss :=
  Decoder.restores_list fun bs _ => restores_byteRow bs

theorem written_fields (t : Tableau) : fields.Written 2 (t.x, t.z, t.r, ()) t.jsonFields :=
  .field (restores_byteRows t.x) <| .field (restores_byteRows t.z) <|
    .field ((restores_byteRow t.r).mono (by decide)) .nil

theorem restores (t : Tableau) : decoder.Restores 3 t.toJson t :=
  Decoder.restores_record t.written_fields (by decide) _ _

end Tableau

/-! ## Circuits -/

namespace QubitValue

theorem restores (v : QubitValue) : decoder.Restores 0 v.toJson v := by
  have hbyte := Decoder.restores_byte (UInt8.ofNat v.number)
  cases v <;> exact hbyte.refine rfl

end QubitValue

namespace Operation

theorem restores (op : Operation) : decoder.Restores 0 op.toJson op :=
  (Decoder.restores_string op.name).refine (by rw [parse_name]; rfl)

end Operation

namespace EndpointMode

theorem restores (m : EndpointMode) : decoder.Restores 0 m.toJson m :=
  Decoder.restores_variant (by cases m <;> rfl)

end EndpointMode

/-- The numbers of the lines fit 32 bits. -/
def OperationSpec.InRange (op : OperationSpec) : Prop := ∀ l ∈ op.inputs, l < UInt32.size

theorem OperationSpec.restores {op : OperationSpec} (h : op.InRange) :
    decoder.Restores 2 op.toJson op := by
  refine Decoder.restores_record (.field (op.operation.restores.mono (by decide)) <|
    .field (a := op.inputs) ?_ .nil) (by decide) _ _
  exact Decoder.restores_list fun l hl => Decoder.restores_nat (h l hl) "u32"

theorem OperationSpec.restores_list {ops : List OperationSpec} (h : ∀ op ∈ ops, op.InRange) :
    (Decoder.list decoder).Restores 3 (.ofList toJson ops) ops :=
  Decoder.restores_list fun op hop => restores (h op hop)

/-- The number of the line fits 32 bits. -/
def QubitDescriptor.InRange (q : QubitDescriptor) : Prop := q.index < UInt32.size

theorem QubitDescriptor.restores {q : QubitDescriptor} (h : q.InRange) :
    decoder.Restores 1 q.toJson q :=
  Decoder.restores_record (.field (Decoder.restores_nat h "u32") <|
    .field (Decoder.restores_string q.id) <| .field q.value.restores .nil) (by decide) _ _

def CompiledCircuit.InRange (c : CompiledCircuit) : Prop :=
  (∀ q ∈ c.qubits, q.InRange) ∧ ∀ op ∈ c.operations, op.InRange

theorem CompiledCircuit.restores {c : CompiledCircuit} (h : c.InRange) :
    decoder.Restores 4 c.toJson c := by
  have hqubits : (Decoder.list QubitDescriptor.decoder).Restores 2
      (.ofList QubitDescriptor.toJson c.qubits) c.qubits :=
    Decoder.restores_list fun q hq => QubitDescriptor.restores (h.1 q hq)
  exact Decoder.restores_record (.field (c.mode.restores.mono (by decide)) <|
    .field (hqubits.mono (by decide)) <| .field (OperationSpec.restores_list h.2) .nil)
    (by decide) _ _

theorem QubitNode.restores (q : QubitNode) : decoder.Restores 1 q.toJson q :=
  Decoder.restores_record (.field (Decoder.restores_string q.id) <|
    .field q.value.restores .nil) (by decide) _ _

def CircuitRequest.InRange (r : CircuitRequest) : Prop := ∀ op ∈ r.operations, op.InRange

theorem CircuitRequest.restores {r : CircuitRequest} (h : r.InRange) :
    decoder.Restores 4 r.toJson r := by
  have hqubits : (Decoder.list QubitNode.decoder).Restores 2
      (.ofList QubitNode.toJson r.qubitNodes) r.qubitNodes :=
    Decoder.restores_list fun q _ => q.restores
  exact Decoder.restores_record (.field (hqubits.mono (by decide)) <|
    .field (OperationSpec.restores_list h) .nil) (by decide) _ _

/-- The number of qubits fits 64 bits and the numbers of the lines fit 32. -/
def StabilizerRequest.InRange (r : StabilizerRequest) : Prop :=
  r.numQubits < UInt64.size ∧ ∀ op ∈ r.operations, op.InRange

theorem StabilizerRequest.restores {r : StabilizerRequest} (h : r.InRange) :
    decoder.Restores 4 r.toJson r := by
  have hinitial : (Decoder.optional Tableau.decoder).Restores 3
      (.ofOption Tableau.toJson r.initialTableau) r.initialTableau :=
    Decoder.restores_optional (fun t _ => t.restores) fun t _ h => by cases h
  exact Decoder.restores_record (.field ((Decoder.restores_nat h.1 "usize").mono (by decide)) <|
    .field (OperationSpec.restores_list h.2) <| .field hinitial .nil) (by decide) _ _

/-! ## Error correction -/

theorem Code.restores (c : Code) : decoder.Restores 0 c.toJson c :=
  Decoder.restores_variant (by cases c <;> rfl)

theorem ErrorKind.restores (k : ErrorKind) : decoder.Restores 0 k.toJson k :=
  Decoder.restores_variant (by cases k <;> rfl)

theorem PauliError.restores {e : PauliError} (h : e.qubit < UInt64.size) :
    decoder.Restores 1 e.toJson e :=
  Decoder.restores_record (.field e.kind.restores <|
    .field (Decoder.restores_nat h "usize") .nil) (by decide) _ _

theorem Recovery.restores {r : Recovery} (h : r.qubit < UInt64.size) :
    decoder.Restores 1 r.toJson r :=
  Decoder.restores_record (.field r.kind.restores <|
    .field (Decoder.restores_nat h "usize") .nil) (by decide) _ _

/-- The numbers of the qubits fit 64 bits. -/
def CorrectionRequest.InRange (r : CorrectionRequest) : Prop :=
  ∀ e ∈ r.errors, e.qubit < UInt64.size

theorem CorrectionRequest.restores {r : CorrectionRequest} (h : r.InRange) :
    decoder.Restores 3 r.toJson r := by
  have herrors : (Decoder.list PauliError.decoder).Restores 2
      (.ofList PauliError.toJson r.errors) r.errors :=
    Decoder.restores_list fun e he => PauliError.restores (h e he)
  exact Decoder.restores_record (.field (r.code.restores.mono (by decide)) <|
    .field herrors .nil) (by decide) _ _

namespace Snapshot

/-- The fields of a tableau can be read as values of any kind. -/
theorem value_eq_ok_of_mem {t : Tableau} {known : List (Option String × Document)}
    (h : WritesFields known t.jsonFields) {origin : Origin} (hallows : origin.Allows 2) :
    ∀ p ∈ known, ∃ v, Decoder.value origin p.2 = .ok v := by
  have hrow (bs : List UInt8) : Decoder.value.Restores 1 (.ofList Tableau.byteJson bs)
      (.ofList Tableau.byteJson bs) :=
    Decoder.restores_value_list fun b _ => Decoder.restores_value_nat b.toNat
  have hrows (bss : List (List UInt8)) :
      Decoder.value.Restores 2 (.ofList (.ofList Tableau.byteJson) bss)
        (.ofList (.ofList Tableau.byteJson) bss) :=
    Decoder.restores_value_list fun bs _ => hrow bs
  cases h with
  | cons _ hx h =>
    cases h with
    | cons _ hz h =>
      cases h with
      | cons _ hr h =>
        cases h
        simp only [List.forall_mem_cons]
        exact ⟨⟨_, hrows t.x origin _ hallows hx⟩, ⟨_, hrows t.z origin _ hallows hz⟩,
          ⟨_, (hrow t.r).mono (by decide) origin _ hallows hr⟩, by simp⟩

theorem written_syndromeField (bs : List UInt8) : syndromeField.Written 1 (bs, ())
    [("syndrome", .ofList Tableau.byteJson bs)] :=
  .field (Tableau.restores_byteRow bs) .nil

/-- A snapshot's own field is taken out of the object and its tableau out of the others. -/
theorem restores (s : Snapshot) : decoder.Restores 3 s.toJson s := by
  intro origin d hallows hd
  obtain ⟨inside, henter, hinside⟩ := hallows.enter
  cases hd with
  | @object ds _ _ hperm hds =>
    obtain ⟨known, own, rfl, hknown, hown⟩ := hds.exists_append
    have hnames : known.map (·.1) = [some "x", some "z", some "r"] := hknown.map_fst
    have hownNames : own.map (·.1) = [some "syndrome"] := hown.map_fst
    have hmem : ∀ p ∈ known, p.1 ∈ [some "x", some "z", some "r"] := fun p hp =>
      hnames ▸ List.mem_map_of_mem hp
    have hsyndrome : Decoder.object "QecSnapshot"
        (fun o d => (Decoder.value o d).map fun _ => ()) syndromeField origin (.object ds) =
          .ok (s.syndrome, ()) := by
      refine Decoder.object_eq_ok (written_syndromeField s.syndrome) (by decide) _ henter
        (hinside.mono (by decide)) hown (hperm.trans List.perm_append_comm) fun p hp => ?_
      obtain ⟨v, hv⟩ := value_eq_ok_of_mem hknown hinside p hp
      refine ⟨⟨?_, by simp only [hv, Except.map]⟩, fun name hname heq => ?_⟩
      · have := hmem p hp
        simp only [List.mem_cons, List.not_mem_nil, or_false] at this
        rcases this with h | h | h <;> simp [h]
      · have := hmem p hp
        rw [heq, List.mem_singleton.1 hname] at this
        revert this
        decide
    have htableau : (tableauFields ds).Perm known := by
      have hkeep : ∀ p ∈ known, p.1.any ["x", "z", "r"].contains = true := fun p hp => by
        have := hmem p hp
        simp only [List.mem_cons, List.not_mem_nil, or_false] at this
        rcases this with h | h | h <;> simp [h]
      have hdrop : ∀ p ∈ own, ¬ p.1.any ["x", "z", "r"].contains = true := fun p hp => by
        have : p.1 ∈ [some "syndrome"] := hownNames ▸ List.mem_map_of_mem hp
        rw [List.mem_singleton.1 this]
        decide
      refine (hperm.filter _).trans (.of_eq ?_)
      rw [List.filter_append, List.filter_eq_self.2 hkeep, List.filter_eq_nil_iff.2 hdrop,
        List.append_nil]
    have hfields := Decoder.restores_object s.tableau.written_fields (by decide) "Tableau"
      (fun _ => skip) .value (.object (tableauFields ds)) trivial (.object htableau hknown)
    simp only [decoder, hsyndrome, hfields, bind, Except.bind]
    rfl

end Snapshot

/-- The number of the qubit fits 64 bits. -/
def CorrectionResult.InRange (r : CorrectionResult) : Prop :=
  ∀ recovery ∈ r.recovery, recovery.qubit < UInt64.size

theorem CorrectionResult.restores {r : CorrectionResult} (h : r.InRange) :
    decoder.Restores 4 r.toJson r := by
  have hafter : (Decoder.optional Snapshot.decoder).Restores 3
      (.ofOption Snapshot.toJson r.afterRecovery) r.afterRecovery :=
    Decoder.restores_optional (fun s _ => s.restores) fun s _ h => by cases h
  have hrecovery : (Decoder.optional Recovery.decoder).Restores 1
      (.ofOption Recovery.toJson r.recovery) r.recovery :=
    Decoder.restores_optional (fun s hs => Recovery.restores (h s hs)) fun s _ h => by cases h
  exact Decoder.restores_record (.field r.initial.restores <| .field r.afterErrors.restores <|
    .field hafter <| .field (hrecovery.mono (by decide)) <|
    .field ((Decoder.restores_bool r.hasError).mono (by decide)) .nil) (by decide) _ _

/-! ## Graphs -/

def Position.IsFinite (p : Position) : Prop := p.x.isFinite ∧ p.y.isFinite

theorem Position.restores {p : Position} (h : p.IsFinite) : decoder.Restores 1 p.toJson p :=
  Decoder.restores_record (.field (Decoder.restores_real h.1) <|
    .field (Decoder.restores_real h.2) .nil) (by decide) _ _

/-- The data object of a node is read as it was written. -/
theorem NodeKind.restores_data (k : NodeKind) : Decoder.value.Restores 1 k.data k.data := by
  cases k with
  | qubitSource v => exact (Decoder.restores_value_nat v.number).value_singleton "value"
  | singleGate g => exact (Decoder.restores_value_string g.name).value_singleton "operation"
  | twoGate g => exact (Decoder.restores_value_string g.name).value_singleton "operation"
  | measurement => exact Decoder.restores_value_nil

theorem EditorNode.toNode_of_node (n : Node) :
    EditorNode.toNode ⟨n.id, n.kind.editorType, n.position, n.kind.data⟩ = .ok n := by
  obtain ⟨id, kind, position⟩ := n
  cases kind with
  | qubitSource v => cases v <;> rfl
  | singleGate g => cases g <;> rfl
  | twoGate g => cases g <;> rfl
  | measurement => rfl

theorem Node.restores {n : Node} (h : n.position.IsFinite) : decoder.Restores 2 n.toJson n := by
  have heditor : EditorNode.decoder.Restores 2 n.toJson
      ⟨n.id, n.kind.editorType, n.position, n.kind.data⟩ :=
    Decoder.restores_record (.field ((Decoder.restores_string n.id).mono (by decide)) <|
      .field ((Decoder.restores_string n.kind.editorType).mono (by decide)) <|
      .field (Position.restores h) <| .field n.kind.restores_data .nil) (by decide) _ _
  exact heditor.refine (by rw [EditorNode.toNode_of_node]; rfl)

theorem Handle.restores (h : Handle) : decoder.Restores 0 h.toJson h :=
  Decoder.restores_variant (by cases h <;> rfl)

/-- A field that is left out where there is nothing to write. -/
theorem Edge.written_optionalField {α ρ : Type} {depth : Nat} {decode : Decoder α}
    {encode : α → Value} {o : Option α} {rest : Fields ρ} {r : ρ} {fields : List (String × Value)}
    (name : String) (h : ∀ a, decode.Restores depth (encode a) a)
    (hnull : ∀ a, ¬ Writes .null (encode a)) (hrest : rest.Written depth r fields) :
    (Fields.cons ⟨name, .optional decode, .anywhere none⟩ rest).Written depth (o, r)
      (optionalField name encode o ++ fields) := by
  cases o with
  | none => exact .absent rfl hrest
  | some a => exact .field ((h a).optional_some (hnull a)) hrest

theorem Edge.restores (e : Edge) : decoder.Restores 1 e.toJson e := by
  have hjson : e.toJson = .object (optionalField "id" .string e.id ++
      ("source", .string e.source) :: ("target", .string e.target) ::
        (optionalField "sourceHandle" Handle.toJson e.sourceHandle ++
          (optionalField "targetHandle" Handle.toJson e.targetHandle ++ []))) := by
    unfold toJson
    simp only [List.append_assoc, List.cons_append, List.nil_append, List.append_nil]
  rw [hjson]
  have hstring (s : String) : ¬ Writes .null (.string s) := fun h => by cases h
  have hhandle (i : Handle) : ¬ Writes .null i.toJson := fun h => by cases h
  exact Decoder.restores_record (written_optionalField "id" Decoder.restores_string hstring <|
    .field (Decoder.restores_string e.source) <| .field (Decoder.restores_string e.target) <|
    written_optionalField "sourceHandle" Handle.restores hhandle <|
    written_optionalField "targetHandle" Handle.restores hhandle .nil) (by decide) _ _

/-- No coordinate is infinite or a NaN. -/
def CircuitGraph.IsFinite (g : CircuitGraph) : Prop := ∀ n ∈ g.nodes, n.position.IsFinite

theorem CircuitGraph.restores {g : CircuitGraph} (h : g.IsFinite) :
    decoder.Restores 4 g.toJson g := by
  have hnodes : (Decoder.list Node.decoder).Restores 3 (.ofList Node.toJson g.nodes) g.nodes :=
    Decoder.restores_list fun n hn => Node.restores (h n hn)
  have hedges : (Decoder.list Edge.decoder).Restores 2 (.ofList Edge.toJson g.edges) g.edges :=
    Decoder.restores_list fun e _ => e.restores
  exact Decoder.restores_record (.field hnodes <| .field (hedges.mono (by decide)) .nil)
    (by decide) _ _

end QuantumWiring

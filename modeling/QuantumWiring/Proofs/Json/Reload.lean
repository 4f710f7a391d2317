import QuantumWiring.Proofs.Json.Reading
import QuantumWiring.Proofs.Json.Rereading

/-!
# Exporting and loading again

Each format of the interchange is restored from its encoding, whether it arrives as a value or as a
text.  A graph needs finite coordinates for that, and a graph that was loaded has them: its
coordinates are numbers of the document or stand for a position that was left out.  So a loaded
graph is exported, loaded and exported again without change.  With texts in between, the exported one
has to be read as the graph; it is if each coordinate is read as what it is written as
(`CircuitGraph.read_text`), since nothing else in it depends on rounding.
-/

namespace QuantumWiring

open Json

/-! ## Loaded graphs -/

theorem Position.yields_isFinite : decoder.Yields IsFinite :=
  .record (.cons .real nofun <| .cons .real nofun .nil) "Position" fun _ h => ⟨h.1, h.2.1⟩

theorem EditorNode.yields_isFinite : decoder.Yields fun n => n.position.IsFinite := by
  refine .record (.cons (.anything _) nofun <| .cons (.anything _) nofun <|
    .cons Position.yields_isFinite ?_ <| .cons (.anything _) (fun _ _ => trivial) .nil) "EditorNode"
    fun _ h => h.2.2.1
  intro p hp
  obtain rfl := Option.some.inj hp
  exact ⟨rfl, rfl⟩

theorem EditorNode.position_toNode {e : EditorNode} {n : Node} (h : e.toNode = .ok n) :
    n.position = e.position := by
  obtain ⟨kind, -, h⟩ := bind_eq_ok_iff.1 h
  obtain rfl := Except.ok.inj h
  rfl

theorem Node.yields_isFinite : decoder.Yields fun n => n.position.IsFinite := by
  refine EditorNode.yields_isFinite.refine fun e n he hn => ?_
  rw [EditorNode.position_toNode (mapError_eq_ok_iff.1 hn)]
  exact he

theorem CircuitGraph.yields_isFinite : decoder.Yields IsFinite := by
  refine .record (.cons Node.yields_isFinite.list ?_ <|
    .cons (.anything _) (fun _ _ => trivial) .nil) "CircuitGraph" fun _ h => h.1
  intro ns hns
  obtain rfl := Option.some.inj hns
  simp

/-- **A loaded graph has finite coordinates**, whatever the text. -/
theorem CircuitGraph.isFinite_ofText {s : String} {g : CircuitGraph} (h : ofText s = .ok g) :
    g.IsFinite := by
  obtain ⟨g', hg, h⟩ := bind_eq_ok_iff.1 h
  split at h
  · cases h
  · obtain rfl := Except.ok.inj h
    exact yields_isFinite .ofText _ g' (isFinite_read s) hg

/-! ## Decoding what was encoded -/

/-- Values with the property are decoded from whatever arrives where their encodings were sent, be
it a value at hand or the document of a text. -/
def Json.Decoder.Undoes {α : Type} (decode : Decoder α) (encode : α → Value) (P : α → Prop) :
    Prop :=
  ∀ a, P a → decode.ofValue (encode a) = .ok a ∧
    (∀ d, Writes d (encode a) → decode .value d = .ok a) ∧
    ∀ s, Writes (read s).document (encode a) → (read s).trailing = false → decode.ofText s = .ok a

theorem Json.Decoder.undoes {α : Type} {decode : Decoder α} {encode : α → Value} {P : α → Prop}
    {depth : Nat} (h : ∀ a, P a → decode.Restores depth (encode a) a) (hdepth : depth ≤ 127) :
    decode.Undoes encode P := by
  intro a ha
  have hrestores := h a ha
  refine ⟨hrestores.ofValue, fun d hd => hrestores .value d trivial hd, fun s hs htrailing => ?_⟩
  have hdecode := hrestores .ofText (read s).document hdepth hs
  unfold Decoder.ofText
  simp only [hdecode, htrailing, bind, Except.bind]
  rfl

theorem CircuitGraph.undoes_toJson : decoder.Undoes toJson IsFinite :=
  Decoder.undoes (fun _ h => restores h) (by decide)

/-- A text that was exported is read as the graph, once its coordinates are read as what they are. -/
theorem CircuitGraph.read_text {g : CircuitGraph} (h : ∀ n ∈ g.nodes, n.position.Rereads) :
    read g.text = ⟨g.toJson.toDocument, false⟩ :=
  read_pretty (rereads_toJson h)

/-- **Decoders undo encoders**, and a graph that was loaded stays what it is when it is exported and
loaded again: as a value, from any text that is read as its encoding, and from its own text if the
coordinates in it are read as what they are. -/
theorem decoders_undo_encoders :
    CircuitGraph.decoder.Undoes CircuitGraph.toJson CircuitGraph.IsFinite ∧
    Tableau.decoder.Undoes Tableau.toJson (fun _ => True) ∧
    OperationSpec.decoder.Undoes OperationSpec.toJson OperationSpec.InRange ∧
    QubitDescriptor.decoder.Undoes QubitDescriptor.toJson QubitDescriptor.InRange ∧
    CompiledCircuit.decoder.Undoes CompiledCircuit.toJson CompiledCircuit.InRange ∧
    CircuitRequest.decoder.Undoes CircuitRequest.toJson CircuitRequest.InRange ∧
    StabilizerRequest.decoder.Undoes StabilizerRequest.toJson StabilizerRequest.InRange ∧
    CorrectionRequest.decoder.Undoes CorrectionRequest.toJson CorrectionRequest.InRange ∧
    CorrectionResult.decoder.Undoes CorrectionResult.toJson CorrectionResult.InRange ∧
    (∀ (v : Value) (g : CircuitGraph), v.toDocument.IsFinite →
      CircuitGraph.decoder.ofValue v = .ok g →
        (CircuitGraph.decoder.ofValue g.toJson).map CircuitGraph.toJson = .ok g.toJson) ∧
    ∀ (s : String) (g : CircuitGraph), CircuitGraph.ofText s = .ok g →
      (CircuitGraph.decoder.ofValue g.toJson).map CircuitGraph.toJson = .ok g.toJson ∧
      (∀ s', Writes (read s').document g.toJson → (read s').trailing = false →
        (CircuitGraph.ofText s').map CircuitGraph.text = .ok g.text) ∧
      ((∀ n ∈ g.nodes, n.position.Rereads) → read g.text = ⟨g.toJson.toDocument, false⟩ ∧
        CircuitGraph.ofText g.text = .ok g) := by
  refine ⟨CircuitGraph.undoes_toJson, Decoder.undoes (fun t _ => t.restores) (by decide),
    Decoder.undoes (fun _ h => OperationSpec.restores h) (by decide),
    Decoder.undoes (fun _ h => QubitDescriptor.restores h) (by decide),
    Decoder.undoes (fun _ h => CompiledCircuit.restores h) (by decide),
    Decoder.undoes (fun _ h => CircuitRequest.restores h) (by decide),
    Decoder.undoes (fun _ h => StabilizerRequest.restores h) (by decide),
    Decoder.undoes (fun _ h => CorrectionRequest.restores h) (by decide),
    Decoder.undoes (fun _ h => CorrectionResult.restores h) (by decide), ?_, ?_⟩
  · intro v g hv hg
    have hfinite : g.IsFinite := CircuitGraph.yields_isFinite .value v.toDocument g hv hg
    rw [(CircuitGraph.undoes_toJson g hfinite).1]
    rfl
  · intro s g hg
    obtain ⟨hvalue, -, htext⟩ := CircuitGraph.undoes_toJson g (CircuitGraph.isFinite_ofText hg)
    refine ⟨by rw [hvalue]; rfl, fun s' hs' htrailing => ?_, fun hcoordinates => ?_⟩
    · show (CircuitGraph.decoder.ofText s').map CircuitGraph.text = _
      rw [htext s' hs' htrailing]
      rfl
    · have hread := CircuitGraph.read_text hcoordinates
      refine ⟨hread, htext g.text ?_ (by rw [hread])⟩
      rw [hread]
      exact writes_toDocument g.toJson

/-! ## Samples -/

/-- Every kind of node, and wires with and without id and handles. -/
def bellGraph : CircuitGraph :=
  ⟨[⟨"q", .qubitSource .one, ⟨.zero, .ofInt (-40)⟩⟩, ⟨"h", .singleGate .hadamard, .origin⟩,
      ⟨"c", .twoGate .cnot, ⟨.ofInt 7, .zero⟩⟩, ⟨"m", .measurement, .origin⟩],
    [.plain "q" "h", ⟨some "w", "h", "c", none, some .input1⟩, ⟨none, "c", "m", some .output2, none⟩]⟩

def bellTableau : Tableau := ⟨[[1, 1], [0, 0]], [[0, 0], [1, 1]], [0, 2]⟩

def bellOperations : List OperationSpec := [⟨.single .hadamard, [0]⟩, ⟨.two .cnot, [0, 1]⟩]

def bellCircuit : CompiledCircuit := ⟨.stabilizer, [⟨0, "q", .one⟩, ⟨1, "p", .zero⟩], bellOperations⟩

def bellRequest : StabilizerRequest := ⟨2, bellOperations, some bellTableau⟩

def flipRequest : CorrectionRequest := ⟨.bitFlip, [⟨.X, 1⟩]⟩

def flipResult : CorrectionResult :=
  ⟨⟨bellTableau, [0, 0]⟩, ⟨bellTableau, [1, 1]⟩, none, some ⟨.X, 1⟩, true⟩

/-- A measurement whose place and data are left out. -/
def sketchedText : String := "\x7b\"nodes\":[\x7b\"id\":\"m\",\"type\":\"measurementNode\"\x7d]\x7d"

def sketchedGraph : CircuitGraph := ⟨[⟨"m", .measurement, .origin⟩], []⟩

/-- The graph of the sketch as it is exported, with another spelling of its numbers. -/
def exportedText : String :=
  "\x7b\"nodes\":[\x7b\"id\":\"m\",\"type\":\"measurementNode\"," ++
    "\"position\":\x7b\"x\":0e0,\"y\":0e0\x7d,\"data\":\x7b\x7d\x7d],\"edges\":[]\x7d"

theorem ofText_sketchedText : CircuitGraph.ofText sketchedText = .ok sketchedGraph :=
  toOption_eq_some_iff.1 (by decide +kernel)

set_option maxRecDepth 20000 in
theorem read_exportedText :
    (read exportedText).document = sketchedGraph.toJson.toDocument ∧
      (read exportedText).trailing = false := by
  constructor <;> rfl

/-- A qubit at a place, the numbers of which are spelled in two ways. -/
def placedText : String :=
  "\x7b\"nodes\":[\x7b\"id\":\"q\",\"type\":\"qubitNode\"," ++
    "\"position\":\x7b\"x\":-40,\"y\":1.25e1\x7d,\"data\":\x7b\"value\":1\x7d\x7d]\x7d"

def placedGraph : CircuitGraph :=
  ⟨[⟨"q", .qubitSource .one, ⟨.ofInt (-40), .ofMagnitude false (Binary64.nearest 25 2)⟩⟩], []⟩

theorem ofText_placedText : CircuitGraph.ofText placedText = .ok placedGraph :=
  toOption_eq_some_iff.1 (by decide +kernel)

theorem rereads_placedGraph : ∀ n ∈ placedGraph.nodes, n.position.Rereads := by
  unfold Position.Rereads
  decide +kernel

theorem undone_samples :
    (bellGraph.IsFinite ∧ CircuitGraph.decoder.ofValue bellGraph.toJson = .ok bellGraph) ∧
    Tableau.decoder.ofValue bellTableau.toJson = .ok bellTableau ∧
    (∀ op ∈ bellOperations, op.InRange ∧ OperationSpec.decoder.ofValue op.toJson = .ok op) ∧
    (∀ q ∈ bellCircuit.qubits, q.InRange ∧ QubitDescriptor.decoder.ofValue q.toJson = .ok q) ∧
    (bellCircuit.InRange ∧ CompiledCircuit.decoder.ofValue bellCircuit.toJson = .ok bellCircuit) ∧
    (bellCircuit.circuitRequest.InRange ∧
      CircuitRequest.decoder.ofValue bellCircuit.circuitRequest.toJson =
        .ok bellCircuit.circuitRequest) ∧
    (bellRequest.InRange ∧ StabilizerRequest.decoder.ofValue bellRequest.toJson = .ok bellRequest) ∧
    (flipRequest.InRange ∧ CorrectionRequest.decoder.ofValue flipRequest.toJson = .ok flipRequest) ∧
    (flipResult.InRange ∧ CorrectionResult.decoder.ofValue flipResult.toJson = .ok flipResult) ∧
    (sketchedGraph.toJson.toDocument.IsFinite ∧
      (CircuitGraph.decoder.ofValue sketchedGraph.toJson).map CircuitGraph.toJson =
        .ok sketchedGraph.toJson) ∧
    CircuitGraph.ofText sketchedText = .ok sketchedGraph ∧
    (CircuitGraph.ofText exportedText).map CircuitGraph.text = .ok sketchedGraph.text ∧
    CircuitGraph.ofText placedText = .ok placedGraph ∧
    CircuitGraph.ofText placedGraph.text = .ok placedGraph := by
  obtain ⟨hgraph, htableau, hop, hqubit, hcircuit, hcircuitRequest, hstabilizer, hcorrection,
    hresult, hvalue, htext⟩ := decoders_undo_encoders
  have hfinite : bellGraph.IsFinite := by
    unfold CircuitGraph.IsFinite Position.IsFinite
    decide +kernel
  have hops : ∀ op ∈ bellOperations, op.InRange := by
    unfold OperationSpec.InRange
    decide
  have hqubits : ∀ q ∈ bellCircuit.qubits, q.InRange := by
    unfold QubitDescriptor.InRange
    decide
  have herrors : flipRequest.InRange := by
    unfold CorrectionRequest.InRange
    decide
  have hrecovery : flipResult.InRange := by
    unfold CorrectionResult.InRange
    decide
  have hdocument : sketchedGraph.toJson.toDocument.IsFinite := by
    have hzero : Binary64.zero.isFinite := by decide
    simp [sketchedGraph, CircuitGraph.toJson, Value.ofList, Node.toJson, Position.toJson,
      Position.origin, Value.real, NodeKind.data, Value.toDocument, toDocuments, fieldDocuments,
      Document.IsFinite, finiteItems, finiteFields, Number.IsFinite, Number.toBinary64, hzero]
  have hsketched : sketchedGraph.IsFinite := CircuitGraph.isFinite_ofText ofText_sketchedText
  refine ⟨⟨hfinite, (hgraph bellGraph hfinite).1⟩, (htableau bellTableau trivial).1,
    fun op h => ⟨hops op h, (hop op (hops op h)).1⟩,
    fun q h => ⟨hqubits q h, (hqubit q (hqubits q h)).1⟩,
    ⟨⟨hqubits, hops⟩, (hcircuit bellCircuit ⟨hqubits, hops⟩).1⟩,
    ⟨hops, (hcircuitRequest bellCircuit.circuitRequest hops).1⟩,
    ⟨⟨by decide, hops⟩, (hstabilizer bellRequest ⟨by decide, hops⟩).1⟩,
    ⟨herrors, (hcorrection flipRequest herrors).1⟩, ⟨hrecovery, (hresult flipResult hrecovery).1⟩,
    ⟨hdocument, hvalue sketchedGraph.toJson sketchedGraph hdocument (hgraph _ hsketched).1⟩,
    ofText_sketchedText, ?_, ofText_placedText,
    ((htext placedText placedGraph ofText_placedText).2.2 rereads_placedGraph).2⟩
  obtain ⟨hread, htrailing⟩ := read_exportedText
  refine (htext sketchedText sketchedGraph ofText_sketchedText).2.1 exportedText ?_ htrailing
  rw [hread]
  exact writes_toDocument sketchedGraph.toJson

end QuantumWiring

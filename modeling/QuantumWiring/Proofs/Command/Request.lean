import QuantumWiring.Proofs.Command.Session
import QuantumWiring.Proofs.Compile.Endpoint
import QuantumWiring.Proofs.Files.Write
import QuantumWiring.Proofs.Json.Rereading
import QuantumWiring.Proofs.Schedule.Termination

/-!
# The written request is the one that is sent

One command writes the request for a graph to a file and two others send it, one to each endpoint.
All of them prepare it from the file that the graph is in, and nothing is written or sent before it
is there.  So a command that fails has not touched any file, and one that succeeds has put into one
file what the other command sends from the same input (`writeRequest_outcome`).
-/

namespace QuantumWiring

open Json

/-! ## Lines of a circuit -/

/-- The operations of a circuit take lines that start at its qubits. -/
theorem lines_lt_numQubits {rules : List Rule} {mode : EndpointMode} {g : CircuitGraph}
    {c : CompiledCircuit} (h : compileWith rules mode g = .ok c) :
    ∀ op ∈ c.operations, ∀ l ∈ op.inputs, l < c.numQubits := by
  obtain ⟨-, -, rfl⟩ := compileWith_eq_ok_iff.1 h
  intro op hop l hl
  obtain ⟨o, ho, rfl⟩ := List.mem_map.1 hop
  have hline := (inputs_of_mem_ops (List.mem_filter.1 ho).1).2 l hl
  have hqubits : (CompiledCircuit.emit (schedule (.build g)).ops g.orderedSources mode).numQubits =
      g.sources.length := by
    simp [CompiledCircuit.numQubits, CompiledCircuit.emit, CircuitGraph.orderedSources_perm.length_eq]
  rwa [hqubits]

namespace EndpointMode

/-- The text is read as a request to the endpoint, and the value encodes that request.  The lines of
a request are numbered with 32 bits. -/
def Holds : EndpointMode → String → Value → Prop
  | .circuit, text, body => ∃ r : CircuitRequest, r.toJson = body ∧
      (r.qubitNodes.length ≤ UInt32.size → CircuitRequest.decoder.ofText text = .ok r)
  | .stabilizer, text, body => ∃ r : StabilizerRequest, r.toJson = body ∧
      (r.numQubits ≤ UInt32.size → StabilizerRequest.decoder.ofText text = .ok r)

end EndpointMode

namespace Command

variable {input : String} {files files' : Files} {words : List String}

/-! ## The command that writes -/

/-- The body of the request for a circuit. -/
def bodyOf (mode : EndpointMode) (words : List String) (c : CompiledCircuit) :
    Except CommandFailure Value :=
  match mode with
  | .circuit => if words ≠ [] then .error .needlessTableau else .ok c.circuitRequest.toJson
  | .stabilizer => do return (← stabilizerRequestOf c words).toJson

/-- The body of the request for the graph in a file. -/
def bodyIn (input : String) (mode : EndpointMode) (words : List String) (files : Files) :
    Except CommandFailure Value := do
  let g ← graphIn input files
  let c ← (compile mode g).mapError .compile
  bodyOf mode words c

/-- The files with the request for the graph in one of them. -/
def filesAfter (input : String) (output : Option String) (mode : EndpointMode)
    (words : List String) (files : Files) : Except CommandFailure Files := do
  let body ← bodyIn input mode words files
  let path := output.getD (defaultOutput input)
  (files.write path body.pretty).mapError (.unwritable path)

theorem settles_writeRequest (input : String) (output : Option String) (mode : EndpointMode)
    (words : List String) :
    Settles (writeRequest input output mode words) (filesAfter input output mode words) := by
  have hwrite (body : Value) := (settles_writeFile (output.getD (defaultOutput input))
    body.pretty).bind_print ["  Output: " ++ output.getD (defaultOutput input)]
  unfold filesAfter bodyIn
  simp only [bind_assoc]
  refine .print_bind _ <| (prepares_loadGraph input).settles_bind fun g => .print_bind _ <|
    (prepares_require _ _).settles_bind fun c => .print_bind _ ?_
  cases mode with
  | circuit =>
    dsimp only [bodyOf]
    split
    · exact (prepares_throw _).settles_bind hwrite
    · exact (prepares_pure _).settles_bind hwrite
  | stabilizer =>
    simp only [bodyOf, bind_assoc]
    exact (prepares_stabilizerRequest c words).settles_bind fun r =>
      (prepares_pure _).settles_bind hwrite

/-! ## The command that sends -/

/-- The command that sends the request of an endpoint. -/
def sendRequest (input : String) (words : List String) (settings : EngineSettings) :
    EndpointMode → Command Unit
  | .circuit => simulateCircuit input settings
  | .stabilizer => evolveState input words settings

theorem posts_simulateCircuit (input : String) (settings : EngineSettings) :
    Posts (simulateCircuit input settings) fun files => do
      let body ← bodyIn input .circuit [] files
      let _ ← (Engine.ofSettings settings).mapError .settings
      return body := by
  unfold bodyIn
  simp only [bind_assoc]
  refine .print_bind _ <| (prepares_loadGraph input).posts_bind fun g =>
    (prepares_require _ _).posts_bind fun c => .print_bind _ ?_
  exact (prepares_connect settings).posts_bind fun e => posts_call (fun _ => rfl) _

theorem posts_evolveState (input : String) (words : List String) (settings : EngineSettings) :
    Posts (evolveState input words settings) fun files => do
      let body ← bodyIn input .stabilizer words files
      let _ ← (Engine.ofSettings settings).mapError .settings
      return body := by
  unfold bodyIn bodyOf
  simp only [bind_assoc]
  refine .print_bind _ <| (prepares_loadGraph input).posts_bind fun g =>
    (prepares_require _ _).posts_bind fun c => .print_bind _ <|
    (prepares_stabilizerRequest c words).posts_bind fun r => ?_
  have hsend : Posts (connect settings >>= fun e => call (e.evolveStabilizer r) >>= fun e =>
      print (["", "✓ Evolution (" ++ toString e.steps.length ++ " steps):"] ++
        e.steps.zipIdx.flatMap fun p => stepLines r.operations p.2 p.1)) fun _ =>
      (Engine.ofSettings settings).mapError .settings >>= fun _ => .ok r.toJson :=
    (prepares_connect settings).posts_bind fun e => posts_call (fun _ => rfl) _
  cases r.initialTableau with
  | some t => exact .print_bind _ hsend
  | none => exact (prepares_pure ()).posts_bind fun _ => hsend

/-! ## One request -/

theorem bodyIn_eq_ok {mode : EndpointMode} {body : Value} (h : bodyIn input mode words files = .ok body) :
    ∃ g c, compile mode g = .ok c ∧ bodyOf mode words c = .ok body := by
  obtain ⟨g, -, h⟩ := bind_eq_ok_iff.1 h
  obtain ⟨c, hc, h⟩ := bind_eq_ok_iff.1 h
  exact ⟨g, c, mapError_eq_ok_iff.1 hc, h⟩

theorem bodyOf_circuit_eq_ok {c : CompiledCircuit} {body : Value}
    (h : bodyOf .circuit words c = .ok body) : words = [] ∧ c.circuitRequest.toJson = body := by
  unfold bodyOf at h
  dsimp only at h
  split at h
  · cases h
  · next hwords => exact ⟨not_not.1 hwords, Except.ok.inj h⟩

theorem bodyOf_stabilizer_eq_ok {c : CompiledCircuit} {body : Value}
    (h : bodyOf .stabilizer words c = .ok body) :
    ∃ initial r, c.stabilizerRequest initial = .ok r ∧ r.toJson = body := by
  obtain ⟨r, hr, h⟩ := bind_eq_ok_iff.1 h
  obtain ⟨initial, -, hr⟩ := bind_eq_ok_iff.1 hr
  exact ⟨initial, r, mapError_eq_ok_iff.1 hr, Except.ok.inj h⟩

/-- Whatever is prepared is a request that is read back from its text. -/
theorem holds_of_bodyIn {mode : EndpointMode} {body : Value}
    (h : bodyIn input mode words files = .ok body) :
    read body.pretty = read body.compact ∧ mode.Holds body.pretty body := by
  refine ⟨read_pretty_eq_read_compact body, ?_⟩
  obtain ⟨g, c, hc, hbody⟩ := bodyIn_eq_ok h
  have hlines := lines_lt_numQubits hc
  cases mode with
  | circuit =>
    obtain ⟨-, rfl⟩ := bodyOf_circuit_eq_ok hbody
    refine ⟨_, rfl, fun hqubits => ?_⟩
    have hcount : c.circuitRequest.qubitNodes.length = c.numQubits := List.length_map _
    rw [hcount] at hqubits
    exact CircuitRequest.ofText_pretty fun op hop l hl => (hlines op hop l hl).trans_le hqubits
  | stabilizer =>
    obtain ⟨initial, r, hr, rfl⟩ := bodyOf_stabilizer_eq_ok hbody
    obtain ⟨-, rfl⟩ := CompiledCircuit.stabilizerRequest_eq_ok_iff.1 hr
    refine ⟨_, rfl, fun hqubits => ?_⟩
    refine StabilizerRequest.ofText_pretty ⟨hqubits.trans_lt (by decide), fun op hop l hl => ?_⟩
    exact (hlines op (List.mem_filter.1 hop).1 l hl).trans_le hqubits

/-- What is prepared depends on nothing but what the input leads to. -/
theorem bodyIn_congr (h : files'.resolve input = files.resolve input) (mode : EndpointMode)
    (words : List String) : bodyIn input mode words files' = bodyIn input mode words files := by
  have hgraph : graphIn input files' = graphIn input files := by
    unfold graphIn Files.contains Files.read
    rw [h]
  unfold bodyIn
  rw [hgraph]

/-- The command for an endpoint sends what is prepared for writing, if the engine is acceptable.  The
one for circuits takes no words. -/
theorem posts_sendRequest {mode : EndpointMode} (hwords : mode = .circuit → words = [])
    (input : String) (settings : EngineSettings) :
    Posts (sendRequest input words settings mode) fun files => do
      let body ← bodyIn input mode words files
      let _ ← (Engine.ofSettings settings).mapError .settings
      return body := by
  cases mode with
  | circuit =>
    obtain rfl := hwords rfl
    exact posts_simulateCircuit input settings
  | stabilizer => exact posts_evolveState input words settings

variable {mode : EndpointMode} {s : Session}

theorem sent_sendRequest {body : Value} (h : bodyIn input mode words s.files = .ok body)
    (settings : EngineSettings) :
    (perform (sendRequest input words settings mode) s).2.sent.map (·.body) =
      s.sent.map (·.body) ++ if settings.check.toBool then [body] else [] := by
  have hwords : mode = .circuit → words = [] := by
    rintro rfl
    obtain ⟨g, c, -, hbody⟩ := bodyIn_eq_ok h
    exact (bodyOf_circuit_eq_ok hbody).1
  have hprepared : (bodyIn input mode words s.files >>= fun body =>
      (Engine.ofSettings settings).mapError CommandFailure.settings >>= fun _ =>
        .ok body).toOption.toList = if settings.check.toBool then [body] else [] := by
    rw [h]
    unfold Engine.ofSettings
    split
    · next hcheck => exact (if_pos (by rw [hcheck]; rfl)).symm
    · next hcheck => exact (if_neg (by rw [hcheck]; exact Bool.false_ne_true)).symm
  exact (posts_sendRequest hwords input settings s).trans (congrArg _ hprepared)

theorem sent_sendRequest_of_error {failure : CommandFailure}
    (h : bodyIn input mode words s.files = .error failure) (hwords : mode = .circuit → words = [])
    (settings : EngineSettings) :
    (perform (sendRequest input words settings mode) s).2.sent.map (·.body) =
      s.sent.map (·.body) := by
  have hprepared : (bodyIn input mode words s.files >>= fun body =>
      (Engine.ofSettings settings).mapError CommandFailure.settings >>= fun _ =>
        .ok body).toOption.toList = [] := by
    rw [h]
    rfl
  exact (posts_sendRequest hwords input settings s).trans
    ((congrArg _ hprepared).trans (List.append_nil _))

/-- **The written request is the one that is sent.**  Where the request cannot be made or written,
all files stay as they are; either the output leads nowhere, or there are words for a circuit, or the
command for the endpoint sends nothing either.  Otherwise one file is written, at the place that the
output leads to, and no other is touched.  Its text is read as the body that the command for the
endpoint sends from the same input and the same words, as often as that command gets to send
anything, and it holds the request that this body encodes. -/
theorem writeRequest_outcome (input : String) (output : Option String) (mode : EndpointMode)
    (words : List String) (s : Session) :
    match perform (writeRequest input output mode words) s with
    | (.error _, after) => after.files = s.files ∧ after.sent = s.sent ∧
        ((∃ fault, s.files.target (output.getD (defaultOutput input)) = .error fault) ∨
          (mode = .circuit ∧ words ≠ []) ∨
          ∀ settings, (perform (sendRequest input words settings mode) s).2.sent.map (·.body) =
            s.sent.map (·.body))
    | (.ok (), after) => after.sent = s.sent ∧ ∃ place text body,
        s.files.target (output.getD (defaultOutput input)) = .ok place ∧
        s.files.Overwrites after.files place text ∧
        after.files.read (output.getD (defaultOutput input)) = .ok text ∧
        read text = read body.compact ∧ mode.Holds text body ∧
        ∀ (settings : EngineSettings) (s' : Session),
          s'.files.resolve input = s.files.resolve input →
          (perform (sendRequest input words settings mode) s').2.sent.map (·.body) =
            s'.sent.map (·.body) ++ if settings.check.toBool then [body] else [] := by
  obtain ⟨lines, hlines⟩ := settles_writeRequest input output mode words s
  rw [hlines]
  cases hafter : filesAfter input output mode words s.files with
  | error failure =>
    refine ⟨rfl, rfl, ?_⟩
    rcases bind_eq_error_iff.1 hafter with hbody | ⟨body, -, hwrite⟩
    · by_cases hwords : mode = .circuit → words = []
      · exact .inr (.inr (sent_sendRequest_of_error hbody hwords))
      · exact .inr (.inl (Classical.not_imp.1 hwords))
    · obtain ⟨fault, hfault, -⟩ := mapError_eq_error_iff.1 hwrite
      exact .inl ⟨fault, Files.target_of_write hfault⟩
  | ok files =>
    obtain ⟨body, hbody, hwrite⟩ := bind_eq_ok_iff.1 hafter
    obtain ⟨place, htarget, hover, hread⟩ := Files.overwrites_of_write (mapError_eq_ok_iff.1 hwrite)
    obtain ⟨hsame, hholds⟩ := holds_of_bodyIn hbody
    refine ⟨rfl, place, _, body, htarget, hover, hread, hsame, hholds,
      fun settings s' hinput => sent_sendRequest ?_ settings⟩
    rw [bodyIn_congr hinput, hbody]

/-! ## A sample -/

/-- A qubit that is measured, drawn in a file. -/
def measuredText : String :=
  "\x7b\"nodes\":[\x7b\"id\":\"q\",\"type\":\"qubitNode\",\"data\":\x7b\"value\":1\x7d\x7d," ++
    "\x7b\"id\":\"m\",\"type\":\"measurementNode\"\x7d]," ++
    "\"edges\":[\x7b\"source\":\"q\",\"target\":\"m\"\x7d]\x7d"

def measuredGraph : CircuitGraph :=
  ⟨[⟨"q", .qubitSource .one, .origin⟩, ⟨"m", .measurement, .origin⟩], [.plain "q" "m"]⟩

def measuredRequest : CircuitRequest := ⟨[⟨"q", .one⟩], [⟨.measurement, [0]⟩]⟩

/-- Without its measurement the qubit stays in the state that the generator stands for. -/
def restingRequest : StabilizerRequest := ⟨1, [], some ⟨[[0]], [[1]], [1]⟩⟩

def measuredFiles : Files := ⟨[], [(["q.json"], .file measuredText)]⟩

theorem graphIn_measuredFiles : graphIn "q.json" measuredFiles = .ok measuredGraph := by
  have hread : measuredFiles.read "q.json" = .ok measuredText := by rfl
  have htext : CircuitGraph.ofText measuredText = .ok measuredGraph :=
    toOption_eq_some_iff.1 (by decide +kernel)
  unfold graphIn
  rw [if_pos (by decide +kernel)]
  exact bind_eq_ok_iff.2 ⟨_, mapError_eq_ok_iff.2 hread, mapError_eq_ok_iff.2 htext⟩

theorem bodyIn_measuredFiles :
    bodyIn "q.json" .circuit [] measuredFiles = .ok measuredRequest.toJson ∧
      bodyIn "q.json" .stabilizer ["-Z"] measuredFiles = .ok restingRequest.toJson := by
  have hcircuit : compile .circuit measuredGraph =
      .ok ⟨.circuit, [⟨0, "q", .one⟩], [⟨.measurement, [0]⟩]⟩ := by cbv
  have hstabilizer : compile .stabilizer measuredGraph =
      .ok ⟨.stabilizer, [⟨0, "q", .one⟩], []⟩ := by cbv
  have hprepared {mode : EndpointMode} {words : List String} {c : CompiledCircuit} {body : Value}
      (hcompile : compile mode measuredGraph = .ok c) (hbody : bodyOf mode words c = .ok body) :
      bodyIn "q.json" mode words measuredFiles = .ok body :=
    bind_eq_ok_iff.2 ⟨_, graphIn_measuredFiles,
      bind_eq_ok_iff.2 ⟨_, mapError_eq_ok_iff.2 hcompile, hbody⟩⟩
  exact ⟨hprepared hcircuit rfl, hprepared hstabilizer (by cbv)⟩

theorem filesAfter_measuredFiles {body : Value}
    (h : bodyIn "q.json" mode words measuredFiles = .ok body) :
    filesAfter "q.json" none mode words measuredFiles =
      .ok (measuredFiles.put ["q_request.json"] body.pretty) := by
  have hpath : defaultOutput "q.json" = "q_request.json" := by decide +kernel
  have htarget : measuredFiles.target "q_request.json" = .ok ["q_request.json"] := by decide +kernel
  refine bind_eq_ok_iff.2 ⟨_, h, mapError_eq_ok_iff.2 ?_⟩
  rw [Option.getD_none, hpath]
  exact bind_eq_ok_iff.2 ⟨_, htarget, rfl⟩

/-- The request for the measured qubit is written beside it, and a run sends the same; so is the one
for its state, and the evolution from this state sends the same. -/
theorem writeRequest_measuredFiles :
    (∃ text,
      (perform (writeRequest "q.json" none .circuit []) (.start measuredFiles [])).2.files.read
        "q_request.json" = .ok text ∧
      read text = read measuredRequest.toJson.compact ∧
      EndpointMode.circuit.Holds text measuredRequest.toJson ∧
      (perform (simulateCircuit "q.json" (.ofUrl "http://qubit")) (.start measuredFiles [])).2.sent.map
        (·.body) = [measuredRequest.toJson]) ∧
    ∃ text,
      (perform (writeRequest "q.json" none .stabilizer ["-Z"]) (.start measuredFiles [])).2.files.read
        "q_request.json" = .ok text ∧
      read text = read restingRequest.toJson.compact ∧
      EndpointMode.stabilizer.Holds text restingRequest.toJson ∧
      (perform (evolveState "q.json" ["-Z"] (.ofUrl "http://qubit"))
        (.start measuredFiles [])).2.sent.map (·.body) = [restingRequest.toJson] := by
  have hpath : defaultOutput "q.json" = "q_request.json" := by decide +kernel
  have hcheck : (EngineSettings.ofUrl "http://qubit").check.toBool := by decide +kernel
  have hsample {mode : EndpointMode} {words : List String} {body : Value}
      (hbody : bodyIn "q.json" mode words measuredFiles = .ok body) : ∃ text,
      (perform (writeRequest "q.json" none mode words) (.start measuredFiles [])).2.files.read
        "q_request.json" = .ok text ∧
      read text = read body.compact ∧ mode.Holds text body ∧
      (perform (sendRequest "q.json" words (.ofUrl "http://qubit") mode)
        (.start measuredFiles [])).2.sent.map (·.body) = [body] := by
    generalize hs : Session.start measuredFiles [] = s
    have hfiles : s.files = measuredFiles := hs ▸ rfl
    have hsent : s.sent = [] := hs ▸ rfl
    have houtcome := writeRequest_outcome "q.json" none mode words s
    obtain ⟨lines, hlines⟩ := settles_writeRequest "q.json" none mode words s
    rw [hfiles, filesAfter_measuredFiles hbody] at hlines
    rw [hlines] at houtcome ⊢
    obtain ⟨-, place, text, body', -, -, hread, hsame, hholds, hbodies⟩ := houtcome
    have hposts := hbodies (.ofUrl "http://qubit") s rfl
    rw [if_pos hcheck, hsent] at hposts
    rw [Option.getD_none, hpath] at hread
    -- the body of the text is the one that was prepared, since both are what is sent
    have hprepared := sent_sendRequest (s := s) (hfiles ▸ hbody) (.ofUrl "http://qubit")
    rw [if_pos hcheck, hsent, hposts] at hprepared
    have hbody' : body' = body := List.singleton_inj.1 hprepared
    rw [hbody'] at hposts hsame hholds
    exact ⟨text, hread, hsame, hholds, hposts⟩
  have hrun := hsample bodyIn_measuredFiles.1
  have hevolution := hsample bodyIn_measuredFiles.2
  simp only [sendRequest] at hrun hevolution
  exact ⟨hrun, hevolution⟩

end Command

end QuantumWiring

import QuantumWiring.Proofs.Compile.Count
import QuantumWiring.Proofs.Failure

/-!
# One graph for two endpoints

The endpoint decides what is emitted and nothing else: a graph compiles for both or for neither, and
for the stabilizer endpoint it is the same circuit without its measurements.  The request to that
endpoint leaves measurements out once more, so it is the same whichever way the circuit was compiled;
and whether there is a request depends on the tableau and the number of qubits alone
(`compileWith_endpoints`).
-/

namespace QuantumWiring

namespace CompiledCircuit

variable {c : CompiledCircuit} {initial : Option Tableau}

/-- The circuit for the stabilizer endpoint. -/
def unmeasured (c : CompiledCircuit) : CompiledCircuit := ⟨.stabilizer, c.qubits, c.unitaries⟩

theorem emit_stabilizer (ops : List ScheduledOp) (sources : List Node) :
    emit ops sources .stabilizer = (emit ops sources .circuit).unmeasured := by
  simp [emit, unmeasured, unitaries, EndpointMode.includesMeasurements, List.filter_map,
    Function.comp_def]

theorem unitaries_unmeasured (c : CompiledCircuit) : c.unmeasured.unitaries = c.unitaries := by
  simp [unmeasured, unitaries]

/-! ## The tableau of a request -/

theorem checkTableau_eq (c : CompiledCircuit) (t : Tableau) :
    c.checkTableau t = match t.check with
      | .error fault => .error (.invalid fault)
      | .ok _ => if t.width = c.numQubits then .ok () else .error (.width c.numQubits t.width) := by
  unfold checkTableau
  cases t.check with
  | error fault => rfl
  | ok u =>
    by_cases hwidth : t.width = c.numQubits
    · simp only [hwidth, ne_eq, not_true, if_true, if_false]
      rfl
    · simp only [hwidth, ne_eq, not_false_eq_true, if_true, if_false]
      rfl

theorem checkTableau_eq_ok_iff {t : Tableau} :
    c.checkTableau t = .ok () ↔ t.check = .ok () ∧ t.width = c.numQubits := by
  rw [checkTableau_eq]
  cases t.check <;> simp

theorem checkTableau_eq_invalid_iff {t : Tableau} {fault : TableauFault} :
    c.checkTableau t = .error (.invalid fault) ↔ t.check = .error fault := by
  rw [checkTableau_eq]
  cases t.check with
  | error fault' => simp
  | ok u => by_cases hwidth : t.width = c.numQubits <;> simp [hwidth]

theorem checkTableau_eq_width_iff {t : Tableau} {expected found : Nat} :
    c.checkTableau t = .error (.width expected found) ↔
      t.check = .ok () ∧ t.width = found ∧ c.numQubits = expected ∧ found ≠ expected := by
  rw [checkTableau_eq]
  cases t.check with
  | error fault => simp
  | ok u =>
    by_cases hwidth : t.width = c.numQubits
    · simp only [hwidth, if_true]
      grind
    · simp only [hwidth, if_false]
      grind

theorem stabilizerRequest_eq (c : CompiledCircuit) (initial : Option Tableau) :
    c.stabilizerRequest initial = (initial.elim (.ok ()) c.checkTableau).map
      fun _ => ⟨c.numQubits, c.unitaries, initial⟩ := by
  cases initial with
  | none => rfl
  | some t =>
    show (c.checkTableau t >>= fun _ => .ok _) = (c.checkTableau t).map _
    cases c.checkTableau t <;> rfl

theorem stabilizerRequest_eq_ok_iff {r : StabilizerRequest} : c.stabilizerRequest initial = .ok r ↔
    (∀ t ∈ initial, t.check = .ok () ∧ t.width = c.numQubits) ∧
      ⟨c.numQubits, c.unitaries, initial⟩ = r := by
  rw [stabilizerRequest_eq]
  cases initial with
  | none => simp [Except.map]
  | some t =>
    simp only [Option.elim_some, Option.mem_some_iff, forall_eq', ← checkTableau_eq_ok_iff]
    cases c.checkTableau t <;> simp [Except.map]

theorem stabilizerRequest_eq_error_iff {rejection : TableauRejection} :
    c.stabilizerRequest initial = .error rejection ↔
      ∃ t ∈ initial, c.checkTableau t = .error rejection := by
  rw [stabilizerRequest_eq]
  cases initial with
  | none => simp [Except.map]
  | some t =>
    simp only [Option.elim_some, Option.mem_some_iff, exists_eq_left']
    cases c.checkTableau t <;> simp [Except.map]

theorem stabilizerRequest_unmeasured (c : CompiledCircuit) (initial : Option Tableau) :
    c.unmeasured.stabilizerRequest initial = c.stabilizerRequest initial := by
  rw [stabilizerRequest_eq, stabilizerRequest_eq, unitaries_unmeasured]
  rfl

end CompiledCircuit

/-! ## Compiling for both endpoints -/

variable {g : CircuitGraph}

/-- A graph is compiled for the stabilizer endpoint as for the other, measurements left out. -/
theorem compileWith_stabilizer (rules : List Rule) (g : CircuitGraph) :
    compileWith rules .stabilizer g = (compileWith rules .circuit g).map .unmeasured := by
  cases hv : firstViolation? rules (.build g) with
  | some v =>
    simp only [compileWith, hv]
    rfl
  | none =>
    rw [compileWith_of_firstViolation? _ hv, compileWith_of_firstViolation? _ hv,
      CompiledCircuit.emit_stabilizer]
    split <;> rfl

/-- **The two endpoints get the same circuit.**  Compiling for either fails for the same reason or
succeeds, with the same qubits and with the same operations but for the measurements.  A tableau
then leads to the same request or the same rejection from both circuits: there is a request, without
measurements, exactly if there is no tableau or it is well formed and as wide as the circuit; a
tableau that is not well formed is reported with its fault, and any other with its width. -/
theorem compileWith_endpoints (rules : List Rule) (g : CircuitGraph) (initial : Option Tableau) :
    (∃ failure, compileWith rules .circuit g = .error failure ∧
      compileWith rules .stabilizer g = .error failure) ∨
    ∃ c d, compileWith rules .circuit g = .ok c ∧ compileWith rules .stabilizer g = .ok d ∧
      d.qubits = c.qubits ∧ d.operations = c.operations.filter (!·.operation.isMeasurement) ∧
      d.stabilizerRequest initial = c.stabilizerRequest initial ∧
      ((∃ r, c.stabilizerRequest initial = .ok r) ↔
        ∀ t ∈ initial, t.check = .ok () ∧ t.width = c.qubits.length) ∧
      (∀ r, c.stabilizerRequest initial = .ok r →
        r.numQubits = c.qubits.length ∧ r.operations = d.operations ∧ r.initialTableau = initial ∧
          ∀ op ∈ r.operations, op.operation.isMeasurement = false) ∧
      (∀ fault, c.stabilizerRequest initial = .error (.invalid fault) ↔
        ∃ t ∈ initial, t.check = .error fault) ∧
      ∀ expected found, c.stabilizerRequest initial = .error (.width expected found) ↔
        ∃ t ∈ initial, t.check = .ok () ∧ t.width = found ∧ c.qubits.length = expected ∧
          found ≠ expected := by
  rw [compileWith_stabilizer]
  cases hc : compileWith rules .circuit g with
  | error failure => exact .inl ⟨failure, rfl, rfl⟩
  | ok c =>
    refine .inr ⟨c, c.unmeasured, rfl, rfl, rfl, rfl, c.stabilizerRequest_unmeasured initial, ?accepted,
      fun r hr => ?request, fun fault => ?invalid, fun expected found => ?width⟩
    case accepted =>
      simp only [CompiledCircuit.stabilizerRequest_eq_ok_iff, exists_and_left, exists_eq',
        and_true]
      rfl
    case request =>
      obtain ⟨-, rfl⟩ := CompiledCircuit.stabilizerRequest_eq_ok_iff.1 hr
      refine ⟨rfl, rfl, rfl, fun op hop => ?_⟩
      simpa using (List.mem_filter.1 hop).2
    case invalid =>
      simp only [CompiledCircuit.stabilizerRequest_eq_error_iff,
        CompiledCircuit.checkTableau_eq_invalid_iff]
    case width =>
      simp only [CompiledCircuit.stabilizerRequest_eq_error_iff,
        CompiledCircuit.checkTableau_eq_width_iff]
      rfl

end QuantumWiring

import QuantumWiring.Command.Basic
import QuantumWiring.Command.Report

/-!
# The error correction command

Errors are put into a code and the engine's cycle of correction is shown.
-/

namespace QuantumWiring.Command

/-- The lines about the correction that the engine has applied. -/
def recoveryLines (r : CorrectionResult) : List String :=
  (match r.recovery with
  | some recovery =>
    ["", "  Recovery: apply " ++ recovery.kind.name ++ " on qubit " ++ toString recovery.qubit]
  | none => []) ++
  match r.afterRecovery with
  | some s => Report.snapshot "After recovery" s
  | none => []

/-- Have a code corrected after the given errors. -/
def correctErrors (code : Code) (errors : List PauliError) (settings : EngineSettings) :
    Command Unit := do
  print (("→ " ++ code.name ++ " (" ++ code.description ++ ")") ::
    errors.map fun e => "  Inject: " ++ e.text)
  let request : CorrectionRequest := ⟨code, errors⟩
  require .engine request.check
  let engine ← connect settings
  let r ← call (engine.correctErrors request)
  print (Report.snapshot "Initial state" r.initial ++
    Report.snapshot "After errors" r.afterErrors ++ recoveryLines r ++
    ["", Report.outcome r.outcome])

end QuantumWiring.Command

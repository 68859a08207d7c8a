/-! Codes, scenarios and levels of the trace manager. The names of scenarios are texts
in the source; a text that is none of the eight is `other`. -/
namespace Hiview.TraceManager

/-- What the hitrace library answers. -/
inductive TraceErrorCode where
  | success
  | traceIsOccupied
  | wrongTraceMode
  | other (code : Nat)
  deriving DecidableEq

inductive TraceStateCode where
  | success
  | deny
  | fail
  | policyError
  | updateTime
  | noTrigger
  deriving DecidableEq

inductive TraceFlowCode where
  | traceAllow
  | traceDumpDeny
  | traceUploadDeny
  | traceHasCapturedTrace
  deriving DecidableEq

structure TraceRet where
  stateError : TraceStateCode := .success
  codeError : TraceErrorCode := .success
  flowError : TraceFlowCode := .traceAllow
  deriving DecidableEq

namespace TraceRet

def ofState (code : TraceStateCode) : TraceRet := { stateError := code }

def ofCode (code : TraceErrorCode) : TraceRet := { codeError := code }

def isSuccess (ret : TraceRet) : Bool :=
  (ret.stateError = .success || ret.stateError = .noTrigger || ret.stateError = .updateTime) &&
    ret.codeError = .success && ret.flowError = .traceAllow

@[simp]
theorem isSuccess_default : isSuccess {} = true := rfl

@[simp]
theorem isSuccess_ofCode (code : TraceErrorCode) : (ofCode code).isSuccess = decide (code = .success) := by
  cases code <;> rfl

end TraceRet

inductive ScenarioName where
  | command
  | commandDrop
  | commonBeta
  | commonDrop
  | telemetry
  | appSystem
  | appDynamic
  | close
  | other (name : String)
  deriving DecidableEq

namespace ScenarioLevel

def command : Nat := 5

def commandDrop : Nat := 5

def commonDrop : Nat := 4

def commonBeta : Nat := 3

def telemetry : Nat := 2

def appSystem : Nat := 2

def appDynamic : Nat := 1

def close : Nat := 0

end ScenarioLevel

inductive TelemetryPolicy where
  | default
  | power
  | manual
  deriving DecidableEq

structure TraceArgs where
  tags : List String := []
  fileSizeLimit : Nat := 0
  deriving DecidableEq

structure Scenario where
  name : ScenarioName
  level : Nat := 0
  args : TraceArgs := {}
  tracePolicy : TelemetryPolicy := .default
  deriving DecidableEq

end Hiview.TraceManager

import JudgedLint.Model.CallError

/-! Calls of a model: what is asked, what comes back, and whom it is asked of. -/
namespace JudgedLint.Model

inductive Format where
  | verdict
  | rule
  deriving DecidableEq, Repr, Inhabited

def Format.name : Format → String
  | .verdict => "LintVerdict"
  | .rule => "GeneratedRule"

structure Client where
  provider : String
  /-- How messages name the credential, or the place of a local endpoint. -/
  credential : String
  isLocal : Bool
  deriving DecidableEq, Repr, Inhabited

structure Request where
  model : String
  system : String
  prompt : String
  maxTokens : Int
  temperature : Float
  format : Format
  deriving Inhabited

/-- What a call gives: the content of an answer, or an error. -/
abbrev Reply := Except CallError String

structure Response where
  /-- How long the call takes, in seconds. -/
  latency : Float
  reply : Reply

/-- Something that answers requests and may remember what it was asked. -/
structure Source (σ : Type) where
  ask : σ → Request → Response × σ

end JudgedLint.Model

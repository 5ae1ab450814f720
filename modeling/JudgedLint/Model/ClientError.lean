import JudgedLint.Text.Quoted
import JudgedLint.Text.Search

/-! Why no client for a provider could be made. -/
namespace JudgedLint.Model

inductive ClientError where
  | unsupported (provider : String) (available : List String)
  | missingPackage (name : String)
  | malformedPath
  | emptyModule
  | relativeModule (name : String)
  /-- There is no module of this name, nor may there be one if what should hold it is named. -/
  | noModule (name : String) (holder : Option String)
  | noMember (module name : String)
  | notCallable (type : String)
  | incomplete (name : String) (members : List String)
  | noSettings (name : String)
  /-- A setting is given for something that has its value already. -/
  | givenTwice (taker name : String)
  deriving DecidableEq, Repr

namespace ClientError

def kind : ClientError → String
  | .unsupported _ _ => "UnsupportedProviderError"
  | .missingPackage _ => "ImportError"
  | .malformedPath => "ValueError"
  | .emptyModule => "ValueError"
  | .noModule _ _ => "ModuleNotFoundError"
  | .noMember _ _ => "AttributeError"
  | .relativeModule _ | .notCallable _ | .incomplete _ _ | .noSettings _ | .givenTwice _ _ =>
    "TypeError"

def message : ClientError → String
  | .unsupported provider available =>
    s!"Unsupported LLM provider: {Text.quoted provider}. Available: " ++ Text.join ", " available
  | .missingPackage name => s!"{name} package required: pip install {name}"
  | .malformedPath => "not enough values to unpack (expected 2, got 1)"
  | .emptyModule => "Empty module name"
  | .relativeModule name =>
    "the 'package' argument is required to perform a relative import for " ++ Text.quoted name
  | .noModule name none => s!"No module named {Text.quoted name}"
  | .noModule name (some holder) =>
    s!"No module named {Text.quoted name}; {Text.quoted holder} is not a package"
  | .noMember module name => s!"module '{module}' has no attribute '{name}'"
  | .notCallable type => s!"'{type}' object is not callable"
  | .incomplete name members =>
    let word := match members with
      | [_] => "method"
      | _ => "methods"
    s!"Can't instantiate abstract class {name} with abstract {word} " ++ Text.join ", " members
  | .noSettings name => s!"{name}() takes no arguments"
  | .givenTwice taker name => s!"{taker}() got multiple values for argument '{name}'"

end ClientError
end JudgedLint.Model

import JudgedLint.Model.CallError
import JudgedLint.Model.Phrase
import JudgedLint.Text.Search

/-! Classes of failed calls, on which it depends whether a call is repeated. -/
namespace JudgedLint.Model

inductive ErrorClass where
  | auth
  | rateLimit
  | serverError
  | clientError
  | timeout
  | connection
  | emptyResponse
  | parseError
  | unknown
  deriving DecidableEq, Repr, Inhabited

namespace ErrorClass

def names : List (String × ErrorClass) :=
  [("auth", .auth), ("rate_limit", .rateLimit), ("server_error", .serverError),
   ("client_error", .clientError), ("timeout", .timeout), ("connection", .connection),
   ("empty_response", .emptyResponse), ("parse_error", .parseError), ("unknown", .unknown)]

def name : ErrorClass → String
  | .auth => "auth"
  | .rateLimit => "rate_limit"
  | .serverError => "server_error"
  | .clientError => "client_error"
  | .timeout => "timeout"
  | .connection => "connection"
  | .emptyResponse => "empty_response"
  | .parseError => "parse_error"
  | .unknown => "unknown"

/-- The classes that are worth another attempt. -/
def retryable : List ErrorClass := [.rateLimit, .serverError, .timeout, .connection, .emptyResponse]

def ofStatus? (status : Int) : Option ErrorClass :=
  if status == 401 then some .auth
  else if status == 429 then some .rateLimit
  else if 500 ≤ status && status ≤ 599 then some .serverError
  else if 400 ≤ status && status ≤ 499 then some .clientError
  else none

def authPhrases : List Phrase :=
  [wholeWord (literally "401"), literally "unauthorized", literally "api key"]

def ratePhrases : List Phrase :=
  [wholeWord (literally "429"), literally "rate" ++ .any :: literally "limit"]

def serverPhrases : List Phrase :=
  [wholeWord [.char '5', .digit, .digit], literally "server" ++ .any :: literally "error"]

def timeoutPhrases : List Phrase := [literally "timeout", literally "timed out"]

def connectionPhrases : List Phrase :=
  ["econnreset", "econnrefused", "enotfound", "eai_again", "network", "fetch failed",
   "socket hang up", "connection error", "connection refused", "connection reset"].map literally

def ofWords (e : CallError) : ErrorClass :=
  let name := Text.lowerAscii e.name
  let words := Text.lowerAscii e.text
  if Text.contains name "timeout" || e.family == .timeout then .timeout
  else if Text.contains name "connection" || e.family == .connection then .connection
  else if anyOccurs authPhrases e.text || Text.contains name "authentication" then .auth
  else if anyOccurs ratePhrases e.text || Text.contains name "ratelimit" then .rateLimit
  else if anyOccurs serverPhrases e.text then .serverError
  else if anyOccurs timeoutPhrases e.text then .timeout
  else if anyOccurs connectionPhrases e.text then .connection
  else if Text.contains words "json" || Text.contains words "decode" then .parseError
  else .unknown

/-- The class of an error: by what it is, else by its status, else by its words. -/
def ofError (e : CallError) : ErrorClass :=
  match e.family with
  | .authentication => .auth
  | .emptyResponse => .emptyResponse
  | .verdict _ => .parseError
  | _ => ((e.status.bind ofStatus?)).getD (ofWords e)

end ErrorClass
end JudgedLint.Model

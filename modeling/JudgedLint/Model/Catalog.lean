import JudgedLint.Text.Quoted
import JudgedLint.Text.Search

/-! Model catalogs: short names of models, and what each provider calls them.

A provider with a table accepts the names of the table; a provider that passes names through accepts
any. -/
namespace JudgedLint.Model

structure Catalog where
  /-- For each provider, names and the provider's own identifiers, in order. -/
  tables : List (String × List (String × String))
  /-- Providers that accept any name as it is. -/
  passthrough : List String
  deriving DecidableEq, Repr

inductive CatalogError where
  | noTable (provider : String)
  | unknownName (name provider : String) (allowed : List String)
  deriving DecidableEq, Repr

def CatalogError.message : CatalogError → String
  | .noTable provider => s!"No model table for provider {Text.quoted provider}"
  | .unknownName name provider allowed =>
    s!"Unknown model {Text.quoted name} for {provider} provider. Allowed values: " ++
      Text.join ", " allowed

namespace Catalog

def defaultTables : List (String × List (String × String)) :=
  [("openrouter",
    [("gemini-flash", "google/gemini-2.5-flash"), ("haiku", "anthropic/claude-haiku-4.5"),
     ("sonnet", "anthropic/claude-sonnet-4.5"), ("opus", "anthropic/claude-opus-4.6")]),
   ("anthropic",
    [("haiku", "claude-haiku-4-5-20251001"), ("sonnet", "claude-sonnet-4-5-20250929"),
     ("opus", "claude-opus-4-6")])]

def default : Catalog := ⟨defaultTables, ["ollama"]⟩

def isPassthrough (c : Catalog) (provider : String) : Bool := c.passthrough.contains provider

/-- The names a provider accepts; nothing if it accepts any. -/
def allowed (c : Catalog) (provider : String) : Option (List String) :=
  if c.isPassthrough provider then none
  else some (((c.tables.lookup provider).getD []).map (·.1))

def isValid (c : Catalog) (provider name : String) : Bool :=
  if c.isPassthrough provider then !name.isEmpty
  else (((c.tables.lookup provider).getD []).lookup name).isSome

def resolve (c : Catalog) (provider name : String) : Except CatalogError String :=
  if c.isPassthrough provider then .ok name
  else
    match c.tables.lookup provider with
    | none => .error (.noTable provider)
    | some table =>
      match table.lookup name with
      | some id => .ok id
      | none => .error (.unknownName name provider (table.map (·.1)))

end Catalog
end JudgedLint.Model

import JudgedLint.Json.Writer
import JudgedLint.Lint.Rule
import JudgedLint.Text.Search

/-! What a model is told when it drafts a rule, and when it mends one. -/
namespace JudgedLint.Draft

def structureText : String := "Rule YAML structure:
  id: string (snake_case, lowercase, e.g. \"no_console_log\")
  name: string (human-readable, e.g. \"No console.log statements\")
  severity: \"error\" | \"warning\"
  glob: string (file glob pattern, e.g. \"src/**/*.ts\")
  exclude: string (optional, exclusion glob pattern)
  prompt: string (the AI prompt that describes what to check)"

def generateSystem : String :=
  "You are a lint rule generator. Given a description of what a lint rule should do, " ++
  "generate a complete rule definition.\n\n" ++ structureText ++ "\n\nRules for generating:
- id: must be snake_case, start with lowercase letter, only lowercase letters, digits, and underscores
- name: short, descriptive human-readable name
- severity: choose \"error\" for things that must be fixed, \"warning\" for suggestions
- glob: choose an appropriate file glob pattern based on the description
- prompt: write a clear, specific prompt that an AI linter can use to check files " ++
  "against this rule. Explain what to look for and how to determine pass/fail.\n\n" ++
  "Respond ONLY with the rule object, no additional text."

def repairSystem : String :=
  "You are a lint rule generator. The previously generated rule failed schema " ++
  "validation. Fix the rule to match the required schema.\n\n" ++ structureText ++
  "\n\nSchema constraints:\n- id: must match pattern " ++ Lint.ruleIdForm ++ "
- name, glob, prompt: non-empty
- severity: exactly \"error\" or \"warning\"
- No additional properties (only: id, name, severity, glob, exclude, prompt)

Respond ONLY with the fixed rule object, no additional text."

def repairPrompt (draft : Json) (problems : List String) : String :=
  "The following generated rule has validation errors:\n\nRule:\n" ++ Json.render .block draft ++
  "\n\nValidation errors:\n" ++ Text.bulleted "- " problems ++
  "\n\nPlease fix the rule to pass schema validation."

end JudgedLint.Draft

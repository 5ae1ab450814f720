import JudgedLint.Model.Adapter
import JudgedLint.Proofs.Json.Roundtrip
import JudgedLint.Proofs.Lint.Fencing

/-! Structured answers over messages. A verdict is asked for as the input of a tool; the adapter writes it as
JSON, and the judge reads the JSON again. Blocks of other kinds are passed over, in front of the tool and
behind it, but of a text and a tool the first counts: a remark in front of the tool's block is taken for the
whole answer. -/
namespace JudgedLint.Model

variable {structured : Bool} {before after : List Block} {b : Block} {content : Json}

theorem blocksContent_first (hbefore : ∀ b ∈ before, b.content? structured = none)
    (hb : b.content? structured = some content) :
    blocksContent structured (before ++ b :: after) = content := by
  rw [blocksContent, List.findSome?_append, List.findSome?_eq_none_iff.mpr hbefore, Option.none_or,
    List.findSome?_cons, hb]
  rfl

theorem Adapter.answer_messages (settings : List (String × Json)) (c : Conversation) {blocks : List Block}
    {text : String} (h : blocksContent c.format.isSome blocks = .str text) (input output latencyMs : Int)
    (model : String) :
    (Adapter.ofSettings .messages settings).answer c latencyMs
        (.messages blocks (some ⟨.int input, .int output⟩) (.str model)) =
      .ok ⟨text, input, output, model, "anthropic", latencyMs⟩ := by
  rw [Adapter.answer, h]
  rfl

/-- A text in front of every tool is the content, also of an answer that was to be structured. -/
theorem Adapter.answer_remark (settings : List (String × Json)) (c : Conversation)
    (hbefore : ∀ b ∈ before, b = .other) (text : String) (after : List Block) (input output latencyMs : Int)
    (model : String) :
    (Adapter.ofSettings .messages settings).answer c latencyMs (.messages
        (before ++ .text (.str text) :: after) (some ⟨.int input, .int output⟩) (.str model)) =
      .ok ⟨text, input, output, model, "anthropic", latencyMs⟩ :=
  Adapter.answer_messages settings c
    (blocksContent_first (fun b hb => by rw [hbefore b hb, Block.content?]) rfl) input output latencyMs model

end JudgedLint.Model

namespace JudgedLint.Lint

open Json (Limits Readable render)
open Model (Adapter Block Conversation)

variable {ms : List (String × Json)} {v : Verdict} {digits : Nat}

theorem render_braced (lay : Json.Layout) (ms : List (String × Json)) :
    ∃ inner, (render lay (.obj ms)).toList = '\x7b' :: (inner ++ ['\x7d']) := by
  cases ms with
  | nil => exact ⟨[], by simp [render, Json.textAt, Json.memberTexts, Json.bracketed]⟩
  | cons m ms =>
    obtain ⟨k, j⟩ := m
    rw [render, Json.textAt, Json.memberTexts, Json.bracketed_cons]
    exact ⟨_, congrArg (List.cons '\x7b') (by simp only [← List.append_assoc]; rfl)⟩

theorem stripFences_render (lay : Json.Layout) (ms : List (String × Json)) :
    stripFences (render lay (.obj ms)) = render lay (.obj ms) := by
  obtain ⟨inner, hinner⟩ := render_braced lay ms
  rw [stripFences_braced ⟨[], [], hinner, rfl, rfl⟩, ← hinner, String.ofList_toList]

theorem ofReply_render (lay : Json.Layout) (h : Verdict.ofText (render lay (.obj ms)) = .ok v)
    (hmessage : Text.isBlankText v.message = false) :
    Verdict.ofReply (.ok (render lay (.obj ms))) = .ok v := by
  obtain ⟨inner, hinner⟩ := render_braced lay ms
  have hcontent : Text.isBlankText (render lay (.obj ms)) = false :=
    @Text.isBlankText_eq_false [] _ _ _ hinner rfl
  have hread : Verdict.ofText (stripFences (render lay (.obj ms))) = .ok v := by
    rwa [stripFences_render]
  exact (Verdict.Given.content hcontent hread hmessage).ofReply

theorem ofText_render (lay : Json.Layout) (h : Readable .strict Limits.strict.depth (.obj ms))
    (hproper : (Json.obj ms).Proper digits) :
    Verdict.ofText (render lay (.obj ms)) = Verdict.reader (Datum.ofJson (.obj ms)) := by
  rw [Verdict.ofText, Json.parse_readable lay h, h.regained rfl hproper]

/-- An object that a verdict is accepted from: as it is, if it can be written and read back, or as it is
written. -/
inductive Accepted (v : Verdict) : Json → Prop where
  | value {ms : List (String × Json)} (hreadable : Readable .strict Limits.strict.depth (.obj ms))
      (hproper : (Json.obj ms).Proper Limits.strict.digits)
      (h : Verdict.reader (Datum.ofJson (.obj ms)) = .ok v) : Accepted v (.obj ms)
  | text {ms : List (String × Json)} (h : Verdict.ofText (render .line (.obj ms)) = .ok v) :
      Accepted v (.obj ms)

theorem Accepted.ofReply {input : Json} (h : Accepted v input) (hmessage : Text.isBlankText v.message = false) :
    Verdict.ofReply (.ok (render .line input)) = .ok v := by
  cases h with
  | value hreadable hproper hread =>
    exact ofReply_render .line ((ofText_render .line hreadable hproper).trans hread) hmessage
  | text hread => exact ofReply_render .line hread hmessage

/-- A structured answer comes through the adapter. Behind blocks that are neither texts nor tools, the first
tool's input is the content, as JSON, whatever stands behind it; and if a verdict with a message that says
something is accepted from it, the call gives this verdict. -/
theorem answer_structured (settings : List (String × Json)) {c : Conversation} (hformat : c.format.isSome = true)
    (tokensIn tokensOut latencyMs : Int) (model : String) {before : List Block} (hbefore : ∀ b ∈ before, b = .other)
    (input : Json) (after : List Block) :
    ∃ answer, (Adapter.ofSettings .messages settings).answer c latencyMs (.messages
        (before ++ .toolUse input :: after) (some ⟨.int tokensIn, .int tokensOut⟩) (.str model)) = .ok answer ∧
      answer.content = render .line input ∧
      ∀ v, Accepted v input → Text.isBlankText v.message = false →
        Verdict.ofReply (.ok answer.content) = .ok v := by
  have hblocks : Model.blocksContent c.format.isSome (before ++ .toolUse input :: after) =
      .str (render .line input) := by
    refine Model.blocksContent_first (fun b hb => ?_) ?_
    · rw [hbefore b hb, Block.content?]
    · rw [hformat, Block.content?, if_pos rfl]
  exact ⟨_, Adapter.answer_messages settings c hblocks tokensIn tokensOut latencyMs model, rfl,
    fun v haccepted hmessage => haccepted.ofReply hmessage⟩

namespace Sample

def badAt (line : Json) : Json := .obj [("pass", .bool false), ("message", .str "bad"), ("line", line)]

def asking : Conversation := { messages := [⟨"user", "x"⟩], format := some .verdict }

/-- Between a block of an unknown kind and a remark, with the line as a float. -/
theorem answer_structured_between :
    let input := badAt (.float 2.0)
    asking.format.isSome = true ∧ (∀ b ∈ [Block.other], b = .other) ∧
      ∃ answer, (Adapter.ofSettings .messages []).answer asking 0 (.messages
          ([.other] ++ .toolUse input :: [.text (.str "Done.")]) (some ⟨.int 1, .int 2⟩) (.str "c")) =
            .ok answer ∧
        answer.content = "\x7b\"pass\": false, \"message\": \"bad\", \"line\": 2.0\x7d" ∧
        Verdict.ofReply (.ok answer.content) = .ok ⟨false, "bad", some 2⟩ := by
  intro input
  have hother : ∀ b ∈ [Block.other], b = .other := fun b hb => List.mem_singleton.mp hb
  obtain ⟨answer, hanswer, hcontent, hverdict⟩ :=
    answer_structured [] (c := asking) rfl 1 2 0 "c" hother input [.text (.str "Done.")]
  have hreadable : Readable .strict Limits.strict.depth input := by
    refine .obj ?_ ?_
    · simp only [List.forall_mem_cons]
      exact ⟨.inr (by decide), .inr (by decide), .inr (by decide), fun _ h => absurd h List.not_mem_nil⟩
    · simp only [List.forall_mem_cons]
      exact ⟨.bool false, .str (.inr (by decide)), .float 2.0 (by decide),
        fun _ h => absurd h List.not_mem_nil⟩
  have hproper : input.Proper Limits.strict.digits := by
    refine .obj (by decide) ?_
    simp only [List.forall_mem_cons]
    exact ⟨.bool false, .str _, .float 2.0, fun _ h => absurd h List.not_mem_nil⟩
  have hread : Verdict.reader (Datum.ofJson input) = .ok ⟨false, "bad", some 2⟩ := by decide +kernel
  refine ⟨rfl, hother, answer, hanswer, ?_, hverdict _ (.value hreadable hproper hread) (by decide)⟩
  rw [hcontent]
  decide +kernel

/-- Behind a remark the tool is not read: the remark is the content, and it is no verdict. -/
theorem remark_hides_tool :
    let input := badAt (.int 2)
    ∃ answer, (Adapter.ofSettings .messages []).answer asking 0 (.messages
        [.text (.str "Let me check."), .toolUse input] (some ⟨.int 1, .int 2⟩) (.str "c")) = .ok answer ∧
      answer.content ≠ render .line input ∧
      Verdict.reader (Datum.ofJson input) = .ok ⟨false, "bad", some 2⟩ ∧
      Verdict.ofReply (.ok answer.content) = .error (.verdict [⟨[], .invalidJson⟩]) :=
  ⟨_, Adapter.answer_remark [] asking (fun _ h => absurd h List.not_mem_nil) _ _ 1 2 0 "c",
    by decide +kernel, by decide +kernel, by decide +kernel⟩

end Sample
end JudgedLint.Lint

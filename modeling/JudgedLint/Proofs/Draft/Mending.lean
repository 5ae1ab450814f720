import JudgedLint.Proofs.Draft.Adding

/-! Drafting a rule takes one answer or two. A first answer that holds no object ends it, and one whose
object makes a rule ends it as well; only an object that makes none is sent back, with everything that is
wrong with it, and the second answer ends it in any case. What comes out is the rule of the last answer,
or the fault of drafting. -/
namespace JudgedLint

def Model.Source.replies {σ : Type} (m : Source σ) : List Request → σ → List Reply
  | [], _ => []
  | q :: rest, source => (m.ask source q).1.reply :: m.replies rest (m.ask source q).2

namespace Lint

open Form

theorem Rule.told_reader (d : Datum) : Told (Rule.reader d) := by
  refine told_record (fun d => told_closed (fun d => ?_) _ d) _ d
  refine Told.apply (Told.apply (Told.apply (Told.apply (Told.apply (Told.apply (Told.map _ ?_) ?_) ?_) ?_)
    ?_) ?_) ?_
  · exact told_required (told_textMatching _ _) _ d
  · exact told_required (told_textOfLength 1) _ d
  · exact told_required (told_oneOf severities) _ d
  · exact told_required (told_textOfLength 1) _ d
  · exact told_withDefault (told_optional told_text) _ _ d
  · exact told_required (told_textOfLength 1) _ d
  · exact told_withDefault (told_optional told_text) _ _ d

variable {rule : Rule} {ms : List (String × Json)} {name s : String} {j : Json}

theorem text_ofJson : text (.ofJson j) = .ok s ↔ j = .str s := by
  cases j <;> simp [text, Datum.ofJson, Datum.bare, fail]

theorem oneOf_severity_ofJson {severity : Severity} :
    oneOf severities (.ofJson j) = .ok severity ↔ j = .str severity.name := by
  constructor
  · intro h
    obtain ⟨s, hs, hlookup⟩ := oneOf_eq_ok h
    cases j with
    | str t =>
      cases hs
      simp only [severities, List.lookup_cons, List.lookup_nil] at hlookup
      split at hlookup
      · next heq =>
        cases hlookup
        rw [eq_of_beq heq]
        rfl
      · split at hlookup
        · next heq =>
          cases hlookup
          rw [eq_of_beq heq]
          rfl
        · cases hlookup
    | _ => cases hs
  · rintro rfl
    exact oneOf_severity severity

theorem required_ofJson_iff {r : Reader String} {p : String → Prop}
    (hr : ∀ d s, r d = .ok s ↔ text d = .ok s ∧ p s) :
    required name r (.ofJson (.obj ms)) = .ok s ↔ ms.lookup name = some (.str s) ∧ p s := by
  simp only [required_eq_ok, Datum.get?_ofJson, Option.map_eq_some_iff, hr]
  constructor
  · rintro ⟨_, ⟨j, hj, rfl⟩, htext, hp⟩
    cases text_ofJson.mp htext
    exact ⟨hj, hp⟩
  · rintro ⟨hj, hp⟩
    exact ⟨_, ⟨_, hj, rfl⟩, text_ofJson.mpr rfl, hp⟩

theorem withDefault_ofJson_iff {o : Option String} (hnull : ∀ m ∈ ms, m.2.isNull = false) :
    withDefault name none (Form.optional text) (.ofJson (.obj ms)) = .ok o ↔
      ms.lookup name = o.map .str := by
  rw [withDefault, Datum.get?_ofJson]
  cases hlookup : ms.lookup name with
  | none => cases o <;> simp
  | some j =>
    have hj : j.isNull = false := hnull _ (Json.mem_of_lookup hlookup)
    have hdatum : (Datum.ofJson j).isNull = false := by cases j <;> first | rfl | cases hj
    have hoptional : Form.optional text (.ofJson j) = (text (.ofJson j)).map some := by
      simp only [Form.optional, hdatum, Bool.false_eq_true, if_false]
    simp only [Option.map_some, under_eq_ok, hoptional, map_eq_ok, text_ofJson]
    cases o <;> simp

theorem known_ofJson {names : List String} :
    Known names (.ofJson (.obj ms)) ↔ ∀ m ∈ ms, m.1 ∈ names := by
  have hentries : (Datum.ofJson (.obj ms)).entries = ms.map fun m => (.str m.1, .ofJson m.2) := by
    simp only [Datum.entries, Datum.ofJson, Datum.bare]
    induction ms with
    | nil => rfl
    | cons m rest ih => rw [Datum.ofMembers, ih, List.map_cons]
  rw [Known, hentries, List.forall_mem_map]
  refine forall₂_congr fun m _ => ⟨?_, fun h => ⟨m.1, h, rfl⟩⟩
  rintro ⟨name, hname, heq⟩
  cases heq
  exact hname

/-- The members of an object are those that are set in a valid rule. -/
structure Rule.WrittenAs (r : Rule) (ms : List (String × Json)) : Prop where
  valid : r.Valid
  members : ∀ name, ms.lookup name = (r.setMembers.lookup name).map .str

/-- Which objects without null make a rule, and which rule. -/
theorem Rule.reader_ofJson_iff (hnull : ∀ m ∈ ms, m.2.isNull = false) :
    Rule.reader (.ofJson (.obj ms)) = .ok rule ↔ rule.WrittenAs ms := by
  have htext : ∀ name s, required name (textOfLength 1) (.ofJson (.obj ms)) = .ok s ↔
      ms.lookup name = some (.str s) ∧ Text.isWellFormed s = true ∧ 1 ≤ s.length :=
    fun _ _ => required_ofJson_iff fun _ _ => textOfLength_iff
  have hpattern : ∀ s, required "id" (textMatching isRuleId ruleIdForm) (.ofJson (.obj ms)) = .ok s ↔
      ms.lookup "id" = some (.str s) ∧ Text.isWellFormed s = true ∧ isRuleId s = true :=
    fun _ => required_ofJson_iff fun d s => @textMatching_iff d s isRuleId ruleIdForm
  have hseverity : required "severity" (oneOf severities) (.ofJson (.obj ms)) = .ok rule.severity ↔
      ms.lookup "severity" = some (.str rule.severity.name) := by
    simp only [required_eq_ok, Datum.get?_ofJson, Option.map_eq_some_iff]
    constructor
    · rintro ⟨_, ⟨j, hj, rfl⟩, h⟩
      cases oneOf_severity_ofJson.mp h
      exact hj
    · intro hj
      exact ⟨_, ⟨_, hj, rfl⟩, oneOf_severity_ofJson.mpr rfl⟩
  obtain ⟨hid', hname', hseverity', hglob', hexclude', hprompt', hmodel'⟩ := rule.lookup_setMembers
  rw [Rule.reader_iff, known_ofJson, hpattern, htext, hseverity, htext, withDefault_ofJson_iff hnull, htext,
    withDefault_ofJson_iff hnull]
  constructor
  · rintro ⟨_, hknown, hid, hname, hseverity, hglob, hexclude, hprompt, hmodel⟩
    refine ⟨⟨hid.2, hname.2, hglob.2, hprompt.2⟩, fun name => ?_⟩
    by_cases hmem : name ∈ Rule.memberNames
    · simp only [Rule.memberNames, List.mem_cons, List.not_mem_nil, or_false] at hmem
      rcases hmem with rfl | rfl | rfl | rfl | rfl | rfl | rfl
      · rw [hid.1, hid']; rfl
      · rw [hname.1, hname']; rfl
      · rw [hseverity, hseverity']; rfl
      · rw [hglob.1, hglob']; rfl
      · rw [hexclude, hexclude']
      · rw [hprompt.1, hprompt']; rfl
      · rw [hmodel, hmodel']
    -- A name that no member has is set on neither side.
    · rw [Json.lookup_of_notMem, Json.lookup_of_notMem, Option.map_none]
      · intro hset
        obtain ⟨m, hm, rfl⟩ := List.mem_map.mp hset
        exact hmem (Rule.mem_setMembers hm)
      · intro hthere
        obtain ⟨m, hm, rfl⟩ := List.mem_map.mp hthere
        exact hmem (hknown m hm)
  · rintro ⟨hvalid, hmembers⟩
    refine ⟨rfl, fun m hm => ?_, ⟨?_, hvalid.id⟩, ⟨?_, hvalid.name⟩, ?_, ⟨?_, hvalid.glob⟩, ?_,
      ⟨?_, hvalid.prompt⟩, ?_⟩
    · cases hset : rule.setMembers.lookup m.1 with
      | none =>
        have hlookup := hmembers m.1
        rw [hset, Option.map_none, List.lookup_eq_none_iff] at hlookup
        exact absurd (hlookup m hm) (by simp)
      | some s => exact Rule.mem_setMembers (Json.mem_of_lookup hset)
    · rw [hmembers, hid']; rfl
    · rw [hmembers, hname']; rfl
    · rw [hmembers, hseverity']; rfl
    · rw [hmembers, hglob']; rfl
    · rw [hmembers, hexclude']
    · rw [hmembers, hprompt']; rfl
    · rw [hmembers, hmodel']

end Lint

namespace Draft

open Lint (Rule)
open Model (Request Reply Source)

/-- Whether the text of an answer is JSON can be told: it is read, or it is malformed. -/
def Decodes (content : String) : Prop :=
  ∀ e, Json.parse .general content = .error e → e.isMalformed = true

/-- An answer that holds no object. -/
inductive Unusable (content : String) : Prop where
  | blank (h : Text.isBlankText content = true)
  | notJson {e : Json.ReadError} (h : Json.parse .general content = .error e)
  | notObject {v : Json} (h : Json.parse .general content = .ok v) (hv : ∀ ms, v ≠ .obj ms)

structure HoldsObject (content : String) (ms : List (String × Json)) : Prop where
  filled : Text.isBlankText content = false
  parsed : Json.parse .general content = .ok (.obj ms)

def kept (ms : List (String × Json)) : List (String × Json) := ms.filter fun m => !m.2.isNull

/-- An answer that holds an object which, without its null members, makes this rule. -/
def Makes (content : String) (r : Rule) : Prop :=
  ∃ ms, HoldsObject content ms ∧ r.WrittenAs (kept ms)

section

variable {σ : Type} {m : Source σ} {a : Author} {description content first last : String} {source : σ}
  {r : Rule} {ms : List (String × Json)} {draft : Json} {problems : List String} {f : Failure}

theorem unusable_or_holdsObject (content : String) :
    Unusable content ∨ ∃ ms, HoldsObject content ms := by
  cases hblank : Text.isBlankText content with
  | true => exact .inl (.blank hblank)
  | false =>
    cases hparse : Json.parse .general content with
    | error e => exact .inl (.notJson hparse)
    | ok v =>
      cases v with
      | obj ms => exact .inr ⟨ms, hblank, hparse⟩
      | _ => exact .inl (.notObject hparse nofun)

theorem HoldsObject.not_unusable (h : HoldsObject content ms) : ¬Unusable content := by
  rintro (hblank | hparse | ⟨hparse, hv⟩)
  · cases h.filled.symm.trans hblank
  · cases h.parsed.symm.trans hparse
  · cases h.parsed.symm.trans hparse
    exact hv ms rfl

theorem HoldsObject.unique {ms' : List (String × Json)} (h : HoldsObject content ms)
    (h' : HoldsObject content ms') : ms' = ms := by
  cases h'.parsed.symm.trans h.parsed
  rfl

theorem HoldsObject.ofContent (h : HoldsObject content ms) :
    Draft.ofContent content = .ok (withoutNulls ms) := by
  simp [Draft.ofContent, h.filled, h.parsed]

theorem Unusable.ofContent (h : Unusable content) (hd : Decodes content) :
    ∃ fault, Draft.ofContent content = .error (.draft fault) := by
  unfold Draft.ofContent
  split
  · exact ⟨_, rfl⟩
  · next hfilled =>
    split
    · next e hparse => exact ⟨_, by rw [hd e hparse, if_pos rfl]⟩
    · next ms hparse => exact absurd h (HoldsObject.not_unusable ⟨by simpa using hfilled, hparse⟩)
    · exact ⟨_, rfl⟩

theorem rule_eq_ok : Draft.rule (withoutNulls ms) = .ok r ↔ r.WrittenAs (kept ms) := by
  have hnull : ∀ m ∈ kept ms, m.2.isNull = false := by
    intro m hm
    simpa [kept] using (List.mem_filter.mp hm).2
  rw [Draft.rule, mapError_eq_ok]
  exact Lint.Rule.reader_ofJson_iff hnull

theorem HoldsObject.makes_iff (h : HoldsObject content ms) :
    Makes content r ↔ Draft.rule (withoutNulls ms) = .ok r := by
  rw [rule_eq_ok]
  constructor
  · rintro ⟨ms', h', hwritten⟩
    exact h.unique h' ▸ hwritten
  · exact fun hwritten => ⟨ms, h, hwritten⟩

theorem rule_eq_error {draft : Json} {problems : List String} (h : Draft.rule draft = .error problems) :
    ∃ errors, Rule.reader (.ofJson draft) = .error errors ∧ errors ≠ [] ∧
      problems = errors.map Form.Error.plainLine := by
  obtain ⟨errors, herrors, rfl⟩ := mapError_eq_error.mp h
  refine ⟨errors, herrors, ?_, rfl⟩
  rintro rfl
  exact Rule.told_reader _ herrors

theorem ofContent_bind (hd : Decodes content) :
    let outcome := (Draft.ofContent content).bind fun draft =>
      (Draft.rule draft).mapError fun problems => .draft (.unrepaired problems)
    (∀ r, outcome = .ok r ↔ Makes content r) ∧
      ((∀ r, ¬Makes content r) → ∃ fault, outcome = .error (.draft fault)) := by
  rcases unusable_or_holdsObject content with hunusable | ⟨ms, hobject⟩
  · obtain ⟨fault, hfault⟩ := hunusable.ofContent hd
    simp only [hfault, Except.bind]
    refine ⟨fun r => ⟨nofun, ?_⟩, fun _ => ⟨fault, rfl⟩⟩
    rintro ⟨ms, hobject, _⟩
    exact absurd hunusable hobject.not_unusable
  · rw [hobject.ofContent]
    refine ⟨fun r => mapError_eq_ok.trans hobject.makes_iff.symm, fun hnone => ?_⟩
    simp only [hobject.makes_iff] at hnone
    cases hrule : Draft.rule (withoutNulls ms) with
    | ok r => exact absurd hrule (hnone r)
    | error problems => exact ⟨.unrepaired problems, by simp only [Except.bind, hrule, Except.mapError]⟩

/-- The course of a session with these answers at its two ends: one request if the first answer is of no
use or makes a rule, else a second one with the draft and all that is wrong with it; the last answer
decides what comes out. -/
structure Course (a : Author) (description : String) (s : Session σ) (first last : String) : Prop where
  asked : s.requests.head? = some (a.first description)
  once : s.requests.length = 1 ↔ Unusable first ∨ ∃ r, Makes first r
  twice : s.requests.length = 2 ↔ ¬(Unusable first ∨ ∃ r, Makes first r)
  rule : ∀ r, s.outcome = .ok r ↔ Makes last r
  refused : (∀ r, ¬Makes last r) → ∃ fault, s.outcome = .error (.draft fault)
  told : ∀ again ∈ s.requests[1]?, ∃ ms errors, HoldsObject first ms ∧
    Rule.reader (.ofJson (withoutNulls ms)) = .error errors ∧ errors ≠ [] ∧
    again = a.repair (withoutNulls ms) (errors.map Form.Error.plainLine) ∧
    again.prompt = "The following generated rule has validation errors:\n\nRule:\n" ++
      Json.render .block (withoutNulls ms) ++ "\n\nValidation errors:\n" ++
      Text.bulleted "- " (errors.map Form.Error.plainLine) ++
      "\n\nPlease fix the rule to pass schema validation."

theorem session_of_error (h : ofReply (m.ask source (a.first description)).1.reply = .error f) :
    session m a description source =
      ⟨.error f, [a.first description], [], (m.ask source (a.first description)).2⟩ := by
  simp only [session, h]

theorem session_of_rule (h : ofReply (m.ask source (a.first description)).1.reply = .ok draft)
    (hrule : Draft.rule draft = .ok r) : session m a description source =
      ⟨.ok r, [a.first description], [], (m.ask source (a.first description)).2⟩ := by
  simp only [session, h, hrule]

theorem session_of_problems (h : ofReply (m.ask source (a.first description)).1.reply = .ok draft)
    (hrule : Draft.rule draft = .error problems) :
    let (response, source') := m.ask (m.ask source (a.first description)).2 (a.repair draft problems)
    session m a description source =
      ⟨(ofReply response.reply).bind fun fixed =>
          (Draft.rule fixed).mapError fun problems => .draft (.unrepaired problems),
        [a.first description, a.repair draft problems], [repairRecord problems], source'⟩ := by
  simp only [session, h, hrule]

theorem session_first (m : Source σ) (a : Author) (description : String) (source : σ) :
    ∃ rest, (session m a description source).requests = a.first description :: rest := by
  cases hreply : ofReply (m.ask source (a.first description)).1.reply with
  | error f => exact ⟨_, by rw [session_of_error hreply]⟩
  | ok draft =>
    cases hrule : Draft.rule draft with
    | ok r => exact ⟨_, by rw [session_of_rule hreply hrule]⟩
    | error problems => exact ⟨_, by rw [session_of_problems hreply hrule]⟩

theorem course_of_unusable (hfirst : (m.ask source (a.first description)).1.reply = .ok first)
    (hunusable : Unusable first) (hdecodes : Decodes first) :
    Course a description (session m a description source) first first := by
  obtain ⟨fault, hfault⟩ := hunusable.ofContent hdecodes
  have hnone : ∀ r, ¬Makes first r := fun r ⟨_, hobject, _⟩ => hobject.not_unusable hunusable
  rw [session_of_error (f := .draft fault) (by rw [hfirst]; exact hfault)]
  exact {
    asked := rfl
    once := iff_of_true rfl (.inl hunusable)
    twice := iff_of_false nofun (not_not_intro (.inl hunusable))
    rule := fun r => iff_of_false nofun (hnone r)
    refused := fun _ => ⟨fault, rfl⟩
    told := nofun }

theorem course_of_rule (hfirst : (m.ask source (a.first description)).1.reply = .ok first)
    (hobject : HoldsObject first ms) (hrule : Draft.rule (withoutNulls ms) = .ok r) :
    Course a description (session m a description source) first first := by
  have hmakes : Makes first r := hobject.makes_iff.mpr hrule
  rw [session_of_rule (by rw [hfirst]; exact hobject.ofContent) hrule]
  exact {
    asked := rfl
    once := iff_of_true rfl (.inr ⟨r, hmakes⟩)
    twice := iff_of_false nofun (not_not_intro (.inr ⟨r, hmakes⟩))
    rule := fun r' => by simp only [hobject.makes_iff, hrule, Except.ok.injEq]
    refused := fun hnone => absurd hmakes (hnone r)
    told := nofun }

theorem course_of_problems (hfirst : (m.ask source (a.first description)).1.reply = .ok first)
    (hobject : HoldsObject first ms) (hrule : Draft.rule (withoutNulls ms) = .error problems)
    (hlast : (m.ask (m.ask source (a.first description)).2
      (a.repair (withoutNulls ms) problems)).1.reply = .ok last) (hdecodes : Decodes last) :
    Course a description (session m a description source) first last := by
  have hnot : ¬(Unusable first ∨ ∃ r, Makes first r) := by
    rintro (hunusable | ⟨r, hmakes⟩)
    · exact hobject.not_unusable hunusable
    · cases (hobject.makes_iff.mp hmakes).symm.trans hrule
  obtain ⟨hends, hrefused⟩ := ofContent_bind hdecodes
  obtain ⟨errors, herrors, htold, rfl⟩ := rule_eq_error hrule
  rw [session_of_problems (by rw [hfirst]; exact hobject.ofContent) hrule, hlast]
  exact {
    asked := rfl
    once := iff_of_false nofun hnot
    twice := iff_of_true rfl hnot
    rule := hends
    refused := hrefused
    told := by
      intro again hagain
      cases hagain
      exact ⟨ms, errors, hobject, herrors, htold, rfl, rfl⟩ }

/-- As long as answers come, and each can be told to be JSON or not, drafting takes its course. -/
theorem session_course (m : Source σ) (a : Author) (description : String) (source : σ)
    (h : ∀ reply ∈ m.replies (session m a description source).requests source,
      ∃ content, reply = .ok content ∧ Decodes content) :
    let s := session m a description source
    ∃ first last, (m.replies s.requests source).head? = some (.ok first) ∧
      (m.replies s.requests source).getLast? = some (.ok last) ∧ Course a description s first last := by
  obtain ⟨first, hfirst, hdecodes⟩ : ∃ first,
      (m.ask source (a.first description)).1.reply = .ok first ∧ Decodes first := by
    obtain ⟨rest, hrest⟩ := session_first m a description source
    exact h _ (by rw [hrest, Source.replies]; exact List.mem_cons_self)
  have hhead := congrArg some hfirst
  rcases unusable_or_holdsObject first with hunusable | ⟨ms, hobject⟩
  · have hcourse := course_of_unusable hfirst hunusable hdecodes
    obtain ⟨fault, hfault⟩ := hunusable.ofContent hdecodes
    have hread : ofReply (m.ask source (a.first description)).1.reply = .error (.draft fault) := by
      rw [hfirst]
      exact hfault
    have hsession := session_of_error hread
    exact ⟨first, first, by rw [hsession]; exact hhead, by rw [hsession]; exact hhead, hcourse⟩
  · have hdraft : ofReply (m.ask source (a.first description)).1.reply = .ok (withoutNulls ms) := by
      rw [hfirst]
      exact hobject.ofContent
    cases hrule : Draft.rule (withoutNulls ms) with
    | ok r =>
      have hcourse := course_of_rule hfirst hobject hrule
      have hsession := session_of_rule hdraft hrule
      exact ⟨first, first, by rw [hsession]; exact hhead, by rw [hsession]; exact hhead, hcourse⟩
    | error problems =>
      have hsession := session_of_problems hdraft hrule
      obtain ⟨last, hlast, hdecodes'⟩ := h
        (m.ask (m.ask source (a.first description)).2 (a.repair (withoutNulls ms) problems)).1.reply
        (by rw [hsession]; exact List.mem_cons_of_mem _ List.mem_cons_self)
      have hcourse := course_of_problems hfirst hobject hrule hlast hdecodes'
      exact ⟨first, last, by rw [hsession]; exact hhead,
        by rw [hsession]; exact congrArg some hlast, hcourse⟩

end

namespace Sample

def faulty : String := "\x7b\"id\": \"No-Print\", \"name\": null, \"severity\": \"error\", " ++
  "\"glob\": \"*.py\", \"prompt\": \"Do not print.\", \"level\": 3\x7d"

def inTurn : Source (List String) := ⟨fun contents _ => (⟨0.0, .ok (contents.headD "")⟩, contents.tail)⟩

theorem decodes_of_isOk {content : String}
    (h : (Json.parse .general content).toOption.isSome = true) : Decodes content := by
  intro e he
  rw [he] at h
  cases h

/-- The faulty draft goes back, and the mended one makes the rule. -/
theorem session_course_mended :
    let s := session inTurn author "No prints" [faulty, draft]
    (∀ reply ∈ inTurn.replies s.requests [faulty, draft], ∃ content, reply = .ok content ∧ Decodes content) ∧
    (∃ first last, (inTurn.replies s.requests [faulty, draft]).head? = some (.ok first) ∧
      (inTurn.replies s.requests [faulty, draft]).getLast? = some (.ok last) ∧
      Course author "No prints" s first last) ∧
    s.requests.length = 2 ∧ s.outcome = .ok rule := by
  intro s
  obtain ⟨hreplies, hlength, houtcome⟩ : inTurn.replies s.requests [faulty, draft] = [.ok faulty, .ok draft] ∧
      s.requests.length = 2 ∧ s.outcome = .ok rule := by decide +kernel
  have hanswered : ∀ reply ∈ inTurn.replies s.requests [faulty, draft],
      ∃ content, reply = .ok content ∧ Decodes content := by
    rw [hreplies]
    intro reply hreply
    simp only [List.mem_cons, List.not_mem_nil, or_false] at hreply
    rcases hreply with rfl | rfl
    · exact ⟨faulty, rfl, decodes_of_isOk (by decide +kernel)⟩
    · exact ⟨draft, rfl, decodes_of_isOk (by decide +kernel)⟩
  exact ⟨hanswered, session_course inTurn author "No prints" [faulty, draft] hanswered, hlength, houtcome⟩

end Sample
end Draft
end JudgedLint

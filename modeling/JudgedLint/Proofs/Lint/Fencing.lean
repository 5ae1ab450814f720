import JudgedLint.Proofs.Json.Extent
import JudgedLint.Proofs.Lint.Outcome

/-! Answers in a fence. A model may put its object into a fence, with something behind the opening ticks,
and may leave the fence open. What is read is the object all the same: the first line is not part of it, and
neither ticks nor fences within its texts are taken for the closing one, since the object ends in a brace. -/
namespace JudgedLint.Text

variable {before after inner cs : List Char} {first last c : Char}

theorem dropWhile_blank (hbefore : before.all isBlank = true) (hc : isBlank c = false) :
    (before ++ c :: cs).dropWhile isBlank = c :: cs := by
  rw [List.dropWhile_append_of_pos (List.all_eq_true.mp hbefore), List.dropWhile_cons_of_neg (by simp [hc])]

theorem dropEndWhile_blank (hafter : after.all isBlank = true) (hc : isBlank c = false) :
    dropEndWhile isBlank (cs ++ c :: after) = cs ++ [c] := by
  have hreverse : (cs ++ c :: after).reverse = after.reverse ++ c :: cs.reverse := by simp
  rw [dropEndWhile, hreverse, dropWhile_blank (by rwa [List.all_reverse]) hc]
  simp

theorem trim_eq {s : String} (hs : s.toList = before ++ first :: (inner ++ last :: after))
    (hbefore : before.all isBlank = true) (hafter : after.all isBlank = true)
    (hfirst : isBlank first = false) (hlast : isBlank last = false) :
    trim s = String.ofList (first :: (inner ++ [last])) := by
  rw [trim, hs, dropWhile_blank hbefore hfirst, ← List.cons_append, dropEndWhile_blank hafter hlast]
  rfl

theorem isBlankText_eq_false {s : String} (hs : s.toList = before ++ c :: cs) (hc : isBlank c = false) :
    isBlankText s = false := by
  rw [isBlankText, hs, List.all_append, List.all_cons, hc, Bool.false_and, Bool.and_false]

end JudgedLint.Text

namespace JudgedLint.Lint

open Model (Reply Response)
open Text (isBlank isBlankText)

/-- A text that some reader takes for a JSON object, however many levels and digits it allows. -/
def IsObjectText (s : String) : Prop := ∃ l ms, Json.parse l s = .ok (.obj ms)

def lineEnds : List String := ["\n", "\r\n"]

/-- A text in a fence with blanks around it: the opening ticks are followed by any other text on their
line, and the closing ones may be missing. -/
inductive Fenced (v : String) : String → Prop where
  | closed {before info nl nl' after : String} (hbefore : isBlankText before = true)
      (hinfo : '\n' ∉ info.toList) (hnl : nl ∈ lineEnds) (hnl' : nl' ∈ lineEnds)
      (hafter : isBlankText after = true) :
      Fenced v (before ++ "```" ++ info ++ nl ++ v ++ nl' ++ "```" ++ after)
  | unclosed {before info nl after : String} (hbefore : isBlankText before = true)
      (hinfo : '\n' ∉ info.toList) (hnl : nl ∈ lineEnds) (hafter : isBlankText after = true) :
      Fenced v (before ++ "```" ++ info ++ nl ++ v ++ after)

/-- A reply and the same one, or its object in a fence. -/
inductive Refenced : Reply → Reply → Prop where
  | same (r : Reply) : Refenced r r
  | fenced {v s : String} (hv : IsObjectText v) (h : Fenced v s) : Refenced (.ok v) (.ok s)

/-- A text that is braces around something, with blanks around the braces. -/
def Braced (inner : List Char) (s : String) : Prop := ∃ before after,
  s.toList = before ++ '\x7b' :: (inner ++ '\x7d' :: after) ∧
    before.all isBlank = true ∧ after.all isBlank = true

variable {s v nl : String} {inner cs ds : List Char}

theorem isBlank_of_isSpace {c : Char} (h : Json.isSpace c = true) : isBlank c = true := by
  simp only [Json.isSpace, Bool.or_eq_true, beq_iff_eq] at h
  rcases h with ((rfl | rfl) | rfl) | rfl <;> rfl

theorem all_isBlank_of_isSpace (h : cs.all Json.isSpace = true) : cs.all isBlank = true :=
  List.all_eq_true.mpr fun c hc => isBlank_of_isSpace (List.all_eq_true.mp h c hc)

theorem IsObjectText.braced (h : IsObjectText v) : ∃ inner, Braced inner v := by
  obtain ⟨l, ms, hparse⟩ := h
  obtain ⟨before, inner, after, hv, hbefore, hafter⟩ := Json.parse_object hparse
  exact ⟨inner, before, after, hv, all_isBlank_of_isSpace hbefore, all_isBlank_of_isSpace hafter⟩

theorem isObjectText_of_ofText {s : String} {v : Verdict} (h : Verdict.ofText s = .ok v) : IsObjectText s := by
  simp only [Verdict.ofText] at h
  split at h
  · cases h
  · next ms hparse => exact ⟨.strict, ms, hparse⟩
  · cases h

theorem Braced.trim (h : Braced inner s) :
    Text.trim s = String.ofList ('\x7b' :: (inner ++ ['\x7d'])) := by
  obtain ⟨before, after, hs, hbefore, hafter⟩ := h
  exact Text.trim_eq hs hbefore hafter rfl rfl

theorem Braced.isBlankText (h : Braced inner s) : isBlankText s = false := by
  obtain ⟨before, after, hs, _, _⟩ := h
  exact Text.isBlankText_eq_false hs rfl

theorem Braced.append (h : Braced inner (String.ofList cs)) (hds : ds.all isBlank = true) :
    Braced inner (String.ofList (cs ++ ds)) := by
  obtain ⟨before, after, hs, hbefore, hafter⟩ := h
  rw [String.toList_ofList] at hs
  refine ⟨before, after ++ ds, ?_, hbefore, ?_⟩
  · rw [String.toList_ofList, hs]
    simp
  · rw [List.all_append, hafter, hds]
    rfl

theorem afterFirstLine_append (h : '\n' ∉ cs) : afterFirstLine (cs ++ '\n' :: ds) = ds := by
  have hline : ∀ c ∈ cs, (c != '\n') = true := fun c hc => bne_iff_ne.mpr fun heq => h (heq ▸ hc)
  rw [afterFirstLine, List.dropWhile_append_of_pos hline]
  rfl

theorem dropClosingFence_fence : dropClosingFence (cs ++ fence) = cs := by
  have hend : Text.dropEndWhile isBlank (cs ++ fence) = cs ++ fence := by
    have hsplit : cs ++ fence = (cs ++ ['`', '`']) ++ '`' :: [] := by simp [fence]
    rw [hsplit]
    exact Text.dropEndWhile_blank rfl rfl
  have hsuffix : fence.isSuffixOf (cs ++ fence) = true :=
    List.isSuffixOf_iff_suffix.mpr (List.suffix_append cs fence)
  simp only [dropClosingFence, hend, hsuffix, if_true, List.length_append]
  exact List.take_left

theorem dropClosingFence_brace : dropClosingFence (cs ++ ['\x7d']) = cs ++ ['\x7d'] := by
  have hend : Text.dropEndWhile isBlank (cs ++ ['\x7d']) = cs ++ ['\x7d'] :=
    Text.dropEndWhile_blank rfl rfl
  have hsuffix : fence.isSuffixOf (cs ++ ['\x7d']) = false := by
    rw [Bool.eq_false_iff]
    intro h
    obtain ⟨front, hfront⟩ := List.isSuffixOf_iff_suffix.mp h
    have hlast := congrArg List.getLast? hfront
    simp [fence] at hlast
  simp [dropClosingFence, hend, hsuffix]

theorem stripFences_braced (h : Braced inner v) :
    stripFences v = String.ofList ('\x7b' :: (inner ++ ['\x7d'])) := by
  have hopen : fence.isPrefixOf ('\x7b' :: (inner ++ ['\x7d'])) = false := rfl
  have hbraced : Braced inner (String.ofList ('\x7b' :: (inner ++ ['\x7d']))) :=
    ⟨[], [], String.toList_ofList, rfl, rfl⟩
  simp only [stripFences, h.trim, String.toList_ofList, hopen, Bool.false_eq_true, if_false]
  exact hbraced.trim

/-- Behind the opening line, the fence around the text is dropped and blanks are trimmed. -/
theorem stripFences_opened (hs : Text.trim s = String.ofList (fence ++ cs ++ '\n' :: ds)) (hcs : '\n' ∉ cs)
    (hds : Braced inner (String.ofList (dropClosingFence ds))) :
    stripFences s = String.ofList ('\x7b' :: (inner ++ ['\x7d'])) := by
  have hopen : fence.isPrefixOf (fence ++ cs ++ '\n' :: ds) = true := by
    rw [List.append_assoc]
    exact List.isPrefixOf_iff_prefix.mpr (List.prefix_append fence _)
  have hline : '\n' ∉ fence ++ cs := by
    rw [List.mem_append, not_or]
    exact ⟨by decide, hcs⟩
  simp only [stripFences, hs, String.toList_ofList, hopen, if_true, afterFirstLine_append hline]
  exact hds.trim

theorem lineEnd_cases (h : nl ∈ lineEnds) : ∃ cr, nl.toList = cr ++ ['\n'] ∧ '\n' ∉ cr ∧
    nl.toList.all isBlank = true := by
  simp only [lineEnds, List.mem_cons, List.not_mem_nil, or_false] at h
  rcases h with rfl | rfl
  · exact ⟨[], rfl, by decide, rfl⟩
  · exact ⟨['\r'], rfl, by decide, rfl⟩

theorem stripFences_fenced (hv : Braced inner v) (h : Fenced v s) :
    stripFences s = String.ofList ('\x7b' :: (inner ++ ['\x7d'])) := by
  cases h with
  | @closed before info nl nl' after hbefore hinfo hnl hnl' hafter =>
    obtain ⟨cr, hcr, hline, _⟩ := lineEnd_cases hnl
    obtain ⟨_, _, _, hblank⟩ := lineEnd_cases hnl'
    have hs : (before ++ "```" ++ info ++ nl ++ v ++ nl' ++ "```" ++ after).toList =
        before.toList ++ '`' :: ((['`', '`'] ++ info.toList ++ nl.toList ++ v.toList ++ nl'.toList ++
          ['`', '`']) ++ '`' :: after.toList) := by simp
    have htrim : Text.trim (before ++ "```" ++ info ++ nl ++ v ++ nl' ++ "```" ++ after) =
        String.ofList (fence ++ (info.toList ++ cr) ++ '\n' :: (v.toList ++ nl'.toList ++ fence)) := by
      rw [Text.trim_eq hs hbefore hafter rfl rfl, hcr]
      simp [fence]
    refine stripFences_opened htrim ?_ ?_
    · rw [List.mem_append, not_or]
      exact ⟨hinfo, hline⟩
    · rw [dropClosingFence_fence]
      exact Braced.append (by rwa [String.ofList_toList]) hblank
  | @unclosed before info nl after hbefore hinfo hnl hafter =>
    obtain ⟨cr, hcr, hline, _⟩ := lineEnd_cases hnl
    obtain ⟨before', after', hvs, hbefore', hafter'⟩ := hv
    have hs : (before ++ "```" ++ info ++ nl ++ v ++ after).toList =
        before.toList ++ '`' :: ((['`', '`'] ++ info.toList ++ nl.toList ++ before' ++ '\x7b' :: inner) ++
          '\x7d' :: (after' ++ after.toList)) := by simp [hvs]
    have hbehind : (after' ++ after.toList).all isBlank = true := by
      rw [List.all_append, hafter']
      exact hafter
    have htrim : Text.trim (before ++ "```" ++ info ++ nl ++ v ++ after) =
        String.ofList (fence ++ (info.toList ++ cr) ++ '\n' :: (before' ++ '\x7b' :: inner ++ ['\x7d'])) := by
      rw [Text.trim_eq hs hbefore hbehind rfl rfl, hcr]
      simp [fence]
    refine stripFences_opened htrim ?_ ?_
    · rw [List.mem_append, not_or]
      exact ⟨hinfo, hline⟩
    · rw [dropClosingFence_brace]
      exact ⟨before', [], by simp, hbefore', rfl⟩

theorem Fenced.isBlankText (h : Fenced v s) : isBlankText s = false := by
  cases h with
  | @closed before info nl nl' after =>
    have hs : (before ++ "```" ++ info ++ nl ++ v ++ nl' ++ "```" ++ after).toList =
        before.toList ++ '`' :: (['`', '`'] ++ info.toList ++ nl.toList ++ v.toList ++ nl'.toList ++ fence ++
          after.toList) := by simp [fence]
    exact Text.isBlankText_eq_false hs rfl
  | @unclosed before info nl after =>
    have hs : (before ++ "```" ++ info ++ nl ++ v ++ after).toList =
        before.toList ++ '`' :: (['`', '`'] ++ info.toList ++ nl.toList ++ v.toList ++ after.toList) := by simp
    exact Text.isBlankText_eq_false hs rfl

/-- A fence does not change what a reply gives: the same verdict, or the same failure. -/
theorem Refenced.ofReply {r r' : Reply} (h : Refenced r r') : Verdict.ofReply r' = Verdict.ofReply r := by
  cases h with
  | same => rfl
  | @fenced v s hv h =>
    obtain ⟨inner, hbraced⟩ := hv.braced
    have hstrip : stripFences s = stripFences v :=
      (stripFences_fenced hbraced h).trans (stripFences_braced hbraced).symm
    change Verdict.ofContent s = Verdict.ofContent v
    rw [Verdict.ofContent, Verdict.ofContent, h.isBlankText, hbraced.isBlankText, hstrip]

/-- Fences around the objects that a model answers with change nothing: every attempt gives the same
verdict or fails in the same way, and the job ends with the same outcome behind the same calls. -/
theorem judgeDrawn_refenced (g : Judge) (draws : Nat → Float) (j : Job) {responses responses' : Nat → Response}
    (hlatency : ∀ k, (responses' k).latency = (responses k).latency)
    (h : ∀ k, Refenced (responses k).reply (responses' k).reply) :
    (∀ k, Verdict.ofReply (responses' k).reply = Verdict.ofReply (responses k).reply) ∧
      g.judgeDrawn draws j responses' = g.judgeDrawn draws j responses := by
  have hreplies : ∀ k, Verdict.ofReply (responses' k).reply = Verdict.ofReply (responses k).reply :=
    fun k => (h k).ofReply
  refine ⟨hreplies, ?_⟩
  simp only [Judge.judgeDrawn, hreplies, hlatency]

namespace Sample

/-- A fence within the message, and one around the object, with carriage returns and not closed. -/
theorem judgeDrawn_refenced_ticks :
    let v := "\x7b\"pass\": false, \"message\": \"Use ```\\n```.\"\x7d"
    let s := " " ++ "```" ++ "json" ++ "\r\n" ++ v ++ "\n"
    Refenced (.ok v) (.ok s) ∧
      Verdict.ofReply (.ok s) = .ok ⟨false, "Use ```\n```.", none⟩ ∧
      onceOnly.judgeDrawn (fun _ => 0.5) (job .error) (fun _ => ⟨0.5, .ok s⟩) =
        onceOnly.judgeDrawn (fun _ => 0.5) (job .error) (fun _ => ⟨0.5, .ok v⟩) := by
  intro v s
  have hobject : IsObjectText v :=
    isObjectText_of_ofText (v := ⟨false, "Use ```\n```.", none⟩) (by decide +kernel)
  have hrefenced : Refenced (.ok v) (.ok s) := .fenced hobject (.unclosed rfl (by decide) (by decide) rfl)
  obtain ⟨hreply, hjudge⟩ := @judgeDrawn_refenced onceOnly (fun _ => 0.5) (job .error)
    (fun _ => ⟨0.5, .ok v⟩) (fun _ => ⟨0.5, .ok s⟩) (fun _ => rfl) fun _ => hrefenced
  refine ⟨hrefenced, ?_, hjudge⟩
  rw [hreply 0]
  decide +kernel

end Sample
end JudgedLint.Lint

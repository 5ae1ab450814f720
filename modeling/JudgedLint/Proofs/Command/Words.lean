import JudgedLint.Command.Basic
import JudgedLint.Proofs.Except
import JudgedLint.Proofs.Json.Members

/-! A line that asks for a report. The flag that says so, put right behind the name of the command, is
read like any other word and changes nothing else of what the line asks for. -/
namespace JudgedLint.Command

variable {g : Grammar} {x : Switch × String}

namespace Reading

def withFirst (x : Switch × String) (r : Reading) : Reading := { r with given := x :: r.given }

theorem take_withFirst (hx : x.1.flag ∉ g.exclusive) (taken : List (Switch × String)) (r : Reading) :
    (r.withFirst x).take g taken = (r.take g taken).map (withFirst x) := by
  induction taken generalizing r with
  | nil => rfl
  | cons p rest ih =>
    obtain ⟨s, value⟩ := p
    have hfind : ∀ flag, (r.withFirst x).given.find? (fun p =>
          (if g.exclusive.contains flag then g.exclusive.filter (· != flag) else []).contains
            p.1.flag) =
        r.given.find? fun p =>
          (if g.exclusive.contains flag then g.exclusive.filter (· != flag) else []).contains
            p.1.flag := by
      intro flag
      refine List.find?_cons_of_neg ?_
      split
      · simpa [List.mem_filter] using fun h => absurd h hx
      · simp
    simp only [take, hfind]
    split
    · rfl
    · rfl
    · split
      · rfl
      · exact ih { r with given := r.given ++ [(s, value)], ended := r.begun }

theorem takeOperand_withFirst (r : Reading) (text : String) (isDivider : Bool) (rest : List String) :
    (r.withFirst x).takeOperand g text isDivider rest =
      (r.takeOperand g text isDivider rest).map fun p => (p.1.withFirst x, p.2) := by
  unfold takeOperand
  split
  · rfl
  · cases hended : r.ended with
    | true => simp only [withFirst, hended, if_true]; rfl
    | false => simp only [withFirst, hended, Bool.false_eq_true, if_false]; rfl
  · split
    · rfl
    · split <;> rfl

/-- An option that excludes no other is read on its own. -/
theorem takeAll_withFirst (hx : x.1.flag ∉ g.exclusive) : ∀ (ws : List (Word × String)) (r : Reading),
    takeAll g ws (r.withFirst x) = (takeAll g ws r).map (withFirst x)
  | [], _ => rfl
  | (w, text) :: rest, r => by
    -- The two ways in which a word is taken, each with the words behind it.
    have htake : ∀ (taken : List (Switch × String)) (r : Reading) (rest : List (Word × String)),
        (∀ r, takeAll g rest (r.withFirst x) = (takeAll g rest r).map (withFirst x)) →
        (do takeAll g rest (← (r.withFirst x).take g taken)) =
          (do takeAll g rest (← r.take g taken)).map (withFirst x) := by
      intro taken r rest hrest
      rw [take_withFirst hx]
      cases r.take g taken with
      | error st => rfl
      | ok r' => exact hrest r'
    have htext : ∀ isDivider,
        ((r.withFirst x).takeOperand g text isDivider (rest.map (·.2)) >>= fun p =>
          if p.2 then return p.1 else takeAll g rest p.1) =
        Except.map (withFirst x) (r.takeOperand g text isDivider (rest.map (·.2)) >>= fun p =>
          if p.2 then return p.1 else takeAll g rest p.1) := by
      intro isDivider
      rw [takeOperand_withFirst]
      cases r.takeOperand g text isDivider (rest.map (·.2)) with
      | error st => rfl
      | ok p =>
        obtain ⟨r', isEnd⟩ := p
        cases isEnd with
        | true => rfl
        | false => exact takeAll_withFirst hx rest r'
    cases w with
    | operand _ => exact htext false
    | divider => exact htext true
    | stranger word =>
      exact takeAll_withFirst hx rest { r with strangers := r.strangers ++ [word], ended := r.begun }
    | option hit =>
      simp only [takeAll]
      cases g.unfold hit.switch (Grammar.isLong hit.name) hit.isSigned (hit.value.map String.toList) with
      | error fault => rfl
      | ok u =>
        have hstrange : ({ r.withFirst x with strangers := (r.withFirst x).strangers ++ u.stranger.toList } :
            Reading) = { r with strangers := r.strangers ++ u.stranger.toList }.withFirst x := rfl
        simp only [hstrange]
        cases u.wanting with
        | none => exact htake u.taken _ rest (takeAll_withFirst hx rest)
        | some s =>
          rcases rest with _ | ⟨⟨w', value⟩, rest⟩
          · rfl
          · cases w' with
            | operand _ => exact htake _ _ rest (takeAll_withFirst hx rest)
            | divider => rfl
            | option _ => rfl
            | stranger _ => rfl

end Reading

/-! ### Words and their kinds -/

def Grammar.sorted (g : Grammar) (words : List String) : Except UsageFault (List (Word × String)) :=
  (g.sortWords words).map (·.zip words)

def operands (words : List String) : List (Word × String) := words.map fun word => (.operand word, word)

@[simp] theorem operands_texts (words : List String) : (operands words).map (·.2) = words := by
  rw [operands, List.map_map]
  exact List.map_id words

theorem sorted_divider (g : Grammar) (rest : List String) :
    g.sorted (dividerText :: rest) = .ok ((.divider, dividerText) :: operands rest) := by
  have hzip : (rest.map Word.operand).zip rest = operands rest := by
    induction rest with
    | nil => rfl
    | cons word rest ih =>
      rw [List.map_cons, List.zip_cons_cons, ih]
      rfl
  rw [Grammar.sorted, Grammar.sortWords, if_pos (beq_self_eq_true _)]
  exact congrArg (fun ws => Except.ok ((Word.divider, dividerText) :: ws)) hzip

theorem sorted_cons {word : String} (hword : word ≠ dividerText) (rest : List String) :
    g.sorted (word :: rest) = (do
      let w ← g.sortWord word
      let ws ← g.sorted rest
      return (w, word) :: ws) := by
  rw [Grammar.sorted, Grammar.sortWords, if_neg (by simpa using hword), Grammar.sorted]
  cases g.sortWord word with
  | error fault => rfl
  | ok w => cases g.sortWords rest <;> rfl

theorem sorted_texts {words : List String} {ws : List (Word × String)}
    (h : g.sorted words = .ok ws) : ws.map (·.2) = words := by
  induction words generalizing ws with
  | nil =>
    cases h
    rfl
  | cons word rest ih =>
    by_cases hword : word = dividerText
    · subst hword
      rw [sorted_divider] at h
      cases h
      simp
    · rw [sorted_cons hword] at h
      obtain ⟨w, _, h⟩ := bind_eq_ok.mp h
      obtain ⟨ws', hrest, h⟩ := bind_eq_ok.mp h
      cases pure_eq_ok.mp h
      rw [List.map_cons, ih hrest]

theorem ofWords_eq (g : Grammar) (words : List String) : Reading.ofWords g words =
    match g.sorted words with
    | .error fault => .error (.refused g fault)
    | .ok ws => Reading.takeAll g ws {} := by
  rw [Reading.ofWords, Grammar.sorted]
  cases g.sortWords words <;> rfl

theorem mem_switches {name : String} {s : Switch} (h : (name, s) ∈ g.namedSwitches) :
    s ∈ g.switches := by
  obtain ⟨s', hs', hmem⟩ := List.mem_flatMap.mp h
  obtain ⟨_, _, heq⟩ := List.mem_map.mp hmem
  cases heq
  exact hs'

theorem find_switch {name : String} {s : Switch} (h : g.find? name = some s) : s ∈ g.switches :=
  mem_switches (Json.mem_of_lookup h)

theorem candidates_switch {word : String} {hit : Hit} (h : hit ∈ g.candidates word) :
    hit.switch ∈ g.switches := by
  unfold Grammar.candidates at h
  split at h
  · obtain ⟨⟨name, s⟩, hn, hhit⟩ := List.mem_filterMap.mp h
    obtain ⟨_, hsome⟩ := Option.ite_none_right_eq_some.mp hhit
    cases hsome
    exact mem_switches hn
  · obtain ⟨⟨name, s⟩, hn, hhit⟩ := List.mem_filterMap.mp h
    split at hhit
    · cases hhit
      exact mem_switches hn
    · split at hhit
      · cases hhit
        exact mem_switches hn
      · cases hhit

theorem sortWord_switch {word : String} {hit : Hit} (h : g.sortWord word = .ok (.option hit)) :
    hit.switch ∈ g.switches := by
  unfold Grammar.sortWord at h
  split at h
  · cases h
  · split at h
    · next hit' hnamed' =>
      cases h
      unfold Grammar.named? at hnamed'
      split at hnamed'
      · next s hs =>
        cases hnamed'
        exact find_switch hs
      · obtain ⟨s, hs, rfl⟩ := Option.map_eq_some_iff.mp hnamed'
        exact find_switch hs
      · cases hnamed'
    · split at h
      · cases h
      · split at h
        · next hit' hhits =>
          cases h
          have hmem : hit ∈ g.candidates word := by rw [hhits]; exact List.mem_singleton_self _
          exact candidates_switch hmem
        · split at h <;> cases h
        · cases h

theorem unfold_wanting (hg : ∀ s ∈ g.switches, s.value = none) {s : Switch} (hs : s.value = none)
    {isLong isSigned : Bool} {left : Option (List Char)} {u : Grammar.Unfolded}
    (h : g.unfold s isLong isSigned left = .ok u) : u.wanting = none := by
  have hmore : ∀ {s : Switch} {more : Except UsageFault Grammar.Unfolded} {u : Grammar.Unfolded},
      (∀ {u : Grammar.Unfolded}, more = .ok u → u.wanting = none) →
      (more.bind fun u => pure { u with taken := (s, "") :: u.taken }) = .ok u → u.wanting = none := by
    intro s more u hmore h
    obtain ⟨u', hu', h⟩ := bind_eq_ok.mp h
    cases pure_eq_ok.mp h
    exact (hmore hu' : u'.wanting = none)
  fun_induction Grammar.unfold g s isLong isSigned left generalizing u with
  | case1 s =>
    rw [hs] at h
    cases h
    rfl
  | case2 s =>
    cases h
    rfl
  | case3 => cases h
  | case4 => cases h
  | case5 =>
    cases h
    rfl
  | case6 _ _ _ _ _ _ next hnext _ ih => exact hmore (ih (hg _ (find_switch hnext))) h
  | case7 _ _ _ _ _ _ next hnext _ _ ih => exact hmore (ih (hg _ (find_switch hnext))) h
  | case8 _ _ _ _ _ _ next hnext _ _ _ _ ih => exact hmore (ih (hg _ (find_switch hnext))) h

/-! ### The command behind its options -/

/-- A word in front of the command: if it is an option, then one of those that stand there. -/
structure Front (w : Word × String) : Prop where
  dashed : Text.startsWith w.2 "-" = true
  switch : ∀ hit, w.1 = .option hit → hit.switch ∈ Grammar.top.switches

def reportFlag : String := "--report-only"

theorem sorted_flag (args : List String) :
    Grammar.top.sorted (reportFlag :: args) =
      (Grammar.top.sorted args).map ((.stranger reportFlag, reportFlag) :: ·) := by
  have hword : Grammar.top.sortWord reportFlag = .ok (.stranger reportFlag) := by decide
  rw [sorted_cons (by decide), hword]
  cases Grammar.top.sorted args <;> rfl

theorem sorted_front {front : List String} (hfront : ∀ w ∈ front, Text.startsWith w "-" = true)
    (args : List String) :
    (∃ fault, Grammar.top.sorted (front ++ "lint" :: args) = .error fault ∧
      Grammar.top.sorted (front ++ "lint" :: reportFlag :: args) = .error fault) ∨
    ∃ fs tail tail', (∀ f ∈ fs, Front f) ∧ tail.map (·.2) = args ∧
      tail'.map (·.2) = reportFlag :: args ∧
      Grammar.top.sorted (front ++ "lint" :: args) = .ok (fs ++ (.operand "lint", "lint") :: tail) ∧
      Grammar.top.sorted (front ++ "lint" :: reportFlag :: args) =
        .ok (fs ++ (.operand "lint", "lint") :: tail') := by
  induction front with
  | nil =>
    have hlint : ∀ rest, Grammar.top.sorted ("lint" :: rest) =
        (Grammar.top.sorted rest).map ((.operand "lint", "lint") :: ·) := by
      intro rest
      have hword : Grammar.top.sortWord "lint" = .ok (.operand "lint") := by decide
      rw [sorted_cons (by decide), hword]
      cases Grammar.top.sorted rest <;> rfl
    simp only [List.nil_append, hlint, sorted_flag]
    cases hargs : Grammar.top.sorted args with
    | error fault => exact .inl ⟨fault, rfl, rfl⟩
    | ok ws =>
      have htexts := sorted_texts hargs
      refine .inr ⟨[], ws, (.stranger reportFlag, reportFlag) :: ws, by simp, htexts, ?_, rfl, rfl⟩
      rw [List.map_cons, htexts]
  | cons word front ih =>
    have hdashed := hfront word List.mem_cons_self
    have ih := ih fun w hw => hfront w (List.mem_cons_of_mem _ hw)
    simp only [List.cons_append]
    -- Behind the divider every word is an operand, whatever the induction says of it.
    by_cases hword : word = dividerText
    · subst hword
      have hsorted : ∀ rest, Grammar.top.sorted (dividerText :: (front ++ "lint" :: rest)) =
          .ok ((.divider, dividerText) :: operands front ++ (.operand "lint", "lint") :: operands rest) := by
        intro rest
        rw [sorted_divider]
        simp [operands]
      refine .inr ⟨(.divider, dividerText) :: operands front, operands args,
        operands (reportFlag :: args), ?_, operands_texts _, operands_texts _, hsorted _, hsorted _⟩
      intro f hf
      rcases List.mem_cons.mp hf with rfl | hf
      · exact ⟨hdashed, by simp⟩
      · obtain ⟨w, hw, rfl⟩ := List.mem_map.mp hf
        exact ⟨hfront w (List.mem_cons_of_mem _ hw), by simp⟩
    · rw [sorted_cons hword, sorted_cons hword]
      cases hsort : Grammar.top.sortWord word with
      | error fault => exact .inl ⟨fault, rfl, rfl⟩
      | ok w =>
        obtain ⟨fault, hplain, hflag⟩ | ⟨fs, tail, tail', hfs, htail, htail', hplain, hflag⟩ := ih
        · rw [hplain, hflag]
          exact .inl ⟨fault, rfl, rfl⟩
        · rw [hplain, hflag]
          refine .inr ⟨(w, word) :: fs, tail, tail', ?_, htail, htail', rfl, rfl⟩
          intro f hf
          rcases List.mem_cons.mp hf with rfl | hf
          · refine ⟨hdashed, fun hit hw => ?_⟩
            obtain rfl : w = .option hit := hw
            exact sortWord_switch hsort
          · exact hfs f hf

def unknown (text : String) : UsageFault :=
  .unknownCommand "command" text ["lint", "validate", "generate-rule", "cache"]

theorem takeOperand_dashed {text : String} (htext : Text.startsWith text "-" = true) {r : Reading}
    {isDivider : Bool} {rest : List String} (hrest : rest ≠ []) :
    r.takeOperand .top text isDivider rest = .error (.refused .top (unknown text)) := by
  obtain ⟨choices, hchoices, hnames⟩ : ∃ choices, Grammar.top.operands = .command "command" choices ∧
      (choices.map (·.1) = ["lint", "validate", "generate-rule", "cache"]) := ⟨_, rfl, rfl⟩
  have hnone : choices.lookup text = none := by
    refine Json.lookup_of_notMem fun hmem => ?_
    rw [hnames] at hmem
    simp only [List.mem_cons, List.not_mem_nil, or_false] at hmem
    rcases hmem with rfl | rfl | rfl | rfl <;> exact absurd htext (by decide)
  have hmore : (isDivider && rest.isEmpty) = false := by simp [hrest]
  simp only [Reading.takeOperand, hchoices, hmore, hnone, hnames, Option.isSome_none,
    Bool.false_eq_true, if_false]
  rfl

/-- Up to the name of the command nothing depends on what stands behind it. -/
theorem takeAll_front {fs : List (Word × String)} (hfs : ∀ f ∈ fs, Front f)
    (tail tail' : List (Word × String)) (r : Reading) :
    (∃ st, Reading.takeAll .top (fs ++ (.operand "lint", "lint") :: tail) r = .error st ∧
      Reading.takeAll .top (fs ++ (.operand "lint", "lint") :: tail') r = .error st) ∨
    ∃ r' : Reading, Reading.takeAll .top (fs ++ (.operand "lint", "lint") :: tail) r =
        .ok { r' with command := some ("lint", tail.map (·.2)) } ∧
      Reading.takeAll .top (fs ++ (.operand "lint", "lint") :: tail') r =
        .ok { r' with command := some ("lint", tail'.map (·.2)) } := by
  induction fs generalizing r with
  | nil => exact .inr ⟨r, rfl, rfl⟩
  | cons f fs ih =>
    obtain ⟨w, text⟩ := f
    have hf := hfs _ List.mem_cons_self
    have hrest := fun r => ih (fun f hf => hfs f (List.mem_cons_of_mem _ hf)) r
    have hunknown : ∀ isDivider (tail : List (Word × String)),
        r.takeOperand .top text isDivider
            ((fs ++ (Word.operand "lint", "lint") :: tail).map (·.2)) =
          .error (.refused .top (unknown text)) :=
      fun isDivider tail => takeOperand_dashed hf.dashed (by simp)
    cases w with
    | operand _ =>
      simp only [List.cons_append, Reading.takeAll, hunknown]
      exact .inl ⟨_, rfl, rfl⟩
    | divider =>
      simp only [List.cons_append, Reading.takeAll, hunknown]
      exact .inl ⟨_, rfl, rfl⟩
    | stranger word =>
      exact hrest { r with strangers := r.strangers ++ [word], ended := r.begun }
    | option hit =>
      simp only [List.cons_append, Reading.takeAll]
      cases hu : Grammar.top.unfold hit.switch (Grammar.isLong hit.name) hit.isSigned
        (hit.value.map String.toList) with
      | error fault => exact .inl ⟨_, rfl, rfl⟩
      | ok u =>
        have hvalue : ∀ s ∈ Grammar.top.switches, s.value = none := by decide
        have hwanting := unfold_wanting hvalue (hvalue _ (hf.switch hit rfl)) hu
        simp only [hwanting]
        cases ({ r with strangers := r.strangers ++ u.stranger.toList } : Reading).take .top u.taken with
        | error st => exact .inl ⟨st, rfl, rfl⟩
        | ok r' => exact hrest r'

theorem ofWords_front {front : List String} (hfront : ∀ w ∈ front, Text.startsWith w "-" = true)
    (args : List String) :
    (∃ st, Reading.ofWords .top (front ++ "lint" :: args) = .error st ∧
      Reading.ofWords .top (front ++ "lint" :: reportFlag :: args) = .error st) ∨
    ∃ r : Reading,
      Reading.ofWords .top (front ++ "lint" :: args) =
        .ok { r with command := some ("lint", args) } ∧
      Reading.ofWords .top (front ++ "lint" :: reportFlag :: args) =
        .ok { r with command := some ("lint", reportFlag :: args) } := by
  rw [ofWords_eq, ofWords_eq]
  obtain ⟨fault, hplain, hflag⟩ | ⟨fs, tail, tail', hfs, htail, htail', hplain, hflag⟩ :=
    sorted_front hfront args
  · rw [hplain, hflag]
    exact .inl ⟨_, rfl, rfl⟩
  · have hread := takeAll_front hfs tail tail' {}
    rw [htail, htail'] at hread
    rw [hplain, hflag]
    exact hread

/-! ### The flag behind the command -/

def reportSwitch : Switch :=
  { flag := .reportOnly, names := [reportFlag]
    help := "Write a JSON report instead of printing results" }

/-- The words behind the command are read as without the flag, with its option in front. -/
theorem ofWords_lint_flag (args : List String) :
    Reading.ofWords .lint (reportFlag :: args) =
      (Reading.ofWords .lint args).map (.withFirst (reportSwitch, "")) := by
  have hword : Grammar.lint.sortWord reportFlag =
      .ok (.option ⟨reportSwitch, reportFlag, none, false⟩) := by decide
  rw [ofWords_eq, ofWords_eq, sorted_cons (by decide), hword]
  cases Grammar.lint.sorted args with
  | error fault => rfl
  | ok ws =>
    have hunfold : Grammar.lint.unfold reportSwitch (Grammar.isLong reportFlag) false none =
        .ok { taken := [(reportSwitch, "")] } := by
      rw [Grammar.unfold]
      rfl
    refine Eq.trans ?_ (Reading.takeAll_withFirst (by decide) ws {})
    change Reading.takeAll .lint ((.option ⟨reportSwitch, reportFlag, none, false⟩, reportFlag) :: ws)
      {} = _
    simp only [Reading.takeAll, Option.map_none, hunfold]
    rfl

theorem ofReading_withFirst (r : Reading) :
    LintOptions.ofReading (r.withFirst (reportSwitch, "")) =
      { LintOptions.ofReading r with reportOnly := true } := by
  have hhas : ∀ flag, flag ≠ .reportOnly →
      (r.withFirst (reportSwitch, "")).has flag = r.has flag := by
    intro flag hflag
    have hne : (reportSwitch.flag == flag) = false := beq_eq_false_iff_ne.mpr hflag.symm
    simp only [Reading.has, Reading.withFirst, List.any_cons, hne, Bool.false_or]
  have hvalue : ∀ flag, flag ≠ .reportOnly →
      (r.withFirst (reportSwitch, "")).value? flag = r.value? flag := by
    intro flag hflag
    have hne : (reportSwitch.flag == flag) = false := beq_eq_false_iff_ne.mpr hflag.symm
    simp only [Reading.value?, Reading.withFirst, List.reverse_cons, List.find?_append,
      List.find?_singleton, hne, Bool.false_eq_true, if_false, Option.or_none]
  have hreport : (r.withFirst (reportSwitch, "")).has .reportOnly = true := rfl
  simp only [LintOptions.ofReading, Reading.configPath, hreport]
  rw [hhas .all (by decide), hhas .changed (by decide), hhas .verbose (by decide),
    hvalue .base (by decide), hvalue .config (by decide), hvalue .reportFile (by decide)]
  rfl

theorem ofWords_of_error {words : List String} {st : Stop}
    (h : Reading.ofWords .top words = .error st) : Invocation.ofWords words = .error st := by
  rw [Invocation.ofWords, h]
  rfl

theorem ofWords_of_lint {words args : List String} {r : Reading}
    (h : Reading.ofWords .top words = .ok { r with command := some ("lint", args) }) :
    Invocation.ofWords words =
      match Reading.ofWords .lint args with
      | .error st => .error st
      | .ok r' =>
        if (r.strangers ++ r'.strangers).isEmpty then
          .ok ⟨r.has .debug, some (.lint (.ofReading r'))⟩
        else .error (.refused .top (.strangers (r.strangers ++ r'.strangers))) := by
  rw [Invocation.ofWords, h]
  simp only [bind, Except.bind, ofWords, plain]
  cases Reading.ofWords .lint args with
  | error st => rfl
  | ok r' => rfl

/-- With the flag behind the command, a line is read as without it, except that it asks for a report
only. -/
theorem ofWords_reportFlag {front : List String}
    (hfront : ∀ w ∈ front, Text.startsWith w "-" = true) (args : List String) :
    (∃ st, Invocation.ofWords (front ++ "lint" :: args) = .error st ∧
      Invocation.ofWords (front ++ "lint" :: reportFlag :: args) = .error st) ∨
    ∃ debug o, Invocation.ofWords (front ++ "lint" :: args) = .ok ⟨debug, some (.lint o)⟩ ∧
      Invocation.ofWords (front ++ "lint" :: reportFlag :: args) =
        .ok ⟨debug, some (.lint { o with reportOnly := true })⟩ := by
  obtain ⟨st, hplain, hflag⟩ | ⟨r, hplain, hflag⟩ := ofWords_front hfront args
  · exact .inl ⟨st, ofWords_of_error hplain, ofWords_of_error hflag⟩
  · rw [ofWords_of_lint hplain, ofWords_of_lint hflag, ofWords_lint_flag]
    cases Reading.ofWords .lint args with
    | error st => exact .inl ⟨st, rfl, rfl⟩
    | ok r' =>
      have hstrangers : (r'.withFirst (reportSwitch, "")).strangers = r'.strangers := rfl
      simp only [Except.map, hstrangers, ofReading_withFirst]
      split
      · exact .inr ⟨_, _, rfl, rfl⟩
      · exact .inl ⟨_, rfl, rfl⟩

end JudgedLint.Command

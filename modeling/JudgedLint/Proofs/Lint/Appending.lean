import JudgedLint.Proofs.Lint.ConfigFaults
import JudgedLint.Proofs.Lint.RuleData
import JudgedLint.Proofs.Text.Utf8

/-! Adding rules to a configuration file. What is written is read back as the configuration with the
rule at its end, so that rules can be added one after the other. -/
namespace JudgedLint.Lint

open Text (Bytes)
open Workspace (Path Tree)

section

variable {rule : Rule} {catalog : Model.Catalog} {c : Config} {t t' : Tree} {p : Path} {d : Datum}

/-! Documents -/

theorem hasId_eq (hsteady : Yaml.Steady d) (h : Rule.reader d = .ok rule) (id : String) :
    ConfigFile.hasId id d = decide (id = rule.id) := by
  obtain ⟨_, _, hid, _⟩ := Rule.reader_iff.mp h
  obtain ⟨v, hv, hid⟩ := Form.required_eq_ok.mp hid
  obtain rfl := (Form.text_steady (hsteady.get? hv)).mp (Form.textMatching_iff.mp hid).1
  simp only [ConfigFile.hasId, hv, Datum.str?, Datum.bare]
  rw [Bool.eq_iff_iff, beq_iff_eq, decide_eq_true_iff, Option.some.injEq]
  exact eq_comm

theorem any_hasId {items : List Datum} {rules : List Rule} (id : String)
    (h : List.Forall₂ (fun d r => Rule.reader d = .ok r) items rules)
    (hsteady : ∀ d ∈ items, Yaml.Steady d) :
    items.any (ConfigFile.hasId id) = decide (id ∈ rules.map (·.id)) := by
  induction h with
  | nil => rfl
  | cons hread _ ih =>
    obtain ⟨hd, hrest⟩ := List.forall_mem_cons.mp hsteady
    rw [List.any_cons, hasId_eq hd hread, ih hrest, List.map_cons]
    simp [List.mem_cons]

/-- What becomes of the data of a valid configuration: a rule whose id is there already is refused,
and every other stands at the end of the list afterwards. -/
theorem extend_of_valid (hsteady : Yaml.Steady d) (hdistinct : d.Distinct)
    (h : Config.validate catalog d = .ok c) (path : String) (rule : Rule) :
    (rule.id ∈ c.ruleIds → ConfigFile.extend path rule d = .error (.config (.ruleExists rule.id path))) ∧
    (rule.id ∉ c.ruleIds → ∃ entries items, d = .map entries ∧
      d.get? "rules" = some (.list items) ∧
      List.Forall₂ (fun d r => Rule.reader d = .ok r) items c.rules ∧
      (∀ d ∈ items, Yaml.Steady d ∧ BriefRecord Rule.memberNames d) ∧
      ConfigFile.extend path rule d =
        .ok (.map (Datum.insert (.str "rules") (.list (items ++ [rule.toDatum])) entries))) := by
  obtain ⟨_, entries, items, rfl, hrules, hread, hitems⟩ := Config.shaped_of_validate hsteady hdistinct h
  have hany := any_hasId rule.id hread fun d hd => (hitems d hd).1
  have hlist (grown : Datum) : ConfigFile.withEntry "rules" grown (.map entries) =
      .map (Datum.insert (.str "rules") grown entries) := rfl
  have hgrown : rule.id ∉ c.ruleIds → ConfigFile.extend path rule (.map entries) =
      .ok (.map (Datum.insert (.str "rules") (.list (items ++ [rule.toDatum])) entries)) := by
    intro hnew
    rw [ConfigFile.extend, hrules]
    cases items with
    | nil => rfl
    | cons first rest =>
      have habsent : (first :: rest).any (ConfigFile.hasId rule.id) = false := by
        rw [hany]
        exact decide_eq_false hnew
      simp only [Datum.isMap, Datum.bare, Datum.isTruthy, Option.getD_some, habsent]
      rfl
  refine ⟨fun hmem => ?_, fun hnew => ⟨entries, items, rfl, hrules, hread, hitems,
    hgrown hnew⟩⟩
  have hpresent : items.any (ConfigFile.hasId rule.id) = true := by
    rw [hany]
    exact decide_eq_true hmem
  rw [ConfigFile.extend, hrules]
  cases items with
  | nil => cases hpresent
  | cons first rest =>
    simp only [Datum.isMap, Datum.bare, Datum.isTruthy, Option.getD_some, hpresent]
    rfl

/-! Files -/

/-- A file from which data are read. -/
def Holds (t : Tree) (p : Path) (d : Datum) : Prop :=
  ∃ content s, t.read p = .ok content ∧ Text.utf8Decode content = .ok s ∧
    Yaml.read (Text.universalNewlines s) = .ok d

theorem load_of_holds (h : Holds t p d) : Config.load catalog t p = Config.validate catalog d := by
  obtain ⟨content, s, hread, hs, hd⟩ := h
  simp only [Config.load, hread, hs, Except.mapError, bind, Except.bind, hd]

theorem load_iff : Config.load catalog t p = .ok c ↔
    ∃ d, Holds t p d ∧ Config.validate catalog d = .ok c := by
  constructor
  · intro h
    unfold Config.load at h
    split at h
    · cases h
    · next content hread =>
      obtain ⟨s, hs, h⟩ := bind_eq_ok.mp h
      split at h
      · cases h
      · next d hd => exact ⟨d, ⟨content, s, hread, mapError_eq_ok.mp hs, hd⟩, h⟩
  · rintro ⟨d, hholds, h⟩
    rw [load_of_holds hholds, h]

theorem unifyBreaks_of_kept {cs : List Char} (h : ∀ c ∈ cs, Yaml.isKept c = true) :
    Text.unifyBreaks cs = cs := by
  induction cs with
  | nil => rfl
  | cons c rest ih =>
    obtain ⟨hc, hrest⟩ := List.forall_mem_cons.mp h
    have hreturn : c ≠ '\r' := by
      rintro rfl
      revert hc
      decide
    rw [Text.unifyBreaks, ih hrest, if_neg (by simpa using hreturn)]
    rintro _ rfl
    exact absurd rfl hreturn

theorem holds_of_write (h : Shaped d) (hne : d.entries ≠ [])
    (hwrite : t.write p (Text.utf8Encode (Yaml.render d)) = .ok t') : Holds t' p d := by
  obtain ⟨place, hwritten⟩ := Workspace.write_eq_ok hwrite
  obtain ⟨entries, rfl⟩ : ∃ entries, d = .map entries := by
    cases h
    exact ⟨_, rfl⟩
  have hkept := (Yaml.tokens_render h.lasting hne).2
  refine ⟨_, _, hwritten.read, Text.utf8Decode_utf8Encode _, ?_⟩
  rw [Text.universalNewlines, unifyBreaks_of_kept hkept, String.ofList_toList]
  exact Yaml.read_render h.lasting hne

theorem Shaped.insert {entries : List (Datum × Datum)} {items : List Datum} (h : Shaped (.map entries))
    (hrules : ((Datum.map entries).get? "rules").isSome = true)
    (hitems : ∀ d ∈ items, BriefRecord Rule.memberNames d) :
    Shaped (.map (Datum.insert (.str "rules") (.list items) entries)) := by
  have hsame := Config.keys_insert_of_get? hrules (.list items)
  obtain ⟨keys, distinct, values⟩ := h
  refine .mk (fun e he => ?_) (by rwa [hsame]) fun e he => ?_
  · have hmem : e.1 ∈ entries.map (·.1) := hsame ▸ List.mem_map_of_mem he
    obtain ⟨old, hold, heq⟩ := List.mem_map.mp hmem
    rw [← heq]
    exact keys old hold
  · rcases Datum.mem_insert he with heq | ⟨old, hold, heq⟩
    · exact .inr ⟨items, heq, hitems⟩
    · rw [← heq]
      exact values old hold

/-- A rule that can be added to a configuration of a provider: it is valid, its texts keep their line
ends, and its model, if it has one, is accepted. -/
structure Addable (catalog : Model.Catalog) (provider : Provider) (rule : Rule) : Prop where
  valid : rule.Valid
  keepsLines : rule.KeepsLines
  accepted : Config.Accepts catalog provider rule

/-- The text of a configuration file, read as steady data of a valid configuration. -/
structure Growable (catalog : Model.Catalog) (t : Tree) (p : Path) (default : String) (c : Config) :
    Prop where
  reads : ∃ text d, ConfigFile.currentText t p default = .ok text ∧ Yaml.read text = .ok d ∧
    Yaml.Steady d ∧ Config.validate catalog d = .ok c
  writable : ∀ content, ∃ t', t.write p content = .ok t'

theorem isTruthy_of_get? {name : String} (h : (d.get? name).isSome = true) (hsteady : Yaml.Steady d) :
    d.isTruthy = true ∧ d.entries ≠ [] := by
  obtain ⟨v, hv⟩ := Option.isSome_iff_exists.mp h
  obtain ⟨e, he, _⟩ := Option.map_eq_some_iff.mp hv
  have hmem := List.mem_of_find?_eq_some he
  have hne : d.entries ≠ [] := List.ne_nil_of_mem hmem
  refine ⟨?_, hne⟩
  rw [Datum.entries, hsteady.bare] at hne
  cases hsteady with
  | map _ _ => simpa [Datum.isTruthy, Datum.bare] using hne
  | _ => exact absurd rfl hne

theorem addRule_of_document {default text : String} (rule : Rule)
    (htext : ConfigFile.currentText t p default = .ok text)
    (hdocument : ConfigFile.document p.text text = .ok d) : ConfigFile.addRule t p rule default = (do
      let doc ← ConfigFile.extend p.text rule d
      if !Yaml.isWritable doc then throw (.yaml .unwritable)
      (t.write p (Text.utf8Encode (Yaml.render doc))).mapError .file) := by
  rw [ConfigFile.addRule, htext]
  change (ConfigFile.document p.text text >>= _) = _
  rw [hdocument]
  rfl

theorem Holds.growable {default : String} (h : Holds t p d) (hsteady : Yaml.Steady d)
    (hvalid : Config.validate catalog d = .ok c) : Growable catalog t p default c := by
  obtain ⟨content, s, hcontent, hdecode, hreads⟩ := h
  refine ⟨⟨_, d, ?_, hreads, hsteady, hvalid⟩, ConfigFile.write_of_read hcontent⟩
  rw [ConfigFile.currentText_of_read hcontent, hdecode]
  rfl

theorem Growable.document {default : String} (h : Growable catalog t p default c) :
    ∃ d, Yaml.Steady d ∧ d.Distinct ∧ Config.validate catalog d = .ok c ∧ ∀ rule,
      ConfigFile.addRule t p rule default = (do
        let doc ← ConfigFile.extend p.text rule d
        if !Yaml.isWritable doc then throw (.yaml .unwritable)
        (t.write p (Text.utf8Encode (Yaml.render doc))).mapError .file) := by
  obtain ⟨⟨text, d, htext, hd, hsteady, hvalid⟩, _⟩ := h
  have hdistinct := Yaml.read_distinct hd
  obtain ⟨_, _, _, _, hrules, _⟩ := Config.shaped_of_validate hsteady hdistinct hvalid
  have hdocument : ConfigFile.document p.text text = .ok d := by
    rw [ConfigFile.document, hd]
    simp only [(isTruthy_of_get? (by rw [hrules]; rfl) hsteady).1, if_true]
  exact ⟨d, hsteady, hdistinct, hvalid, fun rule => addRule_of_document rule htext hdocument⟩

/-- A valid rule whose id is not there yet is written behind the others, whatever its model. -/
theorem addRule_of_new {default : String} (h : Growable catalog t p default c) (hrule : rule.Valid)
    (hkeeps : rule.KeepsLines) (hnew : rule.id ∉ c.ruleIds) :
    ∃ t' grown, ConfigFile.addRule t p rule default = .ok t' ∧ Holds t' p grown ∧ Yaml.Steady grown ∧
      grown.isMap = true ∧ Config.ofDatum grown = .ok (c.withRule rule) := by
  obtain ⟨d, hsteady, hdistinct, hvalid, hstep⟩ := h.document
  obtain ⟨hshaped, _, _, _, _, _⟩ := Config.shaped_of_validate hsteady hdistinct hvalid
  obtain ⟨entries, items, rfl, hrules, hread, hitems, hextend⟩ :=
    (extend_of_valid hsteady hdistinct hvalid p.text rule).2 hnew
  have hrecords : ∀ d ∈ items ++ [rule.toDatum], Yaml.Steady d ∧ BriefRecord Rule.memberNames d := by
    intro d hd
    rcases List.mem_append.mp hd with hd | hd
    · exact hitems d hd
    · rw [List.mem_singleton.mp hd]
      exact ⟨Rule.steady_toDatum hkeeps, Rule.briefRecord_toDatum hkeeps⟩
  have hkey : Yaml.Steady (.str "rules") := .str (keepsLines_memberNames _ (by decide))
  have hgrownSteady := hsteady.insert hkey (.list fun d hd => (hrecords d hd).1)
  have hgrownShaped := hshaped.insert (by rw [hrules]; rfl) fun d hd => (hrecords d hd).2
  have hnonempty := (isTruthy_of_get? (by rw [Datum.get?_insert_self]; rfl) hgrownSteady).2
  obtain ⟨t', hwrite⟩ := h.writable (Text.utf8Encode (Yaml.render
    (.map (Datum.insert (.str "rules") (.list (items ++ [rule.toDatum])) entries))))
  refine ⟨t', _, ?_, holds_of_write hgrownShaped hnonempty hwrite, hgrownSteady, rfl,
    Config.ofDatum_insert hvalid ?_ hnew⟩
  · rw [hstep, hextend]
    change (if !Yaml.isWritable _ then _ else _) = _
    rw [hgrownShaped.writable, hwrite]
    rfl
  · exact Form.itemsFrom_iff.mpr (List.rel_append hread (.cons (Rule.reader_toDatum hrule) .nil))

/-- A rule with an unknown model is added like any other, and the file is refused from then on. -/
theorem load_of_unknown_model {default m : String} (h : Growable catalog t p default c)
    (hrule : rule.Valid) (hkeeps : rule.KeepsLines) (hnew : rule.id ∉ c.ruleIds)
    (hmodel : rule.model = some m) (hne : m ≠ "")
    (hunknown : catalog.isValid c.provider.name m = false) :
    ∃ t', ConfigFile.addRule t p rule default = .ok t' ∧
      Config.load catalog t' p = .error (.config (.unknownRuleModel m rule.id c.provider.name
        ((catalog.allowed c.provider.name).getD []))) := by
  obtain ⟨t', grown, hadd, hholds, _, hmap, hdata⟩ := addRule_of_new h hrule hkeeps hnew
  obtain ⟨_, _, _, hvalid, _⟩ := h.document
  refine ⟨t', hadd, ?_⟩
  rw [load_of_holds hholds, Config.validate_of_ofDatum hmap hdata,
    Config.checkModels_withRule_of_unknown (Config.validate_iff.mp hvalid).2.2 hmodel hne hunknown]
  rfl

/-- Adding a rule to the text of a configuration: a rule whose id is there already is refused, and
every other is in the file afterwards, at the end of the rules. -/
theorem addRule_of_growable {default : String} (h : Growable catalog t p default c)
    (hrule : Addable catalog c.provider rule) :
    (rule.id ∈ c.ruleIds →
      ConfigFile.addRule t p rule default = .error (.config (.ruleExists rule.id p.text))) ∧
    (rule.id ∉ c.ruleIds → ∃ t', ConfigFile.addRule t p rule default = .ok t' ∧
      Growable catalog t' p default (c.withRule rule) ∧
      Config.load catalog t' p = .ok (c.withRule rule)) := by
  obtain ⟨d, hsteady, hdistinct, hvalid, hstep⟩ := h.document
  refine ⟨fun hmem => ?_, fun hnew => ?_⟩
  · rw [hstep, (extend_of_valid hsteady hdistinct hvalid p.text rule).1 hmem]
    rfl
  · obtain ⟨t', grown, hadd, hholds, hgrown, hmap, hdata⟩ :=
      addRule_of_new h hrule.valid hrule.keepsLines hnew
    have hvalid' : Config.validate catalog grown = .ok (c.withRule rule) := by
      rw [Config.validate_of_ofDatum hmap hdata,
        Config.checkModels_withRule (Config.validate_iff.mp hvalid).2.2 hrule.accepted]
      rfl
    exact ⟨t', hadd, hholds.growable hgrown hvalid', load_iff.mpr ⟨grown, hholds, hvalid'⟩⟩

/-! Runs -/

/-- A configuration with a rule at the end, if no rule has its id yet. -/
def Config.grown (c : Config) (rule : Rule) : Config :=
  if rule.id ∈ c.ruleIds then c else c.withRule rule

/-- The tree after an attempt to add a rule; one that fails changes nothing. -/
def ConfigFile.turn (p : Path) (default : String) (t : Tree) (rule : Rule) : Tree :=
  (addRule t p rule default).toOption.getD t

/-- The configuration that rules are added to: that of a file whose data are steady, or else that of
a new file. -/
inductive Starts (catalog : Model.Catalog) (t : Tree) (p : Path) (c : Config) : Prop
  | present (load : Config.load catalog t p = .ok c) (steady : ∀ d, Holds t p d → Yaml.Steady d)
  | absent (missing : t.exists p = .ok false) {t' : Tree}
      (write : t.write p (Text.utf8Encode ConfigFile.defaultContent) = .ok t')
      (load : Config.load catalog t' p = .ok c)

theorem write_of_write {content : Bytes} (h : t.write p content = .ok t') (new : Bytes) :
    ∃ t'', t.write p new = .ok t'' := by
  simp only [Tree.write, Workspace.withPath] at h ⊢
  split at h
  · cases h
  · next hnul =>
    rw [if_neg hnul]
    split at h
    · exact ⟨_, rfl⟩
    · exact ⟨_, rfl⟩
    · cases h
    · cases h

-- The characters are written out once, so that nothing below has to decode the literal.
set_option maxRecDepth 20000 in
theorem defaultContent_chars : ∃ cs, ConfigFile.defaultContent = String.ofList cs ∧
    (cs.all Yaml.isAllowed = true ∧ Text.unifyBreaks cs = cs) ∧
    (Yaml.Lexer.run (cs.length + 2) (Yaml.Lexer.start cs)).toOption =
      some [.blockMappingStart, .key, .scalar "rules" .plain, .value, .flowSequenceStart,
        .flowSequenceEnd, .blockEnd, .streamEnd] :=
  ⟨_, rfl, by decide +kernel, by decide +kernel⟩

theorem universalNewlines_defaultContent :
    Text.universalNewlines ConfigFile.defaultContent = ConfigFile.defaultContent := by
  obtain ⟨cs, hcs, ⟨_, hbreaks⟩, _⟩ := defaultContent_chars
  rw [hcs, Text.universalNewlines, String.toList_ofList, hbreaks]

theorem read_defaultContent :
    Yaml.read ConfigFile.defaultContent = .ok (.map [(.str "rules", .list [])]) := by
  obtain ⟨cs, hcs, ⟨hallowed, _⟩, hrun⟩ := defaultContent_chars
  have htokens : Yaml.tokens ConfigFile.defaultContent = .ok [.blockMappingStart, .key,
      .scalar "rules" .plain, .value, .flowSequenceStart, .flowSequenceEnd, .blockEnd, .streamEnd] := by
    rw [hcs, Yaml.tokens, String.toList_ofList, if_pos hallowed]
    cases hlexed : Yaml.Lexer.run (cs.length + 2) (Yaml.Lexer.start cs) with
    | error f =>
      rw [hlexed] at hrun
      cases hrun
    | ok ts =>
      rw [hlexed] at hrun
      cases hrun
      rfl
  -- what is written of the same data has the same tokens
  have hshaped : Shaped (.map [(.str "rules", .list [])]) := by
    refine .mk ?_ (List.nodup_singleton _) ?_
    · intro e he
      obtain rfl := List.mem_singleton.mp he
      exact ⟨"rules", by decide, rfl⟩
    · intro e he
      obtain rfl := List.mem_singleton.mp he
      exact .inl .emptyList
  have hsame : Yaml.tokens ConfigFile.defaultContent =
      Yaml.tokens (Yaml.render (.map [(.str "rules", .list [])])) := by
    rw [htokens, (Yaml.tokens_render hshaped.lasting (by simp)).1]
    simp [Yaml.entryTokens, Yaml.tokensOf, Yaml.Lexer.keyTokens, Datum.str?, Datum.bare]
  rw [← Yaml.read_render hshaped.lasting (by simp), Yaml.read, Yaml.read, Yaml.Document.ofText,
    Yaml.Document.ofText, hsame]

theorem steady_noRules : Yaml.Steady (.map [(.str "rules", .list [])]) := by
  refine .map ?_ ?_
  · intro e he
    obtain rfl := List.mem_singleton.mp he
    exact .str (keepsLines_memberNames _ (by decide))
  · intro e he
    obtain rfl := List.mem_singleton.mp he
    exact .list nofun

theorem growable_of_starts (h : Starts catalog t p c) :
    Growable catalog t p ConfigFile.defaultContent c ∧
      (Config.load catalog t p = .ok c ∨ c.rules = []) := by
  cases h with
  | present load steady =>
    obtain ⟨d, hholds, hvalid⟩ := load_iff.mp load
    exact ⟨hholds.growable (steady d hholds) hvalid, .inl load⟩
  | absent missing write load =>
    obtain ⟨d, hholds, hvalid⟩ := load_iff.mp load
    obtain ⟨content, s, hcontent, hdecode, hreads⟩ := hholds
    obtain ⟨place, hwritten⟩ := Workspace.write_eq_ok write
    obtain rfl := Except.ok.inj (hwritten.read.symm.trans hcontent)
    obtain rfl := Except.ok.inj ((Text.utf8Decode_utf8Encode _).symm.trans hdecode)
    rw [universalNewlines_defaultContent] at hreads
    obtain rfl := Except.ok.inj (read_defaultContent.symm.trans hreads)
    refine ⟨⟨⟨_, _, ?_, hreads, steady_noRules, hvalid⟩, write_of_write write⟩, .inr ?_⟩
    · rw [ConfigFile.currentText, missing]
      rfl
    · obtain ⟨_, _, items, _, hitems, hread, _⟩ :=
        Config.shaped_of_validate steady_noRules (Yaml.read_distinct hreads) hvalid
      obtain rfl : [] = items := by
        cases hitems
        rfl
      exact List.forall₂_nil_left_iff.mp hread

/-- What a run of additions preserves: the file goes on being read as the configuration with the rules
that have been added. -/
theorem growable_foldl {default : String} (rules : List Rule) :
    ∀ {t : Tree} {c : Config}, Growable catalog t p default c →
      (Config.load catalog t p = .ok c ∨ c.rules = []) →
      (∀ r ∈ rules, Addable catalog c.provider r) →
      Growable catalog (rules.foldl (ConfigFile.turn p default) t) p default (rules.foldl Config.grown c) ∧
        (Config.load catalog (rules.foldl (ConfigFile.turn p default) t) p =
          .ok (rules.foldl Config.grown c) ∨ (rules.foldl Config.grown c).rules = []) ∧
        (rules.foldl Config.grown c).provider = c.provider := by
  induction rules with
  | nil => exact fun h hload _ => ⟨h, hload, rfl⟩
  | cons rule rest ih =>
    intro t c h hload hall
    obtain ⟨hrule, hrest⟩ := List.forall_mem_cons.mp hall
    obtain ⟨hrefused, hadded⟩ := addRule_of_growable h hrule
    rw [List.foldl_cons, List.foldl_cons]
    by_cases hmem : rule.id ∈ c.ruleIds
    · have hturn : ConfigFile.turn p default t rule = t := by
        rw [ConfigFile.turn, hrefused hmem]
        rfl
      rw [hturn, Config.grown, if_pos hmem]
      exact ih h hload hrest
    · obtain ⟨t', hadd, hgrowable, hload'⟩ := hadded hmem
      have hturn : ConfigFile.turn p default t rule = t' := by
        rw [ConfigFile.turn, hadd]
        rfl
      rw [hturn, Config.grown, if_neg hmem]
      exact ih hgrowable (.inl hload') hrest

/-- Rules are added one after the other. Wherever this has led, the next rule is refused just if its
id is there already, and in either case the file is read as the configuration before, with the rule at
the end if it was added. -/
theorem addRule_in_turn (h : Starts catalog t p c) (rules : List Rule) (rule : Rule)
    (hall : ∀ r ∈ rules ++ [rule], Addable catalog c.provider r) :
    let t₁ := rules.foldl (ConfigFile.turn p ConfigFile.defaultContent) t
    let c₁ := rules.foldl Config.grown c
    (rule.id ∈ c₁.ruleIds → ConfigFile.addRule t₁ p rule ConfigFile.defaultContent =
      .error (.config (.ruleExists rule.id p.text))) ∧
    (rule.id ∉ c₁.ruleIds → ∃ t₂, ConfigFile.addRule t₁ p rule ConfigFile.defaultContent = .ok t₂) ∧
    Config.load catalog (ConfigFile.turn p ConfigFile.defaultContent t₁ rule) p =
      .ok (c₁.grown rule) := by
  intro t₁ c₁
  obtain ⟨hgrowable, hload⟩ := growable_of_starts h
  obtain ⟨hgrowable, hload, hprovider⟩ := growable_foldl rules hgrowable hload
    fun r hr => hall r (List.mem_append_left _ hr)
  have hrule : Addable catalog c₁.provider rule := hprovider ▸ hall rule (by simp)
  obtain ⟨hrefused, hadded⟩ := addRule_of_growable hgrowable hrule
  by_cases hmem : rule.id ∈ c₁.ruleIds
  · refine ⟨hrefused, fun hnew => absurd hmem hnew, ?_⟩
    rw [ConfigFile.turn, hrefused hmem, Config.grown, if_pos hmem]
    rcases hload with hload | hnone
    · exact hload
    · rw [Config.ruleIds, show c₁.rules = [] from hnone] at hmem
      cases hmem
  · obtain ⟨t₂, hadd, _, hload₂⟩ := hadded hmem
    refine ⟨fun h => absurd h hmem, fun _ => ⟨t₂, hadd⟩, ?_⟩
    rw [ConfigFile.turn, hadd, Config.grown, if_neg hmem]
    exact hload₂

end

namespace Sample

def unconfigured : Tree := ⟨"/work", []⟩

theorem locate_unconfigured : unconfigured.locate configPath = .ok (.free [".ai-lint.yml"]) :=
  Workspace.locate_name (by decide) (Cache.Sample.segments?_relative _ _) (by decide)
    (by decide) (.inl rfl)

def firstConfig : Config := ⟨.openrouter, none, "gemini-flash", 5, "main", []⟩

theorem starts_unconfigured : Starts .default unconfigured configPath firstConfig := by
  have hnul : (configPath.parts.any fun part => part.toList.contains '\x00') = false := by
    decide
  have hwrite := Workspace.write_of_leadsTo hnul (.inl locate_unconfigured)
    (Text.utf8Encode ConfigFile.defaultContent)
  obtain ⟨_, hwritten⟩ := Workspace.write_eq_ok hwrite
  refine .absent ?_ hwrite (load_iff.mpr ⟨.map [(.str "rules", .list [])],
    ⟨_, _, hwritten.read, Text.utf8Decode_utf8Encode _, ?_⟩, ?_⟩)
  · rw [Tree.exists, Tree.test, Tree.entry, locate_unconfigured]
    rfl
  · rw [universalNewlines_defaultContent]
    exact read_defaultContent
  · decide

theorem addable_rule (severity : Severity) : Addable .default .openrouter (rule severity) := by
  refine ⟨⟨?_, ?_, ?_, ?_⟩, ?_, nofun⟩
  all_goals cases severity <;> decide

/-- The same rule twice, in a new file. -/
theorem addRule_in_turn_twice :
    let t₁ := [rule .error].foldl (ConfigFile.turn configPath ConfigFile.defaultContent) unconfigured
    let c₁ := [rule .error].foldl Config.grown firstConfig
    Starts .default unconfigured configPath firstConfig ∧
    (∀ r ∈ [rule .error] ++ [rule .warning], Addable .default firstConfig.provider r) ∧
    ((rule .warning).id ∈ c₁.ruleIds → ConfigFile.addRule t₁ configPath (rule .warning)
      ConfigFile.defaultContent = .error (.config (.ruleExists "no_print" ".ai-lint.yml"))) ∧
    ((rule .warning).id ∉ c₁.ruleIds → ∃ t₂, ConfigFile.addRule t₁ configPath (rule .warning)
      ConfigFile.defaultContent = .ok t₂) ∧
    Config.load .default (ConfigFile.turn configPath ConfigFile.defaultContent t₁ (rule .warning))
      configPath = .ok (c₁.grown (rule .warning)) := by
  have hall : ∀ r ∈ [rule .error] ++ [rule .warning], Addable .default firstConfig.provider r := by
    intro r hr
    rcases List.mem_cons.mp hr with rfl | hr
    · exact addable_rule .error
    · rw [List.mem_singleton.mp hr]
      exact addable_rule .warning
  exact ⟨starts_unconfigured, hall, addRule_in_turn starts_unconfigured [rule .error] (rule .warning) hall⟩

def encodedId : String :=
  "rules:\n- id: !!binary bm9fcHJpbnQ=\n  name: No print\n  severity: error\n  glob: '*.py'\n" ++
    "  prompt: Do not print.\n"

/-- An id in base 64 is read as the text that it encodes, and is not found when a rule of this id is
added. -/
theorem encodedId_not_found :
    let t := configured (Text.utf8Encode encodedId)
    Config.load .default t configPath = .ok ruleConfig ∧ "no_print" ∈ ruleConfig.ruleIds ∧
    Addable .default ruleConfig.provider (rule .error) ∧
    ∃ t', ConfigFile.addRule t configPath (rule .error) ConfigFile.defaultContent = .ok t' := by
  intro t
  have hread : t.read configPath = .ok (Text.utf8Encode encodedId) := read_configured _
  have hnewlines : Text.universalNewlines encodedId = encodedId := by decide
  have hruns : ((Yaml.read encodedId).toOption.map fun d =>
      ((Config.validate .default d).toOption, d.isTruthy,
        ((ConfigFile.extend configPath.text (rule .error) d).toOption.map Yaml.isWritable))) =
      some (some ruleConfig, true, some true) := by
    decide +kernel
  obtain ⟨d, hd, hruns⟩ := Option.map_eq_some_iff.mp hruns
  simp only [Prod.mk.injEq] at hruns
  obtain ⟨hvalid, htruthy, hextend⟩ := hruns
  obtain ⟨grown, hgrown, hwritable⟩ := Option.map_eq_some_iff.mp hextend
  have hd := ok_of_toOption hd
  have hdocument : ConfigFile.document configPath.text encodedId = .ok d := by
    rw [ConfigFile.document, hd]
    simp only [htruthy, if_true]
  have htext : ConfigFile.currentText t configPath ConfigFile.defaultContent = .ok encodedId := by
    rw [ConfigFile.currentText_of_read hread, Text.utf8Decode_utf8Encode]
    exact congrArg Except.ok hnewlines
  obtain ⟨t', hwrite⟩ := ConfigFile.write_of_read hread (Text.utf8Encode (Yaml.render grown))
  refine ⟨load_iff.mpr ⟨d, ⟨_, _, hread, Text.utf8Decode_utf8Encode _, by rw [hnewlines, hd]⟩,
    ok_of_toOption hvalid⟩, by decide, addable_rule .error, t', ?_⟩
  rw [addRule_of_document _ htext hdocument, ok_of_toOption hgrown]
  change (if !Yaml.isWritable grown then _ else _) = _
  rw [hwritable, hwrite]
  rfl

end Sample
end JudgedLint.Lint

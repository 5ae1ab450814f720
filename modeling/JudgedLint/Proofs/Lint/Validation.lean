import JudgedLint.Lint.Judge
import JudgedLint.Proofs.Lint.Completeness
import JudgedLint.Proofs.Datum
import JudgedLint.Proofs.Lint.Config

/-! What a run may take for granted of a configuration that was validated: its rules can be told
apart and say something, and each of them is judged by a model that the provider knows. Names of
models are checked once and looked up later; the two have to agree for every catalog. -/
namespace JudgedLint

namespace Model.Catalog

variable {catalog : Catalog} {provider name : String}

theorem resolve_of_isValid (h : catalog.isValid provider name = true) :
    ∃ id, catalog.resolve provider name = .ok id := by
  unfold isValid at h
  unfold resolve
  split at h
  · next hpass => exact ⟨name, if_pos hpass⟩
  · next hpass =>
    rw [if_neg hpass]
    cases htable : catalog.tables.lookup provider with
    | none => simp [htable] at h
    | some table =>
      rw [htable, Option.getD_some, Option.isSome_iff_exists] at h
      obtain ⟨id, hid⟩ := h
      exact ⟨id, by simp only [hid]⟩

theorem resolve_of_allowed_none (h : catalog.allowed provider = none) (name : String) :
    catalog.resolve provider name = .ok name := by
  unfold allowed at h
  split at h
  · next hpass => exact if_pos hpass
  · cases h

end Model.Catalog

namespace Form

variable {d : Datum} {s : String}

theorem textMatching_eq_ok {p : String → Bool} {written : String}
    (h : textMatching p written d = .ok s) : p s = true := by
  obtain ⟨t, _, h⟩ := bind_eq_ok.mp h
  obtain ⟨t, _, h⟩ := bind_eq_ok.mp h
  split at h
  · next hp =>
    cases pure_eq_ok.mp h
    exact hp
  · cases h

theorem ne_empty_of_textOfLength {least : Nat} (hleast : 0 < least)
    (h : textOfLength least d = .ok s) : s ≠ "" := by
  obtain ⟨t, _, h⟩ := bind_eq_ok.mp h
  obtain ⟨t, _, h⟩ := bind_eq_ok.mp h
  split at h
  · cases h
  · next hlength =>
    cases pure_eq_ok.mp h
    rintro rfl
    exact hlength hleast

theorem mem_itemsFrom {α : Type} {r : Reader α} {x : α} (ds : List Datum) :
    ∀ {i : Nat} {xs : List α}, itemsFrom r i ds = .ok xs → x ∈ xs → ∃ d, r d = .ok x := by
  induction ds with
  | nil =>
    intro i xs h hx
    cases h
    cases hx
  | cons d rest ih =>
    intro i xs h hx
    obtain ⟨f, xs', hf, hrest, rfl⟩ := apply_eq_ok.mp h
    obtain ⟨y, hy, rfl⟩ := map_eq_ok.mp hf
    cases hx with
    | head => exact ⟨d, under_eq_ok.mp hy⟩
    | tail _ hx => exact ih hrest hx

theorem mem_listOf {α : Type} {r : Reader α} {x : α} {xs : List α} (h : listOf r d = .ok xs)
    (hx : x ∈ xs) : ∃ d', r d' = .ok x := by
  unfold listOf at h
  split at h
  · exact mem_itemsFrom _ h hx
  · exact mem_itemsFrom _ h hx
  · cases h

theorem oneOf_eq_ok {α : Type} {choices : List (String × α)} {a : α} (h : oneOf choices d = .ok a) :
    ∃ s, d.str? = some s ∧ choices.lookup s = some a := by
  unfold oneOf at h
  split at h
  · cases h
  · next s hs =>
    obtain ⟨t, ht, h⟩ := bind_eq_ok.mp h
    split at h
    · next a' ha =>
      cases pure_eq_ok.mp h
      unfold wellFormed at ht
      split at ht
      · cases ht
        exact ⟨s, hs, ha⟩
      · cases ht
    · cases h

end Form

namespace Lint

/-- A rule that says of which files what should hold, and by which name it goes. -/
structure Rule.Filled (r : Rule) : Prop where
  id : isRuleId r.id = true
  name : r.name ≠ ""
  glob : r.glob ≠ ""
  prompt : r.prompt ≠ ""

theorem Rule.reader_filled {d : Datum} {r : Rule} (h : Rule.reader d = .ok r) : r.Filled := by
  obtain ⟨_, h⟩ := Form.record_eq_ok.mp h
  have h := Config.closed_eq_ok h
  simp only [Form.apply_eq_ok, Form.required_eq_ok, map_eq_ok] at h
  obtain ⟨_, _, ⟨_, _, ⟨_, _, ⟨_, _, ⟨_, _, ⟨_, _, ⟨id, ⟨_, _, hid⟩, rfl⟩, ⟨_, _, hname⟩, rfl⟩,
    ⟨_, _, _⟩, rfl⟩, ⟨_, _, hglob⟩, rfl⟩, _, rfl⟩, ⟨_, _, hprompt⟩, rfl⟩, _, rfl⟩ := h
  exact ⟨Form.textMatching_eq_ok hid, Form.ne_empty_of_textOfLength Nat.one_pos hname,
    Form.ne_empty_of_textOfLength Nat.one_pos hglob, Form.ne_empty_of_textOfLength Nat.one_pos hprompt⟩

namespace Config

variable {d d' : Datum} {catalog : Model.Catalog} {c : Config}

theorem nodup_of_foldl {step : List String × List String → String → List String × List String}
    (hstep : ∀ seen repeated id, step (seen, repeated) id = (id :: seen,
      if seen.contains id && !repeated.contains id then repeated ++ [id] else repeated))
    (ids : List String) : ∀ seen repeated, (ids.foldl step (seen, repeated)).2 = [] →
      repeated = [] ∧ ids.Nodup ∧ ∀ id ∈ ids, id ∉ seen := by
  induction ids with
  | nil =>
    intro seen repeated h
    exact ⟨h, List.nodup_nil, by simp⟩
  | cons id rest ih =>
    intro seen repeated h
    rw [List.foldl_cons, hstep] at h
    obtain ⟨hrepeated, hnodup, hfresh⟩ := ih _ _ h
    split at hrepeated
    · exact absurd hrepeated (by simp)
    · next hcond =>
      subst hrepeated
      have hunseen : id ∉ seen := by simpa using hcond
      refine ⟨rfl, List.nodup_cons.mpr ⟨?_, hnodup⟩, ?_⟩
      · intro hmem
        exact hfresh id hmem List.mem_cons_self
      · intro other hother
        cases hother with
        | head => exact hunseen
        | tail _ hmem => exact fun hseen => hfresh other hmem (List.mem_cons_of_mem _ hseen)

theorem rulesReader_eq_ok {rules : List Rule} (h : rulesReader d = .ok rules) :
    (∀ r ∈ rules, r.Filled) ∧ (rules.map (·.id)).Nodup := by
  obtain ⟨rules', hlist, h⟩ := bind_eq_ok.mp h
  dsimp only at h
  split at h
  · next hrepeated =>
    cases pure_eq_ok.mp h
    constructor
    · intro r hr
      obtain ⟨d', hd'⟩ := Form.mem_listOf hlist hr
      exact Rule.reader_filled hd'
    · exact (nodup_of_foldl (fun _ _ _ => rfl) _ _ _ (List.isEmpty_iff.mp hrepeated)).2.1
  · cases h

theorem get?_setIf_of_ne {name other : String} (h : other ≠ name) (condition : Bool) (value : Datum)
    (entries : List (Datum × Datum)) :
    (Datum.map (setIf condition other value entries)).get? name = (Datum.map entries).get? name := by
  unfold setIf
  split
  · exact Datum.get?_insert_of_ne h value entries
  · rfl

/-- What the defaults do to the provider and the model: the one stays as it is, and so does the other
unless it counts as unset and the provider has a model of its own. -/
theorem withDefaults_cases (h : withDefaults d = .ok d') :
    d'.get? "provider" = d.get? "provider" ∧
      (isUnset "model" d = false ∧ d'.get? "model" = d.get? "model" ∨
        (presumedProvider d).str? ≠ some "ollama" ∧
          ∀ m, ((presumedProvider d).str?.bind fun p => defaultModels.lookup p) = some m →
            d'.get? "model" = some (.str m)) := by
  have hentries (name : String) : (Datum.map d.entries).get? name = d.get? name := rfl
  cases defaulted_of_withDefaults h with
  | onSite hmodel =>
    rw [get?_setIf_of_ne (by decide), get?_setIf_of_ne (by decide), get?_setIf_of_ne (by decide),
      get?_setIf_of_ne (by decide)]
    exact ⟨hentries _, .inl ⟨hmodel, hentries _⟩⟩
  | kept hmodel =>
    rw [get?_setIf_of_ne (by decide), get?_setIf_of_ne (by decide)]
    exact ⟨hentries _, .inl ⟨hmodel, hentries _⟩⟩
  | @named m hmodel hhosted hm =>
    rw [get?_setIf_of_ne (by decide), get?_setIf_of_ne (by decide)]
    refine ⟨Datum.get?_insert_of_ne (by decide) _ _, .inr ⟨hhosted, ?_⟩⟩
    intro m' hm'
    cases hm.symm.trans hm'
    exact Datum.get?_insert_self _ _ _
  | unnamed hmodel hhosted hm =>
    rw [get?_setIf_of_ne (by decide), get?_setIf_of_ne (by decide)]
    refine ⟨hentries _, .inr ⟨hhosted, ?_⟩⟩
    intro m' hm'
    cases hm.symm.trans hm'

theorem reader_eq_ok (h : reader d = .ok c) :
    Form.withDefault "provider" Provider.openrouter (Form.oneOf providers) d = .ok c.provider ∧
      Form.withDefault "model" "" Form.text d = .ok c.model ∧
      Form.required "rules" rulesReader d = .ok c.rules := by
  obtain ⟨_, h⟩ := Form.record_eq_ok.mp h
  have h := closed_eq_ok h
  simp only [Form.apply_eq_ok, map_eq_ok] at h
  obtain ⟨_, _, ⟨_, _, ⟨_, _, ⟨_, _, ⟨_, _, ⟨_, hprovider, rfl⟩, _, rfl⟩, hmodel, rfl⟩, _, rfl⟩, _, rfl⟩,
    hrules, rfl⟩ := h
  exact ⟨hprovider, hmodel, hrules⟩

/-- The provider is the one that the data name, or the first if they name none. -/
def NamesProvider (d : Datum) (p : Provider) : Prop :=
  d.get? "provider" = none ∧ p = .openrouter ∨ ∃ v, d.get? "provider" = some v ∧ v.str? = some p.name

theorem name_of_lookup {s : String} {p : Provider} (h : providers.lookup s = some p) : s = p.name := by
  have hmem := Json.mem_of_lookup h
  simp only [providers, List.mem_cons, Prod.mk.injEq, List.not_mem_nil, or_false] at hmem
  rcases hmem with ⟨rfl, rfl⟩ | ⟨rfl, rfl⟩ | ⟨rfl, rfl⟩ <;> rfl

theorem namesProvider_of_reader {p : Provider}
    (h : Form.withDefault "provider" Provider.openrouter (Form.oneOf providers) d = .ok p) :
    NamesProvider d p := by
  rcases Form.withDefault_eq_ok.mp h with ⟨hnone, rfl⟩ | ⟨v, hv, hread⟩
  · exact .inl ⟨hnone, rfl⟩
  · obtain ⟨s, hs, hlookup⟩ := Form.oneOf_eq_ok hread
    rw [name_of_lookup hlookup] at hs
    exact .inr ⟨v, hv, hs⟩

/-- The defaults go by the provider that is read afterwards. -/
theorem NamesProvider.presumed {p : Provider} (h : NamesProvider d p) :
    (presumedProvider d).str? = some p.name := by
  unfold presumedProvider
  rcases h with ⟨hnone, rfl⟩ | ⟨v, hv, hs⟩
  · rw [isUnset, hnone]
    rfl
  · have htruthy : v.isTruthy = true := by
      rw [Datum.isTruthy_of_str? hs]
      cases p <;> rfl
    rw [isUnset, hv, Option.map_some, Option.getD_some, htruthy]
    exact hs

theorem model_ne_empty (hdefaults : withDefaults d = .ok d') (h : reader d' = .ok c) :
    c.model ≠ "" := by
  obtain ⟨hprovider, hmodel, _⟩ := reader_eq_ok h
  obtain ⟨hsame, hmodel'⟩ := withDefaults_cases hdefaults
  have hthere : ∃ m, d'.get? "model" = some m ∧ m.isTruthy = true := by
    rcases hmodel' with ⟨hset, heq⟩ | ⟨hhosted, hdefault⟩
    · rw [heq]
      cases hget : d.get? "model" with
      | none => simp [isUnset, hget] at hset
      | some m => exact ⟨m, rfl, by simpa [isUnset, hget] using hset⟩
    · have hnames : NamesProvider d c.provider := by
        have hnames := namesProvider_of_reader hprovider
        rwa [NamesProvider, hsame] at hnames
      rw [hnames.presumed] at hhosted hdefault
      cases hp : c.provider with
      | openrouter => exact ⟨_, hdefault "gemini-flash" (by rw [hp]; rfl), rfl⟩
      | anthropic => exact ⟨_, hdefault "sonnet" (by rw [hp]; rfl), rfl⟩
      | ollama => exact absurd (by rw [hp]; rfl) hhosted
  obtain ⟨m, hget, htruthy⟩ := hthere
  rcases Form.withDefault_eq_ok.mp hmodel with ⟨hnone, _⟩ | ⟨v, hv, hread⟩
  · cases hnone.symm.trans hget
  · cases hv.symm.trans hget
    exact Datum.ne_empty_of_isTruthy htruthy hread

structure Follows (g : Judge) (c : Config) (catalog : Model.Catalog) : Prop where
  catalog : g.catalog = catalog
  provider : g.client.provider = c.provider.name
  model : g.defaultModel = c.model

/-- A provider with a list of names accepts the model of the configuration and those of its rules. -/
theorem checkModels_iff :
    checkModels catalog c = .ok () ↔ catalog.allowed c.provider.name = none ∨
      catalog.isValid c.provider.name c.model = true ∧
        ∀ r ∈ c.rules, ∀ m, r.model = some m → m ≠ "" →
          catalog.isValid c.provider.name m = true := by
  unfold checkModels
  dsimp only
  cases catalog.allowed c.provider.name with
  | none => simp
  | some allowed =>
    cases catalog.isValid c.provider.name c.model with
    | false => simp
    | true =>
      simp only [Bool.not_true, Bool.false_eq_true, if_false, reduceCtorEq, false_or, true_and]
      split
      · next e hfound =>
        obtain ⟨r, hr, hrule⟩ := List.exists_of_findSome?_eq_some hfound
        refine iff_of_false (by simp) fun hall => ?_
        cases hm : r.model with
        | none => simp [hm] at hrule
        | some m =>
          by_cases hempty : m = ""
          · simp [hm, hempty] at hrule
          · simp [hm, hall r hr m hm hempty] at hrule
      · next hnone =>
        rw [List.findSome?_eq_none_iff] at hnone
        refine iff_of_true rfl fun r hr m hm hne => ?_
        simpa [hm, hne] using hnone r hr

theorem checkModels_eq_ok (h : checkModels catalog c = .ok ()) :
    (∃ id, catalog.resolve c.provider.name c.model = .ok id) ∧
      ∀ r ∈ c.rules, ∀ m, r.model = some m → m ≠ "" →
        ∃ id, catalog.resolve c.provider.name m = .ok id := by
  rcases checkModels_iff.mp h with hany | ⟨hmodel, hrules⟩
  · have hfound := Model.Catalog.resolve_of_allowed_none hany
    exact ⟨⟨_, hfound _⟩, fun _ _ m _ _ => ⟨m, hfound m⟩⟩
  · refine ⟨Model.Catalog.resolve_of_isValid hmodel, fun r hr m hm hne => ?_⟩
    exact Model.Catalog.resolve_of_isValid (hrules r hr m hm hne)

/-- What a run may take for granted of a validated configuration. -/
structure Promised (catalog : Model.Catalog) (raw : Datum) (c : Config) : Prop where
  provider : c.provider.name ∈ providers.map (·.1) ∧ NamesProvider raw c.provider
  concurrency : 1 ≤ c.concurrency ∧ c.concurrency ≤ 20
  model : c.model ≠ ""
  rules : ∀ r ∈ c.rules, r.Filled
  distinct : (c.rules.map (·.id)).Nodup
  /-- Every rule has a model that is found, its own or else that of the configuration. -/
  models : ∀ g : Judge, Follows g c catalog → ∀ r ∈ c.rules,
    (∃ id, g.modelFor r = .ok id) ∧
      (r.model.getD "" = "" → g.modelFor r = catalog.resolve c.provider.name c.model) ∧
      (r.model.getD "" ≠ "" → g.modelFor r = catalog.resolve c.provider.name (r.model.getD ""))

theorem modelFor_eq {g : Judge} (hg : Follows g c catalog) (r : Rule) :
    g.modelFor r = catalog.resolve c.provider.name
      (if r.model.getD "" = "" then c.model else r.model.getD "") := by
  rw [Judge.modelFor, hg.catalog, hg.provider, Judge.modelName]
  cases r.model with
  | none => rw [hg.model]; rfl
  | some m => simp [hg.model, String.isEmpty_iff]

/-- Validation keeps its promises, whatever the data and the catalog. -/
theorem validate_promised {raw : Datum} (h : validate catalog raw = .ok c) :
    Promised catalog raw c := by
  obtain ⟨⟨d, hdefaults, hread⟩, hmodels⟩ := validate_eq_ok h
  obtain ⟨hprovider, _, hrules⟩ := reader_eq_ok hread
  obtain ⟨_, _, hrules⟩ := Form.required_eq_ok.mp hrules
  obtain ⟨hfilled, hdistinct⟩ := rulesReader_eq_ok hrules
  have hnames := namesProvider_of_reader hprovider
  rw [NamesProvider, (withDefaults_cases hdefaults).1] at hnames
  obtain ⟨hdefault, hown⟩ := checkModels_eq_ok hmodels
  refine
    { provider := ⟨?_, hnames⟩
      concurrency := concurrency_bounds h
      model := model_ne_empty hdefaults hread
      rules := hfilled
      distinct := hdistinct
      models := ?_ }
  · cases c.provider <;> decide
  · intro g hg r hr
    rw [modelFor_eq hg]
    refine ⟨?_, fun hempty => by rw [if_pos hempty], fun hne => by rw [if_neg hne]⟩
    by_cases hempty : r.model.getD "" = ""
    · rwa [if_pos hempty]
    · rw [if_neg hempty]
      cases hm : r.model with
      | none => exact absurd (by rw [hm]; rfl) hempty
      | some m =>
        rw [hm] at hempty
        exact hown r hr m hm hempty

end Config

namespace Sample

def ruleData : Datum :=
  .map [(.str "rules", .list [.map [(.str "id", .str "no_print"), (.str "name", .str "No print"),
    (.str "severity", .str "error"), (.str "glob", .str "*.py"), (.str "prompt", .str "Do not print.")]])]

def ruleConfig : Config := ⟨.openrouter, none, "gemini-flash", 5, "main", [rule .error]⟩

theorem validate_ruleData : Config.validate .default ruleData = .ok ruleConfig := by decide

/-- The promises hold of a configuration of one rule. -/
theorem validate_promised_single : Config.validate .default ruleData = .ok ruleConfig ∧
    Config.Promised .default ruleData ruleConfig :=
  ⟨validate_ruleData, Config.validate_promised validate_ruleData⟩

end Sample
end Lint
end JudgedLint

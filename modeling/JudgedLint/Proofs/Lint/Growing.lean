import JudgedLint.Proofs.Lint.Validation
import JudgedLint.Proofs.Yaml.Distinct

/-! A configuration whose data get one more rule. The members of a configuration are read one by one,
so nothing but the rules changes, and what was filled in is filled in again. -/
namespace JudgedLint

namespace Form

variable {α : Type} {names : List String} {d : Datum}

def Known (names : List String) (d : Datum) : Prop :=
  ∀ e ∈ d.entries, ∃ name ∈ names, e.1.bare = .str name

theorem strangers_eq_nil : strangers names d = [] ↔ Known names d := by
  rw [strangers, List.filterMap_eq_nil_iff]
  refine forall₂_congr fun e _ => ?_
  split
  · next key hkey =>
    rw [hkey]
    constructor
    · intro h
      refine ⟨key, ?_, rfl⟩
      split at h
      · next hmem => simpa using hmem
      · cases h
    · rintro ⟨name, hname, heq⟩
      cases heq
      rw [if_pos (by simpa using hname)]
  · next hother =>
    refine iff_of_false (by simp) ?_
    rintro ⟨name, _, heq⟩
    exact hother name heq

theorem closed_iff (hnames : ∀ name ∈ names, Text.isWellFormed name = true)
    {body : Datum → Checked α} {x : α} :
    closed names body d = .ok x ↔ Known names d ∧ body d = .ok x := by
  unfold closed
  constructor
  · intro h
    split at h
    · unfold Checked.also at h
      split at h
      · next hbody =>
        split at h
        · next hempty =>
          cases h
          exact ⟨strangers_eq_nil.mp (List.isEmpty_iff.mp hempty), hbody⟩
        · cases h
      · cases h
    · cases h
  · rintro ⟨hknown, hbody⟩
    have hformed : (d.entries.all fun e => (e.1.str?.map Text.isWellFormed).getD true) = true := by
      rw [List.all_eq_true]
      intro e he
      obtain ⟨name, hname, hkey⟩ := hknown e he
      simp [Datum.str?, hkey, hnames name hname]
    rw [if_pos hformed, hbody, strangers_eq_nil.mpr hknown]
    rfl

theorem itemsFrom_iff {r : Reader α} {ds : List Datum} : ∀ {i : Nat} {xs : List α},
    itemsFrom r i ds = .ok xs ↔ List.Forall₂ (fun d x => r d = .ok x) ds xs := by
  induction ds with
  | nil =>
    intro i xs
    rw [itemsFrom, List.forall₂_nil_left_iff]
    exact ⟨fun h => (by cases h; rfl), fun h => by rw [h]⟩
  | cons d rest ih =>
    intro i xs
    rw [itemsFrom, List.forall₂_cons_left_iff]
    simp only [apply_eq_ok, map_eq_ok, under_eq_ok, ih]
    constructor
    · rintro ⟨_, xs, ⟨x, hx, rfl⟩, hxs, rfl⟩
      exact ⟨x, xs, hx, hxs, rfl⟩
    · rintro ⟨x, xs, hx, hxs, rfl⟩
      exact ⟨_, xs, ⟨x, hx, rfl⟩, hxs, rfl⟩

end Form

namespace Lint

theorem Rule.reader_iff {d : Datum} {r : Rule} : Rule.reader d = .ok r ↔
    d.isMap = true ∧ Form.Known memberNames d ∧
      Form.required "id" (Form.textMatching isRuleId ruleIdForm) d = .ok r.id ∧
      Form.required "name" (Form.textOfLength 1) d = .ok r.name ∧
      Form.required "severity" (Form.oneOf severities) d = .ok r.severity ∧
      Form.required "glob" (Form.textOfLength 1) d = .ok r.glob ∧
      Form.withDefault "exclude" none (Form.optional Form.text) d = .ok r.exclude ∧
      Form.required "prompt" (Form.textOfLength 1) d = .ok r.prompt ∧
      Form.withDefault "model" none (Form.optional Form.text) d = .ok r.model := by
  rw [Rule.reader, Form.record_eq_ok, Form.closed_iff (by decide)]
  simp only [Form.apply_eq_ok, map_eq_ok]
  constructor
  · rintro ⟨hmap, hknown, _, _, ⟨_, _, ⟨_, _, ⟨_, _, ⟨_, _, ⟨_, _, ⟨_, hid, rfl⟩, hname, rfl⟩, hseverity,
      rfl⟩, hglob, rfl⟩, hexclude, rfl⟩, hprompt, rfl⟩, hmodel, rfl⟩
    exact ⟨hmap, hknown, hid, hname, hseverity, hglob, hexclude, hprompt, hmodel⟩
  · rintro ⟨hmap, hknown, hid, hname, hseverity, hglob, hexclude, hprompt, hmodel⟩
    exact ⟨hmap, hknown, _, _, ⟨_, _, ⟨_, _, ⟨_, _, ⟨_, _, ⟨_, _, ⟨_, hid, rfl⟩, hname, rfl⟩, hseverity,
      rfl⟩, hglob, rfl⟩, hexclude, rfl⟩, hprompt, rfl⟩, hmodel, rfl⟩

namespace Config

variable {d e : Datum} {catalog : Model.Catalog} {c : Config} {entries entries' : List (Datum × Datum)}

theorem reader_iff : reader d = .ok c ↔
    d.isMap = true ∧ Form.Known memberNames d ∧
      Form.withDefault "provider" Provider.openrouter (Form.oneOf providers) d = .ok c.provider ∧
      Form.withDefault "provider_url" none (Form.optional Form.text) d = .ok c.providerUrl ∧
      Form.withDefault "model" "" Form.text d = .ok c.model ∧
      Form.withDefault "concurrency" 0 concurrencyReader d = .ok c.concurrency ∧
      Form.withDefault "git_base" "main" Form.text d = .ok c.gitBase ∧
      Form.required "rules" rulesReader d = .ok c.rules := by
  rw [reader, Form.record_eq_ok, Form.closed_iff (by decide)]
  simp only [Form.apply_eq_ok, map_eq_ok]
  constructor
  · rintro ⟨hmap, hknown, _, _, ⟨_, _, ⟨_, _, ⟨_, _, ⟨_, _, ⟨_, hprovider, rfl⟩, hurl, rfl⟩, hmodel, rfl⟩,
      hconcurrency, rfl⟩, hbase, rfl⟩, hrules, rfl⟩
    exact ⟨hmap, hknown, hprovider, hurl, hmodel, hconcurrency, hbase, hrules⟩
  · rintro ⟨hmap, hknown, hprovider, hurl, hmodel, hconcurrency, hbase, hrules⟩
    exact ⟨hmap, hknown, _, _, ⟨_, _, ⟨_, _, ⟨_, _, ⟨_, _, ⟨_, hprovider, rfl⟩, hurl, rfl⟩, hmodel, rfl⟩,
      hconcurrency, rfl⟩, hbase, rfl⟩, hrules, rfl⟩

theorem ofDatum_iff (hmap : d.isMap = true) :
    ofDatum d = .ok c ↔ ∃ e, withDefaults d = .ok e ∧ reader e = .ok c := by
  rw [ofDatum, if_pos hmap, bind_eq_ok]
  simp only [mapError_eq_ok]

theorem validate_of_ofDatum (hmap : d.isMap = true) (h : ofDatum d = .ok c) :
    validate catalog d = ((checkModels catalog c).mapError .config).map fun _ => c := by
  rw [validate, if_neg (by simp [hmap]), h]
  dsimp only
  cases checkModels catalog c <;> rfl

theorem validate_iff : validate catalog d = .ok c ↔
    d.isMap = true ∧ (∃ e, withDefaults d = .ok e ∧ reader e = .ok c) ∧
      checkModels catalog c = .ok () := by
  constructor
  · intro h
    have hmap : d.isMap = true := by
      unfold validate at h
      split at h
      · cases h
      · next hmap => simpa using hmap
    exact ⟨hmap, validate_eq_ok h⟩
  · rintro ⟨hmap, hdata, hmodels⟩
    rw [validate_of_ofDatum hmap ((ofDatum_iff hmap).mpr hdata), hmodels]
    rfl

/-! Ids -/

theorem foldl_of_nodup {step : List String × List String → String → List String × List String}
    (hstep : ∀ seen repeated id, step (seen, repeated) id = (id :: seen,
      if seen.contains id && !repeated.contains id then repeated ++ [id] else repeated))
    (ids : List String) : ∀ seen repeated, ids.Nodup → (∀ id ∈ ids, id ∉ seen) →
      (ids.foldl step (seen, repeated)).2 = repeated := by
  induction ids with
  | nil => exact fun _ _ _ _ => rfl
  | cons id rest ih =>
    intro seen repeated hnodup hfresh
    obtain ⟨hid, hnodup⟩ := List.nodup_cons.mp hnodup
    have hunseen : seen.contains id = false := by simpa using hfresh id List.mem_cons_self
    rw [List.foldl_cons, hstep, hunseen, Bool.false_and, if_neg Bool.false_ne_true]
    refine ih _ _ hnodup fun other hother => ?_
    rw [List.mem_cons, not_or]
    exact ⟨fun heq => hid (heq ▸ hother), hfresh other (List.mem_cons_of_mem _ hother)⟩

theorem rulesReader_iff {rules : List Rule} : rulesReader d = .ok rules ↔
    Form.listOf Rule.reader d = .ok rules ∧ (rules.map (·.id)).Nodup := by
  constructor
  · intro h
    obtain ⟨rules', hlist, hrest⟩ := bind_eq_ok.mp h
    dsimp only at hrest
    split at hrest
    · cases pure_eq_ok.mp hrest
      exact ⟨hlist, (rulesReader_eq_ok h).2⟩
    · cases hrest
  · rintro ⟨hlist, hnodup⟩
    have hrepeated : repeatedIds (rules.map (·.id)) = [] :=
      foldl_of_nodup (fun _ _ _ => rfl) _ _ _ hnodup (by simp)
    refine bind_eq_ok.mpr ⟨rules, hlist, ?_⟩
    simp only [hrepeated]
    rfl

/-! Defaults -/

/-- Data with the same keys that differ in the rules at most. -/
structure AlikeButRules (d d' : Datum) : Prop where
  map : d'.isMap = d.isMap
  keys : d'.entries.map (·.1) = d.entries.map (·.1)
  get : ∀ name, name ≠ "rules" → d'.get? name = d.get? name

theorem AlikeButRules.refl (d : Datum) : AlikeButRules d d := ⟨rfl, rfl, fun _ _ => rfl⟩

theorem AlikeButRules.setEntry {name : String} (h : AlikeButRules (.map entries) (.map entries'))
    (value : Datum) :
    AlikeButRules (.map (setEntry name value entries)) (.map (setEntry name value entries')) := by
  have hkeys : entries'.map (·.1) = entries.map (·.1) := h.keys
  refine ⟨rfl, ?_, fun other hother => ?_⟩
  · have hany (es : List (Datum × Datum)) : (es.any fun e => Datum.sameKey e.1 (.str name)) =
        (es.map (·.1)).any fun k => Datum.sameKey k (.str name) := by
      rw [List.any_map]
      rfl
    change (Datum.insert _ _ entries').map (·.1) = (Datum.insert _ _ entries).map (·.1)
    rw [Datum.keys_insert, Datum.keys_insert, hany, hany, hkeys]
  · change (Datum.map (Datum.insert _ _ entries')).get? other =
      (Datum.map (Datum.insert _ _ entries)).get? other
    by_cases heq : name = other
    · rw [heq, Datum.get?_insert_self, Datum.get?_insert_self]
    · rw [Datum.get?_insert_of_ne heq, Datum.get?_insert_of_ne heq]
      exact h.get other hother

theorem AlikeButRules.setIf {name : String} (h : AlikeButRules (.map entries) (.map entries'))
    (condition : Bool) (value : Datum) : AlikeButRules (.map (setIf condition name value entries))
      (.map (setIf condition name value entries')) := by
  unfold Config.setIf
  split
  · exact h.setEntry value
  · exact h

theorem AlikeButRules.known {names : List String} {d' : Datum} (h : AlikeButRules d d')
    (hknown : Form.Known names d) : Form.Known names d' := by
  intro e' he'
  have hkey : e'.1 ∈ d.entries.map (·.1) := h.keys ▸ List.mem_map_of_mem he'
  obtain ⟨e, he, heq⟩ := List.mem_map.mp hkey
  rw [← heq]
  exact hknown e he

theorem withDefaults_alike {d' : Datum} (h : AlikeButRules d d') (hdefaults : withDefaults d = .ok e) :
    ∃ e', withDefaults d' = .ok e' ∧ AlikeButRules e e' ∧ e'.get? "rules" = d'.get? "rules" := by
  have hentries (x : Datum) (name : String) : (Datum.map x.entries).get? name = x.get? name := rfl
  have halike : AlikeButRules (.map d.entries) (.map d'.entries) := ⟨rfl, h.keys, h.get⟩
  -- All that the defaults depend on stands outside the rules.
  have hprovider : d'.get? "provider" = d.get? "provider" := h.get _ (by decide)
  have hmodel : isUnset "model" d' = isUnset "model" d := by
    rw [isUnset, isUnset, h.get _ (by decide)]
  have hunset : isUnset "provider" d' = isUnset "provider" d := by
    rw [isUnset, isUnset, hprovider]
  have hmissing : isMissing "concurrency" d' = isMissing "concurrency" d := by
    rw [isMissing, isMissing, h.get _ (by decide)]
  have hurl : d'.get? "provider_url" = d.get? "provider_url" := h.get _ (by decide)
  unfold withDefaults at hdefaults ⊢
  rw [hunset, hprovider, hmodel, hmissing, hurl]
  generalize (if isUnset "provider" d then Datum.str "openrouter"
    else (d.get? "provider").getD .null) = provider at hdefaults ⊢
  dsimp only at hdefaults ⊢
  split at hdefaults
  · next hlocal =>
    rw [if_pos hlocal]
    split at hdefaults
    · cases hdefaults
    · next hset =>
      cases hdefaults
      rw [if_neg hset]
      refine ⟨_, rfl, (halike.setIf _ _).setIf _ _, ?_⟩
      rw [get?_setIf_of_ne (by decide), get?_setIf_of_ne (by decide), hentries]
  · next hhosted =>
    rw [if_neg hhosted]
    have hfill (es es' : List (Datum × Datum)) (hes : AlikeButRules (.map es) (.map es'))
        (hrules : (Datum.map es').get? "rules" = d'.get? "rules") :
        AlikeButRules (.map (setIf (isMissing "concurrency" d) "concurrency" (.int defaultConcurrency) es))
          (.map (setIf (isMissing "concurrency" d) "concurrency" (.int defaultConcurrency) es')) ∧
        (Datum.map (setIf (isMissing "concurrency" d) "concurrency"
          (.int defaultConcurrency) es')).get? "rules" = d'.get? "rules" := by
      refine ⟨hes.setIf _ _, ?_⟩
      rw [get?_setIf_of_ne (by decide), hrules]
    split at hdefaults
    · next hset =>
      rw [if_pos hset]
      split at hdefaults
      · cases hdefaults
      · cases hdefaults
        cases hm : provider.str?.bind fun p => defaultModels.lookup p with
        | none => exact ⟨_, rfl, hfill _ _ halike rfl⟩
        | some m =>
          exact ⟨_, rfl, hfill _ _ (halike.setEntry _) (Datum.get?_insert_of_ne (by decide) _ _)⟩
    · next hset =>
      rw [if_neg hset]
      cases hdefaults
      exact ⟨_, rfl, hfill _ _ halike rfl⟩

/-! Another rule -/

theorem AlikeButRules.withDefault {α : Type} {d' : Datum} {name : String} {default x : α}
    {r : Form.Reader α} (h : AlikeButRules d d') (hne : name ≠ "rules")
    (hread : Form.withDefault name default r d = .ok x) : Form.withDefault name default r d' = .ok x := by
  rw [Form.withDefault, h.get name hne]
  exact hread

theorem keys_insert_of_get? {name : String} (h : ((Datum.map entries).get? name).isSome = true)
    (value : Datum) :
    (Datum.insert (.str name) value entries).map (·.1) = entries.map (·.1) := by
  rw [isSome_get?] at h
  rw [Datum.keys_insert]
  exact if_pos h

/-- The names of models that a configuration lets a rule have: none, or one that its provider
accepts. -/
def Accepts (catalog : Model.Catalog) (provider : Provider) (rule : Rule) : Prop :=
  ∀ m, rule.model = some m → m ≠ "" → catalog.isValid provider.name m = true

def withRule (c : Config) (rule : Rule) : Config := { c with rules := c.rules ++ [rule] }

theorem checkModels_withRule {rule : Rule} (h : checkModels catalog c = .ok ())
    (haccepts : Accepts catalog c.provider rule) : checkModels catalog (c.withRule rule) = .ok () := by
  refine checkModels_iff.mpr ((checkModels_iff.mp h).imp id fun ⟨hmodel, hrules⟩ => ?_)
  refine ⟨hmodel, fun r hr => ?_⟩
  rcases List.mem_append.mp hr with hr | hr
  · exact hrules r hr
  · obtain rfl := List.mem_singleton.mp hr
    exact haccepts

theorem checkModels_withRule_of_unknown {rule : Rule} {m : String}
    (h : checkModels catalog c = .ok ()) (hmodel : rule.model = some m) (hne : m ≠ "")
    (hunknown : catalog.isValid c.provider.name m = false) :
    checkModels catalog (c.withRule rule) = .error (.unknownRuleModel m rule.id c.provider.name
      ((catalog.allowed c.provider.name).getD [])) := by
  have hallowed : ∃ allowed, catalog.allowed c.provider.name = some allowed := by
    rw [Model.Catalog.isValid] at hunknown
    rw [Model.Catalog.allowed]
    split at hunknown
    · exact absurd hunknown (by simpa using hne)
    · next hlisted => exact ⟨_, if_neg hlisted⟩
  obtain ⟨allowed, hallowed⟩ := hallowed
  unfold checkModels at h ⊢
  dsimp only at h ⊢
  rw [show (c.withRule rule).provider = c.provider from rfl,
    show (c.withRule rule).model = c.model from rfl,
    show (c.withRule rule).rules = c.rules ++ [rule] from rfl]
  rw [hallowed] at h ⊢
  dsimp only at h ⊢
  split at h
  · cases h
  · next hvalid =>
    rw [if_neg hvalid]
    split at h
    · cases h
    · next hrules =>
      rw [List.findSome?_append, hrules]
      simp [hmodel, hne, hunknown]

/-- Data of a configuration whose rules get one more are read as the configuration with that rule,
whatever its model. -/
theorem ofDatum_insert {rule : Rule} {items : List Datum} (h : validate catalog (.map entries) = .ok c)
    (hitems : Form.listOf Rule.reader (.list items) = .ok (c.rules ++ [rule]))
    (hnew : rule.id ∉ c.ruleIds) :
    ofDatum (.map (Datum.insert (.str "rules") (.list items) entries)) = .ok (c.withRule rule) := by
  obtain ⟨_, ⟨e, hdefaults, hread⟩, _⟩ := validate_iff.mp h
  obtain ⟨hmap, hknown, hprovider, hurl, hmodel, hconcurrency, hbase, hrules⟩ := reader_iff.mp hread
  obtain ⟨v, hv, hrules⟩ := Form.required_eq_ok.mp hrules
  obtain ⟨e₀, he₀, _, hsame⟩ := withDefaults_alike (.refl _) hdefaults
  cases hdefaults.symm.trans he₀
  have halike : AlikeButRules (.map entries) (.map (Datum.insert (.str "rules") (.list items) entries)) :=
    ⟨rfl, keys_insert_of_get? (by rw [← hsame, hv]; rfl) _,
      fun name hne => Datum.get?_insert_of_ne (Ne.symm hne) _ _⟩
  obtain ⟨e', hdefaults', halike', hrules'⟩ := withDefaults_alike halike hdefaults
  rw [Datum.get?_insert_self] at hrules'
  have hread' : rulesReader (.list items) = .ok (c.withRule rule).rules := by
    refine rulesReader_iff.mpr ⟨hitems, ?_⟩
    rw [show (c.withRule rule).rules = c.rules ++ [rule] from rfl, List.map_append]
    exact List.Nodup.append (rulesReader_iff.mp hrules).2 (List.nodup_singleton _)
      (List.disjoint_singleton.mpr hnew)
  exact (ofDatum_iff rfl).mpr ⟨e', hdefaults', reader_iff.mpr ⟨halike'.map ▸ hmap,
    halike'.known hknown, halike'.withDefault (by decide) hprovider,
    halike'.withDefault (by decide) hurl, halike'.withDefault (by decide) hmodel,
    halike'.withDefault (by decide) hconcurrency, halike'.withDefault (by decide) hbase,
    Form.required_eq_ok.mpr ⟨_, hrules', hread'⟩⟩⟩

end Config
end Lint
end JudgedLint

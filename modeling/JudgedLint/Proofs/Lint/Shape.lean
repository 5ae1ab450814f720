import JudgedLint.Lint.ConfigFile
import JudgedLint.Proofs.Lint.Growing
import JudgedLint.Proofs.Yaml.Steady

/-! What the data of rules and configurations look like, as far as they are steady: mappings from
names to brief values, and under one name the list of the rules. Such data last. -/
namespace JudgedLint

open Yaml (KeepsLines Brief Lasting PlainKey)

namespace Form

variable {α : Type} {d : Datum} {s : String}

theorem wellFormed_eq_ok {t : String} : wellFormed s = .ok t ↔ Text.isWellFormed s = true ∧ s = t := by
  unfold wellFormed
  split
  · next h => simp [h]
  · next h => simp [h, fail]

theorem text_steady (hd : Yaml.Steady d) : text d = .ok s ↔ d = .str s := by
  rw [text, hd.bare]
  cases hd with
  | str h => simp
  | _ => simp [fail]

theorem textOfLength_iff {least : Nat} : textOfLength least d = .ok s ↔
    text d = .ok s ∧ Text.isWellFormed s = true ∧ least ≤ s.length := by
  rw [textOfLength]
  simp only [bind_eq_ok, wellFormed_eq_ok]
  constructor
  · rintro ⟨t, ht, t', ⟨hformed, rfl⟩, h⟩
    split at h
    · cases h
    · next hleast =>
      cases pure_eq_ok.mp h
      exact ⟨ht, hformed, Nat.not_lt.mp hleast⟩
  · rintro ⟨ht, hformed, hleast⟩
    exact ⟨s, ht, s, ⟨hformed, rfl⟩, by rw [if_neg (Nat.not_lt.mpr hleast)]; rfl⟩

theorem textMatching_iff {p : String → Bool} {written : String} : textMatching p written d = .ok s ↔
    text d = .ok s ∧ Text.isWellFormed s = true ∧ p s = true := by
  rw [textMatching]
  simp only [bind_eq_ok, wellFormed_eq_ok]
  constructor
  · rintro ⟨t, ht, t', ⟨hformed, rfl⟩, h⟩
    split at h
    · next hp =>
      cases pure_eq_ok.mp h
      exact ⟨ht, hformed, hp⟩
    · cases h
  · rintro ⟨ht, hformed, hp⟩
    exact ⟨s, ht, s, ⟨hformed, rfl⟩, by rw [if_pos hp]; rfl⟩

theorem brief_of_text (hd : Yaml.Steady d) (h : text d = .ok s) : Brief d := by
  obtain rfl := (text_steady hd).mp h
  cases hd with
  | str h => exact .str h

theorem brief_of_isNull (hd : Yaml.Steady d) (h : d.isNull = true) : Brief d := by
  rw [Datum.isNull, hd.bare] at h
  cases d with
  | null => exact .null
  | _ => cases h

theorem brief_of_optional {o : Option String} (hd : Yaml.Steady d) (h : optional text d = .ok o) :
    Brief d := by
  unfold optional at h
  split at h
  · next hnull => exact brief_of_isNull hd hnull
  · obtain ⟨s, hs, _⟩ := map_eq_ok.mp h
    exact brief_of_text hd hs

theorem required_of_get? {name : String} {r : Reader α} {v : Datum} {x : α} (hv : d.get? name = some v)
    (h : required name r d = .ok x) : r v = .ok x := by
  obtain ⟨v', hv', h⟩ := required_eq_ok.mp h
  cases hv.symm.trans hv'
  exact h

theorem withDefault_of_get? {name : String} {r : Reader α} {v : Datum} {default x : α}
    (hv : d.get? name = some v) (h : withDefault name default r d = .ok x) : r v = .ok x := by
  rcases withDefault_eq_ok.mp h with ⟨hnone, _⟩ | ⟨v', hv', h⟩
  · cases hv.symm.trans hnone
  · cases hv.symm.trans hv'
    exact h

theorem brief_of_oneOf {choices : List (String × α)} {a : α} (hd : Yaml.Steady d)
    (h : oneOf choices d = .ok a) : Brief d := by
  obtain ⟨s, hs, _⟩ := oneOf_eq_ok h
  refine brief_of_text (s := s) hd ?_
  rw [Datum.str?, hd.bare] at hs
  rw [text, hd.bare]
  split at hs
  · next hbare =>
    cases hs
    rfl
  · cases hs

end Form

namespace Lint

inductive BriefRecord (names : List String) : Datum → Prop
  | mk {entries : List (Datum × Datum)} (keys : ∀ e ∈ entries, ∃ name ∈ names, e.1 = .str name)
      (distinct : (entries.map (·.1)).Nodup) (values : ∀ e ∈ entries, Brief e.2) :
      BriefRecord names (.map entries)

theorem plainKey_memberNames : ∀ name ∈ Rule.memberNames ++ Config.memberNames,
    PlainKey (.str name) name := by
  have hplain : ∀ name ∈ Rule.memberNames ++ Config.memberNames,
      (name.toList ≠ [] ∧ (name.toList.all fun c => decide (c ∈ Yaml.Lexer.keyChars)) = true ∧
          name.toList.length < 123) ∧
        Yaml.Tag.ofPlain name = .str ∧ (Yaml.analyze name.toList).plain = true := by
    decide
  intro name hname
  obtain ⟨⟨hne, hchars, hlength⟩, hlooks, hplain⟩ := hplain name hname
  exact ⟨rfl, ⟨hne, List.all_iff_forall_prop.mp hchars, hlength⟩, hlooks, hplain⟩

theorem BriefRecord.lasting {d : Datum} {n : Nat} (h : BriefRecord Rule.memberNames d)
    (hn : n + 4 < Yaml.lineWidth) : Lasting n d := by
  obtain ⟨keys, distinct, values⟩ := h
  refine .map (fun e he => ?_) distinct fun e he => (values e he).lasting hn
  obtain ⟨name, hname, heq⟩ := keys e he
  exact ⟨name, heq ▸ plainKey_memberNames name (List.mem_append_left _ hname)⟩

theorem BriefRecord.mentions {names : List String} {d : Datum} (h : BriefRecord names d)
    (m : Yaml.Mentions) : Yaml.mentions d m = m := by
  obtain ⟨keys, _, values⟩ := h
  rw [Yaml.mentions]
  refine Yaml.entryMentions_eq (fun e he => ?_) m
  obtain ⟨name, _, hname⟩ := keys e he
  exact ⟨⟨name, hname⟩, (values e he).mentions⟩

/-- Data of a configuration: brief values, and a list of records of rules. -/
inductive Shaped : Datum → Prop
  | mk {entries : List (Datum × Datum)}
      (keys : ∀ e ∈ entries, ∃ name ∈ Config.memberNames, e.1 = .str name)
      (distinct : (entries.map (·.1)).Nodup)
      (values : ∀ e ∈ entries, Brief e.2 ∨
        ∃ items, e.2 = .list items ∧ ∀ d ∈ items, BriefRecord Rule.memberNames d) :
      Shaped (.map entries)

theorem Shaped.lasting {d : Datum} (h : Shaped d) : Lasting 0 d := by
  obtain ⟨keys, distinct, values⟩ := h
  refine .map (fun e he => ?_) distinct fun e he => ?_
  · obtain ⟨name, hname, heq⟩ := keys e he
    exact ⟨name, heq ▸ plainKey_memberNames name (List.mem_append_right _ hname)⟩
  · rcases values e he with hbrief | ⟨items, heq, hitems⟩
    · exact hbrief.lasting (by decide)
    · rw [heq]
      exact .list fun d hd => (hitems d hd).lasting (by decide)

theorem Shaped.writable {d : Datum} (h : Shaped d) : Yaml.isWritable d = true := by
  obtain ⟨keys, _, values⟩ := h
  rw [Yaml.isWritable, Yaml.mentions, Yaml.entryMentions_eq fun e he => ?_]
  obtain ⟨name, _, hname⟩ := keys e he
  refine ⟨⟨name, hname⟩, ?_⟩
  rcases values e he with hbrief | ⟨items, heq, hitems⟩
  · exact hbrief.mentions
  · intro m
    rw [heq, Yaml.mentions]
    exact Yaml.itemMentions_eq (fun d hd => (hitems d hd).mentions) m

/-! The data of records -/

section

variable {entries : List (Datum × Datum)} {names : List String} {d : Datum}

theorem keys_of_known (hsteady : ∀ e ∈ entries, Yaml.Steady e.1) (hknown : Form.Known names (.map entries)) :
    ∀ e ∈ entries, ∃ name ∈ names, e.1 = .str name := by
  intro e he
  obtain ⟨name, hname, hkey⟩ := hknown e he
  rw [(hsteady e he).bare] at hkey
  exact ⟨name, hname, hkey⟩

theorem nodup_of_apart (hkeys : ∀ e ∈ entries, ∃ name ∈ names, e.1 = .str name)
    (h : Datum.Apart (entries.map (·.1))) : (entries.map (·.1)).Nodup := by
  refine List.Pairwise.imp_of_mem (fun {a b} ha hb hab => ?_) h
  rintro rfl
  obtain ⟨e, he, rfl⟩ := List.mem_map.mp ha
  obtain ⟨name, _, hname⟩ := hkeys e he
  rw [hname, Datum.sameKey_str.mpr rfl] at hab
  cases hab

theorem get?_of_mem {e : Datum × Datum} {name : String} (hdistinct : Datum.Apart (entries.map (·.1)))
    (he : e ∈ entries) (hname : e.1 = .str name) : (Datum.map entries).get? name = some e.2 := by
  induction entries with
  | nil => cases he
  | cons first rest ih =>
    obtain ⟨hfirst, hrest⟩ := List.pairwise_cons.mp hdistinct
    rw [Datum.get?_cons]
    rcases List.mem_cons.mp he with rfl | he
    · rw [if_pos (by rw [hname]; exact Datum.sameKey_str.mpr rfl)]
    · have hdiffers := hfirst e.1 (List.mem_map_of_mem he)
      rw [hname] at hdiffers
      rw [if_neg (by simp [hdiffers]), ih hrest he]

theorem briefRecord_of_rule {r : Rule} (hsteady : Yaml.Steady d) (hdistinct : d.Distinct)
    (h : Rule.reader d = .ok r) : BriefRecord Rule.memberNames d := by
  obtain ⟨hmap, hknown, hid, hname, hseverity, hglob, hexclude, hprompt, hmodel⟩ := Rule.reader_iff.mp h
  obtain ⟨entries, rfl, hentries⟩ := hsteady.of_isMap hmap
  have hkeys := keys_of_known (fun e he => (hentries e he).1) hknown
  obtain ⟨hapart, _⟩ := hdistinct.entries
  refine .mk hkeys (nodup_of_apart hkeys hapart) fun e he => ?_
  have hvalue : Yaml.Steady e.2 := (hentries e he).2
  obtain ⟨name, hmem, hkey⟩ := hkeys e he
  have hthere := get?_of_mem hapart he hkey
  simp only [Rule.memberNames, List.mem_cons, List.not_mem_nil, or_false] at hmem
  rcases hmem with rfl | rfl | rfl | rfl | rfl | rfl | rfl
  · exact Form.brief_of_text hvalue (Form.textMatching_iff.mp (Form.required_of_get? hthere hid)).1
  · exact Form.brief_of_text hvalue (Form.textOfLength_iff.mp (Form.required_of_get? hthere hname)).1
  · exact Form.brief_of_oneOf hvalue (Form.required_of_get? hthere hseverity)
  · exact Form.brief_of_text hvalue (Form.textOfLength_iff.mp (Form.required_of_get? hthere hglob)).1
  · exact Form.brief_of_optional hvalue (Form.withDefault_of_get? hthere hexclude)
  · exact Form.brief_of_text hvalue (Form.textOfLength_iff.mp (Form.required_of_get? hthere hprompt)).1
  · exact Form.brief_of_optional hvalue (Form.withDefault_of_get? hthere hmodel)

theorem brief_of_not_truthy (hsteady : Yaml.Steady d) (h : d.isTruthy = false) : Brief d := by
  cases hsteady with
  | null => exact .null
  | bool b => exact .bool b
  | int n =>
    obtain rfl : n = 0 := by simpa [Datum.isTruthy, Datum.bare] using h
    exact .int (n := 0) (by decide)
  | str hkept => exact .str hkept
  | @list items _ =>
    obtain rfl : items = [] := by simpa [Datum.isTruthy, Datum.bare] using h
    exact .emptyList
  | @map entries _ _ =>
    obtain rfl : entries = [] := by simpa [Datum.isTruthy, Datum.bare] using h
    exact .emptyMap

theorem brief_of_concurrency {n : Nat} (hsteady : Yaml.Steady d)
    (h : Config.concurrencyReader d = .ok n) : Brief d := by
  obtain ⟨k, hk, hbounds⟩ := bind_eq_ok.mp h
  rw [Form.integer, hsteady.bare] at hk
  cases hsteady with
  | null => exact .null
  | bool b => exact .bool b
  | int m =>
    cases hk
    split at hbounds
    · cases hbounds
    · next hnonneg =>
      split at hbounds
      · cases hbounds
      · next hmost =>
        rw [Config.maxConcurrency] at hmost
        obtain ⟨j, rfl⟩ := Int.eq_ofNat_of_zero_le (Int.not_lt.mp hnonneg)
        exact .int (by omega)
  | str hkept => exact .str hkept
  | list | map => cases hk

theorem exists_of_forall₂ {α β : Type} {R : α → β → Prop} {as : List α} {bs : List β}
    (h : List.Forall₂ R as bs) {a : α} (ha : a ∈ as) : ∃ b, R a b := by
  induction h with
  | nil => cases ha
  | cons hab _ ih =>
    rcases List.mem_cons.mp ha with rfl | ha
    · exact ⟨_, hab⟩
    · exact ih ha

theorem items_of_rules {rules : List Rule} (hsteady : Yaml.Steady d) (hdistinct : d.Distinct)
    (h : Form.listOf Rule.reader d = .ok rules) : ∃ items, d = .list items ∧
      List.Forall₂ (fun d r => Rule.reader d = .ok r) items rules ∧
      ∀ d ∈ items, Yaml.Steady d ∧ BriefRecord Rule.memberNames d := by
  rw [Form.listOf, hsteady.bare] at h
  cases hsteady with
  | @list items hitems =>
    have hread := Form.itemsFrom_iff.mp h
    refine ⟨items, rfl, hread, fun d hd => ⟨hitems d hd, ?_⟩⟩
    obtain ⟨r, hr⟩ := exists_of_forall₂ hread hd
    exact briefRecord_of_rule (hitems d hd) (hdistinct.items d hd) hr
  | _ => cases h

end

namespace Config

variable {entries : List (Datum × Datum)} {catalog : Model.Catalog} {c : Config} {d e : Datum}

theorem get?_setIf {name other : String} {condition : Bool} (h : other = name → condition = false)
    (value : Datum) (entries : List (Datum × Datum)) :
    (Datum.map (setIf condition other value entries)).get? name = (Datum.map entries).get? name := by
  by_cases hne : other = name
  · rw [setIf, h hne]
    rfl
  · exact get?_setIf_of_ne hne condition value entries

theorem withDefaults_get? {name : String} (hmodel : name = "model" → isUnset "model" d = false)
    (hconcurrency : name = "concurrency" → isMissing "concurrency" d = false)
    (hurl : name = "provider_url" → (d.get? "provider_url").isNone = false)
    (h : withDefaults d = .ok e) : e.get? name = d.get? name := by
  have hentries : (Datum.map d.entries).get? name = d.get? name := rfl
  cases defaulted_of_withDefaults h with
  | onSite =>
    rw [get?_setIf fun heq => hconcurrency heq.symm, get?_setIf fun heq => hurl heq.symm, hentries]
  | kept =>
    rw [get?_setIf fun heq => hconcurrency heq.symm]
    exact hentries
  | named hunset =>
    rw [get?_setIf fun heq => hconcurrency heq.symm]
    refine (Datum.get?_insert_of_ne ?_ _ _).trans hentries
    intro heq
    cases (hmodel heq.symm).symm.trans hunset
  | unnamed =>
    rw [get?_setIf fun heq => hconcurrency heq.symm]
    exact hentries

theorem mem_keys_setEntry {k : Datum} (hk : k ∈ entries.map (·.1)) (name : String) (value : Datum) :
    k ∈ (setEntry name value entries).map (·.1) := by
  rw [setEntry, Datum.keys_insert]
  split
  · exact hk
  · exact List.mem_append_left _ hk

theorem mem_keys_setIf {k : Datum} (hk : k ∈ entries.map (·.1)) (condition : Bool) (name : String)
    (value : Datum) : k ∈ (setIf condition name value entries).map (·.1) := by
  unfold setIf
  split
  · exact mem_keys_setEntry hk name value
  · exact hk

theorem mem_keys_withDefaults {k : Datum} (hk : k ∈ d.entries.map (·.1)) (h : withDefaults d = .ok e) :
    k ∈ e.entries.map (·.1) := by
  cases defaulted_of_withDefaults h with
  | onSite => exact mem_keys_setIf (mem_keys_setIf hk ..) ..
  | kept => exact mem_keys_setIf hk ..
  | named => exact mem_keys_setIf (mem_keys_setEntry hk ..) ..
  | unnamed => exact mem_keys_setIf hk ..

theorem known_of_withDefaults {names : List String} (h : withDefaults d = .ok e)
    (hknown : Form.Known names e) : Form.Known names d := by
  intro entry he
  obtain ⟨entry', he', heq⟩ := List.mem_map.mp (mem_keys_withDefaults (List.mem_map_of_mem he) h)
  rw [← heq]
  exact hknown entry' he'

/-- The steady data of a valid configuration have the shape of one, and the rules are read from the
list under their name. -/
theorem shaped_of_validate (hsteady : Yaml.Steady d) (hdistinct : d.Distinct)
    (h : validate catalog d = .ok c) : Shaped d ∧ ∃ entries items, d = .map entries ∧
      d.get? "rules" = some (.list items) ∧
      List.Forall₂ (fun d r => Rule.reader d = .ok r) items c.rules ∧
      ∀ d ∈ items, Yaml.Steady d ∧ BriefRecord Rule.memberNames d := by
  obtain ⟨hmap, ⟨e, hdefaults, hread⟩, _⟩ := validate_iff.mp h
  obtain ⟨_, hknown, hprovider, hurl, hmodel, hconcurrency, hbase, hrules⟩ := reader_iff.mp hread
  obtain ⟨entries, rfl, hentries⟩ := hsteady.of_isMap hmap
  obtain ⟨hapart, hvalues⟩ := hdistinct.entries
  have hstays {name : String} (hother : name ≠ "model" ∧ name ≠ "concurrency" ∧ name ≠ "provider_url") :
      e.get? name = (Datum.map entries).get? name :=
    withDefaults_get? (fun h => absurd h hother.1) (fun h => absurd h hother.2.1)
      (fun h => absurd h hother.2.2) hdefaults
  obtain ⟨v, hv, hrules⟩ := Form.required_eq_ok.mp hrules
  rw [hstays (by decide)] at hv
  have hrulesAt {entry : Datum × Datum} (he : entry ∈ entries) (hkey : entry.1 = .str "rules") :
      entry.2 = v := by
    cases hv.symm.trans (get?_of_mem hapart he hkey)
    rfl
  obtain ⟨rulesEntry, hrulesEntry, hrulesKey⟩ : ∃ entry ∈ entries, entry.2 = v := by
    obtain ⟨entry, hentry, heq⟩ := Option.map_eq_some_iff.mp hv
    exact ⟨entry, List.mem_of_find?_eq_some hentry, heq⟩
  obtain ⟨items, rfl, hread, hitems⟩ := items_of_rules (hrulesKey ▸ (hentries _ hrulesEntry).2)
    (hrulesKey ▸ hvalues _ hrulesEntry) (rulesReader_iff.mp hrules).1
  have hkeys := keys_of_known (fun e he => (hentries e he).1) (known_of_withDefaults hdefaults hknown)
  refine ⟨.mk hkeys (nodup_of_apart hkeys hapart) fun entry he => ?_, entries, items, rfl, hv, hread,
    hitems⟩
  have hvalue : Yaml.Steady entry.2 := (hentries entry he).2
  obtain ⟨name, hmem, hkey⟩ := hkeys entry he
  have hthere := get?_of_mem hapart he hkey
  -- What stands in the data is what is read, except where a default takes its place.
  simp only [memberNames, List.mem_cons, List.not_mem_nil, or_false] at hmem
  rcases hmem with rfl | rfl | rfl | rfl | rfl | rfl
  · rw [← hstays (by decide)] at hthere
    exact .inl (Form.brief_of_oneOf hvalue (Form.withDefault_of_get? hthere hprovider))
  · rw [← withDefaults_get? (by simp) (by simp) (fun _ => by rw [hthere]; rfl) hdefaults] at hthere
    exact .inl (Form.brief_of_optional hvalue (Form.withDefault_of_get? hthere hurl))
  · cases hunset : isUnset "model" (.map entries) with
    | true =>
      rw [isUnset, hthere] at hunset
      exact .inl (brief_of_not_truthy hvalue (by simpa using hunset))
    | false =>
      rw [← withDefaults_get? (fun _ => hunset) (by simp) (by simp) hdefaults] at hthere
      exact .inl (Form.brief_of_text hvalue (Form.withDefault_of_get? hthere hmodel))
  · cases hmissing : isMissing "concurrency" (.map entries) with
    | true =>
      rw [isMissing, hthere] at hmissing
      exact .inl (Form.brief_of_isNull hvalue hmissing)
    | false =>
      rw [← withDefaults_get? (by simp) (fun _ => hmissing) (by simp) hdefaults] at hthere
      exact .inl (brief_of_concurrency hvalue (Form.withDefault_of_get? hthere hconcurrency))
  · rw [← hstays (by decide)] at hthere
    exact .inl (Form.brief_of_text hvalue (Form.withDefault_of_get? hthere hbase))
  · exact .inr ⟨items, hrulesAt he hkey, fun d hd => (hitems d hd).2⟩

end Config
end Lint
end JudgedLint

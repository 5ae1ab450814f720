import JudgedLint.Lint.Config
import JudgedLint.Proofs.Form.Reader

/-! What validation promises of a configuration. The degree of concurrency is always written into
the data before they are read, so its reader, which refuses zero, sees it; the default of the
record, which is zero, never counts. -/
namespace JudgedLint.Lint.Config

open Form (Checked)

variable {d d' : Datum} {entries : List (Datum × Datum)} {name : String}

def names (name : String) (entries : List (Datum × Datum)) : Bool :=
  entries.any fun e => Datum.sameKey e.1 (.str name)

theorem isSome_get? (d : Datum) (name : String) : (d.get? name).isSome = names name d.entries := by
  rw [Datum.get?, Option.isSome_map, Bool.eq_iff_iff, List.find?_isSome, names, List.any_eq_true]

theorem names_setEntry (name : String) (value : Datum) (entries : List (Datum × Datum)) :
    names name (setEntry name value entries) = true := by
  have hself : Datum.sameKey (.str name) (.str name) = true := beq_self_eq_true name
  induction entries with
  | nil => simp [setEntry, Datum.insert, names, hself]
  | cons e rest ih =>
    unfold setEntry Datum.insert
    split
    · next hsame => simp [names, hsame]
    · simp only [names, List.any_cons, Bool.or_eq_true]
      exact .inr ih

theorem names_setEntry_of_names (h : names name entries = true) (other : String) (value : Datum) :
    names name (setEntry other value entries) = true := by
  induction entries with
  | nil => cases h
  | cons e rest ih =>
    simp only [names, List.any_cons, Bool.or_eq_true] at h
    unfold setEntry Datum.insert
    split
    · simpa only [names, List.any_cons, Bool.or_eq_true] using h
    · simp only [names, List.any_cons, Bool.or_eq_true]
      exact h.imp_right ih

theorem names_setIf_of_names (h : names name entries = true) (condition : Bool) (other : String)
    (value : Datum) : names name (setIf condition other value entries) = true := by
  unfold setIf
  split
  · exact names_setEntry_of_names h other value
  · exact h

/-- What is set if it is missing is there in the end, provided that nothing in between removes it. -/
theorem names_setIf_missing (h : ∀ name, names name d.entries = true → names name entries = true) :
    names name (setIf (isMissing name d) name value entries) = true := by
  unfold setIf
  split
  · exact names_setEntry name value entries
  · next hthere =>
    refine h name ?_
    rw [← isSome_get?]
    cases hget : d.get? name with
    | some v => rfl
    | none => exact absurd (by rw [isMissing, hget]; rfl) hthere

def presumedProvider (d : Datum) : Datum :=
  if isUnset "provider" d then .str "openrouter" else (d.get? "provider").getD .null

/-- What data are with their defaults. The local provider has an address of its own, a hosted one may have
a model of its own. -/
inductive Defaulted (d : Datum) : Datum → Prop where
  | onSite (hmodel : isUnset "model" d = false) :
    Defaulted d (.map (setIf (isMissing "concurrency" d) "concurrency" (.int localConcurrency)
      (setIf (d.get? "provider_url").isNone "provider_url" (.str localUrl) d.entries)))
  | kept (hmodel : isUnset "model" d = false) :
    Defaulted d (.map (setIf (isMissing "concurrency" d) "concurrency" (.int defaultConcurrency) d.entries))
  | named {m : String} (hmodel : isUnset "model" d = true) (hhosted : (presumedProvider d).str? ≠ some "ollama")
      (hm : ((presumedProvider d).str?.bind fun p => defaultModels.lookup p) = some m) :
    Defaulted d (.map (setIf (isMissing "concurrency" d) "concurrency" (.int defaultConcurrency)
      (setEntry "model" (.str m) d.entries)))
  | unnamed (hmodel : isUnset "model" d = true) (hhosted : (presumedProvider d).str? ≠ some "ollama")
      (hm : ((presumedProvider d).str?.bind fun p => defaultModels.lookup p) = none) :
    Defaulted d (.map (setIf (isMissing "concurrency" d) "concurrency" (.int defaultConcurrency) d.entries))

theorem defaulted_of_withDefaults (h : withDefaults d = .ok d') : Defaulted d d' := by
  unfold withDefaults at h
  generalize hpresumed : (if isUnset "provider" d then Datum.str "openrouter"
    else (d.get? "provider").getD .null) = provider at h
  change presumedProvider d = provider at hpresumed
  subst hpresumed
  dsimp only at h
  split at h
  · split at h
    · cases h
    · next hmodel =>
      cases h
      exact .onSite (by simpa using hmodel)
  · next hprovider =>
    have hhosted : (presumedProvider d).str? ≠ some "ollama" := by simpa using hprovider
    split at h
    · next hmodel =>
      split at h
      · cases h
      · cases h
        cases hm : (presumedProvider d).str?.bind fun p => defaultModels.lookup p with
        | none => exact .unnamed hmodel hhosted hm
        | some m => exact .named hmodel hhosted hm
    · next hmodel =>
      cases h
      exact .kept (by simpa using hmodel)

theorem withDefaults_names (h : withDefaults d = .ok d') :
    names "concurrency" d'.entries = true := by
  cases defaulted_of_withDefaults h with
  | onSite => exact names_setIf_missing fun name hname => names_setIf_of_names hname _ _ _
  | kept => exact names_setIf_missing fun name hname => hname
  | named => exact names_setIf_missing fun name hname => names_setEntry_of_names hname _ _
  | unnamed => exact names_setIf_missing fun name hname => hname

theorem concurrencyReader_bounds {n : Nat} (h : concurrencyReader d = .ok n) :
    1 ≤ n ∧ n ≤ maxConcurrency := by
  obtain ⟨k, _, h⟩ := bind_eq_ok.mp h
  unfold maxConcurrency at h ⊢
  split at h
  · cases h
  · split at h
    · cases h
    · split at h
      · cases h
      · cases h
        omega

theorem closed_eq_ok {α : Type} {known : List String} {body : Datum → Checked α} {x : α}
    (h : Form.closed known body d = .ok x) : body d = .ok x := by
  unfold Form.closed at h
  split at h
  · unfold Checked.also at h
    split at h
    · next hbody =>
      split at h
      · cases h
        exact hbody
      · cases h
    · cases h
  · cases h

theorem reader_concurrency {c : Config} (hname : names "concurrency" d.entries = true)
    (h : reader d = .ok c) : 1 ≤ c.concurrency ∧ c.concurrency ≤ maxConcurrency := by
  obtain ⟨_, h⟩ := Form.record_eq_ok.mp h
  have h := closed_eq_ok h
  simp only [Form.apply_eq_ok, map_eq_ok] at h
  obtain ⟨_, _, ⟨_, _, ⟨_, n, ⟨_, _, ⟨_, _, ⟨_, _, rfl⟩, _, rfl⟩, _, rfl⟩, hn, rfl⟩, _, rfl⟩, _, rfl⟩ := h
  rcases Form.withDefault_eq_ok.mp hn with ⟨hnone, _⟩ | ⟨v, _, hread⟩
  · rw [← isSome_get?, hnone] at hname
    cases hname
  · exact concurrencyReader_bounds hread

theorem validate_eq_ok {catalog : Model.Catalog} {raw : Datum} {c : Config}
    (h : validate catalog raw = .ok c) :
    (∃ d, withDefaults raw = .ok d ∧ reader d = .ok c) ∧ checkModels catalog c = .ok () := by
  unfold validate at h
  split at h
  · cases h
  · next hmap =>
    split at h
    · cases h
    · cases h
    · next hread =>
      split at h
      · cases h
      · next hmodels =>
        cases h
        unfold ofDatum at hread
        rw [if_pos (by simpa using hmap)] at hread
        obtain ⟨d, hd, hread⟩ := bind_eq_ok.mp hread
        exact ⟨⟨d, hd, mapError_eq_ok.mp hread⟩, hmodels⟩

/-- A validated configuration lets at least one job be judged at a time, and no more than twenty. -/
theorem concurrency_bounds {catalog : Model.Catalog} {raw : Datum} {c : Config}
    (h : validate catalog raw = .ok c) : 1 ≤ c.concurrency ∧ c.concurrency ≤ maxConcurrency := by
  obtain ⟨⟨d, hd, hread⟩, _⟩ := validate_eq_ok h
  exact reader_concurrency (withDefaults_names hd) hread

end JudgedLint.Lint.Config

import JudgedLint.Lint.ConfigFile
import JudgedLint.Proofs.Cache.Disk
import JudgedLint.Proofs.Lint.Validation
import JudgedLint.Proofs.Workspace.Files

/-! Which contents of a configuration file are reported as faults of the configuration, and which
end loading or the adding of a rule in some other way. Decoding, reading the document and using its
data each have failures of their own; only some of them are told as what they are, a bad file. -/
namespace JudgedLint

/-- A step gives a value, or what stops it is told as a fault of the configuration. -/
def Reported {α : Type} (x : Except Failure α) : Prop :=
  ∀ f, x = .error f → ∃ e, f = .config e

namespace Reported

variable {α β : Type}

theorem ok (a : α) : Reported (.ok a) := fun _ h => by cases h

theorem config (e : Lint.Config.Error) : Reported (.error (.config e) : Except Failure α) :=
  fun _ h => by
    cases h
    exact ⟨e, rfl⟩

theorem error_iff {f : Failure} :
    Reported (.error f : Except Failure α) ↔ ∃ e, f = .config e :=
  ⟨fun h => h f rfl, by
    rintro ⟨e, rfl⟩
    exact config e⟩

theorem not_error {f : Failure} (h : ∀ e, f ≠ .config e) :
    ¬Reported (.error f : Except Failure α) := by
  rw [error_iff]
  rintro ⟨e, he⟩
  exact h e he

theorem bind_iff {x : Except Failure α} {k : α → Except Failure β} :
    Reported (x >>= k) ↔ Reported x ∧ ∀ a, x = .ok a → Reported (k a) := by
  cases x with
  | error f =>
    refine ⟨fun h => ⟨error_iff.mpr (error_iff.mp h), ?_⟩, fun h => error_iff.mpr (error_iff.mp h.1)⟩
    intro a ha
    cases ha
  | ok a =>
    refine ⟨fun h => ⟨ok a, ?_⟩, fun h => h.2 a rfl⟩
    intro b hb
    cases hb
    exact h

end Reported

namespace Lint

open Text (Bytes)
open Workspace (Path Tree)

/-- A content is text in UTF-8 which has a datum of the given kind, or whose document is malformed. -/
def Orderly (accepts : Datum → Prop) (content : Bytes) : Prop :=
  ∃ s, Text.utf8Decode content = .ok s ∧
    match Yaml.read (Text.universalNewlines s) with
    | .ok d => accepts d
    | .error f => f.isMalformed = true

variable {t : Tree} {p : Path} {content : Bytes}

theorem orderly_iff {accepts : Datum → Prop} {s : String} (h : Text.utf8Decode content = .ok s) :
    Orderly accepts content ↔
      match Yaml.read (Text.universalNewlines s) with
      | .ok d => accepts d
      | .error f => f.isMalformed = true := by
  refine ⟨?_, fun horderly => ⟨s, h, horderly⟩⟩
  rintro ⟨s', hs, horderly⟩
  cases h.symm.trans hs
  exact horderly

theorem not_orderly {accepts : Datum → Prop} {e : Text.Utf8Error}
    (h : Text.utf8Decode content = .error e) : ¬Orderly accepts content := by
  rintro ⟨s, hs, _⟩
  cases h.symm.trans hs

namespace Config

variable {catalog : Model.Catalog} {d : Datum}

/-- Where the model of the provider is looked up, the provider can be looked up. -/
def HasKeyedProvider (d : Datum) : Prop :=
  d.isMap = true → isUnset "model" d = true → (presumedProvider d).unhashable? = none

/-- Filling in the defaults fails only if the local provider lacks a model, or if the provider is
looked up and cannot be. -/
theorem withDefaults_unhashable {type : String} :
    withDefaults d = .error (.unhashable type) ↔
      isUnset "model" d = true ∧ (presumedProvider d).unhashable? = some type := by
  unfold withDefaults
  generalize hpresumed : (if isUnset "provider" d then Datum.str "openrouter"
    else (d.get? "provider").getD .null) = provider
  change presumedProvider d = provider at hpresumed
  rw [hpresumed]
  dsimp only
  by_cases hlocal : (provider.str? == some "ollama") = true
  · have hkey : provider.unhashable? = none := by
      have hstr : provider.str? = some "ollama" := by simpa using hlocal
      unfold Datum.str? at hstr
      split at hstr
      · next hbare => rw [Datum.unhashable?, hbare]
      · cases hstr
    rw [if_pos hlocal, hkey]
    split <;> simp [throw, throwThe, MonadExceptOf.throw, pure, Except.pure, bind, Except.bind]
  · rw [if_neg hlocal]
    cases isUnset "model" d with
    | false => simp [pure, Except.pure, bind, Except.bind]
    | true =>
      cases provider.unhashable? <;>
        simp [throw, throwThe, MonadExceptOf.throw, pure, Except.pure, bind, Except.bind]

theorem ofDatum_unhashable {type : String} :
    ofDatum d = .error (.unhashable type) ↔
      d.isMap = true ∧ isUnset "model" d = true ∧ (presumedProvider d).unhashable? = some type := by
  unfold ofDatum
  cases hmap : d.isMap with
  | false =>
    simp only [Bool.false_eq_true, if_false, false_and, iff_false]
    intro h
    obtain ⟨_, _, h⟩ := mapError_eq_error.mp h
    cases h
  | true =>
    rw [if_pos rfl, ← withDefaults_unhashable]
    cases hdefaults : withDefaults d with
    | error e => simp [bind, Except.bind]
    | ok d' =>
      simp only [bind, Except.bind, reduceCtorEq, and_false, iff_false]
      intro h
      obtain ⟨_, _, h⟩ := mapError_eq_error.mp h
      cases h

theorem validate_reported :
    Reported ((validate catalog d).mapError Failure.ofLoad) ↔ HasKeyedProvider d := by
  have hkeyed : HasKeyedProvider d ↔ ∀ type, ofDatum d ≠ .error (.unhashable type) := by
    simp only [HasKeyedProvider, ne_eq, ofDatum_unhashable, Option.eq_none_iff_forall_not_mem,
      Option.mem_def]
    exact ⟨fun h type ⟨hmap, hmodel, htype⟩ => h hmap hmodel type htype,
      fun h hmap hmodel type htype => h type ⟨hmap, hmodel, htype⟩⟩
  rw [hkeyed]
  unfold validate
  split
  · next hmap =>
    refine ⟨fun _ type h => ?_, fun _ => .config _⟩
    rw [(ofDatum_unhashable.mp h).1] at hmap
    cases hmap
  · cases hread : ofDatum d with
    | error e =>
      cases e with
      | invalid errors => exact ⟨fun _ type h => (by cases h), fun _ => .config _⟩
      | unhashable type => exact iff_of_false (Reported.not_error nofun) fun h => h type rfl
    | ok c =>
      refine ⟨fun _ type h => (by cases h), fun _ => ?_⟩
      dsimp only
      cases checkModels catalog c with
      | error e => exact .config e
      | ok u => exact .ok c

/-- Loading reports every fault of a content just if the content is orderly and the provider a key
where one is needed. -/
theorem load_reported (hread : t.read p = .ok content) :
    Reported ((load catalog t p).mapError Failure.ofLoad) ↔ Orderly HasKeyedProvider content := by
  unfold load
  rw [hread]
  dsimp only
  cases hdecode : Text.utf8Decode content with
  | error e => exact iff_of_false (Reported.not_error nofun) (not_orderly hdecode)
  | ok s =>
    rw [orderly_iff hdecode]
    cases hyaml : Yaml.read (Text.universalNewlines s) with
    | ok d =>
      simp only [Except.mapError, bind, Except.bind, hyaml]
      exact validate_reported
    | error f =>
      simp only [Except.mapError, bind, Except.bind, hyaml]
      cases hform : f.isMalformed with
      | true => exact ⟨fun _ => rfl, fun _ => .config _⟩
      | false => exact iff_of_false (Reported.not_error nofun) (by simp)

end Config

namespace ConfigFile

variable {rule : Rule} {default : String} {d : Datum}

def rulesOf (d : Datum) : Datum := (d.get? "rules").getD .null

/-- A document to which a rule can be added or refused as a mistake in the configuration: its rules,
if they count as anything, are a list, and the grown document can be written. -/
structure Extensible (path : String) (rule : Rule) (d : Datum) : Prop where
  rules : d.isMap = true → (rulesOf d).isTruthy = true → ∃ items, (rulesOf d).bare = .list items
  writable : ∀ grown, extend path rule d = .ok grown → Yaml.isWritable grown = true

theorem extend_reported {path : String} :
    Reported (extend path rule d) ↔
      (d.isMap = true → (rulesOf d).isTruthy = true → ∃ items, (rulesOf d).bare = .list items) := by
  unfold extend
  change Reported (if (!d.isMap) = true then _ else _) ↔ _
  by_cases hmap : d.isMap = true
  · rw [if_neg (by simp [hmap])]
    change Reported (if (!(rulesOf d).isTruthy) = true then _ else _) ↔ _
    by_cases htruthy : (rulesOf d).isTruthy = true
    · rw [if_neg (by simp [htruthy])]
      split
      · next items hitems =>
        refine ⟨fun _ _ _ => ⟨items, hitems⟩, fun _ => ?_⟩
        dsimp only
        split
        · exact .config _
        · split <;> exact .ok _
      · next hother =>
        refine iff_of_false (Reported.not_error nofun) fun h => ?_
        obtain ⟨items, hitems⟩ := h hmap htruthy
        exact hother items hitems
    · rw [if_pos (by simp [htruthy])]
      exact ⟨fun _ _ h => absurd h htruthy, fun _ => .ok _⟩
  · rw [if_pos (by simp [hmap])]
    exact ⟨fun _ h => absurd h hmap, fun _ => .config _⟩

theorem exists_of_read (h : t.read p = .ok content) : t.exists p = .ok true := by
  obtain ⟨place, hfound⟩ := Workspace.locate_of_read h
  rw [Tree.exists, Tree.test, Tree.entry, hfound]

theorem write_of_read (h : t.read p = .ok content) (new : Bytes) : ∃ t', t.write p new = .ok t' := by
  obtain ⟨place, hfound⟩ := Workspace.locate_of_read h
  exact ⟨_, Workspace.write_of_leadsTo (Workspace.read_noNul h) (.inr ⟨_, hfound⟩) new⟩

theorem currentText_of_read (h : t.read p = .ok content) :
    currentText t p default =
      ((Text.utf8Decode content).mapError Failure.undecodable).map Text.universalNewlines := by
  rw [currentText, exists_of_read h, h]
  cases hdecode : Text.utf8Decode content <;>
    simp only [Except.mapError, Except.map, bind, Except.bind, pure, Except.pure, if_true, hdecode]

theorem addRule_reported (hread : t.read p = .ok content) :
    Reported (addRule t p rule default) ↔
      Orderly (fun d => Extensible p.text rule (if d.isTruthy then d else .map [])) content := by
  have hwrite (grown : Datum) :
      Reported ((t.write p (Text.utf8Encode (Yaml.render grown))).mapError Failure.file) := by
    obtain ⟨t', ht'⟩ := write_of_read hread (Text.utf8Encode (Yaml.render grown))
    rw [ht']
    exact .ok t'
  have hgrown (doc : Datum) :
      Reported (extend p.text rule doc >>= fun grown =>
        if !Yaml.isWritable grown then throw (.yaml .unwritable)
        else (t.write p (Text.utf8Encode (Yaml.render grown))).mapError .file) ↔
      Extensible p.text rule doc := by
    rw [Reported.bind_iff, extend_reported]
    refine ⟨fun ⟨hrules, hrest⟩ => ⟨hrules, fun grown hg => ?_⟩, fun h => ⟨h.rules, fun grown hg => ?_⟩⟩
    · have hstep := hrest grown hg
      split at hstep
      · exact absurd hstep (Reported.not_error nofun)
      · next hwritable => simpa using hwritable
    · rw [if_neg (by simp [h.writable grown hg])]
      exact hwrite grown
  unfold addRule document
  rw [currentText_of_read hread]
  cases hdecode : Text.utf8Decode content with
  | error e => exact iff_of_false (Reported.not_error nofun) (not_orderly hdecode)
  | ok s =>
    rw [orderly_iff hdecode]
    cases hyaml : Yaml.read (Text.universalNewlines s) with
    | ok d =>
      refine Iff.trans (iff_of_eq (congrArg Reported ?_)) (hgrown _)
      simp only [Except.mapError, Except.map, bind, Except.bind, hyaml, throw, throwThe,
        MonadExceptOf.throw]
    | error f =>
      simp only [Except.mapError, Except.map, bind, Except.bind, hyaml]
      cases hform : f.isMalformed with
      | true => exact ⟨fun _ => rfl, fun _ => .config _⟩
      | false => exact iff_of_false (Reported.not_error nofun) (by simp)

end ConfigFile

/-- What a file can hold if everything that stops the loading of it, or the adding of a rule to it,
is to be told as a mistake in the configuration: orderly content, with a provider that is a key where
one is needed, or with a document that can be extended. -/
theorem faults_reported (hread : t.read p = .ok content) (catalog : Model.Catalog) (rule : Rule)
    (default : String) :
    (Reported ((Config.load catalog t p).mapError Failure.ofLoad) ↔
      Orderly Config.HasKeyedProvider content) ∧
    (Reported (ConfigFile.addRule t p rule default) ↔
      Orderly (fun d => ConfigFile.Extensible p.text rule (if d.isTruthy then d else .map []))
        content) :=
  ⟨Config.load_reported hread, ConfigFile.addRule_reported hread⟩

namespace Sample

def configPath : Path := ⟨"", [".ai-lint.yml"]⟩

def configured (content : Bytes) : Tree := ⟨"/work", [(".ai-lint.yml", .file content)]⟩

theorem read_configured (content : Bytes) : (configured content).read configPath = .ok content := by
  have hfound : (configured content).locate configPath =
      .ok (.found [".ai-lint.yml"] (.file content)) :=
    Workspace.locate_name (by decide) (Cache.Sample.segments?_relative _ _) (by decide)
      (by decide) (.inr ⟨content, rfl⟩)
  exact Workspace.read_of_found (by decide) hfound

/-- A file that is no UTF-8. -/
theorem faults_reported_invalid :
    (configured [0xff]).read configPath = .ok [0xff] ∧
    (Reported ((Config.load .default (configured [0xff]) configPath).mapError Failure.ofLoad) ↔
      Orderly Config.HasKeyedProvider [0xff]) ∧
    (Reported (ConfigFile.addRule (configured [0xff]) configPath (rule .error) "") ↔
      Orderly (fun d => ConfigFile.Extensible configPath.text (rule .error)
        (if d.isTruthy then d else .map [])) [0xff]) :=
  ⟨read_configured _, faults_reported (read_configured _) .default (rule .error) ""⟩

/-- The byte that no text starts with stops loading and adding alike, and neither tells of a bad
file. -/
theorem invalid_start_escapes :
    let e : Text.Utf8Error := ⟨.invalidStart, 0, 1, 0xff⟩
    Config.load .default (configured [0xff]) configPath = .error (.undecodable e) ∧
    ConfigFile.addRule (configured [0xff]) configPath (rule .error) "" = .error (.undecodable e) ∧
    ∀ f : Config.Error, Failure.undecodable e ≠ .config f := by
  have hdecode : Text.utf8Decode [0xff] = .error ⟨.invalidStart, 0, 1, 0xff⟩ := by
    decide +kernel
  refine ⟨?_, ?_, nofun⟩
  · rw [Config.load, read_configured]
    simp only [hdecode]
    rfl
  · rw [ConfigFile.addRule, ConfigFile.currentText_of_read (read_configured _), hdecode]
    rfl

end Sample
end Lint
end JudgedLint

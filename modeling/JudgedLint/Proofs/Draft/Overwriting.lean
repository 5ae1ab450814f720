import JudgedLint.Proofs.Cache.Document
import JudgedLint.Proofs.Draft.Adding
import JudgedLint.Proofs.Yaml.Encodable

/-! A rule is added to the configuration step by step, with faults of the system at any of the steps. The
file is emptied before it is written again, so whatever can fail by itself must have been done before:
reading, finding the place for the rule, printing, and also encoding, which comes last but cannot fail for
a document that has been printed. In a dialogue the file is changed only by a rule that was wanted. -/
namespace JudgedLint.Lint.ConfigFile

open Text (Bytes utf8Encode)
open Workspace (FileError Path Tree)

inductive Stage where
  | starting
  | looked (text : String)
  | parsed (doc : Datum)
  | grown (doc : Datum)
  | printed (text : String)
  /-- The file has been emptied. -/
  | writing (text : String) (written : Bytes)
  | added
  | failed (cause : Cause Failure)
  /-- The system has failed while the file was written. -/
  | broken

def Stage.isEarly : Stage → Bool
  | .starting | .looked _ | .parsed _ | .grown _ | .printed _ => true
  | _ => false

structure Adding where
  tree : Tree
  stage : Stage

variable {path : Path} {rule : Rule} {default : String} {t t' : Tree}

namespace Adding

/-- The file is read, or the default taken; the document is read and extended, and printed; the file is
emptied, the text is encoded, and the bytes are written piece by piece. -/
inductive Step (path : Path) (rule : Rule) (default : String) : Adding → Adding → Prop where
  | looked {t : Tree} {text : String} (h : currentText t path default = .ok text) :
    Step path rule default ⟨t, .starting⟩ ⟨t, .looked text⟩
  | unlooked {t : Tree} {f : Failure} (h : currentText t path default = .error f) :
    Step path rule default ⟨t, .starting⟩ ⟨t, .failed (.error f)⟩
  | parsed {t : Tree} {text : String} {doc : Datum} (h : document path.text text = .ok doc) :
    Step path rule default ⟨t, .looked text⟩ ⟨t, .parsed doc⟩
  | unparsed {t : Tree} {text : String} {f : Failure} (h : document path.text text = .error f) :
    Step path rule default ⟨t, .looked text⟩ ⟨t, .failed (.error f)⟩
  | grew {t : Tree} {doc doc' : Datum} (h : extend path.text rule doc = .ok doc') :
    Step path rule default ⟨t, .parsed doc⟩ ⟨t, .grown doc'⟩
  | refused {t : Tree} {doc : Datum} {f : Failure} (h : extend path.text rule doc = .error f) :
    Step path rule default ⟨t, .parsed doc⟩ ⟨t, .failed (.error f)⟩
  | printed {t : Tree} {doc : Datum} (h : Yaml.isWritable doc = true) :
    Step path rule default ⟨t, .grown doc⟩ ⟨t, .printed (Yaml.render doc)⟩
  | unprinted {t : Tree} {doc : Datum} (h : Yaml.isWritable doc = false) :
    Step path rule default ⟨t, .grown doc⟩ ⟨t, .failed (.error (.yaml .unwritable))⟩
  | opened {t t' : Tree} {text : String} (h : t.write path [] = .ok t') :
    Step path rule default ⟨t, .printed text⟩ ⟨t', .writing text []⟩
  | unopened {t : Tree} {text : String} {e : FileError} (h : t.write path [] = .error e) :
    Step path rule default ⟨t, .printed text⟩ ⟨t, .failed (.error (.file e))⟩
  | unencoded {t : Tree} {text : String} {e : Text.EncodeError} (h : Text.surrogates? text = some e) :
    Step path rule default ⟨t, .writing text []⟩ ⟨t, .failed (.error (.unencodable e))⟩
  | wrote {t t' : Tree} {text : String} {written more : Bytes} (he : Text.surrogates? text = none)
    (hm : more ≠ []) (h : written ++ more <+: utf8Encode text)
    (hw : t.write path (written ++ more) = .ok t') :
    Step path rule default ⟨t, .writing text written⟩ ⟨t', .writing text (written ++ more)⟩
  | closed {t : Tree} {text : String} (he : Text.surrogates? text = none) :
    Step path rule default ⟨t, .writing text (utf8Encode text)⟩ ⟨t, .added⟩
  | stopped {t : Tree} {stage : Stage} (h : stage.isEarly = true) :
    Step path rule default ⟨t, stage⟩ ⟨t, .failed .fault⟩
  | broke {t : Tree} {text : String} {written : Bytes} :
    Step path rule default ⟨t, .writing text written⟩ ⟨t, .broken⟩

def Reaches (path : Path) (rule : Rule) (default : String) : Adding → Adding → Prop :=
  Relation.ReflTransGen (Step path rule default)

def Ended (x : Adding) : Prop :=
  x.stage = .added ∨ x.stage = .broken ∨ ∃ cause, x.stage = .failed cause

end Adding

/-- The document with the rule, as it is to be written. -/
def Grows (path : Path) (rule : Rule) (default : String) (t : Tree) (doc : Datum) : Prop :=
  ∃ text old, currentText t path default = .ok text ∧ document path.text text = .ok old ∧
    extend path.text rule old = .ok doc

theorem addRule_of_unlooked {f : Failure} (h : currentText t path default = .error f) :
    addRule t path rule default = .error f := by
  rw [addRule, h]
  rfl

theorem addRule_of_unparsed {text : String} {f : Failure} (ht : currentText t path default = .ok text)
    (h : document path.text text = .error f) : addRule t path rule default = .error f := by
  rw [addRule, ht]
  change (document path.text text >>= _) = _
  rw [h]
  rfl

theorem addRule_of_refused {text : String} {old : Datum} {f : Failure}
    (ht : currentText t path default = .ok text) (hd : document path.text text = .ok old)
    (h : extend path.text rule old = .error f) : addRule t path rule default = .error f := by
  rw [addRule_of_document rule ht hd, h]
  rfl

theorem Grows.addRule_eq {doc : Datum} (h : Grows path rule default t doc) :
    addRule t path rule default = if !Yaml.isWritable doc then throw (.yaml .unwritable)
      else (t.write path (utf8Encode (Yaml.render doc))).mapError .file := by
  obtain ⟨text, old, ht, hd, hg⟩ := h
  rw [addRule_of_document rule ht hd, hg]
  rfl

theorem Grows.write {doc : Datum} (h : Grows path rule default t doc)
    (hadd : addRule t path rule default = .ok t') :
    t.write path (utf8Encode (Yaml.render doc)) = .ok t' := by
  rw [h.addRule_eq] at hadd
  split at hadd
  · cases hadd
  · exact mapError_eq_ok.mp hadd

theorem write_of_addRule (h : addRule t path rule default = .ok t') :
    ∃ content, t.write path content = .ok t' := by
  obtain ⟨text, ht, hrest⟩ := bind_eq_ok.mp h
  obtain ⟨old, hd, hrest⟩ := bind_eq_ok.mp hrest
  obtain ⟨doc, hg, _⟩ := bind_eq_ok.mp hrest
  exact ⟨_, Grows.write ⟨text, old, ht, hd, hg⟩ h⟩

theorem surrogates?_render (doc : Datum) : Text.surrogates? (Yaml.render doc) = none :=
  Cache.surrogates?_eq_none_iff.mpr (Yaml.isWellFormed_render doc)

namespace Adding

/-- What is so at each stage. Before the file is opened the tree is the one at the start. -/
inductive Sound (path : Path) (rule : Rule) (default : String) (t : Tree) : Adding → Prop where
  | starting : Sound path rule default t ⟨t, .starting⟩
  | looked {text : String} (h : currentText t path default = .ok text) :
    Sound path rule default t ⟨t, .looked text⟩
  | parsed {text : String} {doc : Datum} (ht : currentText t path default = .ok text)
    (h : document path.text text = .ok doc) : Sound path rule default t ⟨t, .parsed doc⟩
  | grown {doc : Datum} (h : Grows path rule default t doc) :
    Sound path rule default t ⟨t, .grown doc⟩
  | printed {doc : Datum} (h : Grows path rule default t doc) (hw : Yaml.isWritable doc = true) :
    Sound path rule default t ⟨t, .printed (Yaml.render doc)⟩
  | writing {doc : Datum} {t' : Tree} {written : Bytes} (h : Grows path rule default t doc)
    (hw : Yaml.isWritable doc = true) (hwritten : t.write path written = .ok t') :
    Sound path rule default t ⟨t', .writing (Yaml.render doc) written⟩
  | added {t' : Tree} (h : addRule t path rule default = .ok t') :
    Sound path rule default t ⟨t', .added⟩
  | failed {cause : Cause Failure} (he : ∀ f, cause = .error f → addRule t path rule default = .error f) :
    Sound path rule default t ⟨t, .failed cause⟩
  | broken {t' : Tree} : Sound path rule default t ⟨t', .broken⟩

variable {x x' : Adding}

theorem Sound.of_error {f : Failure} (h : addRule t path rule default = .error f) :
    Sound path rule default t ⟨t, .failed (.error f)⟩ := by
  refine .failed fun f' hf => ?_
  cases hf
  exact h

theorem Step.sound (h : Step path rule default x x') (hx : Sound path rule default t x) :
    Sound path rule default t x' := by
  cases h with
  | looked h =>
    cases hx
    exact .looked h
  | unlooked h =>
    cases hx
    exact .of_error (addRule_of_unlooked h)
  | parsed h =>
    cases hx with
    | looked ht => exact .parsed ht h
  | unparsed h =>
    cases hx with
    | looked ht => exact .of_error (addRule_of_unparsed ht h)
  | grew h =>
    cases hx with
    | parsed ht hd => exact .grown ⟨_, _, ht, hd, h⟩
  | refused h =>
    cases hx with
    | parsed ht hd => exact .of_error (addRule_of_refused ht hd h)
  | printed h =>
    cases hx with
    | grown hg => exact .printed hg h
  | unprinted h =>
    cases hx with
    | grown hg =>
      refine .of_error ?_
      rw [hg.addRule_eq, h]
      rfl
  | opened h =>
    cases hx with
    | printed hg hw => exact .writing hg hw h
  | unopened h =>
    cases hx with
    | printed hg hw =>
      refine .of_error ?_
      rw [hg.addRule_eq, hw, Workspace.write_error h]
      rfl
  | unencoded h =>
    -- the file has been emptied, but what has been printed can be encoded
    cases hx with
    | writing => cases (surrogates?_render _).symm.trans h
  | wrote _ _ _ hw =>
    cases hx with
    | writing hg hwritable hwritten =>
      exact .writing hg hwritable ((Workspace.write_write hwritten _).symm.trans hw)
  | closed =>
    cases hx with
    | writing hg hw hwritten =>
      refine .added ?_
      rw [hg.addRule_eq, hw, hwritten]
      rfl
  | stopped h =>
    cases hx with
    | starting | looked | parsed | grown | printed =>
      exact .failed fun f hf => Cause.fault_ne_error hf
    | _ => cases h
  | broke => exact .broken

theorem Reaches.sound (h : Reaches path rule default ⟨t, .starting⟩ x) : Sound path rule default t x := by
  induction h with
  | refl => exact .starting
  | tail _ hs ih => exact hs.sound ih

/-! ### Runs -/

/-- How many stages there are to go through, and how much is left to write. -/
def rank (x : Adding) : Nat × Nat :=
  match x.stage with
  | .starting => (6, 0)
  | .looked _ => (5, 0)
  | .parsed _ => (4, 0)
  | .grown _ => (3, 0)
  | .printed _ => (2, 0)
  | .writing text written => (1, (utf8Encode text).length - written.length)
  | .added | .failed _ | .broken => (0, 0)

theorem Step.rank_lt (h : Step path rule default x x') :
    Prod.Lex (· < ·) (· < ·) x'.rank x.rank := by
  cases h with
  | @wrote _ _ text written more _ hm h =>
    refine .right _ ?_
    have hle := h.length_le
    have hpos := List.length_pos_iff.mpr hm
    simp only [List.length_append] at hle ⊢
    omega
  | @stopped t stage h =>
    cases stage with
    | starting | looked | parsed | grown | printed => exact .left _ _ (by decide)
    | _ => cases h
  | _ => exact .left _ _ (by decide)

theorem step_wellFounded (path : Path) (rule : Rule) (default : String) :
    WellFounded fun x' x : Adding => Step path rule default x x' :=
  Subrelation.wf (fun h => h.rank_lt) (InvImage.wf rank (WellFounded.prod_lex wellFounded_lt wellFounded_lt))

theorem Sound.progress (h : Sound path rule default t x) :
    x.Ended ∨ ∃ x', Step path rule default x x' := by
  cases h with
  | starting | looked | parsed | grown | printed => exact .inr ⟨_, .stopped rfl⟩
  | writing => exact .inr ⟨_, .broke⟩
  | added => exact .inl (.inl rfl)
  | failed => exact .inl (.inr (.inr ⟨_, rfl⟩))
  | broken => exact .inl (.inr (.inl rfl))

theorem reaches_added {text : String} (hencodes : Text.surrogates? text = none)
    (hwrite : t.write path (utf8Encode text) = .ok t') :
    Reaches path rule default ⟨t, .printed text⟩ ⟨t', .added⟩ := by
  cases hopen : t.write path [] with
  | error e => cases (Workspace.write_error hopen _).symm.trans hwrite
  | ok emptied =>
    have hopened : Reaches path rule default ⟨t, .printed text⟩ ⟨emptied, .writing text []⟩ :=
      .single (.opened hopen)
    have hclosed : Step path rule default ⟨t', .writing text (utf8Encode text)⟩ ⟨t', .added⟩ :=
      .closed hencodes
    by_cases hempty : utf8Encode text = []
    · rw [hempty] at hwrite hclosed
      cases hopen.symm.trans hwrite
      exact hopened.tail hclosed
    · have hwhole := List.nil_append (utf8Encode text)
      have hwrote : Step path rule default ⟨emptied, .writing text []⟩
          ⟨t', .writing text ([] ++ utf8Encode text)⟩ :=
        .wrote hencodes hempty (hwhole.symm ▸ List.prefix_rfl)
          (hwhole.symm ▸ (Workspace.write_write hopen _).trans hwrite)
      rw [hwhole] at hwrote
      exact (hopened.tail hwrote).tail hclosed

/-- Without faults the adding ends as it is said to. -/
theorem reaches_addRule (path : Path) (rule : Rule) (default : String) (t : Tree) :
    match addRule t path rule default with
    | .ok t' => Reaches path rule default ⟨t, .starting⟩ ⟨t', .added⟩
    | .error f => Reaches path rule default ⟨t, .starting⟩ ⟨t, .failed (.error f)⟩ := by
  cases ht : currentText t path default with
  | error f =>
    rw [addRule_of_unlooked ht]
    exact .single (.unlooked ht)
  | ok text =>
    have hlooked : Reaches path rule default ⟨t, .starting⟩ ⟨t, .looked text⟩ := .single (.looked ht)
    cases hd : document path.text text with
    | error f =>
      rw [addRule_of_unparsed ht hd]
      exact hlooked.tail (.unparsed hd)
    | ok old =>
      have hparsed := hlooked.tail (.parsed hd)
      cases hg : extend path.text rule old with
      | error f =>
        rw [addRule_of_refused ht hd hg]
        exact hparsed.tail (.refused hg)
      | ok doc =>
        have hgrown := hparsed.tail (.grew hg)
        have hadd : addRule t path rule default = _ := Grows.addRule_eq ⟨text, old, ht, hd, hg⟩
        cases hw : Yaml.isWritable doc with
        | false =>
          rw [hadd, hw]
          exact hgrown.tail (.unprinted hw)
        | true =>
          have hprinted := hgrown.tail (.printed hw)
          cases hwrite : t.write path (utf8Encode (Yaml.render doc)) with
          | ok t' =>
            rw [hadd, hw, hwrite]
            exact hprinted.trans (reaches_added (surrogates?_render doc) hwrite)
          | error e =>
            rw [hadd, hw, hwrite]
            exact hprinted.tail (.unopened (Workspace.write_error hwrite _))

/-- What is so at each step of adding a rule to the files of a tree. -/
structure Safe (path : Path) (rule : Rule) (default : String) (t : Tree) (x : Adding) : Prop where
  progress : x.Ended ∨ ∃ x', Step path rule default x x'
  early : x.stage.isEarly = true → x.tree = t
  /-- For whatever reason the adding has failed, if not by a fault while the file was written. -/
  failed : ∀ cause, x.stage = .failed cause → x.tree = t
  error : ∀ f, x.stage = .failed (.error f) → addRule t path rule default = .error f
  added : x.stage = .added → addRule t path rule default = .ok x.tree

theorem Reaches.safe (h : Reaches path rule default ⟨t, .starting⟩ x) : Safe path rule default t x := by
  have hsound := h.sound
  have hprogress := hsound.progress
  cases hsound with
  | starting | looked | parsed | grown | printed =>
    refine ⟨hprogress, fun _ => rfl, fun _ h => ?_, fun _ h => ?_, fun h => ?_⟩ <;> cases h
  | writing | broken =>
    refine ⟨hprogress, fun h => ?_, fun _ h => ?_, fun _ h => ?_, fun h => ?_⟩ <;> cases h
  | added hadd =>
    refine ⟨hprogress, fun h => ?_, fun _ h => ?_, fun _ h => ?_, fun _ => hadd⟩ <;> cases h
  | failed he =>
    refine ⟨hprogress, nofun, fun _ _ => rfl, fun f hstage => ?_, nofun⟩
    cases hstage
    exact he f rfl

end Adding
end JudgedLint.Lint.ConfigFile

namespace JudgedLint.Draft

open Lint (Rule)
open Lint.ConfigFile (Adding addRule defaultContent)
open Workspace (Path Tree)

section

variable {σ : Type} {m : Model.Source σ} {a : Author} {answers : Answers} {source : σ} {rule : Rule}

theorem isYes_iff : answers.isYes = true ↔ ∃ answer left, answers.next = .ok (answer, left) ∧
    Text.lowerAscii (Text.trim answer) = "y" := by
  rw [Answers.isYes]
  cases answers.next with
  | error f => simp
  | ok next =>
    obtain ⟨answer, left⟩ := next
    simp

/-- What must have happened where a dialogue has changed a file. -/
structure Wanted (m : Model.Source σ) (a : Author) (path : String) (answers : Answers) (t : Tree)
    (source : σ) (rule : Rule) : Prop where
  drafted : ∃ line rest, answers.next = .ok (line, rest) ∧
    (session m a (Text.trim line) source).outcome = .ok rule ∧
    ∃ answer left, rest.next = .ok (answer, left) ∧ Text.lowerAscii (Text.trim answer) = "y"
  added : addRule t (Path.ofText path) rule defaultContent =
    .ok (Dialogue.run m a path answers t source).tree
  outcome : (Dialogue.run m a path answers t source).outcome = .ok .ok

theorem Confirmed.wanted {path : String} {t : Tree} (h : Confirmed m a answers source rule)
    (hchanged : (Dialogue.run m a path answers t source).tree ≠ t) :
    Wanted m a path answers t source rule := by
  have hrun := run_of_confirmed path t h
  obtain ⟨rest, hshown, hyes⟩ := h
  obtain ⟨line, hnext, _, hsession⟩ := shown_iff.mp hshown
  cases hadd : addRule t (Path.ofText path) rule defaultContent with
  | error f =>
    rw [hadd] at hrun
    exact absurd hrun.2.1 hchanged
  | ok t' =>
    rw [hadd] at hrun
    obtain ⟨houtcome, htree, _⟩ := hrun
    exact ⟨⟨line, rest, hnext, hsession, isYes_iff.mp hyes⟩, by rw [hadd, htree], houtcome⟩

/-- The adding of a rule that fails leaves all files as they are, whatever the files, the default and the
rule are, unless the system fails while the file is written. A dialogue changes a file only if a rule was
drafted, the answer is yes, and the rule has been added. -/
theorem untouched_unless_added (m : Model.Source σ) (a : Author) (path : String) (answers : Answers)
    (t : Tree) (source : σ) :
    (∀ (file : Path) (rule : Rule) (default : String),
      WellFounded (fun x' x : Adding => Adding.Step file rule default x x') ∧
      (∀ x, Adding.Reaches file rule default ⟨t, .starting⟩ x → x.Safe file rule default t) ∧
      match addRule t file rule default with
      | .ok t' => Adding.Reaches file rule default ⟨t, .starting⟩ ⟨t', .added⟩
      | .error f => Adding.Reaches file rule default ⟨t, .starting⟩ ⟨t, .failed (.error f)⟩) ∧
    ((Dialogue.run m a path answers t source).tree ≠ t →
      ∃ rule, Wanted m a path answers t source rule) := by
  refine ⟨fun file rule default => ⟨Adding.step_wellFounded file rule default, fun x hx => hx.safe,
    Adding.reaches_addRule file rule default t⟩, fun hchanged => ?_⟩
  by_cases hconfirmed : ∃ rule, Confirmed m a answers source rule
  · obtain ⟨rule, hrule⟩ := hconfirmed
    exact ⟨rule, hrule.wanted hchanged⟩
  · exact absurd (run_of_not_confirmed (not_exists.mp hconfirmed)).1 hchanged

end

namespace Sample

open Lint.Sample (configPath configured unconfigured firstConfig starts_unconfigured addable_rule
  read_configured locate_unconfigured)

theorem added_ne_unconfigured {t' : Tree}
    (h : addRule unconfigured configPath rule defaultContent = .ok t') : t' ≠ unconfigured := by
  rintro rfl
  obtain ⟨content, hwrite⟩ := Lint.ConfigFile.write_of_addRule h
  obtain ⟨_, hwritten⟩ := Workspace.write_eq_ok hwrite
  have hthere := Lint.ConfigFile.exists_of_read hwritten.read
  rw [Tree.exists, Tree.test, Tree.entry, locate_unconfigured] at hthere
  cases hthere

theorem run_changes_unconfigured :
    (Dialogue.run (answering draft) author ".ai-lint.yml" agreeing unconfigured ()).tree ≠ unconfigured := by
  have hgrowable := (Lint.growable_of_starts starts_unconfigured).1
  obtain ⟨t', hadd, _, _⟩ := (Lint.addRule_of_growable hgrowable (addable_rule .error)).2 (by decide)
  have hrun := run_of_confirmed ".ai-lint.yml" unconfigured confirmed_draft
  rw [path_ofText, show addRule unconfigured configPath rule defaultContent = .ok t' from hadd] at hrun
  rw [hrun.2.1]
  exact added_ne_unconfigured hadd

/-- A file that is no UTF-8 stays as it is when a rule is to be added to it; a new file comes from a rule
that was wanted. -/
theorem untouched_unless_added_invalid :
    (∃ f x, Adding.Reaches configPath rule "" ⟨configured [0xff], .starting⟩ x ∧
      x.stage = .failed (.error f) ∧ x.tree = configured [0xff]) ∧
    ∃ rule, Wanted (answering draft) author ".ai-lint.yml" agreeing unconfigured () rule := by
  obtain ⟨hadding, _⟩ := untouched_unless_added (answering draft) author ".ai-lint.yml" agreeing
    (configured [0xff]) ()
  obtain ⟨_, hsafe, _⟩ := hadding configPath rule ""
  have hundecoded : Lint.ConfigFile.currentText (configured [0xff]) configPath "" =
      .error (.undecodable ⟨.invalidStart, 0, 1, 0xff⟩) := by
    have hdecode : Text.utf8Decode [0xff] = .error ⟨.invalidStart, 0, 1, 0xff⟩ := by
      decide +kernel
    rw [Lint.ConfigFile.currentText_of_read (read_configured _), hdecode]
    rfl
  have hfailed : Adding.Reaches configPath rule "" ⟨configured [0xff], .starting⟩ _ :=
    .single (.unlooked hundecoded)
  exact ⟨⟨_, _, hfailed, rfl, (hsafe _ hfailed).failed _ rfl⟩,
    (untouched_unless_added (answering draft) author ".ai-lint.yml" agreeing unconfigured ()).2
      run_changes_unconfigured⟩

end Sample

end JudgedLint.Draft

import JudgedLint.Form.Reader
import JudgedLint.Proofs.Except
import JudgedLint.Proofs.Json.Members

/-! When readers take what they are given, field by field, and what the data of a JSON object has to
say under a name. What is not taken has at least one thing wrong with it. -/
namespace JudgedLint

namespace Datum

@[simp] theorem bare_ofJson (j : Json) : (ofJson j).bare = ofJson j := by
  cases j <;> rfl

theorem isMap_ofJson {j : Json} (h : (ofJson j).isMap = true) : ∃ ms, j = .obj ms := by
  cases j with
  | obj ms => exact ⟨ms, rfl⟩
  | _ => cases h

@[simp] theorem get?_ofJson (ms : List (String × Json)) (name : String) :
    (ofJson (.obj ms)).get? name = (ms.lookup name).map ofJson := by
  simp only [ofJson, get?, entries, bare]
  induction ms with
  | nil => rfl
  | cons m rest ih =>
    obtain ⟨k, j⟩ := m
    have hsame : sameKey (.str k) (.str name) = (name == k) := BEq.comm
    simp only [ofMembers, List.find?_cons, hsame, List.lookup_cons]
    cases name == k with
    | true => rfl
    | false => exact ih

end Datum

namespace Form

variable {α β : Type}

theorem apply_eq_ok {f : Checked (α → β)} {a : Checked α} {b : β} :
    Checked.apply f a = .ok b ↔ ∃ g x, f = .ok g ∧ a = .ok x ∧ g x = b := by
  cases f <;> cases a <;> simp [Checked.apply]

theorem under_eq_ok {step : Step} {a : Checked α} {x : α} : a.under step = .ok x ↔ a = .ok x :=
  mapError_eq_ok

theorem record_eq_ok {name : String} {body : Datum → Checked α} {d : Datum} {x : α} :
    record name body d = .ok x ↔ d.isMap = true ∧ body d = .ok x := by
  rw [record]
  split
  · next h => simp [h]
  · next h => simp [h, fail]

theorem required_eq_ok {name : String} {r : Reader α} {d : Datum} {x : α} :
    required name r d = .ok x ↔ ∃ v, d.get? name = some v ∧ r v = .ok x := by
  rw [required]
  cases d.get? name with
  | none => simp
  | some v => simp [under_eq_ok]

theorem withDefault_eq_ok {name : String} {default x : α} {r : Reader α} {d : Datum} :
    withDefault name default r d = .ok x ↔
      d.get? name = none ∧ default = x ∨ ∃ v, d.get? name = some v ∧ r v = .ok x := by
  rw [withDefault]
  cases d.get? name with
  | none => simp
  | some v => simp [under_eq_ok]

theorem withDefault_ofJson {α : Type} {name : String} {default x : α} {r : Reader α}
    {ms : List (String × Json)} (h : withDefault name default r (.ofJson (.obj ms)) = .ok x) :
    default = x ∨ ∃ j, (name, j) ∈ ms ∧ r (.ofJson j) = .ok x := by
  rcases withDefault_eq_ok.mp h with ⟨_, heq⟩ | ⟨v, hv, hr⟩
  · exact .inl heq
  · rw [Datum.get?_ofJson, Option.map_eq_some_iff] at hv
    obtain ⟨j, hj, rfl⟩ := hv
    exact .inr ⟨j, Json.mem_of_lookup hj, hr⟩

theorem required_ofJson {α : Type} {name : String} {x : α} {r : Reader α} {ms : List (String × Json)}
    (h : required name r (.ofJson (.obj ms)) = .ok x) :
    ∃ j, (name, j) ∈ ms ∧ r (.ofJson j) = .ok x := by
  obtain ⟨v, hv, hr⟩ := required_eq_ok.mp h
  rw [Datum.get?_ofJson, Option.map_eq_some_iff] at hv
  obtain ⟨j, hj, rfl⟩ := hv
  exact ⟨j, Json.mem_of_lookup hj, hr⟩

/-! What is refused is refused for a reason. -/

/-- A value, or at least one error. -/
def Told (c : Checked α) : Prop := c ≠ .error []

theorem told_ok (x : α) : Told (.ok x) := nofun

theorem told_fail (f : Fault) : Told (fail f : Checked α) := nofun

theorem Told.bind {c : Checked α} {f : α → Checked β} (h : Told c) (hf : ∀ x, Told (f x)) :
    Told (c >>= f) := by
  cases c with
  | error errors => exact fun heq => h (congrArg Except.error (Except.error.inj heq))
  | ok x => exact hf x

theorem Told.map {c : Checked α} (f : α → β) (h : Told c) : Told (c.map f) := by
  cases c with
  | error errors => exact fun heq => h (congrArg Except.error (Except.error.inj heq))
  | ok x => exact told_ok _

theorem Told.under {c : Checked α} (step : Step) (h : Told c) : Told (c.under step) := by
  cases c with
  | error errors => exact fun heq => h (congrArg Except.error (List.map_eq_nil_iff.mp (Except.error.inj heq)))
  | ok x => exact told_ok _

theorem Told.apply {f : Checked (α → β)} {c : Checked α} (hf : Told f) (hc : Told c) :
    Told (Checked.apply f c) := by
  cases f with
  | error errors =>
    cases c with
    | error more =>
      intro heq
      exact hf (congrArg Except.error (List.append_eq_nil_iff.mp (Except.error.inj heq)).1)
    | ok x => exact fun heq => hf (congrArg Except.error (Except.error.inj heq))
  | ok g =>
    cases c with
    | error more => exact fun heq => hc (congrArg Except.error (Except.error.inj heq))
    | ok x => exact told_ok _

theorem Told.also {c : Checked α} (h : Told c) (more : List Error) : Told (c.also more) := by
  cases c with
  | error errors =>
    intro heq
    exact h (congrArg Except.error (List.append_eq_nil_iff.mp (Except.error.inj heq)).1)
  | ok x =>
    cases more with
    | nil => exact told_ok _
    | cons e rest => exact nofun

theorem told_wellFormed (s : String) : Told (wellFormed s) := by
  unfold wellFormed
  split
  · exact told_ok _
  · exact told_fail _

theorem told_text (d : Datum) : Told (text d) := by
  unfold text
  split
  · exact told_ok _
  · split
    · exact told_ok _
    · exact told_fail _
  · exact told_fail _

theorem told_textOfLength (least : Nat) (d : Datum) : Told (textOfLength least d) := by
  refine (told_text d).bind fun s => (told_wellFormed s).bind fun s => ?_
  split
  · exact told_fail _
  · exact told_ok _

theorem told_textMatching (p : String → Bool) (written : String) (d : Datum) :
    Told (textMatching p written d) := by
  refine (told_text d).bind fun s => (told_wellFormed s).bind fun s => ?_
  split
  · exact told_ok _
  · exact told_fail _

theorem told_oneOf (choices : List (String × α)) (d : Datum) : Told (oneOf choices d) := by
  unfold oneOf
  simp only
  split
  · exact told_fail _
  · refine (told_wellFormed _).bind fun s => ?_
    split
    · exact told_ok _
    · exact told_fail _

theorem told_optional {r : Reader α} (h : ∀ d, Told (r d)) (d : Datum) : Told (optional r d) := by
  unfold optional
  split
  · exact told_ok _
  · exact (h d).map some

theorem told_required {r : Reader α} (h : ∀ d, Told (r d)) (name : String) (d : Datum) :
    Told (required name r d) := by
  unfold required
  split
  · exact nofun
  · exact (h _).under _

theorem told_withDefault {r : Reader α} (h : ∀ d, Told (r d)) (name : String) (default : α) (d : Datum) :
    Told (withDefault name default r d) := by
  unfold withDefault
  split
  · exact told_ok _
  · exact (h _).under _

theorem told_closed {body : Datum → Checked α} (h : ∀ d, Told (body d)) (known : List String) (d : Datum) :
    Told (closed known body d) := by
  unfold closed
  split
  · exact (h d).also _
  · exact told_fail _

theorem told_record {body : Datum → Checked α} (h : ∀ d, Told (body d)) (name : String) (d : Datum) :
    Told (record name body d) := by
  unfold record
  split
  · exact h d
  · exact told_fail _

end Form
end JudgedLint

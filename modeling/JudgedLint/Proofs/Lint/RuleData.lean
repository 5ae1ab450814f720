import JudgedLint.Proofs.Lint.Shape

/-! The data under which a rule is added to a configuration. They have the shape of those that are
read, and a valid rule is read back from them. -/
namespace JudgedLint

open Yaml (KeepsLines)

namespace Datum

theorem get?_texts (members : List (String × String)) (name : String) :
    (map (members.map fun m => (.str m.1, .str m.2))).get? name = (members.lookup name).map .str := by
  induction members with
  | nil => rfl
  | cons m rest ih =>
    obtain ⟨key, value⟩ := m
    have hsame : sameKey (.str key) (.str name) = (name == key) := BEq.comm
    rw [List.map_cons, get?_cons, List.lookup_cons, hsame]
    cases name == key with
    | true => rfl
    | false => exact ih

end Datum

namespace Lint

variable {rule : Rule} {d : Datum}

/-- What makes a rule valid: an id of the right form, and a name, a glob and a prompt in well-formed
texts that are not empty. -/
structure Rule.Valid (r : Rule) : Prop where
  id : Text.isWellFormed r.id = true ∧ isRuleId r.id = true
  name : Text.isWellFormed r.name = true ∧ 1 ≤ r.name.length
  glob : Text.isWellFormed r.glob = true ∧ 1 ≤ r.glob.length
  prompt : Text.isWellFormed r.prompt = true ∧ 1 ≤ r.prompt.length

theorem Rule.valid_of_reader (h : Rule.reader d = .ok rule) : rule.Valid := by
  obtain ⟨_, _, hid, hname, _, hglob, _, hprompt, _⟩ := Rule.reader_iff.mp h
  obtain ⟨_, _, hid⟩ := Form.required_eq_ok.mp hid
  obtain ⟨_, _, hname⟩ := Form.required_eq_ok.mp hname
  obtain ⟨_, _, hglob⟩ := Form.required_eq_ok.mp hglob
  obtain ⟨_, _, hprompt⟩ := Form.required_eq_ok.mp hprompt
  exact ⟨(Form.textMatching_iff.mp hid).2, (Form.textOfLength_iff.mp hname).2,
    (Form.textOfLength_iff.mp hglob).2, (Form.textOfLength_iff.mp hprompt).2⟩

theorem Rule.mem_setMembers {m : String × String} (h : m ∈ rule.setMembers) :
    m.1 ∈ Rule.memberNames := by
  rw [Rule.setMembers] at h
  simp only [List.mem_append, List.mem_cons, Option.mem_toList, Option.map_eq_some_iff,
    List.not_mem_nil, or_false] at h
  rcases h with (((rfl | rfl | rfl | rfl) | ⟨_, _, rfl⟩) | rfl) | ⟨_, _, rfl⟩ <;> simp [Rule.memberNames]

theorem Rule.get?_toDatum (rule : Rule) (name : String) :
    rule.toDatum.get? name = (rule.setMembers.lookup name).map .str :=
  Datum.get?_texts rule.setMembers name

theorem Rule.lookup_setMembers (rule : Rule) :
    rule.setMembers.lookup "id" = some rule.id ∧ rule.setMembers.lookup "name" = some rule.name ∧
      rule.setMembers.lookup "severity" = some rule.severity.name ∧
      rule.setMembers.lookup "glob" = some rule.glob ∧
      rule.setMembers.lookup "exclude" = rule.exclude ∧
      rule.setMembers.lookup "prompt" = some rule.prompt ∧
      rule.setMembers.lookup "model" = rule.model := by
  rw [Rule.setMembers]
  cases rule.exclude <;> cases rule.model <;> simp [List.lookup_cons]

theorem oneOf_severity (s : Severity) : Form.oneOf severities (.str s.name) = .ok s := by
  cases s <;> decide

theorem withDefault_text {name : String} {o : Option String} (h : d.get? name = o.map .str) :
    Form.withDefault name none (Form.optional Form.text) d = .ok o := by
  rw [Form.withDefault, h]
  cases o <;> rfl

theorem Rule.reader_toDatum (h : rule.Valid) : Rule.reader rule.toDatum = .ok rule := by
  obtain ⟨hid, hname, hseverity, hglob, hexclude, hprompt, hmodel⟩ := rule.lookup_setMembers
  have hget {name s : String} (h : rule.setMembers.lookup name = some s) :
      rule.toDatum.get? name = some (.str s) := by
    rw [Rule.get?_toDatum, h]
    rfl
  refine Rule.reader_iff.mpr ⟨rfl, ?_, Form.required_eq_ok.mpr ⟨_, hget hid, ?_⟩,
    Form.required_eq_ok.mpr ⟨_, hget hname, ?_⟩, Form.required_eq_ok.mpr ⟨_, hget hseverity, ?_⟩,
    Form.required_eq_ok.mpr ⟨_, hget hglob, ?_⟩, ?_, Form.required_eq_ok.mpr ⟨_, hget hprompt, ?_⟩, ?_⟩
  · intro e he
    obtain ⟨m, hm, rfl⟩ := List.mem_map.mp he
    exact ⟨m.1, Rule.mem_setMembers hm, rfl⟩
  · exact Form.textMatching_iff.mpr ⟨rfl, h.id⟩
  · exact Form.textOfLength_iff.mpr ⟨rfl, h.name⟩
  · exact oneOf_severity rule.severity
  · exact Form.textOfLength_iff.mpr ⟨rfl, h.glob⟩
  · exact withDefault_text (by rw [Rule.get?_toDatum, hexclude])
  · exact Form.textOfLength_iff.mpr ⟨rfl, h.prompt⟩
  · exact withDefault_text (by rw [Rule.get?_toDatum, hmodel])

def Rule.KeepsLines (r : Rule) : Prop := ∀ m ∈ r.setMembers, Yaml.KeepsLines m.2

instance (r : Rule) : Decidable r.KeepsLines :=
  inferInstanceAs (Decidable (∀ m ∈ r.setMembers, Yaml.KeepsLines m.2))

theorem keepsLines_memberNames : ∀ name ∈ Rule.memberNames ++ Config.memberNames, KeepsLines name := by
  decide

theorem Rule.steady_toDatum (h : rule.KeepsLines) : Yaml.Steady rule.toDatum := by
  refine .map (fun e he => ?_) fun e he => ?_
  · obtain ⟨m, hm, rfl⟩ := List.mem_map.mp he
    exact .str (keepsLines_memberNames m.1 (List.mem_append_left _ (Rule.mem_setMembers hm)))
  · obtain ⟨m, hm, rfl⟩ := List.mem_map.mp he
    exact .str (h m hm)

theorem Rule.nodup_setMembers (rule : Rule) : (rule.setMembers.map (·.1)).Nodup := by
  rw [Rule.setMembers]
  cases rule.exclude <;> cases rule.model <;> simp

theorem Rule.briefRecord_toDatum (h : rule.KeepsLines) :
    BriefRecord Rule.memberNames rule.toDatum := by
  refine .mk (fun e he => ?_) ?_ fun e he => ?_
  · obtain ⟨m, hm, rfl⟩ := List.mem_map.mp he
    exact ⟨m.1, Rule.mem_setMembers hm, rfl⟩
  · have hkeys : (rule.setMembers.map fun m => (Datum.str m.1, Datum.str m.2)).map (·.1) =
        (rule.setMembers.map (·.1)).map Datum.str := by simp
    rw [hkeys]
    refine List.Nodup.map (fun a b hab => ?_) rule.nodup_setMembers
    cases hab
    rfl
  · obtain ⟨m, hm, rfl⟩ := List.mem_map.mp he
    exact .str (h m hm)

end Lint
end JudgedLint

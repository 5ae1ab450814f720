import Mathlib.Data.List.Forall2

/-! When steps that may fail succeed: each step of a chain, each item of a list. And why steps are
stopped. -/
namespace JudgedLint

variable {ε ε' α β : Type}

/-- Why an operation is stopped: by what it finds, or by a fault of the system, such as a full disk, which
may come at any time. -/
inductive Cause (ε : Type) where
  | error (e : ε)
  | fault

theorem Cause.fault_ne_error {e : ε} {P : Prop} (h : (.fault : Cause ε) = .error e) : P := nomatch h

theorem bind_eq_ok {x : Except ε α} {f : α → Except ε β} {b : β} :
    x >>= f = .ok b ↔ ∃ a, x = .ok a ∧ f a = .ok b := by
  cases x with
  | error e => simp [Bind.bind, Except.bind]
  | ok a => simp [Bind.bind, Except.bind]

theorem pure_eq_ok {a b : α} : (pure a : Except ε α) = .ok b ↔ a = b := by
  simp [Pure.pure, Except.pure]

theorem map_eq_ok {x : Except ε α} {f : α → β} {b : β} :
    x.map f = .ok b ↔ ∃ a, x = .ok a ∧ f a = b := by
  cases x with
  | error e => simp [Except.map]
  | ok a => simp [Except.map]

theorem mapError_eq_ok {x : Except ε α} {f : ε → ε'} {a : α} :
    x.mapError f = .ok a ↔ x = .ok a := by
  cases x with
  | error e => simp [Except.mapError]
  | ok a => simp [Except.mapError]

theorem ok_of_toOption {x : Except ε α} {a : α} (h : x.toOption = some a) : x = .ok a := by
  cases x with
  | error e => cases h
  | ok b =>
    cases h
    rfl

theorem map_eq_error {x : Except ε α} {f : α → β} {e : ε} : x.map f = .error e ↔ x = .error e := by
  cases x with
  | error e => simp [Except.map]
  | ok a => simp [Except.map]

theorem mapError_eq_error {x : Except ε α} {f : ε → ε'} {e : ε'} :
    x.mapError f = .error e ↔ ∃ e', x = .error e' ∧ f e' = e := by
  cases x with
  | error e => simp [Except.mapError]
  | ok a => simp [Except.mapError]

theorem mapM_eq_ok {f : α → Except ε β} {as : List α} {bs : List β} :
    as.mapM f = .ok bs ↔ List.Forall₂ (fun a b => f a = .ok b) as bs := by
  induction as generalizing bs with
  | nil => rw [List.mapM_nil, pure_eq_ok, List.forall₂_nil_left_iff, eq_comm]
  | cons a as ih =>
    simp only [List.mapM_cons, bind_eq_ok, pure_eq_ok, ih]
    constructor
    · rintro ⟨b, hb, bs', hbs, rfl⟩
      exact .cons hb hbs
    · rintro (_ | ⟨hb, hbs⟩)
      exact ⟨_, hb, _, hbs, rfl⟩

theorem mapM_isOk {f : α → Except ε β} {as : List α} :
    (∃ bs, as.mapM f = .ok bs) ↔ ∀ a ∈ as, ∃ b, f a = .ok b := by
  simp only [mapM_eq_ok]
  induction as with
  | nil => exact ⟨fun _ _ ha => absurd ha List.not_mem_nil, fun _ => ⟨[], .nil⟩⟩
  | cons a as ih =>
    rw [List.forall_mem_cons, ← ih]
    constructor
    · rintro ⟨_, _ | ⟨hb, hbs⟩⟩
      exact ⟨⟨_, hb⟩, _, hbs⟩
    · rintro ⟨⟨b, hb⟩, bs, hbs⟩
      exact ⟨b :: bs, .cons hb hbs⟩

/-- A test that may fail, where failing counts as no. -/
def holds (f : α → Except ε Bool) (a : α) : Bool := (f a).toOption.getD false

theorem holds_of_ok {f : α → Except ε Bool} {a : α} {b : Bool} (h : f a = .ok b) :
    holds f a = b := by
  rw [holds, h]
  rfl

private theorem filterAuxM_eq_ok {f : α → Except ε Bool} (as : List α) :
    ∀ {acc bs : List α}, List.filterAuxM f as acc = .ok bs →
      bs = (as.filter (holds f)).reverse ++ acc := by
  induction as with
  | nil =>
    intro acc bs h
    exact (pure_eq_ok.mp h).symm
  | cons a as ih =>
    intro acc bs h
    obtain ⟨b, hb, hrest⟩ := bind_eq_ok.mp h
    rw [ih hrest, List.filter_cons, holds_of_ok hb]
    cases b with
    | true => simp
    | false => simp

theorem filterM_eq_ok {f : α → Except ε Bool} {as bs : List α} (h : as.filterM f = .ok bs) :
    bs = as.filter (holds f) := by
  obtain ⟨kept, hkept, hrev⟩ := bind_eq_ok.mp h
  rw [← pure_eq_ok.mp hrev, filterAuxM_eq_ok as hkept]
  simp

private theorem filterAuxM_isOk {f : α → Except ε Bool} {as : List α} (acc : List α) :
    (∃ bs, List.filterAuxM f as acc = .ok bs) ↔ ∀ a ∈ as, ∃ b, f a = .ok b := by
  induction as generalizing acc with
  | nil => exact ⟨fun _ _ ha => absurd ha List.not_mem_nil, fun _ => ⟨acc, rfl⟩⟩
  | cons a as ih =>
    rw [List.forall_mem_cons]
    constructor
    · rintro ⟨bs, h⟩
      obtain ⟨b, hb, hrest⟩ := bind_eq_ok.mp h
      exact ⟨⟨b, hb⟩, (ih _).mp ⟨bs, hrest⟩⟩
    · rintro ⟨⟨b, hb⟩, hrest⟩
      obtain ⟨bs, hbs⟩ := (ih _).mpr hrest
      exact ⟨bs, bind_eq_ok.mpr ⟨b, hb, hbs⟩⟩

theorem filterM_isOk {f : α → Except ε Bool} {as : List α} :
    (∃ bs, as.filterM f = .ok bs) ↔ ∀ a ∈ as, ∃ b, f a = .ok b := by
  rw [← filterAuxM_isOk []]
  constructor
  · rintro ⟨bs, h⟩
    obtain ⟨kept, hkept, _⟩ := bind_eq_ok.mp h
    exact ⟨kept, hkept⟩
  · rintro ⟨kept, hkept⟩
    exact ⟨kept.reverse, bind_eq_ok.mpr ⟨kept, hkept, rfl⟩⟩

end JudgedLint

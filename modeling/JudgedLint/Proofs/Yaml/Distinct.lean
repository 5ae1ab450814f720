import JudgedLint.Proofs.Datum
import JudgedLint.Yaml.Value

/-! Whatever is read, no mapping in it holds a key twice. Entries are gathered one by one, and an
entry whose key is there already takes its place. -/
namespace JudgedLint

namespace Datum

variable {key value : Datum} {es : List (Datum × Datum)}

def Apart (keys : List Datum) : Prop := keys.Pairwise fun a b => sameKey a b = false

theorem keys_insert (key value : Datum) (es : List (Datum × Datum)) :
    (insert key value es).map (·.1) =
      if es.any fun e => sameKey e.1 key then es.map (·.1)
      else es.map (·.1) ++ [key] := by
  induction es with
  | nil => rfl
  | cons e rest ih =>
    rw [insert, List.any_cons]
    cases hsame : sameKey e.1 key with
    | true => rfl
    | false =>
      rw [if_neg Bool.false_ne_true, List.map_cons, ih, Bool.false_or]
      split <;> rfl

theorem apart_insert (h : Apart (es.map (·.1))) (key value : Datum) :
    Apart ((insert key value es).map (·.1)) := by
  rw [keys_insert]
  split
  · exact h
  · next hnew =>
    refine List.pairwise_append.mpr ⟨h, List.pairwise_singleton .., ?_⟩
    intro a ha b hb
    obtain ⟨e, he, rfl⟩ := List.mem_map.mp ha
    obtain rfl := List.mem_singleton.mp hb
    simp only [List.any_eq_true, not_exists, not_and, Bool.not_eq_true] at hnew
    exact hnew e he

theorem mem_insert {e : Datum × Datum} (h : e ∈ insert key value es) :
    e.2 = value ∨ ∃ old ∈ es, old.2 = e.2 := by
  induction es with
  | nil =>
    rw [List.mem_singleton.mp h]
    exact .inl rfl
  | cons old rest ih =>
    rw [insert] at h
    split at h
    · rcases List.mem_cons.mp h with rfl | h
      · exact .inl rfl
      · exact .inr ⟨e, List.mem_cons_of_mem _ h, rfl⟩
    · rcases List.mem_cons.mp h with rfl | h
      · exact .inr ⟨_, List.mem_cons_self, rfl⟩
      · rcases ih h with h | ⟨old, hold, heq⟩
        · exact .inl h
        · exact .inr ⟨old, List.mem_cons_of_mem _ hold, heq⟩

/-- Data that hold no other data. The members of a set are keys. -/
def isLeaf : Datum → Bool
  | .list _ | .map _ | .labelled .. => false
  | _ => true

/-- No mapping holds a key twice, at any depth. -/
inductive Distinct : Datum → Prop
  | leaf {d : Datum} (h : d.isLeaf = true) : Distinct d
  | list {items : List Datum} (h : ∀ d ∈ items, Distinct d) : Distinct (.list items)
  | map {entries : List (Datum × Datum)} (keys : Apart (entries.map (·.1)))
      (values : ∀ e ∈ entries, Distinct e.2) : Distinct (.map entries)
  | labelled {d : Datum} (label : Nat) (h : Distinct d) : Distinct (.labelled label d)

theorem Distinct.items {items : List Datum} (h : Distinct (.list items)) : ∀ d ∈ items, Distinct d := by
  cases h with
  | leaf h => cases h
  | list h => exact h

theorem Distinct.entries (h : Distinct (.map es)) :
    Apart (es.map (·.1)) ∧ ∀ e ∈ es, Distinct e.2 := by
  cases h with
  | leaf h => cases h
  | map keys values => exact ⟨keys, values⟩

end Datum

namespace Yaml

open Datum (Apart Distinct)

theorem distinct_scalarDatum {tag : Tag} {s : String} {d : Datum} (h : scalarDatum tag s = .ok d) :
    Distinct d := by
  refine .leaf ?_
  cases tag with
  | null | str =>
    cases h
    rfl
  | bool | int | float | binary =>
    obtain ⟨_, _, rfl⟩ := map_eq_ok.mp h
    rfl
  | timestamp =>
    rw [scalarDatum, timestampOf] at h
    split at h
    · cases h
    · dsimp only at h
      split at h
      · obtain ⟨_, _, h⟩ := bind_eq_ok.mp h
        cases h
        rfl
      · split at h
        · split at h
          · obtain ⟨_, hthrow, _⟩ := bind_eq_ok.mp h
            cases hthrow
          · obtain ⟨_, _, h⟩ := bind_eq_ok.mp h
            cases h
            rfl
        · obtain ⟨_, _, h⟩ := bind_eq_ok.mp h
          cases h
          rfl
  | _ => cases h

namespace Document

variable {α β : Type} {nodes : Array Node} {shared : Bool} {fuel level id : Nat} {path : List Nat}

/-- What has been made of the nodes so far holds no key twice. -/
def Sound (w : Work) : Prop := ∀ (id : Nat) (d : Datum), w.made[id]? = some (some d) → Distinct d

/-- A step that starts from sound work gives a result as described and leaves sound work. -/
structure Makes (x : Building α) (P : α → Prop) : Prop where
  run : ∀ w, Sound w → P (x w).1 ∧ Sound (x w).2

theorem Makes.of_run {P : α → Prop} {x : Building α} {w w' : Work} {a : α} (h : Makes x P)
    (hw : Sound w) (hrun : x.run w = (a, w')) : P a ∧ Sound w' := by
  have hx := h.run w hw
  rwa [show x w = (a, w') from hrun] at hx

theorem makes_pure {P : α → Prop} {a : α} (h : P a) : Makes (pure a) P :=
  ⟨fun _ hw => ⟨h, hw⟩⟩

theorem makes_bind {P : α → Prop} {Q : β → Prop} {x : Building α} {f : α → Building β}
    (hx : Makes x P) (hf : ∀ a, P a → Makes (f a) Q) : Makes (x >>= f) Q := by
  refine ⟨fun w hw => ?_⟩
  obtain ⟨ha, hw'⟩ := hx.run w hw
  exact (hf (x w).1 ha).run (x w).2 hw'

theorem makes_get : Makes get Sound := ⟨fun _ hw => ⟨hw, hw⟩⟩

theorem makes_modify {f : Work → Work} (h : ∀ w, (f w).made = w.made) :
    Makes (modify f) fun _ => True := by
  refine ⟨fun w hw => ⟨trivial, fun id d hd => hw id d ?_⟩⟩
  rw [← h w]
  exact hd

theorem makes_report (level : Nat) (f : Fault) : Makes (report level f) fun _ => True :=
  makes_modify fun _ => rfl

theorem makes_made {d : Datum} (h : Distinct d) :
    Makes (modify fun w => { w with made := w.made.setIfInBounds id (some d) }) fun _ => True := by
  refine ⟨fun w hw => ⟨trivial, fun k e he => ?_⟩⟩
  change (w.made.setIfInBounds id (some d))[k]? = some (some e) at he
  rw [Array.getElem?_setIfInBounds] at he
  split at he
  · split at he
    · cases he
      exact h
    · cases he
  · exact hw k e he

theorem distinct_mark {d : Datum} (h : Distinct d) (shared : Bool) (id : Nat) :
    Distinct (mark shared id d) := by
  unfold mark
  split
  · split
    · exact .labelled id h
    · exact .labelled id h
    · exact .labelled id h
    · exact .labelled id h
    · exact .labelled id h
    · exact h
  · exact h

structure MakesDistinct (nodes : Array Node) (shared : Bool) (fuel : Nat) : Prop where
  build : ∀ path level id, Makes (build nodes shared fuel path level id) Distinct
  collection : ∀ path level tag id, Makes (buildCollection nodes shared fuel path level tag id) Distinct
  items : ∀ path level ids,
    Makes (buildItems nodes shared fuel path level ids) fun items => ∀ d ∈ items, Distinct d
  singles : ∀ path level ids,
    Makes (buildSingles nodes shared fuel path level ids) fun items => ∀ d ∈ items, Distinct d
  pairs : ∀ path level pairs done, Distinct (.map done) →
    Makes (buildPairs nodes shared fuel path level pairs done) fun entries => Distinct (.map entries)

theorem makesDistinct_zero : MakesDistinct nodes shared 0 where
  build path level id := by
    rw [Document.build]
    exact makes_pure (.leaf rfl)
  collection path level tag id := by
    rw [buildCollection]
    exact makes_pure (.leaf rfl)
  items path level ids := by
    rw [buildItems]
    exact makes_pure (List.forall_mem_nil _)
  singles path level ids := by
    rw [buildSingles]
    exact makes_pure (List.forall_mem_nil _)
  pairs path level pairs done h := by
    rw [buildPairs]
    exact makes_pure h

theorem distinct_scalarOf {tag : Tag} {node : Option Node} {text : String} {d : Datum}
    (h : scalarOf tag node text = .ok d) : Distinct d := by
  unfold scalarOf at h
  split at h
  · cases h
  · exact distinct_scalarDatum h

theorem makes_build (h : MakesDistinct nodes shared fuel) (path : List Nat) (level id : Nat) :
    Makes (build nodes shared (fuel + 1) path level id) Distinct := by
  rw [build]
  refine makes_bind makes_get fun w hw => ?_
  split
  · next d hd => exact makes_pure (hw id d hd)
  extract_lets tag finish make
  have hfinish {d : Datum} (hd : Distinct d) : Makes (finish d) Distinct :=
    makes_bind (makes_made (distinct_mark hd shared id)) fun _ _ =>
      makes_pure (distinct_mark hd shared id)
  have hmake (u : Unit) : Makes (make u) Distinct := by
    unfold make
    split
    · exact makes_bind (makes_modify fun _ => rfl) fun _ _ => makes_pure (.leaf rfl)
    split
    · exact makes_bind (h.collection ..) fun d hd => hfinish hd
    split
    · exact makes_bind (makes_report ..) fun _ _ => makes_pure (.leaf rfl)
    split
    · next hscalar =>
      exact makes_bind (makes_pure (distinct_scalarOf hscalar)) fun d hd => hfinish hd
    · exact makes_bind (makes_report ..) fun _ _ => makes_pure (.leaf rfl)
  split
  · refine makes_bind makes_get fun w _ => ?_
    split
    · exact makes_pure (.leaf rfl)
    · exact hmake ()
  · exact hmake ()

theorem makes_collection (h : MakesDistinct nodes shared fuel) (path : List Nat) (level : Nat) (tag : Tag)
    (id : Nat) : Makes (buildCollection nodes shared (fuel + 1) path level tag id) Distinct := by
  have hempty : Distinct (.map []) := .map List.Pairwise.nil (List.forall_mem_nil _)
  cases tag with
  | seq =>
    rw [buildCollection]
    split
    · exact makes_bind (h.items ..) fun items hitems => makes_pure (.list hitems)
    · exact makes_bind (makes_report ..) fun _ _ => makes_pure (.list (List.forall_mem_nil _))
  | map =>
    rw [buildCollection]
    split
    · exact makes_bind (h.pairs _ _ _ _ hempty) fun entries hentries => makes_pure hentries
    · exact makes_bind (makes_report ..) fun _ _ => makes_pure hempty
  | set =>
    rw [buildCollection]
    split
    · exact makes_bind (h.pairs _ _ _ _ hempty) fun entries _ => makes_pure (.leaf rfl)
    · exact makes_bind (makes_report ..) fun _ _ => makes_pure (.leaf rfl)
  | _ =>
    rw [buildCollection]
    · split
      · exact makes_bind (h.singles ..) fun items hitems => makes_pure (.list hitems)
      · exact makes_bind (makes_report ..) fun _ _ => makes_pure (.list (List.forall_mem_nil _))
    all_goals simp

theorem makes_items (h : MakesDistinct nodes shared fuel) (path : List Nat) (level : Nat)
    (ids : List Nat) :
    Makes (buildItems nodes shared (fuel + 1) path level ids) fun items => ∀ d ∈ items, Distinct d := by
  cases ids with
  | nil =>
    rw [buildItems]
    · exact makes_pure (List.forall_mem_nil _)
    · simp
  | cons id rest =>
    rw [buildItems]
    exact makes_bind (h.build ..) fun d hd => makes_bind (h.items ..) fun items hitems =>
      makes_pure (List.forall_mem_cons.mpr ⟨hd, hitems⟩)

theorem makes_singles (h : MakesDistinct nodes shared fuel) (path : List Nat) (level : Nat)
    (ids : List Nat) :
    Makes (buildSingles nodes shared (fuel + 1) path level ids)
      fun items => ∀ d ∈ items, Distinct d := by
  cases ids with
  | nil =>
    rw [buildSingles]
    · exact makes_pure (List.forall_mem_nil _)
    · simp
  | cons id rest =>
    rw [buildSingles]
    split
    · refine makes_bind (h.build ..) fun k hk => makes_bind (h.build ..) fun v hv =>
        makes_bind (h.singles ..) fun items hitems =>
          makes_pure (List.forall_mem_cons.mpr ⟨.list ?_, hitems⟩)
      exact List.forall_mem_cons.mpr ⟨hk, List.forall_mem_cons.mpr ⟨hv, List.forall_mem_nil _⟩⟩
    · exact makes_bind (makes_report ..) fun _ _ => makes_pure (List.forall_mem_nil _)

theorem distinct_insert {done : List (Datum × Datum)} {value : Datum} (h : Distinct (.map done))
    (hvalue : Distinct value) (key : Datum) : Distinct (.map (Datum.insert key value done)) := by
  obtain ⟨hkeys, hvalues⟩ := h.entries
  refine .map (Datum.apart_insert hkeys key value) fun e he => ?_
  rcases Datum.mem_insert he with heq | ⟨old, hold, heq⟩
  · rwa [heq]
  · rw [← heq]
    exact hvalues old hold

theorem makes_pairs (h : MakesDistinct nodes shared fuel) (path : List Nat) (level : Nat)
    (pairs : List (Nat × Nat)) (done : List (Datum × Datum)) (hdone : Distinct (.map done)) :
    Makes (buildPairs nodes shared (fuel + 1) path level pairs done)
      fun entries => Distinct (.map entries) := by
  cases pairs with
  | nil =>
    rw [buildPairs]
    · exact makes_pure hdone
    · simp
  | cons pair rest =>
    obtain ⟨k, v⟩ := pair
    rw [buildPairs]
    have hvalue (key : Datum) : Makes (do
        let value ← Document.build nodes shared fuel path level v
        buildPairs nodes shared fuel path level rest (Datum.insert key value done))
        fun entries => Distinct (.map entries) :=
      makes_bind (h.build ..) fun value hv => h.pairs _ _ _ _ (distinct_insert hdone hv key)
    have hkey (key : Datum) : Makes (do
        if key.unhashable?.isSome then report level .malformed
        let value ← Document.build nodes shared fuel path level v
        buildPairs nodes shared fuel path level rest (Datum.insert key value done))
        fun entries => Distinct (.map entries) := by
      dsimp only
      split
      · exact makes_bind (makes_report ..) fun _ _ => hvalue key
      · exact hvalue key
    split
    · exact makes_bind (makes_modify fun _ => rfl) fun _ _ =>
        makes_bind (makes_pure (P := fun _ => True) trivial) fun key _ => hkey key
    · exact makes_bind (h.build ..) fun key _ => hkey key

theorem makesDistinct : ∀ fuel, MakesDistinct nodes shared fuel
  | 0 => makesDistinct_zero
  | fuel + 1 =>
    have h := makesDistinct fuel
    ⟨makes_build h, makes_collection h, makes_items h, makes_singles h, makes_pairs h⟩

theorem distinct_unfold_leaf {made : Made} {d : Datum} (h : d.isLeaf = true)
    (hmade : ∀ (id : Nat) (e : Datum), made[id]? = some (some e) → Distinct e) : Distinct (unfold made d) := by
  cases d with
  | back id isMap =>
    rw [unfold]
    cases hid : made[id]? with
    | none => exact .leaf rfl
    | some e =>
      cases e with
      | none => exact .leaf rfl
      | some e => exact hmade id e hid
  | list | map | labelled => cases h
  | _ =>
    rw [unfold]
    · exact .leaf rfl
    all_goals simp

theorem keys_unfoldEntries (made : Made) : ∀ entries : List (Datum × Datum),
    (unfoldEntries made entries).map (·.1) = entries.map (·.1)
  | [] => rfl
  | (k, v) :: rest => by
    rw [unfoldEntries, List.map_cons, List.map_cons, keys_unfoldEntries made rest]

theorem mem_unfoldItems {made : Made} {e : Datum} : ∀ {items : List Datum},
    e ∈ unfoldItems made items → ∃ d ∈ items, unfold made d = e
  | [], h => nomatch h
  | d :: rest, h => by
    rw [unfoldItems] at h
    rcases List.mem_cons.mp h with rfl | h
    · exact ⟨d, List.mem_cons_self, rfl⟩
    · obtain ⟨d', hd', heq⟩ := mem_unfoldItems h
      exact ⟨d', List.mem_cons_of_mem _ hd', heq⟩

theorem mem_unfoldEntries {made : Made} {e : Datum × Datum} : ∀ {entries : List (Datum × Datum)},
    e ∈ unfoldEntries made entries → ∃ old ∈ entries, unfold made old.2 = e.2
  | [], h => nomatch h
  | (k, v) :: rest, h => by
    rw [unfoldEntries] at h
    rcases List.mem_cons.mp h with rfl | h
    · exact ⟨(k, v), List.mem_cons_self, rfl⟩
    · obtain ⟨old, hold, heq⟩ := mem_unfoldEntries h
      exact ⟨old, List.mem_cons_of_mem _ hold, heq⟩

/-- Putting data in the place of references to them leaves the keys. -/
theorem distinct_unfold {made : Made} {d : Datum} (h : Distinct d)
    (hmade : ∀ (id : Nat) (e : Datum), made[id]? = some (some e) → Distinct e) : Distinct (unfold made d) := by
  induction h with
  | leaf h => exact distinct_unfold_leaf h hmade
  | list _ ih =>
    rw [unfold]
    refine .list fun e he => ?_
    obtain ⟨d, hd, rfl⟩ := mem_unfoldItems he
    exact ih d hd
  | map keys _ ih =>
    rw [unfold]
    refine .map (by rwa [keys_unfoldEntries]) fun e he => ?_
    obtain ⟨old, hold, heq⟩ := mem_unfoldEntries he
    rw [← heq]
    exact ih old hold
  | labelled label _ ih =>
    rw [unfold]
    exact .labelled label ih

theorem distinct_datum {document : Document} {d : Datum} (h : document.datum = .ok d) :
    Distinct d := by
  unfold datum at h
  split at h
  · cases h
    exact .leaf rfl
  · next root _ =>
    dsimp only at h
    split at h
    next value w hrun =>
      split at h
      · cases h
      · cases h
        have hstart : Sound ⟨Array.replicate document.nodes.size none, none, false, []⟩ := by
          intro id d hd
          rw [Array.getElem?_replicate] at hd
          split at hd <;> cases hd
        obtain ⟨hvalue, hw⟩ := ((makesDistinct _).build [] 0 root).of_run hstart hrun
        split
        · exact distinct_unfold hvalue hw
        · exact hvalue

end Document

theorem read_distinct {s : String} {d : Datum} (h : read s = .ok d) : Distinct d := by
  obtain ⟨document, _, h⟩ := bind_eq_ok.mp h
  exact Document.distinct_datum h

end Yaml
end JudgedLint

import Mathlib.Data.List.TakeWhile
import JudgedLint.Proofs.Json.Limits

/-! Where a value stands in the text it is read from. A reader leaves an end of the text, and what it has
read of an object runs from an opening brace to a closing one. -/
namespace JudgedLint.Json

variable {l : Limits} {fuel depth : Nat} {cs cs' mid rest closing : List Char} {α β : Type}

/-- Reading has failed, or it has left an end of the text, with `closing` in front of it. -/
def Leaves (closing cs : List Char) : Except Stop (α × List Char) → Prop
  | .ok (_, rest) => closing ++ rest <:+ cs
  | .error _ => True

theorem Leaves.suffix {r : Except Stop (α × List Char)} {a : α} (h : Leaves closing cs r)
    (hr : r = .ok (a, rest)) : closing ++ rest <:+ cs := by
  rwa [hr] at h

theorem Leaves.bind {r : Except Stop (α × List Char)} {f : α × List Char → Except Stop (β × List Char)}
    (hr : Leaves mid cs r) (hf : ∀ a rest, mid ++ rest <:+ cs → Leaves closing cs (f (a, rest))) :
    Leaves closing cs (r >>= f) := by
  cases r with
  | error stop => trivial
  | ok p => exact hf p.1 p.2 hr

theorem Leaves.within {r : Except Stop (α × List Char)} (h : Leaves closing cs' r) (hs : cs' <:+ cs) :
    Leaves closing cs r := by
  cases r with
  | error stop => trivial
  | ok p => exact List.IsSuffix.trans h hs

theorem Leaves.forget {r : Except Stop (α × List Char)} (h : Leaves closing cs r) : Leaves [] cs r := by
  cases r with
  | error stop => trivial
  | ok p => exact (List.suffix_append closing p.2).trans h

theorem Unmarked.suffix (h : Unmarked cs rest) : rest <:+ cs := by
  obtain ⟨ds, heq, _⟩ := h
  exact ⟨ds, heq⟩

theorem skipSpace_suffix (cs : List Char) : skipSpace cs <:+ cs := List.dropWhile_suffix isSpace

theorem suffix_of_skipSpace {c : Char} (h : skipSpace cs = c :: rest) : c :: rest <:+ cs :=
  h ▸ skipSpace_suffix cs

theorem hexQuad?_suffix {code : Nat} (h : hexQuad? cs = some (code, rest)) : rest <:+ cs := by
  unfold hexQuad? at h
  split at h
  · next a b c d rest =>
    split at h
    · cases h
    · obtain ⟨n, _, heq⟩ := Option.map_eq_some_iff.mp h
      cases heq
      exact List.suffix_append [a, b, c, d] _
  · cases h

theorem textBody_leaves {whole : List Char} : Leaves [] cs (textBody l whole fuel cs) := by
  induction fuel generalizing cs with
  | zero => trivial
  | succ fuel ih =>
    have hnext : ∀ (f : List Char → List Char) {cs'}, cs' <:+ cs →
        Leaves [] cs (do let p ← textBody l whole fuel cs'; return (f p.1, p.2)) := by
      intro f cs' hcs'
      exact (ih.within hcs').bind fun text tail htail => htail
    cases cs with
    | nil => trivial
    | cons c rest =>
      have hrest : rest <:+ c :: rest := List.suffix_cons c rest
      simp only [textBody]
      split
      · exact hrest
      split
      · trivial
      split
      · exact hnext _ hrest
      split
      · trivial
      rename_i e after
      have hafter : after <:+ c :: e :: after := (List.suffix_cons e after).trans hrest
      split
      · split
        · trivial
        · exact hnext _ hafter
      split
      · trivial
      rename_i code after' hquad
      have hafter' := (hexQuad?_suffix hquad).trans hafter
      -- Three of the branches below end so: the code is read alone, without a second one.
      have hsingle : Leaves [] (c :: e :: after) (do
        if (!l.unpaired && Text.isSurrogate code) = true then
            throw (Fault.unpairedSurrogate, after'.length)
        let p ← textBody l whole fuel after'
        return (Text.charOfCode code :: p.1, p.2)) := by
        split
        · trivial
        · exact hnext _ hafter'
      split
      · next second _ =>
        have hsecond : second <:+ c :: e :: after :=
          (List.suffix_append ['\\', 'u'] second).trans hafter'
        split
        · exact hsingle
        split
        · trivial
        · next low beyond hlow =>
          split
          · exact hnext _ ((hexQuad?_suffix hlow).trans hsecond)
          · exact hsingle
      · exact hsingle

theorem number_leaves {negative : Bool} {here : List Char} :
    Leaves [] cs (number l negative here cs) := by
  have hrest := (unmarked_wholePart cs).trans
    ((unmarked_fractionOf (wholePart cs).2).trans (unmarked_exponentOf _))
  simp only [number]
  split
  · trivial
  · split
    · trivial
    · split
      · exact hrest.suffix
      · exact hrest.suffix

theorem scalar_leaves : Leaves [] cs (scalar l fuel cs) := by
  unfold scalar
  split
  · next r hword => exact (word?_unmarked hword).suffix
  · split
    · next rest _ =>
      exact (textBody_leaves.within (List.suffix_cons '"' rest)).bind fun text rest hrest => hrest
    · next rest _ => exact number_leaves.within (List.suffix_cons '-' rest)
    · exact number_leaves

def ValuesLeave (l : Limits) (fuel : Nat) : Prop := ∀ {depth cs}, Leaves [] cs (value l fuel depth cs)

def ItemsLeave (l : Limits) (fuel : Nat) : Prop := ∀ {depth cs},
  Leaves [']'] cs (itemList l fuel depth cs)

def MembersLeave (l : Limits) (fuel : Nat) : Prop := ∀ {depth cs},
  Leaves ['\x7d'] cs (memberList l fuel depth cs)

theorem members_leave (depth : Nat) (hmembers : MembersLeave l fuel) : Leaves ['\x7d'] cs (match skipSpace cs with
    | '\x7d' :: rest => return (.obj [], rest)
    | _ => do
      let (ms, rest) ← memberList l fuel depth (skipSpace cs)
      return (.obj (members ms), rest) : Except Stop (Json × List Char)) := by
  split
  · next heq => exact suffix_of_skipSpace heq
  · exact (hmembers.within (skipSpace_suffix cs)).bind fun ms rest hrest => hrest

theorem valuesLeave_succ (hitems : ItemsLeave l fuel) (hmembers : MembersLeave l fuel) :
    ValuesLeave l (fuel + 1) := by
  intro depth cs
  simp only [value]
  split
  · next rest =>
    have hrest : rest <:+ '[' :: rest := List.suffix_cons '[' rest
    split
    · trivial
    · split
      · next heq => exact ((List.suffix_cons ']' _).trans (suffix_of_skipSpace heq)).trans hrest
      · exact (hitems.forget.within ((skipSpace_suffix rest).trans hrest)).bind fun vs rest h => h
  · next rest =>
    split
    · trivial
    · exact (members_leave _ hmembers).forget.within (List.suffix_cons '\x7b' rest)
  · exact scalar_leaves

theorem itemsLeave_succ (hvalue : ValuesLeave l fuel) (hitems : ItemsLeave l fuel) :
    ItemsLeave l (fuel + 1) := by
  intro depth cs
  simp only [itemList]
  refine hvalue.bind ?_
  intro v rest hrest
  simp only
  split
  · next heq => exact (suffix_of_skipSpace heq).trans hrest
  · next rest' heq =>
    have hrest' : rest' <:+ cs := ((List.suffix_cons ',' rest').trans (suffix_of_skipSpace heq)).trans hrest
    exact (hitems.within ((skipSpace_suffix rest').trans hrest')).bind fun vs rest h => h
  · trivial

theorem membersLeave_succ (hvalue : ValuesLeave l fuel) (hmembers : MembersLeave l fuel) :
    MembersLeave l (fuel + 1) := by
  intro depth cs
  simp only [memberList]
  split
  · next body =>
    refine (textBody_leaves.within (List.suffix_cons '"' body)).bind ?_
    intro text rest hrest
    simp only
    split
    · next colon heq =>
      have hcolon := ((List.suffix_cons ':' colon).trans (suffix_of_skipSpace heq)).trans hrest
      refine (hvalue.within ((skipSpace_suffix colon).trans hcolon)).bind ?_
      intro v rest hrest
      simp only
      split
      · next heq => exact (suffix_of_skipSpace heq).trans hrest
      · next comma heq =>
        have hcomma := ((List.suffix_cons ',' comma).trans (suffix_of_skipSpace heq)).trans hrest
        exact (hmembers.within ((skipSpace_suffix comma).trans hcomma)).bind fun ms rest h => h
      · trivial
    · trivial
  · trivial

theorem reads_leave (l : Limits) (fuel : Nat) :
    ValuesLeave l fuel ∧ ItemsLeave l fuel ∧ MembersLeave l fuel := by
  induction fuel with
  | zero =>
    refine ⟨?_, ?_, ?_⟩
    · intro depth cs
      rw [value]
      trivial
    · intro depth cs
      rw [itemList]
      trivial
    · intro depth cs
      rw [memberList]
      trivial
  | succ fuel ih =>
    obtain ⟨hvalue, hitems, hmembers⟩ := ih
    exact ⟨valuesLeave_succ hitems hmembers, itemsLeave_succ hvalue hitems,
      membersLeave_succ hvalue hmembers⟩

/-! ### Objects -/

theorem number_ne_obj {negative : Bool} {here : List Char} {ms : List (String × Json)} :
    number l negative here cs ≠ .ok (.obj ms, rest) := by
  intro h
  simp only [number] at h
  split at h
  · cases h
  · split at h
    · cases h
    · split at h <;> cases h

theorem words_ne_obj {w : String × Json} (hw : w ∈ words) (ms : List (String × Json)) : w.2 ≠ .obj ms := by
  simp only [words, List.mem_cons, List.not_mem_nil, or_false] at hw
  intro heq
  rcases hw with rfl | rfl | rfl | rfl | rfl | rfl <;> cases heq

theorem scalar_ne_obj {ms : List (String × Json)} : scalar l fuel cs ≠ .ok (.obj ms, rest) := by
  intro h
  simp only [scalar] at h
  split at h
  · next found hword =>
    cases h
    obtain ⟨w, hw, hfound⟩ := List.exists_of_findSome?_eq_some hword
    obtain ⟨_, _, heq⟩ := Option.map_eq_some_iff.mp hfound
    exact words_ne_obj hw ms (Prod.mk.inj heq).1
  · split at h
    · obtain ⟨text, _, h⟩ := bind_eq_ok.mp h
      cases pure_eq_ok.mp h
    · exact number_ne_obj h
    · exact number_ne_obj h

theorem value_object {ms : List (String × Json)} (h : value l fuel depth cs = .ok (.obj ms, rest)) :
    ∃ inner, cs = '\x7b' :: (inner ++ '\x7d' :: rest) := by
  cases fuel with
  | zero =>
    rw [value] at h
    cases h
  | succ fuel =>
    simp only [value] at h
    split at h
    · split at h
      · cases h
      · split at h
        · cases h
        · obtain ⟨⟨vs, behind⟩, _, h⟩ := bind_eq_ok.mp h
          cases pure_eq_ok.mp h
    · next body =>
      split at h
      · cases h
      · next depth =>
        have hmembers : Leaves ['\x7d'] body _ := members_leave depth (reads_leave l fuel).2.2
        obtain ⟨inner, hinner⟩ := hmembers.suffix h
        exact ⟨inner, congrArg _ hinner.symm⟩
    · exact absurd h scalar_ne_obj

/-- The text of an object: braces around something, and spaces around the braces. -/
theorem parse_object {s : String} {ms : List (String × Json)} (h : parse l s = .ok (.obj ms)) :
    ∃ before inner after, s.toList = before ++ '\x7b' :: (inner ++ '\x7d' :: after) ∧
      before.all isSpace = true ∧ after.all isSpace = true := by
  rw [parse, mapError_eq_ok] at h
  simp only [document] at h
  split at h
  · cases h
  · obtain ⟨⟨v, rest⟩, hv, h⟩ := bind_eq_ok.mp h
    simp only at h
    split at h
    · next hend =>
      cases pure_eq_ok.mp h
      obtain ⟨inner, hinner⟩ := value_object hv
      refine ⟨s.toList.takeWhile isSpace, inner, rest, ?_, List.all_takeWhile, ?_⟩
      · rw [← hinner]
        exact List.takeWhile_append_dropWhile.symm
      · exact List.all_eq_true.mpr (List.dropWhile_eq_nil_iff.mp (List.isEmpty_iff.mp hend))
    · cases h

end JudgedLint.Json

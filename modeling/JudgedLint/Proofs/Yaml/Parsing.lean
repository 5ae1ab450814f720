import JudgedLint.Proofs.Yaml.Blocks

/-! The nodes that are made of the tokens of lasting data: each datum gets the next free number, and
the data inside it the numbers behind that. -/
namespace JudgedLint.Yaml

mutual
def nodeCount : Datum → Nat
  | .list items => itemCount items + 1
  | .map entries => entryCount entries + 1
  | _ => 1

def itemCount : List Datum → Nat
  | [] => 0
  | d :: rest => nodeCount d + itemCount rest

def entryCount : List (Datum × Datum) → Nat
  | [] => 0
  | (_, v) :: rest => nodeCount v + 1 + entryCount rest
end

def itemIds : Nat → List Datum → List Nat
  | _, [] => []
  | id, d :: rest => id :: itemIds (id + nodeCount d) rest

def entryIds : Nat → List (Datum × Datum) → List (Nat × Nat)
  | _, [] => []
  | id, (_, v) :: rest => (id, id + 1) :: entryIds (id + 1 + nodeCount v) rest

mutual
/-- The nodes of a datum with the given number. -/
def nodesOf (id : Nat) : Datum → List Node
  | .list items => .sequence .seq (itemIds (id + 1) items) :: itemNodes (id + 1) items
  | .map entries => .mapping .map (entryIds (id + 1) entries) :: entryNodes (id + 1) entries
  | d =>
    match scalarText? d with
    | some (tag, text) => [.scalar tag text]
    | none => []

def itemNodes (id : Nat) : List Datum → List Node
  | [] => []
  | d :: rest => nodesOf id d ++ itemNodes (id + nodeCount d) rest

def entryNodes (id : Nat) : List (Datum × Datum) → List Node
  | [] => []
  | (k, v) :: rest =>
    .scalar .str (k.str?.getD "") :: nodesOf (id + 1) v ++ entryNodes (id + 1 + nodeCount v) rest
end

namespace Document

variable {α β : Type} {p p' : Progress} {x : Reading α} {f : α → Reading β} {a : α}

theorem bind_ok (h : x p = .ok (a, p')) : (x >>= f) p = f a p' := by
  change (x p >>= fun r => f r.1 r.2) = f a p'
  rw [h]
  rfl

/-- A reading without labels and tags, with the tokens ahead and the nodes so far. -/
def reading (ts : List Token) (ns : List Node) : Progress :=
  ⟨ts, ns.toArray, [], commonHandles, false⟩

variable {fuel : Nat} {inMapping : Bool} {rest rest' ts : List Token} {ns children : List Node}

theorem push_reading (ts : List Token) (ns : List Node) (n : Node) :
    { reading ts ns with nodes := (reading ts ns).nodes.push n } = reading ts (ns ++ [n]) := by
  simp [reading]

theorem fill_reading (ts : List Token) (ns children : List Node) (n n' : Node) :
    fill ns.length n' (reading ts (ns ++ n :: children)) =
      .ok ((), reading ts (ns ++ n' :: children)) := by
  have hset : (ns ++ n :: children).set ns.length n' = ns ++ n' :: children := by simp
  change Except.ok ((), Progress.mk ts ((ns ++ n :: children).toArray.setIfInBounds ns.length n') []
    commonHandles false) = _
  rw [List.setIfInBounds_toArray, hset]
  rfl

theorem node_scalar (text : String) (style : Style) :
    node true inMapping (fuel + 1) (reading (.scalar text style :: rest) ns) =
      .ok (ns.length, reading rest (ns ++ [.scalar (scalarTag none style text) text])) := by
  rw [← push_reading, node]
  cases inMapping <;> rfl

theorem node_sequence {items : List Nat}
    (h : blockItems fuel (reading rest (ns ++ [.sequence .seq []])) =
      .ok (items, reading rest' (ns ++ .sequence .seq [] :: children))) :
    node true inMapping (fuel + 1) (reading (.blockSequenceStart :: rest) ns) =
      .ok (ns.length, reading rest' (ns ++ .sequence .seq items :: children)) := by
  have hnode : node true inMapping (fuel + 1) (reading (.blockSequenceStart :: rest) ns) =
      (blockItems fuel >>= fun items => do fill ns.length (.sequence .seq items); return ns.length)
        (reading rest (ns ++ [.sequence .seq []])) := by
    rw [← push_reading, node]
    cases inMapping <;> rfl
  rw [hnode, bind_ok h, bind_ok (fill_reading ..)]
  rfl

theorem node_indentless {items : List Nat}
    (h : indentlessItems fuel (reading (.blockEntry :: rest) (ns ++ [.sequence .seq []])) =
      .ok (items, reading rest' (ns ++ .sequence .seq [] :: children))) :
    node true true (fuel + 1) (reading (.blockEntry :: rest) ns) =
      .ok (ns.length, reading rest' (ns ++ .sequence .seq items :: children)) := by
  have hnode : node true true (fuel + 1) (reading (.blockEntry :: rest) ns) =
      (indentlessItems fuel >>= fun items => do
        fill ns.length (.sequence .seq items)
        return ns.length) (reading (.blockEntry :: rest) (ns ++ [.sequence .seq []])) := by
    rw [← push_reading, node]
    rfl
  rw [hnode, bind_ok h, bind_ok (fill_reading ..)]
  rfl

theorem node_mapping {pairs : List (Nat × Nat)}
    (h : blockPairs fuel (reading rest (ns ++ [.mapping .map []])) =
      .ok (pairs, reading rest' (ns ++ .mapping .map [] :: children))) :
    node true inMapping (fuel + 1) (reading (.blockMappingStart :: rest) ns) =
      .ok (ns.length, reading rest' (ns ++ .mapping .map pairs :: children)) := by
  have hnode : node true inMapping (fuel + 1) (reading (.blockMappingStart :: rest) ns) =
      (blockPairs fuel >>= fun pairs => do fill ns.length (.mapping .map pairs); return ns.length)
        (reading rest (ns ++ [.mapping .map []])) := by
    rw [← push_reading, node]
    cases inMapping <;> rfl
  rw [hnode, bind_ok h, bind_ok (fill_reading ..)]
  rfl

theorem node_emptySequence :
    node true inMapping (fuel + 2) (reading (.flowSequenceStart :: .flowSequenceEnd :: rest) ns) =
      .ok (ns.length, reading rest (ns ++ [.sequence .seq []])) := by
  have hnode : node true inMapping (fuel + 2)
      (reading (.flowSequenceStart :: .flowSequenceEnd :: rest) ns) =
      (flowItems (fuel + 1) true >>= fun items => do
        fill ns.length (.sequence .seq items)
        return ns.length) (reading (.flowSequenceEnd :: rest) (ns ++ [.sequence .seq []])) := by
    rw [← push_reading, node]
    cases inMapping <;> rfl
  have hitems : flowItems (fuel + 1) true
      (reading (.flowSequenceEnd :: rest) (ns ++ [.sequence .seq []])) =
      .ok ([], reading rest (ns ++ [.sequence .seq []])) := by
    rw [flowItems]
    rfl
  rw [hnode, bind_ok hitems, bind_ok (fill_reading ..)]
  rfl

theorem node_emptyMapping :
    node true inMapping (fuel + 2) (reading (.flowMappingStart :: .flowMappingEnd :: rest) ns) =
      .ok (ns.length, reading rest (ns ++ [.mapping .map []])) := by
  have hnode : node true inMapping (fuel + 2)
      (reading (.flowMappingStart :: .flowMappingEnd :: rest) ns) =
      (flowPairs (fuel + 1) true >>= fun pairs => do
        fill ns.length (.mapping .map pairs)
        return ns.length) (reading (.flowMappingEnd :: rest) (ns ++ [.mapping .map []])) := by
    rw [← push_reading, node]
    cases inMapping <;> rfl
  have hpairs : flowPairs (fuel + 1) true
      (reading (.flowMappingEnd :: rest) (ns ++ [.mapping .map []])) =
      .ok ([], reading rest (ns ++ [.mapping .map []])) := by
    rw [flowPairs]
    rfl
  rw [hnode, bind_ok hpairs, bind_ok (fill_reading ..)]
  rfl

/-! Items and entries. -/

theorem blockItems_end : blockItems (fuel + 1) (reading (.blockEnd :: rest) ns) =
    .ok ([], reading rest ns) := by
  rw [blockItems]
  rfl

theorem blockItems_cons {id : Nat} {ids : List Nat}
    (hhead : [Token.blockEntry, .key, .value, .blockEnd].contains (ts.headD .streamEnd) = false)
    (h : node true false fuel (reading ts ns) = .ok (id, p)) (h' : blockItems fuel p = .ok (ids, p')) :
    blockItems (fuel + 1) (reading (.blockEntry :: ts) ns) = .ok (id :: ids, p') := by
  have hstep : blockItems (fuel + 1) (reading (.blockEntry :: ts) ns) =
      (if [Token.blockEntry, .blockEnd].contains (ts.headD .streamEnd) then
          emptyScalar >>= fun id => do return id :: (← blockItems fuel)
        else node true false fuel >>= fun id => do return id :: (← blockItems fuel))
        (reading ts ns) := by
    rw [blockItems]
    rfl
  have hhead' : [Token.blockEntry, .blockEnd].contains (ts.headD .streamEnd) = false := by
    simp only [List.contains_cons, List.contains_nil, Bool.or_eq_false_iff] at hhead ⊢
    exact ⟨hhead.1, hhead.2.2.2⟩
  rw [hstep, hhead', if_neg Bool.false_ne_true, bind_ok h, bind_ok h']
  rfl

theorem indentlessItems_end (h : rest.headD .streamEnd ≠ .blockEntry) :
    indentlessItems (fuel + 1) (reading rest ns) = .ok ([], reading rest ns) := by
  rw [indentlessItems]
  refine (bind_ok (show peek (reading rest ns) = .ok (rest.headD .streamEnd, reading rest ns) from
    rfl)).trans ?_
  revert h
  generalize rest.headD Token.streamEnd = t
  intro h
  cases t <;> first | rfl | contradiction

theorem indentlessItems_cons {id : Nat} {ids : List Nat}
    (hhead : [Token.blockEntry, .key, .value, .blockEnd].contains (ts.headD .streamEnd) = false)
    (h : node true false fuel (reading ts ns) = .ok (id, p))
    (h' : indentlessItems fuel p = .ok (ids, p')) :
    indentlessItems (fuel + 1) (reading (.blockEntry :: ts) ns) = .ok (id :: ids, p') := by
  have hstep : indentlessItems (fuel + 1) (reading (.blockEntry :: ts) ns) =
      (if [Token.blockEntry, .key, .value, .blockEnd].contains (ts.headD .streamEnd) then
          emptyScalar >>= fun id => do return id :: (← indentlessItems fuel)
        else node true false fuel >>= fun id => do return id :: (← indentlessItems fuel))
        (reading ts ns) := by
    rw [indentlessItems]
    rfl
  rw [hstep, hhead, if_neg Bool.false_ne_true, bind_ok h, bind_ok h']
  rfl

theorem blockPairs_end : blockPairs (fuel + 1) (reading (.blockEnd :: rest) ns) =
    .ok ([], reading rest ns) := by
  rw [blockPairs]
  rfl

theorem blockPairs_cons {word : String} {id : Nat} {pairs : List (Nat × Nat)}
    (hhead : [Token.key, .value, .blockEnd].contains (ts.headD .streamEnd) = false)
    (hlooks : Tag.ofPlain word = .str)
    (h : node true true fuel (reading ts (ns ++ [.scalar .str word])) = .ok (id, p))
    (h' : blockPairs (fuel + 1) p = .ok (pairs, p')) :
    blockPairs (fuel + 2) (reading (.key :: .scalar word .plain :: .value :: ts) ns) =
      .ok ((ns.length, id) :: pairs, p') := by
  have hkey := @node_scalar fuel true (.value :: ts) ns word .plain
  have htag : scalarTag none .plain word = .str := hlooks
  rw [htag] at hkey
  have hvalue : blockValue (fuel + 1) (reading (.value :: ts) (ns ++ [.scalar .str word])) =
      .ok (id, p) := by
    have hstep : blockValue (fuel + 1) (reading (.value :: ts) (ns ++ [.scalar .str word])) =
        (if [Token.key, .value, .blockEnd].contains (ts.headD .streamEnd) then emptyScalar
          else node true true fuel) (reading ts (ns ++ [.scalar .str word])) := by
      rw [blockValue]
      rfl
    rw [hstep, hhead, if_neg Bool.false_ne_true, h]
  have hstep : blockPairs (fuel + 2) (reading (.key :: .scalar word .plain :: .value :: ts) ns) =
      (node true true (fuel + 1) >>= fun k => do
        let v ← blockValue (fuel + 1)
        return (k, v) :: (← blockPairs (fuel + 1)))
        (reading (.scalar word .plain :: .value :: ts) ns) := by
    rw [blockPairs]
    rfl
  rw [hstep, bind_ok hkey, bind_ok hvalue, bind_ok h']
  rfl

/-! Data. -/

/-- A token with which a datum begins; in a list it is no dash. -/
def IsStart (inMapping : Bool) (t : Token) : Prop :=
  t ≠ .key ∧ t ≠ .value ∧ t ≠ .blockEnd ∧ (inMapping = false → t ≠ .blockEntry)

/-- The tokens of a datum are read as its nodes. A list that stands at the column of the mapping
around it goes on as long as dashes follow. -/
structure Parsed (d : Datum) : Prop where
  start : ∀ inMapping, ∃ t ts, tokensOf inMapping d = t :: ts ∧ IsStart inMapping t
  count : ∀ id, (nodesOf id d).length = nodeCount d
  node : ∀ (inMapping : Bool) (fuel : Nat) (rest : List Token) (ns : List Node),
    2 * (tokensOf inMapping d).length + 2 ≤ fuel →
    (inMapping = true → rest.headD .streamEnd ≠ .blockEntry) →
      node true inMapping fuel (reading (tokensOf inMapping d ++ rest) ns) =
        .ok (ns.length, reading rest (ns ++ nodesOf ns.length d))

variable {d : Datum} {items : List Datum} {entries : List (Datum × Datum)}

theorem Parsed.item_head (h : Parsed d) (rest : List Token) :
    [Token.blockEntry, .key, .value, .blockEnd].contains
      ((tokensOf false d ++ rest).headD .streamEnd) = false := by
  obtain ⟨t, ts, hts, hkey, hvalue, hend, hentry⟩ := h.start false
  simp [hts, hkey, hvalue, hend, hentry]

theorem Parsed.value_head (h : Parsed d) (rest : List Token) :
    [Token.key, .value, .blockEnd].contains ((tokensOf true d ++ rest).headD .streamEnd) = false := by
  obtain ⟨t, ts, hts, hkey, hvalue, hend, _⟩ := h.start true
  simp [hts, hkey, hvalue, hend]

theorem length_itemNodes : ∀ items : List Datum, (∀ d ∈ items, Parsed d) → ∀ id,
    (itemNodes id items).length = itemCount items
  | [], _, _ => rfl
  | d :: rest, h, id => by
    rw [itemNodes, itemCount, List.length_append, (h d List.mem_cons_self).count,
      length_itemNodes rest fun e he => h e (List.mem_cons_of_mem _ he)]

theorem length_entryNodes : ∀ entries : List (Datum × Datum), (∀ e ∈ entries, Parsed e.2) → ∀ id,
    (entryNodes id entries).length = entryCount entries
  | [], _, _ => rfl
  | (k, v) :: rest, h, id => by
    have hv : Parsed v := h (k, v) List.mem_cons_self
    rw [entryNodes, entryCount, List.length_append, List.length_cons, hv.count,
      length_entryNodes rest fun e he => h e (List.mem_cons_of_mem _ he)]

theorem blockItems_parsed : ∀ items : List Datum, (∀ d ∈ items, Parsed d) →
    ∀ (fuel : Nat) (rest : List Token) (ns : List Node), 2 * (itemTokens items).length + 1 ≤ fuel →
      blockItems fuel (reading (itemTokens items ++ .blockEnd :: rest) ns) =
        .ok (itemIds ns.length items, reading rest (ns ++ itemNodes ns.length items))
  | [], _, fuel, rest, ns, hfuel => by
    obtain ⟨fuel, rfl⟩ : ∃ left, fuel = left + 1 := ⟨fuel - 1, by omega⟩
    simpa [itemTokens, itemIds, itemNodes] using blockItems_end
  | d :: more, h, fuel, rest, ns, hfuel => by
    have hd := h d List.mem_cons_self
    rw [itemTokens] at hfuel ⊢
    simp only [List.cons_append, List.length_cons, List.length_append] at hfuel
    obtain ⟨fuel, rfl⟩ : ∃ left, fuel = left + 1 := ⟨fuel - 1, by omega⟩
    have hnode := hd.node false fuel (itemTokens more ++ .blockEnd :: rest) ns (by omega) (by simp)
    have hmore := blockItems_parsed more (fun e he => h e (List.mem_cons_of_mem _ he)) fuel rest
      (ns ++ nodesOf ns.length d) (by omega)
    rw [List.length_append, hd.count] at hmore
    simp only [List.cons_append, List.append_assoc] at hnode hmore ⊢
    rw [itemIds, itemNodes]
    exact blockItems_cons (hd.item_head _) hnode hmore

theorem indentlessItems_parsed : ∀ items : List Datum, (∀ d ∈ items, Parsed d) →
    ∀ (fuel : Nat) (rest : List Token) (ns : List Node), 2 * (itemTokens items).length + 1 ≤ fuel →
      rest.headD .streamEnd ≠ .blockEntry →
        indentlessItems fuel (reading (itemTokens items ++ rest) ns) =
          .ok (itemIds ns.length items, reading rest (ns ++ itemNodes ns.length items))
  | [], _, fuel, rest, ns, hfuel, hrest => by
    obtain ⟨fuel, rfl⟩ : ∃ left, fuel = left + 1 := ⟨fuel - 1, by omega⟩
    simpa [itemTokens, itemIds, itemNodes] using indentlessItems_end hrest
  | d :: more, h, fuel, rest, ns, hfuel, hrest => by
    have hd := h d List.mem_cons_self
    rw [itemTokens] at hfuel ⊢
    simp only [List.cons_append, List.length_cons, List.length_append] at hfuel
    obtain ⟨fuel, rfl⟩ : ∃ left, fuel = left + 1 := ⟨fuel - 1, by omega⟩
    have hnode := hd.node false fuel (itemTokens more ++ rest) ns (by omega) (by simp)
    have hmore := indentlessItems_parsed more (fun e he => h e (List.mem_cons_of_mem _ he)) fuel rest
      (ns ++ nodesOf ns.length d) (by omega) hrest
    rw [List.length_append, hd.count] at hmore
    simp only [List.cons_append, List.append_assoc] at hnode hmore ⊢
    rw [itemIds, itemNodes]
    exact indentlessItems_cons (hd.item_head _) hnode hmore

theorem entryTokens_head (entries : List (Datum × Datum)) (rest : List Token) :
    (entryTokens entries ++ .blockEnd :: rest).headD .streamEnd ≠ .blockEntry := by
  cases entries <;> simp [entryTokens, Lexer.keyTokens]

theorem blockPairs_parsed : ∀ entries : List (Datum × Datum),
    (∀ e ∈ entries, ∃ word, PlainKey e.1 word) → (∀ e ∈ entries, Parsed e.2) →
    ∀ (fuel : Nat) (rest : List Token) (ns : List Node), 2 * (entryTokens entries).length + 1 ≤ fuel →
      blockPairs fuel (reading (entryTokens entries ++ .blockEnd :: rest) ns) =
        .ok (entryIds ns.length entries, reading rest (ns ++ entryNodes ns.length entries))
  | [], _, _, fuel, rest, ns, hfuel => by
    obtain ⟨fuel, rfl⟩ : ∃ left, fuel = left + 1 := ⟨fuel - 1, by omega⟩
    simpa [entryTokens, entryIds, entryNodes] using blockPairs_end
  | (key, v) :: more, hkeys, h, fuel, rest, ns, hfuel => by
    obtain ⟨word, hkey⟩ : ∃ word, PlainKey key word := hkeys (key, v) List.mem_cons_self
    obtain rfl := hkey.text
    have hv : Parsed v := h (.str word, v) List.mem_cons_self
    have htokens : entryTokens ((.str word, v) :: more) =
        .key :: .scalar word .plain :: .value :: (tokensOf true v ++ entryTokens more) := by
      simp [entryTokens, Lexer.keyTokens, Datum.str?, Datum.bare]
    rw [htokens] at hfuel ⊢
    simp only [List.length_cons, List.length_append] at hfuel
    obtain ⟨fuel, rfl⟩ : ∃ left, fuel = left + 2 := ⟨fuel - 2, by omega⟩
    have hnode := hv.node true fuel (entryTokens more ++ .blockEnd :: rest) (ns ++ [.scalar .str word])
      (by omega) fun _ => entryTokens_head more rest
    have hmore := blockPairs_parsed more (fun e he => hkeys e (List.mem_cons_of_mem _ he))
      (fun e he => h e (List.mem_cons_of_mem _ he)) (fuel + 1) rest
      (ns ++ .scalar .str word :: nodesOf (ns.length + 1) v) (by omega)
    have hnext : ns.length + (nodeCount v + 1) = ns.length + 1 + nodeCount v := by omega
    simp only [List.length_append, List.length_cons, List.length_nil, hv.count, hnext] at hnode hmore
    simp only [List.cons_append, List.nil_append, List.append_assoc] at hnode hmore ⊢
    rw [entryIds, entryNodes]
    exact blockPairs_cons (hv.value_head _) hkey.looks hnode hmore

theorem scalarTag_styleOf {tag : Tag} {text : String} (h : LastingScalar d tag text) :
    scalarTag none (styleOf tag text) text = tag := by
  rcases h.untagged with rfl | ⟨_, hlooks, hplain⟩
  · rcases styleOf_cases .str text with ⟨hstyle, hlooks, _⟩ | ⟨hstyle, _⟩ | hstyle
    · rw [hstyle]
      exact hlooks
    · rw [hstyle]
      rfl
    · rw [hstyle]
      rfl
  · have hstyle : styleOf tag text = .plain := by simp [styleOf, hlooks, hplain]
    rw [hstyle]
    exact hlooks

theorem nodesOf_scalar {tag : Tag} {text : String} (h : scalarText? d = some (tag, text)) (id : Nat) :
    nodesOf id d = [.scalar tag text] ∧ nodeCount d = 1 := by
  cases d with
  | null | bool | int | float | str | bytes | date | moment => simp only [nodesOf, h, nodeCount, and_self]
  | list | set | map | labelled | back => cases h

theorem parsed_scalar {tag : Tag} {text : String} (h : LastingScalar d tag text) : Parsed d where
  start inMapping := ⟨_, [], tokensOf_scalar h.written inMapping, by simp [IsStart]⟩
  count id := by rw [(nodesOf_scalar h.written id).1, (nodesOf_scalar h.written id).2]; rfl
  node inMapping fuel rest ns hfuel _ := by
    obtain ⟨fuel, rfl⟩ : ∃ left, fuel = left + 1 := ⟨fuel - 1, by omega⟩
    rw [tokensOf_scalar h.written, (nodesOf_scalar h.written _).1]
    have hnode := @node_scalar fuel inMapping rest ns text (styleOf tag text)
    rwa [scalarTag_styleOf h] at hnode

theorem parsed_list (h : ∀ d ∈ items, Parsed d) : Parsed (.list items) := by
  by_cases hempty : items = []
  · subst hempty
    refine ⟨fun inMapping => ⟨.flowSequenceStart, [.flowSequenceEnd], by rw [tokensOf]; rfl,
      by simp [IsStart]⟩, fun id => by rw [nodesOf]; rfl, fun inMapping fuel rest ns hfuel _ => ?_⟩
    obtain ⟨fuel, rfl⟩ : ∃ left, fuel = left + 2 := ⟨fuel - 2, by omega⟩
    rw [tokensOf, nodesOf]
    exact node_emptySequence
  obtain ⟨d, more, rfl⟩ := List.exists_cons_of_ne_nil hempty
  have hinside : tokensOf true (.list (d :: more)) =
      .blockEntry :: (tokensOf false d ++ itemTokens more) := by
    rw [tokensOf, itemTokens]
    rfl
  have hblock : tokensOf false (.list (d :: more)) =
      .blockSequenceStart :: (itemTokens (d :: more) ++ [.blockEnd]) := by
    rw [tokensOf]
    rfl
  refine ⟨fun inMapping => ?_, fun id => ?_, fun inMapping fuel rest ns hfuel hrest => ?_⟩
  · cases inMapping with
    | true => exact ⟨_, _, hinside, by simp [IsStart]⟩
    | false => exact ⟨_, _, hblock, by simp [IsStart]⟩
  · rw [nodesOf, nodeCount, List.length_cons, length_itemNodes _ h]
  · obtain ⟨fuel, rfl⟩ : ∃ left, fuel = left + 1 := ⟨fuel - 1, by omega⟩
    cases inMapping with
    | true =>
      have hitems : tokensOf true (.list (d :: more)) = itemTokens (d :: more) := by
        rw [hinside, itemTokens]
        rfl
      have hread := indentlessItems_parsed (d :: more) h fuel rest (ns ++ [.sequence .seq []])
        (by rw [hitems] at hfuel; omega) (hrest rfl)
      rw [List.length_append, ← hitems, hinside] at hread
      rw [hinside, nodesOf]
      refine node_indentless ?_
      simpa using hread
    | false =>
      rw [hblock] at hfuel ⊢
      simp only [List.length_cons, List.length_append, List.length_nil] at hfuel
      have hread := blockItems_parsed (d :: more) h fuel rest (ns ++ [.sequence .seq []])
        (by omega)
      rw [List.length_append] at hread
      rw [nodesOf]
      simp only [List.cons_append, List.append_assoc] at hread ⊢
      exact node_sequence hread

theorem parsed_map (hkeys : ∀ e ∈ entries, ∃ word, PlainKey e.1 word) (h : ∀ e ∈ entries, Parsed e.2) :
    Parsed (.map entries) := by
  by_cases hempty : entries = []
  · subst hempty
    refine ⟨fun inMapping => ⟨.flowMappingStart, [.flowMappingEnd], by rw [tokensOf]; rfl,
      by simp [IsStart]⟩, fun id => by rw [nodesOf]; rfl, fun inMapping fuel rest ns hfuel _ => ?_⟩
    obtain ⟨fuel, rfl⟩ : ∃ left, fuel = left + 2 := ⟨fuel - 2, by omega⟩
    rw [tokensOf, nodesOf]
    exact node_emptyMapping
  have hnonempty : entries.isEmpty = false := by simpa using hempty
  have hblock (inMapping : Bool) : tokensOf inMapping (.map entries) =
      .blockMappingStart :: (entryTokens entries ++ [.blockEnd]) := by
    rw [tokensOf, hnonempty]
    rfl
  refine ⟨fun inMapping => ⟨_, _, hblock inMapping, by simp [IsStart]⟩, fun id => ?_,
    fun inMapping fuel rest ns hfuel _ => ?_⟩
  · rw [nodesOf, nodeCount, List.length_cons, length_entryNodes _ h]
  · obtain ⟨fuel, rfl⟩ : ∃ left, fuel = left + 1 := ⟨fuel - 1, by omega⟩
    rw [hblock] at hfuel ⊢
    simp only [List.length_cons, List.length_append, List.length_nil] at hfuel
    have hread := blockPairs_parsed entries hkeys h fuel rest (ns ++ [.mapping .map []]) (by omega)
    rw [List.length_append] at hread
    rw [nodesOf]
    simp only [List.cons_append, List.nil_append, List.append_assoc] at hread ⊢
    exact node_mapping hread

theorem parsed_of_lasting {n : Nat} (h : Lasting n d) : Parsed d := by
  induction h with
  | scalar h _ => exact parsed_scalar h
  | list _ ih => exact parsed_list ih
  | map hkeys _ _ ih => exact parsed_map hkeys ih

theorem stream_eq {id : Nat} (hstart : ts.headD .streamEnd = .blockMappingStart)
    (h : node true false (fuel + 1) (reading ts []) = .ok (id, reading [.streamEnd] ns)) :
    stream (fuel + 1) ⟨ts, #[], [], [], false⟩ = .ok (some id, reading [.streamEnd] ns) := by
  obtain ⟨rest, rfl⟩ : ∃ rest, ts = .blockMappingStart :: rest := by
    cases ts with
    | nil => cases hstart
    | cons t rest => exact ⟨rest, by rw [show t = .blockMappingStart from hstart]⟩
  have hstep : stream (fuel + 1) ⟨.blockMappingStart :: rest, #[], [], [], false⟩ =
      (node true false (fuel + 1) >>= fun root => do
        skipDocumentEnds (fuel + 1)
        if (← peek) == .streamEnd then return some root else throw .malformed)
        (reading (.blockMappingStart :: rest) []) := by
    rw [stream]
    rfl
  rw [hstep, bind_ok h]
  rfl

/-- A document is read as its nodes. -/
theorem ofText_render (h : Lasting 0 (.map entries)) (hne : entries ≠ []) :
    ofText (render (.map entries)) = .ok ⟨(nodesOf 0 (.map entries)).toArray, some 0, false⟩ := by
  have hnonempty : entries.isEmpty = false := by simpa using hne
  have htokens : tokensOf false (.map entries) =
      .blockMappingStart :: entryTokens entries ++ [.blockEnd] := by
    rw [tokensOf, hnonempty]
    rfl
  have hts : Token.blockMappingStart :: entryTokens entries ++ [.blockEnd, .streamEnd] =
      tokensOf false (.map entries) ++ [.streamEnd] := by
    rw [htokens]
    simp
  rw [ofText, (tokens_render h hne).1, hts]
  have hnode := (parsed_of_lasting h).node false
    (2 * (tokensOf false (.map entries) ++ [Token.streamEnd]).length + 4) [.streamEnd] []
    (by rw [List.length_append]; omega) (by simp)
  have hstream := stream_eq (by rw [htokens]; rfl) hnode
  simp only [bind, Except.bind, StateT.run, hstream]
  rfl

end Document
end JudgedLint.Yaml

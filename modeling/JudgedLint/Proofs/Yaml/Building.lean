import JudgedLint.Proofs.Datum
import JudgedLint.Proofs.Yaml.Parsing

/-! The data that are made of the nodes of lasting data. Each node is mentioned once, so none of them
has been made before, and nothing is reported. -/
namespace JudgedLint.Yaml
namespace Document

variable {ns : List Node} {fuel level id : Nat} {path : List Nat} {w w' : Work} {d : Datum} {tag : Tag}
  {text : String} {items : List Datum} {entries : List (Datum × Datum)}

/-- Nothing has been made of the nodes from a number on. -/
def Fresh (w : Work) (id : Nat) : Prop := ∀ k, id ≤ k → (w.made[k]?).join = none

/-- A step leaves no trace but in what has been made of the nodes before a number. -/
structure Leaves (w w' : Work) (id : Nat) : Prop where
  fresh : Fresh w' id
  fault : w'.fault = w.fault
  cyclic : w'.cyclic = w.cyclic
  keyed : w'.keyed = w.keyed

theorem defaultText_scalar (hnode : ns[id]? = some (.scalar tag text)) :
    defaultText ns.toArray (ns.toArray.size + 1) id = some text := by
  rw [defaultText, List.getElem?_toArray, hnode]

theorem build_scalar (hfresh : Fresh w id) (hpath : ∀ k ∈ path, k < id)
    (hnode : ns[id]? = some (.scalar tag text)) (hread : scalarDatum tag text = .ok d) :
    build ns.toArray false (fuel + 1) path level id w =
      (d, { w with made := w.made.setIfInBounds id (some d) }) := by
  have hmade := hfresh id (Nat.le_refl id)
  have hmissing : path.contains id = false := by
    simpa using fun h => Nat.lt_irrefl id (hpath id h)
  have hdefault := defaultText_scalar hnode
  have hscalar : scalarOf tag (some (.scalar tag text)) text = .ok d := by
    rw [← hread]
    cases tag <;> rfl
  rw [build]
  simp only [List.getElem?_toArray, hnode, hmissing, hdefault, hscalar, bind, StateT.bind, get, getThe,
    MonadStateOf.get, StateT.get, pure]
  revert hmade
  generalize w.made[id]? = made
  intro hmade
  rcases made with _ | _ | made
  · cases tag <;> first | rfl | cases hread
  · cases tag <;> first | rfl | cases hread
  · cases hmade

theorem build_collection (hfresh : Fresh w id) (hpath : ∀ k ∈ path, k < id) {n : Node}
    (hnode : ns[id]? = some n)
    (hkind : (∃ ids, n = .sequence .seq ids ∧ tag = .seq) ∨ ∃ pairs, n = .mapping .map pairs ∧ tag = .map)
    (h : buildCollection ns.toArray false fuel (id :: path) (level + 1) tag id w = (d, w')) :
    build ns.toArray false (fuel + 1) path level id w =
      (d, { w' with made := w'.made.setIfInBounds id (some d) }) := by
  have hmade := hfresh id (Nat.le_refl id)
  have hmissing : path.contains id = false := by
    simpa using fun h => Nat.lt_irrefl id (hpath id h)
  rw [build]
  simp only [List.getElem?_toArray, hnode, hmissing, bind, StateT.bind, get, getThe,
    MonadStateOf.get, StateT.get, pure]
  revert hmade
  generalize w.made[id]? = made
  intro hmade
  obtain ⟨ids, rfl, rfl⟩ | ⟨pairs, rfl, rfl⟩ := hkind
  all_goals
    rcases made with _ | _ | made
    · simp only [isCollection, Bool.false_eq_true, if_false, if_true, StateT.bind, h]
      rfl
    · simp only [isCollection, Bool.false_eq_true, if_false, if_true, StateT.bind, h]
      rfl
    · cases hmade

theorem buildItems_cons {ids : List Nat} {w'' : Work}
    (h : build ns.toArray false fuel path level id w = (d, w'))
    (h' : buildItems ns.toArray false fuel path level ids w' = (items, w'')) :
    buildItems ns.toArray false (fuel + 1) path level (id :: ids) w = (d :: items, w'') := by
  rw [buildItems]
  simp only [bind, StateT.bind, h, h']
  rfl

theorem buildPairs_cons {word : String} {k v : Nat} {pairs : List (Nat × Nat)}
    {done : List (Datum × Datum)} {w'' : Work} {r : List (Datum × Datum) × Work}
    (hk : ns[k]? = some (.scalar .str word))
    (hkey : build ns.toArray false fuel path level k w = (.str word, w'))
    (hvalue : build ns.toArray false fuel path level v w' = (d, w''))
    (h : buildPairs ns.toArray false fuel path level pairs (Datum.insert (.str word) d done) w'' = r) :
    buildPairs ns.toArray false (fuel + 1) path level ((k, v) :: pairs) done w = r := by
  have hhashable : ¬(Datum.str word).unhashable?.isSome = true := Bool.false_ne_true
  rw [buildPairs]
  simp only [List.getElem?_toArray, hk, bind, StateT.bind, hkey]
  rw [if_neg hhashable]
  simp only [StateT.bind, hvalue]
  exact h

theorem flatPairs_own {pairs : List (Nat × Nat)} (hnode : ns[id]? = some (.mapping .map pairs))
    (hkeys : ∀ e ∈ pairs, isMergeKey ns.toArray e.1 = false) (fuel : Nat) :
    flatPairs ns.toArray (fuel + 1) [] id = .ok pairs := by
  have hown : pairs.filter (fun e => !isMergeKey ns.toArray e.1) = pairs := by
    rw [List.filter_eq_self]
    intro e he
    rw [hkeys e he]
    rfl
  have hmerged : pairs.filter (fun e => isMergeKey ns.toArray e.1) = [] := by
    rw [List.filter_eq_nil_iff]
    intro e he
    rw [hkeys e he]
    exact Bool.false_ne_true
  have hnone (fuel : Nat) (busy : List Nat) : mergedPairs ns.toArray fuel busy [] = .ok [] := by
    cases fuel <;> rw [mergedPairs]
    nofun
  rw [flatPairs]
  simp only [List.getElem?_toArray, hnode, hown, hmerged, List.map_nil, hnone]
  rfl

/-- A datum is made of its nodes wherever they stand. -/
def Built (d : Datum) : Prop :=
  ∀ (before after : List Node) (path : List Nat) (level fuel : Nat) (w : Work),
    Fresh w before.length → (∀ k ∈ path, k < before.length) → 3 * nodeCount d ≤ fuel → ∃ w',
      build (before ++ nodesOf before.length d ++ after).toArray false fuel path level before.length w =
        (d, w') ∧ Leaves w w' (before.length + nodeCount d)

theorem Leaves.trans {w'' : Work} {id' : Nat} (h : Leaves w w' id) (h' : Leaves w' w'' id') :
    Leaves w w'' id' :=
  ⟨h'.fresh, h'.fault.trans h.fault, h'.cyclic.trans h.cyclic, h'.keyed.trans h.keyed⟩

theorem fresh_mono {id' : Nat} (h : Fresh w id) (hle : id ≤ id') : Fresh w id' :=
  fun k hk => h k (Nat.le_trans hle hk)

theorem Leaves.made {id' : Nat} (h : Leaves w w' id') (hlt : id < id') (d : Datum) :
    Leaves w { w' with made := w'.made.setIfInBounds id (some d) } id' := by
  refine ⟨fun k hk => ?_, h.fault, h.cyclic, h.keyed⟩
  have hne : id ≠ k := by omega
  simpa [Array.getElem?_setIfInBounds_ne hne] using h.fresh k hk

theorem leaves_self (h : Fresh w id) : Leaves w w id := ⟨h, rfl, rfl, rfl⟩

theorem built_scalar (h : LastingScalar d tag text) : Built d := by
  intro before after path level fuel w hfresh hpath hfuel
  obtain ⟨hnodes, hcount⟩ := nodesOf_scalar h.written before.length
  rw [hcount] at hfuel ⊢
  obtain ⟨fuel, rfl⟩ : ∃ left, fuel = left + 1 := ⟨fuel - 1, by omega⟩
  rw [hnodes]
  refine ⟨_, build_scalar hfresh hpath ?_ h.reads, Leaves.made (leaves_self ?_) (by omega) d⟩
  · simp
  · exact fresh_mono hfresh (by omega)

theorem nodeCount_pos (d : Datum) : 0 < nodeCount d := by
  cases d <;> simp [nodeCount]

theorem buildItems_built : ∀ items : List Datum, (∀ d ∈ items, Parsed d ∧ Built d) →
    ∀ (before after : List Node) (path : List Nat) (level fuel : Nat) (w : Work),
      Fresh w before.length → (∀ k ∈ path, k < before.length) → 3 * itemCount items + 1 ≤ fuel → ∃ w',
        buildItems (before ++ itemNodes before.length items ++ after).toArray false fuel path level
          (itemIds before.length items) w = (items, w') ∧ Leaves w w' (before.length + itemCount items)
  | [], _, before, after, path, level, fuel, w, hfresh, _, hfuel => by
    obtain ⟨fuel, rfl⟩ : ∃ left, fuel = left + 1 := ⟨fuel - 1, by omega⟩
    refine ⟨w, ?_, leaves_self hfresh⟩
    rw [itemIds, buildItems]
    · rfl
    · simp
  | d :: rest, h, before, after, path, level, fuel, w, hfresh, hpath, hfuel => by
    obtain ⟨hparsed, hbuilt⟩ := h d List.mem_cons_self
    have hpos : 0 < nodeCount d := nodeCount_pos d
    rw [itemCount] at hfuel ⊢
    obtain ⟨fuel, rfl⟩ : ∃ left, fuel = left + 1 := ⟨fuel - 1, by omega⟩
    obtain ⟨w', hd, hleaves⟩ := hbuilt before (itemNodes (before.length + nodeCount d) rest ++ after) path
      level fuel w hfresh hpath (by omega)
    have hlength : (before ++ nodesOf before.length d).length = before.length + nodeCount d := by
      rw [List.length_append, hparsed.count]
    obtain ⟨w'', hrest, hleaves'⟩ := buildItems_built rest
      (fun e he => h e (List.mem_cons_of_mem _ he)) (before ++ nodesOf before.length d) after path level
      fuel w' (by rw [hlength]; exact hleaves.fresh)
      (fun k hk => by rw [hlength]; have := hpath k hk; omega) (by omega)
    rw [hlength] at hrest hleaves'
    refine ⟨w'', ?_, ?_⟩
    · rw [itemIds, itemNodes]
      simp only [List.append_assoc] at hd hrest ⊢
      exact buildItems_cons hd hrest
    · rw [← Nat.add_assoc]
      exact hleaves.trans hleaves'

theorem insert_new {word : String} {v : Datum} : ∀ {done : List (Datum × Datum)},
    (∀ e ∈ done, ∃ other, e.1 = .str other ∧ other ≠ word) →
      Datum.insert (.str word) v done = done ++ [(.str word, v)]
  | [], _ => rfl
  | (k, x) :: rest, h => by
    obtain ⟨other, rfl, hne⟩ : ∃ other, k = .str other ∧ other ≠ word := h (k, x) List.mem_cons_self
    have hdiffers : ¬Datum.sameKey (.str other) (.str word) = true := by
      rw [Datum.sameKey_str]
      intro heq
      cases heq
      exact hne rfl
    rw [Datum.insert, if_neg hdiffers, insert_new fun e he => h e (List.mem_cons_of_mem _ he)]
    rfl

theorem key_new {word : String} {v : Datum} {done rest : List (Datum × Datum)}
    (hdistinct : ((done ++ (.str word, v) :: rest).map (·.1)).Nodup)
    (hdone : ∀ e ∈ done, ∃ other, e.1 = .str other) :
    ∀ e ∈ done, ∃ other, e.1 = .str other ∧ other ≠ word := by
  intro e he
  obtain ⟨other, hother⟩ := hdone e he
  refine ⟨other, hother, ?_⟩
  rintro rfl
  rw [List.map_append] at hdistinct
  exact (List.nodup_append.mp hdistinct).2.2 _ (List.mem_map_of_mem he) _ (by simp) hother

theorem buildPairs_built : ∀ (entries done : List (Datum × Datum)),
    (∀ e ∈ entries, ∃ word, PlainKey e.1 word) → ((done ++ entries).map (·.1)).Nodup →
    (∀ e ∈ done, ∃ other, e.1 = .str other) → (∀ e ∈ entries, Parsed e.2 ∧ Built e.2) →
    ∀ (before after : List Node) (path : List Nat) (level fuel : Nat) (w : Work),
      Fresh w before.length → (∀ k ∈ path, k < before.length) → 3 * entryCount entries + 1 ≤ fuel → ∃ w',
        buildPairs (before ++ entryNodes before.length entries ++ after).toArray false fuel path level
          (entryIds before.length entries) done w = (done ++ entries, w') ∧
        Leaves w w' (before.length + entryCount entries)
  | [], done, _, _, _, _, before, after, path, level, fuel, w, hfresh, _, hfuel => by
    obtain ⟨fuel, rfl⟩ : ∃ left, fuel = left + 1 := ⟨fuel - 1, by omega⟩
    refine ⟨w, ?_, leaves_self hfresh⟩
    rw [entryIds, buildPairs, List.append_nil]
    · rfl
    · simp
  | (k, v) :: rest, done, hkeys, hdistinct, hdone, h, before, after, path, level, fuel, w, hfresh, hpath,
      hfuel => by
    obtain ⟨hparsed, hbuilt⟩ : Parsed v ∧ Built v := h (k, v) List.mem_cons_self
    obtain ⟨word, hk⟩ : ∃ word, PlainKey k word := hkeys (k, v) List.mem_cons_self
    obtain rfl := hk.text
    rw [entryCount] at hfuel ⊢
    obtain ⟨fuel, rfl⟩ : ∃ left, fuel = left + 1 := ⟨fuel - 1, by omega⟩
    obtain ⟨fuel', hfuel'⟩ : ∃ left, fuel = left + 1 := ⟨fuel - 1, by omega⟩
    have hnodes : before ++ entryNodes before.length ((.str word, v) :: rest) ++ after =
        before ++ .scalar .str word :: (nodesOf (before.length + 1) v ++
          (entryNodes (before.length + 1 + nodeCount v) rest ++ after)) := by
      simp [entryNodes, Datum.str?, Datum.bare]
    have hkey := @build_scalar _ fuel' level before.length path w (.str word) .str word hfresh hpath
      (show (before ++ .scalar .str word :: (nodesOf (before.length + 1) v ++
        (entryNodes (before.length + 1 + nodeCount v) rest ++ after)))[before.length]? = _ by simp) rfl
    have hleaves : Leaves w _ (before.length + 1) :=
      Leaves.made (leaves_self (fresh_mono hfresh (by omega))) (Nat.lt_succ_self before.length) (.str word)
    -- Key and value stand behind `before`, and the other entries behind both.
    obtain ⟨w', hvalue, hleaves'⟩ := hbuilt (before ++ [.scalar .str word])
      (entryNodes (before.length + 1 + nodeCount v) rest ++ after) path level fuel _
      (by simpa using hleaves.fresh)
      (fun k hk => by have := hpath k hk; simp; omega) (by omega)
    have hlength : (before ++ .scalar .str word :: nodesOf (before.length + 1) v).length =
        before.length + 1 + nodeCount v := by
      rw [List.length_append, List.length_cons, hparsed.count]
      omega
    have hdone' : ∀ e ∈ done ++ [(.str word, v)], ∃ other, e.1 = Datum.str other := by
      intro e he
      rcases List.mem_append.mp he with he | he
      · exact hdone e he
      · exact ⟨word, by rw [List.mem_singleton.mp he]⟩
    obtain ⟨w'', hrest, hleaves''⟩ := buildPairs_built rest (done ++ [(.str word, v)])
      (fun e he => hkeys e (List.mem_cons_of_mem _ he)) (by simpa using hdistinct) hdone'
      (fun e he => h e (List.mem_cons_of_mem _ he))
      (before ++ .scalar .str word :: nodesOf (before.length + 1) v) after path level fuel w'
      (by simpa [hlength] using hleaves'.fresh)
      (fun k hk => by rw [hlength]; have := hpath k hk; omega) (by omega)
    have hend : before.length + (nodeCount v + 1 + entryCount rest) =
        before.length + 1 + nodeCount v + entryCount rest := by omega
    rw [hlength] at hrest hleaves''
    simp only [List.append_assoc, List.cons_append, List.nil_append, List.length_append, List.length_cons,
      List.length_nil] at hvalue hleaves' hrest
    refine ⟨w'', ?_, ?_⟩
    · rw [hnodes, entryIds]
      refine buildPairs_cons (by simp) (hfuel' ▸ hkey) hvalue ?_
      rw [insert_new (key_new hdistinct hdone)]
      exact hrest
    · rw [hend]
      exact hleaves.trans (hleaves'.trans hleaves'')

theorem built_list (h : ∀ d ∈ items, Parsed d ∧ Built d) : Built (.list items) := by
  intro before after path level fuel w hfresh hpath hfuel
  rw [nodeCount] at hfuel ⊢
  obtain ⟨fuel, rfl⟩ : ∃ left, fuel = left + 2 := ⟨fuel - 2, by omega⟩
  obtain ⟨w', hitems, hleaves⟩ := buildItems_built items h
    (before ++ [.sequence .seq (itemIds (before.length + 1) items)]) after (before.length :: path)
    (level + 1) fuel w (by simpa using fresh_mono hfresh (Nat.le_succ _)) (fun k hk => by
      rcases List.mem_cons.mp hk with rfl | hk
      · simp
      · have := hpath k hk
        simp
        omega) (by omega)
  simp only [List.append_assoc, List.cons_append, List.nil_append, List.length_append, List.length_cons,
    List.length_nil, Nat.zero_add] at hitems hleaves
  have hnode : (before ++ Node.sequence .seq (itemIds (before.length + 1) items) ::
      (itemNodes (before.length + 1) items ++ after))[before.length]? =
      some (.sequence .seq (itemIds (before.length + 1) items)) := by simp
  have hend : before.length + (itemCount items + 1) = before.length + 1 + itemCount items := by omega
  rw [nodesOf]
  simp only [List.append_assoc, List.cons_append]
  refine ⟨{ w' with made := w'.made.setIfInBounds before.length (some (.list items)) },
    build_collection hfresh hpath hnode (.inl ⟨_, rfl, rfl⟩) ?_, ?_⟩
  · rw [buildCollection]
    simp only [List.getElem?_toArray, hnode, bind, StateT.bind, hitems]
    rfl
  · rw [hend]
    exact hleaves.made (by omega) _

theorem isMergeKey_entryIds : ∀ entries : List (Datum × Datum), (∀ e ∈ entries, Parsed e.2) →
    ∀ (before after : List Node), ∀ e ∈ entryIds before.length entries,
      isMergeKey (before ++ entryNodes before.length entries ++ after).toArray e.1 = false
  | [], _, _, _, _, he => nomatch he
  | (k, v) :: rest, h, before, after, e, he => by
    have hv : Parsed v := h (k, v) List.mem_cons_self
    rw [entryIds] at he
    rw [entryNodes]
    rcases List.mem_cons.mp he with rfl | he
    · simp [isMergeKey]
    · have hrest := isMergeKey_entryIds rest (fun e he => h e (List.mem_cons_of_mem _ he))
        (before ++ .scalar .str (k.str?.getD "") :: nodesOf (before.length + 1) v) after e
      simp only [List.length_append, List.length_cons, hv.count] at hrest
      have hnext : before.length + (nodeCount v + 1) = before.length + 1 + nodeCount v := by omega
      rw [hnext] at hrest
      simpa using hrest he

theorem built_map (hkeys : ∀ e ∈ entries, ∃ word, PlainKey e.1 word)
    (hdistinct : (entries.map (·.1)).Nodup) (h : ∀ e ∈ entries, Parsed e.2 ∧ Built e.2) :
    Built (.map entries) := by
  intro before after path level fuel w hfresh hpath hfuel
  rw [nodeCount] at hfuel ⊢
  obtain ⟨fuel, rfl⟩ : ∃ left, fuel = left + 3 := ⟨fuel - 3, by omega⟩
  obtain ⟨w', hpairs, hleaves⟩ := buildPairs_built entries [] hkeys hdistinct (List.forall_mem_nil _) h
    (before ++ [.mapping .map (entryIds (before.length + 1) entries)]) after (before.length :: path)
    (level + 1) (fuel + 1) w (by simpa using fresh_mono hfresh (Nat.le_succ _)) (fun k hk => by
      rcases List.mem_cons.mp hk with rfl | hk
      · simp
      · have := hpath k hk
        simp
        omega) (by omega)
  simp only [List.append_assoc, List.cons_append, List.nil_append, List.length_append, List.length_cons,
    List.length_nil, Nat.zero_add] at hpairs hleaves
  have hnode : (before ++ Node.mapping .map (entryIds (before.length + 1) entries) ::
      (entryNodes (before.length + 1) entries ++ after))[before.length]? =
      some (.mapping .map (entryIds (before.length + 1) entries)) := by simp
  have hend : before.length + (entryCount entries + 1) = before.length + 1 + entryCount entries := by
    omega
  have hown : flatPairs (before ++ Node.mapping .map (entryIds (before.length + 1) entries) ::
      (entryNodes (before.length + 1) entries ++ after)).toArray (3 * (fuel + 1)) [] before.length =
      .ok (entryIds (before.length + 1) entries) := by
    refine flatPairs_own hnode (fun e he => ?_) (3 * fuel + 2)
    have hkey := isMergeKey_entryIds entries (fun e he => (h e he).1)
      (before ++ [.mapping .map (entryIds (before.length + 1) entries)]) after e (by simpa using he)
    simpa using hkey
  rw [nodesOf]
  simp only [List.append_assoc, List.cons_append]
  refine ⟨{ w' with made := w'.made.setIfInBounds before.length (some (.map entries)) },
    build_collection hfresh hpath hnode (.inr ⟨_, rfl, rfl⟩) ?_, ?_⟩
  · rw [buildCollection]
    simp only [hown, bind, StateT.bind, hpairs]
    rfl
  · rw [hend]
    exact hleaves.made (by omega) _

theorem built_of_lasting {n : Nat} (h : Lasting n d) : Built d := by
  induction h with
  | scalar h _ => exact built_scalar h
  | list h ih => exact built_list fun d hd => ⟨parsed_of_lasting (h d hd), ih d hd⟩
  | map keys distinct values ih =>
    exact built_map keys distinct fun e he => ⟨parsed_of_lasting (values e he), ih e he⟩

theorem le_foldl_size (size : Node → Nat) : ∀ (ns : List Node) (n : Nat),
    n + ns.length ≤ ns.foldl (fun n node => n + 4 + size node) n
  | [], _ => Nat.le_refl _
  | node :: rest, n => by
    have h := le_foldl_size size rest (n + 4 + size node)
    rw [List.foldl_cons, List.length_cons]
    omega

theorem build_nodesOf {n : Nat} (h : Lasting n d) (hfuel : 3 * nodeCount d ≤ fuel) : ∃ w,
    (build (nodesOf 0 d).toArray false fuel [] 0 0).run
      ⟨Array.replicate (nodesOf 0 d).toArray.size none, none, false, []⟩ = (d, w) ∧
    w.fault = none ∧ w.cyclic = false := by
  obtain ⟨w, hbuild, hleaves⟩ := built_of_lasting h [] [] [] 0 fuel
    ⟨Array.replicate (nodesOf 0 d).toArray.size none, none, false, []⟩
    (fun k _ => by
      rw [Array.getElem?_replicate]
      split <;> rfl) (List.forall_mem_nil _) hfuel
  simp only [List.nil_append, List.append_nil, List.length_nil] at hbuild
  exact ⟨w, hbuild, hleaves.fault, hleaves.cyclic⟩

/-- How many nodes stand in a node, each key and each value counted as one of a pair. -/
def inside : Node → Nat
  | .scalar _ _ => 0
  | .sequence _ items => items.length
  | .mapping _ pairs => pairs.length

theorem three_mul_le {count total : Nat} (h : 0 + count ≤ total) :
    3 * count ≤ 4 * (total + 1) * (total + 1) :=
  calc 3 * count ≤ 4 * (total + 1) := by omega
    _ ≤ 4 * (total + 1) * (total + 1) := Nat.le_mul_of_pos_right _ (Nat.succ_pos total)

theorem datum_nodesOf {n : Nat} (h : Lasting n d) :
    datum ⟨(nodesOf 0 d).toArray, some 0, false⟩ = .ok d := by
  have hcount : (nodesOf 0 d).length = nodeCount d := (parsed_of_lasting h).count 0
  rw [datum]
  simp only [List.foldl_toArray]
  obtain ⟨w, hrun, hfault, hcyclic⟩ := build_nodesOf h
    (three_mul_le (hcount ▸ le_foldl_size inside (nodesOf 0 d) 0))
  split
  next value w' hvalue =>
    obtain ⟨rfl, rfl⟩ := Prod.mk.inj (hrun.symm.trans hvalue)
    simp only [hfault, hcyclic, Bool.false_eq_true, if_false]

end Document

variable {entries : List (Datum × Datum)}

/-- A mapping that lasts is read back from what is written of it. -/
theorem read_render (h : Lasting 0 (.map entries)) (hne : entries ≠ []) :
    read (render (.map entries)) = .ok (.map entries) := by
  rw [read, Document.ofText_render h hne]
  exact Document.datum_nodesOf h

end JudgedLint.Yaml

import Saipen.State.Lines

/-! # What the writers emit

`emit_block` writes the lines of one field. Under a name of the grammar, and with scalars the reader
knows, they are read back as that field. -/

namespace Saipen.State

open Text

/-- A name of the grammar: `[A-Za-z_][A-Za-z0-9_]*`. -/
def IsName (key : String) : Prop :=
  (∃ c ∈ key.toList.head?, isNameStart c = true) ∧ ∀ c ∈ key.toList, isNameChar c = true

/-- The value of a field that an operation sets. -/
def Owned.value? : Owned → Option Value
  | .scalar v => v.scalar?.map .scalar
  | .list items => (items.mapM OwnedScalar.scalar?).map .list

/-! ### Field lines -/

theorem fieldLine_eq_some_iff {line key raw : String} : fieldLine line = some (key, raw) ↔
    IsName key ∧ ∃ rest, line.toList = key.toList ++ ':' :: rest ∧ raw = strip (String.ofList rest) := by
  unfold fieldLine
  dsimp only
  constructor
  · intro h
    have hline := (List.takeWhile_append_dropWhile (p := isNameChar) (l := line.toList)).symm
    have hname : ∀ c ∈ line.toList.takeWhile isNameChar, isNameChar c = true :=
      fun c hc => List.all_eq_true.mp List.all_takeWhile c hc
    generalize line.toList.takeWhile isNameChar = name at h hline hname
    generalize line.toList.dropWhile isNameChar = rest at h hline
    split at h
    case h_1 c name rest =>
      split at h
      case isTrue hstart =>
        simp only [Option.some.injEq, Prod.mk.injEq] at h
        obtain ⟨rfl, rfl⟩ := h
        refine ⟨⟨⟨c, by simp, hstart⟩, ?_⟩, rest, ?_, rfl⟩
        · rw [String.toList_ofList]
          exact hname
        · rw [String.toList_ofList]
          exact hline
      case isFalse => cases h
    case h_2 => cases h
  · rintro ⟨⟨⟨c, hc, hstart⟩, hname⟩, rest, hline, rfl⟩
    have htake : line.toList.takeWhile isNameChar = key.toList := by
      rw [hline, List.takeWhile_append_of_pos hname, List.takeWhile_cons_of_neg (by decide),
        List.append_nil]
    have hdrop : line.toList.dropWhile isNameChar = ':' :: rest := by
      rw [hline, List.dropWhile_append_of_pos hname, List.dropWhile_cons_of_neg (by decide)]
    rw [htake, hdrop]
    cases hkey : key.toList with
    | nil => simp [hkey] at hc
    | cons d name =>
      obtain rfl : d = c := by simpa [hkey] using hc
      refine (if_pos hstart).trans ?_
      rw [← hkey, String.ofList_toList]

theorem class_of_isNameChar {c : Char} (h : isNameChar c = true) :
    isSpace c = false ∧ isLineBreak c = false := by
  have hrange : (48 ≤ c.toNat ∧ c.toNat ≤ 57) ∨ (65 ≤ c.toNat ∧ c.toNat ≤ 90) ∨
      (97 ≤ c.toNat ∧ c.toNat ≤ 122) ∨ c.toNat = 95 := by
    simp only [isNameChar, isAsciiAlnum, Bool.or_eq_true, Bool.and_eq_true, decide_eq_true_eq] at h
    rcases h with ((h | h) | h) | rfl
    · exact .inl h
    · exact .inr (.inl h)
    · exact .inr (.inr (.inl h))
    · exact .inr (.inr (.inr rfl))
  have hspace : isSpace c = false := by
    simp only [isSpace, Bool.or_eq_false_iff, Bool.and_eq_false_iff, decide_eq_false_iff_not,
      beq_eq_false_iff_ne]
    omega
  refine ⟨hspace, ?_⟩
  by_contra hbreak
  rw [isSpace_of_isLineBreak (by simpa using hbreak)] at hspace
  cases hspace

/-- A line that begins a field is no item, and not blank. -/
theorem kind_of_fieldLine {line key raw : String} (h : fieldLine line = some (key, raw)) :
    kind line = .field key raw := by
  obtain ⟨⟨⟨c, hc, -⟩, hname⟩, rest, hline, -⟩ := fieldLine_eq_some_iff.mp h
  have hcs : ∃ cs, line.toList = c :: cs := by
    cases hkey : key.toList with
    | nil => simp [hkey] at hc
    | cons d name =>
      obtain rfl : d = c := by simpa [hkey] using hc
      exact ⟨name ++ ':' :: rest, by rw [hline, hkey]; rfl⟩
  obtain ⟨cs, hcs⟩ := hcs
  have hspace := (class_of_isNameChar (hname c (List.mem_of_mem_head? hc))).1
  have hstrip : strip line ≠ "" := by
    intro hempty
    obtain ⟨pre, post, hparts, hpre, hpost⟩ := strip_parts line
    have hmem : c ∈ pre ++ ((strip line).toList ++ post) := by rw [← hparts, hcs]; simp
    rw [hempty] at hmem
    have hc : isSpace c = true := by
      rcases List.mem_append.mp hmem with hmem | hmem
      · exact hpre c hmem
      · exact hpost c (by simpa using hmem)
    rw [hspace] at hc
    cases hc
  have hitem : itemLine line = none := by
    unfold itemLine
    dsimp only
    rw [hcs, List.takeWhile_cons_of_neg (by simp [hspace])]
  rw [kind, if_neg hstrip, hitem, h]

/-- A line of the writers that begins a field begins with a field line of the reader. -/
theorem kindsOf_of_fieldLine {m key raw : String} (h : fieldLine m = some (key, raw)) :
    ∃ raw' ks, kindsOf m = .field key raw' :: ks := by
  obtain ⟨hname, rest, hm, -⟩ := fieldLine_eq_some_iff.mp h
  have hcolon : m.toList = (key.toList ++ [':']) ++ rest := by rw [hm]; simp
  have hone : OneLine (key.toList ++ [':']) := by
    rw [OneLine.append]
    exact ⟨fun c hc => (class_of_isNameChar (hname.2 c hc)).2, oneLine_literal (by decide)⟩
  obtain ⟨t, ls, hl, -⟩ := linesFrom_head rest (by simp : (key.toList ++ [':']).reverse ≠ [])
  rw [List.reverse_reverse] at hl
  have hfull : fullLines m = String.ofList (key.toList ++ [':'] ++ t) ::
      (ls.filter (· ≠ [])).map String.ofList := by
    rw [fullLines_eq, fullFrom, hcolon, linesFrom_append_oneLine hone, List.append_nil, hl,
      List.filter_cons_of_pos (by simp), List.map_cons]
  have hfirst : fieldLine (String.ofList (key.toList ++ [':'] ++ t)) =
      some (key, strip (String.ofList t)) :=
    fieldLine_eq_some_iff.mpr ⟨hname, t, by simp, rfl⟩
  exact ⟨_, _, by rw [kindsOf, hfull, List.map_cons, kind_of_fieldLine hfirst]⟩

/-! ### Written lines -/

theorem kindsOf_line {line : String} (h : OneLine line.toList) (hne : line ≠ "") :
    fullLines line = [line] ∧ kindsOf line = [kind line] := by
  have hfull := fullLines_line h hne (by simp : "" ∈ ["", "\n"])
  rw [String.append_empty] at hfull
  exact ⟨hfull, by rw [kindsOf, hfull]; rfl⟩

/-- No fence is a field or an item. -/
theorem kind_fence {line : String} (h : isFence line = true) : kind line = .bad := by
  have hstrip : strip line = "---" := by simpa [isFence] using h
  obtain ⟨pre, post, hline, hpre, -⟩ := strip_parts line
  rw [hstrip] at hline
  have hline : line.toList = pre ++ '-' :: '-' :: '-' :: post := hline
  have htake : line.toList.takeWhile isSpace = pre := by
    rw [hline, List.takeWhile_append_of_pos hpre, List.takeWhile_cons_of_neg (by decide), List.append_nil]
  have hdrop : line.toList.dropWhile isSpace = '-' :: '-' :: '-' :: post := by
    rw [hline, List.dropWhile_append_of_pos hpre, List.dropWhile_cons_of_neg (by decide)]
  have hitem : itemLine line = none := by
    unfold itemLine
    dsimp only
    rw [htake, hdrop]
    cases pre with
    | nil => rfl
    | cons c pre =>
      have hdash : isSpace '-' = false := by decide
      simp [hdash]
  have hfield : fieldLine line = none := by
    by_contra hsome
    obtain ⟨⟨key, raw⟩, hsome⟩ := Option.ne_none_iff_exists'.mp hsome
    obtain ⟨⟨⟨c, hc, hstart⟩, hname⟩, rest, hkey, -⟩ := fieldLine_eq_some_iff.mp hsome
    have hhead : line.toList.head? = some c := by
      rw [hkey, List.head?_append_of_ne_nil _ (fun hnil => by simp [hnil] at hc)]
      exact hc
    have hc := class_of_isNameChar (hname c (List.mem_of_mem_head? hc))
    rw [hline] at hhead
    cases pre with
    | nil =>
      obtain rfl : '-' = c := by simpa using hhead
      exact absurd hstart (by decide)
    | cons d pre =>
      obtain rfl : d = c := by simpa using hhead
      rw [hpre d List.mem_cons_self] at hc
      cases hc.1
  have hne : ("---" : String) ≠ "" := by decide
  rw [kind, hstrip, if_neg hne, hitem, hfield]

/-- A line of a body: one line for the writers, and no fence for the reader. -/
def Inner (m : String) : Prop := '\n' ∉ m.toList ∧ ∀ line ∈ fullLines m, isFence line = false

theorem inner_line {line : String} (h : OneLine line.toList) (hne : line ≠ "")
    (hkind : kind line ≠ .bad) : Inner line := by
  constructor
  · intro hmem
    have hbreak := h _ hmem
    rw [isLineBreak_newline] at hbreak
    cases hbreak
  · rw [(kindsOf_line h hne).1]
    rintro l hl
    obtain rfl := List.mem_singleton.mp hl
    by_contra hfence
    exact hkind (kind_fence (by simpa using hfence))

section Lines

variable {key s : String}

theorem IsName.oneLine (h : IsName key) : OneLine key.toList :=
  fun c hc => (class_of_isNameChar (h.2 c hc)).2

theorem IsName.ne_empty (h : IsName key) : key.toList ≠ [] := by
  obtain ⟨⟨c, hc, -⟩, -⟩ := h
  rintro hnil
  simp [hnil] at hc

theorem strip_space_cons (h : Rendered s) : strip (String.ofList (' ' :: s.toList)) = s := by
  rw [strip_cons (by decide), String.ofList_toList, h.stripped]

/-- `key: value`. -/
theorem kindsOf_scalarLine (hname : IsName key) (h : Rendered s) :
    kindsOf (key ++ ": " ++ s) = [.field key s] ∧ Inner (key ++ ": " ++ s) := by
  have hlist : (key ++ ": " ++ s).toList = key.toList ++ ':' :: ' ' :: s.toList := by simp
  have hfield : fieldLine (key ++ ": " ++ s) = some (key, s) :=
    fieldLine_eq_some_iff.mpr ⟨hname, ' ' :: s.toList, hlist, (strip_space_cons h).symm⟩
  have hone : OneLine (key ++ ": " ++ s).toList := by
    have hsep : key.toList ++ ':' :: ' ' :: s.toList = key.toList ++ ([':', ' '] ++ s.toList) := rfl
    rw [hlist, hsep, OneLine.append, OneLine.append]
    exact ⟨hname.oneLine, oneLine_literal (by decide), h.oneLine⟩
  have hne : key ++ ": " ++ s ≠ "" := by
    rw [ne_eq, ← String.toList_eq_nil_iff, hlist]
    simp
  have hkind := kind_of_fieldLine hfield
  exact ⟨by rw [(kindsOf_line hone hne).2, hkind], inner_line hone hne (by rw [hkind]; simp)⟩

/-- `key:`. -/
theorem kindsOf_listLine (hname : IsName key) :
    kindsOf (key ++ ":") = [.field key ""] ∧ Inner (key ++ ":") := by
  have hlist : (key ++ ":").toList = key.toList ++ [':'] := by simp
  have hfield : fieldLine (key ++ ":") = some (key, "") :=
    fieldLine_eq_some_iff.mpr ⟨hname, [], hlist, rfl⟩
  have hone : OneLine (key ++ ":").toList := by
    rw [hlist, OneLine.append]
    exact ⟨hname.oneLine, oneLine_literal (by decide)⟩
  have hne : key ++ ":" ≠ "" := by
    rw [ne_eq, ← String.toList_eq_nil_iff, hlist]
    simp
  have hkind := kind_of_fieldLine hfield
  exact ⟨by rw [(kindsOf_line hone hne).2, hkind], inner_line hone hne (by rw [hkind]; simp)⟩

/-- `  - item`. -/
theorem kindsOf_itemLine (h : Rendered s) :
    kindsOf ("  - " ++ s) = [.item s] ∧ Inner ("  - " ++ s) := by
  have hlist : ("  - " ++ s).toList = ' ' :: ' ' :: '-' :: ' ' :: s.toList := by simp
  have hitem : itemLine ("  - " ++ s) = some s := by
    unfold itemLine
    dsimp only
    rw [hlist]
    have hdash : isSpace '-' = false := by decide
    have hspace : isSpace ' ' = true := by decide
    simp only [List.takeWhile_cons_of_pos hspace, List.dropWhile_cons_of_pos hspace,
      List.takeWhile_cons_of_neg (Bool.not_eq_true _ ▸ hdash), List.dropWhile_cons_of_neg
      (Bool.not_eq_true _ ▸ hdash)]
    rw [if_pos hspace, String.ofList_toList, h.stripped]
  have hstrip : strip ("  - " ++ s) ≠ "" := by
    intro hempty
    obtain ⟨pre, post, hparts, hpre, hpost⟩ := strip_parts ("  - " ++ s)
    have hmem : '-' ∈ pre ++ ((strip ("  - " ++ s)).toList ++ post) := by rw [← hparts, hlist]; simp
    rw [hempty] at hmem
    rcases List.mem_append.mp hmem with hmem | hmem
    · exact absurd (hpre _ hmem) (by decide)
    · exact absurd (hpost '-' (by simpa using hmem)) (by decide)
  have hkind : kind ("  - " ++ s) = .item s := by rw [kind, if_neg hstrip, hitem]
  have hone : OneLine ("  - " ++ s).toList := by
    rw [String.toList_append, OneLine.append]
    exact ⟨oneLine_literal (by decide), h.oneLine⟩
  have hne : "  - " ++ s ≠ "" := by
    rw [ne_eq, ← String.toList_eq_nil_iff, hlist]
    simp
  exact ⟨by rw [(kindsOf_line hone hne).2, hkind], inner_line hone hne (by rw [hkind]; simp)⟩

end Lines

/-! ### Written blocks -/

theorem run_items {key : String} {fields : Fields} (h : key ∉ fields.map (·.1)) (raws : List String) :
    ∀ items, run (raws.map .item) ⟨fields ++ [(key, .list items)], some key⟩ =
      some ⟨fields ++ [(key, .list (items ++ raws.map coerce))], some key⟩ := by
  induction raws with
  | nil =>
    intro items
    rw [List.map_nil, List.map_nil, List.append_nil]
    rfl
  | cons raw raws ih =>
    intro items
    have happend : appendItem key (coerce raw) (fields ++ [(key, .list items)]) =
        fields ++ [(key, .list (items ++ [coerce raw]))] := by
      have hfields := appendItem_of_notMem (x := coerce raw) h
      unfold appendItem at hfields ⊢
      rw [List.map_append, hfields]
      simp
    refine run_cons_eq_some_iff.mpr ⟨_, step_item_eq_some_iff.mpr ⟨key, rfl, rfl⟩, ?_⟩
    dsimp only
    rw [happend, ih]
    simp

/-- The line of a scalar. -/
def Written.scalar (key raw : String) (h : raw ≠ "") : Written where
  key := key
  value := .scalar (coerce raw)
  kinds := [.field key raw]
  reads s hs := ⟨none, run_cons_eq_some_iff.mpr ⟨_, step_field_eq_some_iff.mpr ⟨hs, rfl⟩, by
    rw [fieldValue, if_neg h, fieldList, if_neg h]
    rfl⟩⟩

/-- The lines of a list. -/
def Written.list (key : String) (raws : List String) : Written where
  key := key
  value := .list (raws.map coerce)
  kinds := .field key "" :: raws.map .item
  reads s hs := ⟨some key, run_cons_eq_some_iff.mpr ⟨_, step_field_eq_some_iff.mpr ⟨hs, rfl⟩, by
    rw [fieldValue, if_pos rfl, fieldList, if_pos rfl, run_items hs, List.nil_append]⟩⟩

theorem coerce_of_mapM : ∀ {items : List OwnedScalar} {raws : List String} {xs : List Scalar},
    items.mapM renderValue = .ok raws → items.mapM OwnedScalar.scalar? = some xs →
    raws.map coerce = xs ∧ ∀ s ∈ raws, Rendered s
  | [], _, _, hraws, hxs => by
    obtain rfl := Except.ok.inj hraws
    obtain rfl := Option.some.inj hxs
    exact ⟨rfl, fun _ h => nomatch h⟩
  | v :: items, raws, xs, hraws, hxs => by
    rw [List.mapM_cons] at hraws hxs
    cases hv : renderValue v with
    | error e => simp [hv, bind, Except.bind] at hraws
    | ok s =>
      cases hrest : items.mapM renderValue with
      | error e => simp [hv, hrest, bind, Except.bind] at hraws
      | ok rest =>
        cases hx : v.scalar? with
        | none => simp [hx] at hxs
        | some x =>
          cases hys : items.mapM OwnedScalar.scalar? with
          | none => simp [hx, hys] at hxs
          | some ys =>
            obtain rfl : s :: rest = raws := by
              simpa [hv, hrest, bind, Except.bind, pure, Except.pure] using hraws
            obtain rfl : x :: ys = xs := by simpa [hx, hys] using hxs
            obtain ⟨hmap, hrendered⟩ := coerce_of_mapM hrest hys
            refine ⟨by rw [List.map_cons, coerce_renderValue hv x hx, hmap], ?_⟩
            exact List.forall_mem_cons.mpr ⟨rendered_value hv, hrendered⟩

/-- An emitted block is read back as its field. -/
theorem written_of_emitBlock {key : String} {v : Owned} {lines : List String} {x : Value}
    (hname : IsName key) (hemit : emitBlock key v = .ok lines) (hvalue : v.value? = some x) :
    ∃ w : Written, w.entry = (key, x) ∧ w.kinds = lines.flatMap kindsOf ∧ ∀ m ∈ lines, Inner m := by
  cases v with
  | scalar v =>
    obtain ⟨y, hy, rfl⟩ := Option.map_eq_some_iff.mp hvalue
    cases hv : renderValue v with
    | error e => simp [emitBlock, hv, bind, Except.bind] at hemit
    | ok s =>
      obtain rfl : [key ++ ": " ++ s] = lines := by
        simpa [emitBlock, hv, bind, Except.bind, pure, Except.pure] using hemit
      have hs := rendered_value hv
      obtain ⟨hkinds, hinner⟩ := kindsOf_scalarLine hname hs
      refine ⟨.scalar key s hs.present, ?_, ?_, ?_⟩
      · exact congrArg (fun z => (key, Value.scalar z)) (coerce_renderValue hv y hy)
      · rw [List.flatMap_singleton, hkinds]
        rfl
      · rintro m hm
        rwa [List.mem_singleton.mp hm]
  | list items =>
    obtain ⟨xs, hxs, rfl⟩ := Option.map_eq_some_iff.mp hvalue
    cases hraws : items.mapM renderValue with
    | error e => simp [emitBlock, hraws, bind, Except.bind] at hemit
    | ok raws =>
      obtain rfl : (key ++ ":") :: raws.map ("  - " ++ ·) = lines := by
        simpa [emitBlock, hraws, bind, Except.bind, pure, Except.pure] using hemit
      obtain ⟨hmap, hrendered⟩ := coerce_of_mapM hraws hxs
      obtain ⟨hkinds, hinner⟩ := kindsOf_listLine hname
      refine ⟨.list key raws, ?_, ?_, ?_⟩
      · exact congrArg (fun zs => (key, Value.list zs)) hmap
      · have hitems : (raws.map ("  - " ++ ·)).flatMap kindsOf = raws.map .item := by
          rw [List.flatMap_map, ← List.flatMap_singleton' (raws.map Kind.item), List.flatMap_map]
          exact List.flatMap_congr fun s hs => (kindsOf_itemLine (hrendered s hs)).1
        rw [List.flatMap_cons, hkinds, hitems]
        rfl
      · intro m hm
        rcases List.mem_cons.mp hm with rfl | hm
        · exact hinner
        · obtain ⟨s, hs, rfl⟩ := List.mem_map.mp hm
          exact (kindsOf_itemLine (hrendered s hs)).2

/-! ### Rendering and reading are inverse -/

theorem OwnedScalar.scalar?_inj {v v' : OwnedScalar} {x : Scalar} (h : v.scalar? = some x) (h' : v'.scalar? = some x) :
    v = v' := by
  cases v <;> cases v' <;> cases h <;> cases h' <;> rfl

theorem mapM_scalar?_cons {v : OwnedScalar} {items : List OwnedScalar} {zs : List Scalar}
    (h : (v :: items).mapM OwnedScalar.scalar? = some zs) :
    ∃ x xs, v.scalar? = some x ∧ items.mapM OwnedScalar.scalar? = some xs ∧ zs = x :: xs := by
  rw [List.mapM_cons] at h
  obtain ⟨x, hx, h⟩ := Option.bind_eq_some_iff.mp h
  obtain ⟨xs, hxs, h⟩ := Option.bind_eq_some_iff.mp h
  exact ⟨x, xs, hx, hxs, (Option.some.inj h).symm⟩

theorem mapM_scalar?_inj {items : List OwnedScalar} : ∀ {items' : List OwnedScalar} {xs : List Scalar},
    items.mapM OwnedScalar.scalar? = some xs → items'.mapM OwnedScalar.scalar? = some xs → items = items' := by
  induction items with
  | nil =>
    intro items' xs h h'
    obtain rfl : [] = xs := Option.some.inj h
    cases items' with
    | nil => rfl
    | cons v' items' =>
      obtain ⟨x, ys, -, -, heq⟩ := mapM_scalar?_cons h'
      cases heq
  | cons v items ih =>
    intro items' xs h h'
    obtain ⟨x, ys, hx, hys, rfl⟩ := mapM_scalar?_cons h
    cases items' with
    | nil =>
      have heq : [] = x :: ys := Option.some.inj h'
      cases heq
    | cons v' items' =>
      obtain ⟨x', ys', hx', hys', heq⟩ := mapM_scalar?_cons h'
      obtain ⟨rfl, rfl⟩ := List.cons.inj heq
      rw [OwnedScalar.scalar?_inj hx hx', ih hys hys']

theorem Owned.value?_inj {v v' : Owned} {x : Value} (h : v.value? = some x) (h' : v'.value? = some x) : v = v' := by
  cases v with
  | scalar v =>
    obtain ⟨y, hy, rfl⟩ := Option.map_eq_some_iff.mp h
    cases v' with
    | scalar v' =>
      obtain ⟨y', hy', heq⟩ := Option.map_eq_some_iff.mp h'
      obtain rfl := Value.scalar.inj heq
      rw [OwnedScalar.scalar?_inj hy hy']
    | list items' =>
      obtain ⟨ys, -, heq⟩ := Option.map_eq_some_iff.mp h'
      cases heq
  | list items =>
    obtain ⟨ys, hys, rfl⟩ := Option.map_eq_some_iff.mp h
    cases v' with
    | scalar v' =>
      obtain ⟨y', -, heq⟩ := Option.map_eq_some_iff.mp h'
      cases heq
    | list items' =>
      obtain ⟨ys', hys', heq⟩ := Option.map_eq_some_iff.mp h'
      obtain rfl := Value.list.inj heq
      rw [mapM_scalar?_inj hys hys']

/-- A document of one block is read as its field. -/
theorem parse_emitBlock (p : Printable) {key : String} {v : Owned} {lines : List String} {x : Value} (hname : IsName key)
    (hemit : emitBlock key v = .ok lines) (hvalue : v.value? = some x) :
    (parseFrontmatter p (assemble lines ["---"])).toOption = some [(key, x)] := by
  obtain ⟨w, hentry, hkinds, hinner⟩ := written_of_emitBlock hname hemit hvalue
  obtain ⟨rfl, rfl⟩ := Prod.mk.inj hentry
  obtain ⟨current, hrun⟩ := w.reads {} (by exact List.not_mem_nil)
  have hlines : ∀ m ∈ lines ++ "---" :: [], '\n' ∉ m.toList := by
    intro m hm
    rcases List.mem_append.mp hm with hm | hm
    · exact (hinner m hm).1
    · rw [List.mem_singleton.mp hm]
      decide
  have hfence : ∀ line ∈ lines.flatMap fullLines, isFence line = false := by
    intro line hline
    obtain ⟨m, hm, hline⟩ := List.mem_flatMap.mp hline
    exact (hinner m hm).2 line hline
  rw [(parse_assemble p hlines hfence (by decide)).1, ← hkinds, hrun]
  rfl

/-- What is rendered is read back as the value that it was rendered from, with its type: a scalar from its text, and
a scalar or a list from the lines of its field. No two values have one text. -/
theorem render_read_back (p : Printable) :
    (∀ v s x, renderValue v = .ok s → v.scalar? = some x → coerce s = x) ∧
      (∀ key v lines x, IsName key → emitBlock key v = .ok lines → v.value? = some x →
        (parseFrontmatter p (assemble lines ["---"])).toOption = some [(key, x)]) ∧
      (∀ v v' s x x', v.scalar? = some x → v'.scalar? = some x' → renderValue v = .ok s → renderValue v' = .ok s →
        v = v') ∧
      ∀ key v v' lines x x', IsName key → v.value? = some x → v'.value? = some x' → emitBlock key v = .ok lines →
        emitBlock key v' = .ok lines → v = v' := by
  refine ⟨fun v s x h hx => coerce_renderValue h x hx, fun key v lines x hname h hx => parse_emitBlock p hname h hx,
    fun v v' s x x' hx hx' h h' => ?_, fun key v v' lines x x' hname hx hx' h h' => ?_⟩
  · have hsame := (coerce_renderValue h x hx).symm.trans (coerce_renderValue h' x' hx')
    exact OwnedScalar.scalar?_inj hx (hsame ▸ hx')
  · have hread := parse_emitBlock p hname h hx
    rw [parse_emitBlock p hname h' hx'] at hread
    have hsame := (Prod.mk.inj (List.cons.inj (Option.some.inj hread)).1).2
    exact Owned.value?_inj hx (hsame ▸ hx')

example : renderValue (.str "007") = .ok "\"007\"" ∧ coerce "\"007\"" = .str "007" ∧ coerce "007" = .int 7 := by decide

end Saipen.State

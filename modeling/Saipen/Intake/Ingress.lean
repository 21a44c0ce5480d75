import Saipen.Text.Codec
import Saipen.Text.Number

/-! # The boundary of a refused request

A payload that a transport refused is recorded, and the next request has to be the recorded one. A payload may be
the rest of a shell line: the request in quotes and a transport tail behind them. `split_request` finds the quote that
closes the request. -/

namespace Saipen.Ingress

open Text

/-! ### The boundary -/

/-- The punctuation of the shell: pipe, redirect, background, sequence and substitution. -/
def shellMarks : List Char := "|><&;`".toList

/-- `_TRANSPORT_HEAD.match`: a mark of the shell, or, behind white space, a flag or a redirect of a descriptor. -/
def transportHead (cs : List Char) : Bool :=
  match cs.dropWhile isSpace with
  | [] => false
  | d :: rest =>
      d ∈ shellMarks || (d = '$' && rest.head? = some '(') ||
        (cs.head?.any isSpace && (d = '-' ||
          (isDecimal d && (rest.dropWhile isDecimal).head? = some '>')))

/-- The loop of `split_request` behind the opening quote: what the first quote that can close it closes, and what
stands behind that. -/
def closing (quote : Char) : List Char → Option (List Char × List Char)
  | [] => none
  | d :: rest =>
      if d = quote ∧ (rest = [] ∨ (rest.count quote % 2 = 0 ∧ transportHead rest = true)) then some ([], rest)
      else (closing quote rest).map fun r => (d :: r.1, r.2)

/-- The quotes of the shell. -/
def quotes : List Char := ['\'', '"']

/-- `split_request`. -/
def splitRequest (recorded : String) : String × String :=
  match (strip recorded).toList with
  | [] => (strip recorded, "")
  | quote :: rest =>
      if quote ∈ quotes then
        match closing quote rest with
        | some (body, tail) => (strip (String.ofList body), strip (String.ofList tail))
        | none => (strip recorded, "")
      else (strip recorded, "")

/-! ### The record -/

variable (sha : Bytes → String)

/-- A text with its line endings and its outer white space normalised. -/
def normalized (text : String) : String := strip (String.ofList (normaliseNewlines text.toList))

/-- `ingress_digest`. -/
def ingressDigest (text : String) : String := sha (encodeUtf8 (normalized text))

/-- A record: the fields that a decision reads. -/
structure Entry where
  digest : String
  bytes : Option Int
  preview : String

/-- What `pending` finds: no obligation, a record that cannot be read, or a record. -/
inductive Pending where
  | nothing
  | malformed
  | entry (e : Entry)

/-- `record`. -/
def record (payload : String) : Entry where
  digest := ingressDigest sha payload
  bytes := some (encodeUtf8 (normalized payload)).length
  preview := String.ofList ((normalized payload).toList.take 160)

/-- `recorded_request_digest`. -/
def recordedRequestDigest (found : Entry) : String :=
  match found.bytes with
  | none => ""
  | some size =>
      if found.preview = "" ∨ size ≤ 0 ∨ (encodeUtf8 found.preview).length < size then ""
      else
        let request := splitRequest found.preview
        if request.1 = "" ∨ request.2 = "" then "" else ingressDigest sha request.1

/-- Why an ingress is refused. -/
inductive Refusal where
  | unreadable
  | paraphrase
deriving DecidableEq

/-- `enforce`: no refusal, or one. -/
def enforce (found : Pending) (text : String) (supersede : Bool) : Option Refusal :=
  match found with
  | .nothing => none
  | .malformed => if supersede = true then none else some .unreadable
  | .entry e =>
      if supersede = true then none
      else if ingressDigest sha text = e.digest then none
      else if recordedRequestDigest sha e ≠ "" ∧ ingressDigest sha text = recordedRequestDigest sha e then none
      else some .paraphrase

variable {sha} {cs front back body tail : List Char} {quote : Char}

/-! ### Heads of a transport tail -/

/-- What a head is made of: white space and a mark. -/
structure Mark (blanks mark : List Char) : Prop where
  blank : ∀ b ∈ blanks, isSpace b = true
  mark : (∃ d ∈ shellMarks, mark = [d]) ∨ mark = ['$', '('] ∨
    (blanks ≠ [] ∧ (mark = ['-'] ∨ ∃ digits, digits ≠ [] ∧ (∀ d ∈ digits, isDecimal d = true) ∧ mark = digits ++ ['>']))

theorem isSpace_of_mem_shellMarks {d : Char} (h : d ∈ shellMarks) : isSpace d = false := by
  have hall : (shellMarks.all fun d => !isSpace d) = true := by decide
  simpa using List.all_eq_true.mp hall d h

/-- A quote is neither white space nor part of any mark. -/
theorem plain_of_mem_quotes {q : Char} (h : q ∈ quotes) :
    isSpace q = false ∧ isDecimal q = false ∧ q ∉ shellMarks ∧ q ≠ '$' ∧ q ≠ '(' ∧ q ≠ '-' ∧ q ≠ '>' := by
  obtain rfl | rfl : q = '\'' ∨ q = '"' := by simpa [quotes] using h
  · decide
  · decide

/-- A mark begins and ends with a character that is no white space, and holds no quote. -/
theorem Mark.ends {blanks mark : List Char} (h : Mark blanks mark) :
    (∃ d rest, mark = d :: rest ∧ isSpace d = false) ∧ (∃ init d, mark = init ++ [d] ∧ isSpace d = false) ∧
      ∀ q ∈ quotes, q ∉ mark := by
  have hquote : ∀ q ∈ quotes, isDecimal q = false ∧ q ∉ shellMarks ∧ q ≠ '$' ∧ q ≠ '(' ∧ q ≠ '-' ∧ q ≠ '>' :=
    fun q hq => (plain_of_mem_quotes hq).2
  rcases h.mark with ⟨d, hd, rfl⟩ | rfl | ⟨-, rfl | ⟨digits, hne, hdigits, rfl⟩⟩
  · have hspace := isSpace_of_mem_shellMarks hd
    exact ⟨⟨d, [], rfl, hspace⟩, ⟨[], d, rfl, hspace⟩, fun q hq hin => (hquote q hq).2.1 (List.mem_singleton.mp hin ▸ hd)⟩
  · refine ⟨⟨'$', _, rfl, by decide⟩, ⟨['$'], '(', rfl, by decide⟩, fun q hq hin => ?_⟩
    obtain ⟨-, -, h1, h2, -⟩ := hquote q hq
    rcases List.mem_cons.mp hin with hin | hin
    · exact h1 hin
    · exact h2 (List.mem_singleton.mp hin)
  · exact ⟨⟨'-', [], rfl, by decide⟩, ⟨[], '-', rfl, by decide⟩,
      fun q hq hin => (hquote q hq).2.2.2.2.1 (List.mem_singleton.mp hin)⟩
  · obtain ⟨d, rest, rfl⟩ := List.exists_cons_of_ne_nil hne
    refine ⟨⟨d, _, rfl, isSpace_of_isDecimal (hdigits d List.mem_cons_self)⟩, ⟨_, '>', rfl, by decide⟩, fun q hq hin => ?_⟩
    obtain ⟨hdecimal, -, -, -, -, hgt⟩ := hquote q hq
    rcases List.mem_append.mp hin with hin | hin
    · exact absurd (hdigits q hin) (by simp [hdecimal])
    · exact hgt (List.mem_singleton.mp hin)

theorem isDecimal_greater : isDecimal '>' = false := by decide

/-- The pattern matches exactly where such a head stands. -/
theorem transportHead_iff : transportHead cs = true ↔ ∃ blanks mark rest, cs = blanks ++ (mark ++ rest) ∧ Mark blanks mark := by
  have hsplit := List.takeWhile_append_dropWhile (p := isSpace) (l := cs)
  have hblank : ∀ b ∈ cs.takeWhile isSpace, isSpace b = true := fun b hb => List.all_eq_true.mp List.all_takeWhile b hb
  have hhead : cs.head?.any isSpace = true ↔ cs.takeWhile isSpace ≠ [] := by
    cases cs with
    | nil => simp
    | cons c cs => by_cases hc : isSpace c = true <;> simp [hc]
  constructor
  · intro h
    rw [transportHead] at h
    cases hdrop : cs.dropWhile isSpace with
    | nil => rw [hdrop] at h; cases h
    | cons d rest =>
      rw [hdrop] at h hsplit
      simp only [Bool.or_eq_true, Bool.and_eq_true, decide_eq_true_eq] at h
      rcases h with (hmark | ⟨rfl, hparen⟩) | ⟨hspace, rfl | ⟨hdigit, hgt⟩⟩
      · exact ⟨_, [d], rest, hsplit.symm, hblank, .inl ⟨d, hmark, rfl⟩⟩
      · obtain ⟨more, rfl⟩ : ∃ more, rest = '(' :: more := by
          cases rest with
          | nil => cases hparen
          | cons e more => exact ⟨more, by rw [Option.some.inj hparen]⟩
        exact ⟨_, ['$', '('], more, hsplit.symm, hblank, .inr (.inl rfl)⟩
      · exact ⟨_, ['-'], rest, hsplit.symm, hblank, .inr (.inr ⟨hhead.mp hspace, .inl rfl⟩)⟩
      · have hdigits := List.takeWhile_append_dropWhile (p := isDecimal) (l := rest)
        cases hmore : rest.dropWhile isDecimal with
        | nil => rw [hmore] at hgt; cases hgt
        | cons e more =>
          rw [hmore] at hgt hdigits
          obtain rfl : e = '>' := Option.some.inj hgt
          refine ⟨_, d :: rest.takeWhile isDecimal ++ ['>'], more, ?_, hblank,
            .inr (.inr ⟨hhead.mp hspace, .inr ⟨_, List.cons_ne_nil d _, ?_, rfl⟩⟩)⟩
          · rw [List.append_assoc, List.cons_append, List.singleton_append, hdigits, hsplit]
          · intro b hb
            rcases List.mem_cons.mp hb with rfl | hb
            · exact hdigit
            · exact List.all_eq_true.mp List.all_takeWhile b hb
  · rintro ⟨blanks, mark, rest, rfl, hmark⟩
    obtain ⟨d, more, rfl, hd⟩ := hmark.ends.1
    have hdrop : (blanks ++ (d :: more ++ rest)).dropWhile isSpace = d :: (more ++ rest) := by
      rw [List.dropWhile_append_of_pos hmark.blank, List.cons_append, List.dropWhile_cons_of_neg (by simp [hd])]
    have hfirst : blanks ≠ [] → (blanks ++ (d :: more ++ rest)).head?.any isSpace = true := by
      intro hne
      obtain ⟨b, bs, rfl⟩ := List.exists_cons_of_ne_nil hne
      exact hmark.blank b List.mem_cons_self
    rw [transportHead, hdrop]
    simp only [Bool.or_eq_true, Bool.and_eq_true, decide_eq_true_eq]
    rcases hmark.mark with ⟨e, he, heq⟩ | heq | ⟨hne, heq | ⟨digits, hdne, hdigits, heq⟩⟩
    · obtain ⟨rfl, -⟩ := List.cons.inj heq
      exact .inl (.inl he)
    · obtain ⟨rfl, rfl⟩ := List.cons.inj heq
      exact .inl (.inr ⟨rfl, rfl⟩)
    · obtain ⟨rfl, -⟩ := List.cons.inj heq
      exact .inr ⟨hfirst hne, .inl rfl⟩
    · obtain ⟨e, es, rfl⟩ := List.exists_cons_of_ne_nil hdne
      rw [List.cons_append] at heq
      obtain ⟨rfl, rfl⟩ := List.cons.inj heq
      refine .inr ⟨hfirst hne, .inr ⟨hdigits d List.mem_cons_self, ?_⟩⟩
      rw [List.append_assoc, List.dropWhile_append_of_pos fun b hb => hdigits b (List.mem_cons_of_mem _ hb),
        List.singleton_append, List.dropWhile_cons_of_neg (by simp [isDecimal_greater])]
      rfl

/-- White space behind a tail is no part of its head. -/
theorem transportHead_of_append_spaces {spaces : List Char} (hspaces : ∀ b ∈ spaces, isSpace b = true)
    (h : transportHead (cs ++ spaces) = true) : transportHead cs = true := by
  obtain ⟨blanks, mark, rest, heq, hmark⟩ := transportHead_iff.mp h
  obtain ⟨init, d, rfl, hd⟩ := hmark.ends.2.1
  rw [← List.append_assoc] at heq
  rcases List.append_eq_append_iff.mp heq with ⟨extra, hwhole, hrest⟩ | ⟨extra, hwhole, hrest⟩
  · -- The last character of the mark would be one of the spaces.
    rcases List.eq_nil_or_concat extra with rfl | ⟨more, last, rfl⟩
    · exact transportHead_iff.mpr ⟨blanks, init ++ [d], [], by simpa using hwhole.symm, hmark⟩
    · rw [List.concat_eq_append, ← List.append_assoc, ← List.append_assoc] at hwhole
      have hlast : d = last := (List.append_inj' hwhole rfl).2 |> fun h => (List.cons.inj h).1
      have hspace := hspaces last (hrest ▸ List.mem_append_left _ (by simp))
      rw [← hlast, hd] at hspace
      cases hspace
  · exact transportHead_iff.mpr ⟨blanks, init ++ [d], extra, by rw [← List.append_assoc]; exact hwhole, hmark⟩

/-- A head that stands behind a quote of the body ends before the quote that closes it. -/
theorem transportHead_of_append_quote (hquote : quote ∈ quotes) (h : transportHead (cs ++ quote :: back) = true) :
    transportHead cs = true := by
  obtain ⟨blanks, mark, rest, heq, hmark⟩ := transportHead_iff.mp h
  rw [← List.append_assoc] at heq
  rcases List.append_eq_append_iff.mp heq with ⟨extra, hwhole, hrest⟩ | ⟨extra, hwhole, hrest⟩
  · cases extra with
    | nil => exact transportHead_iff.mpr ⟨blanks, mark, [], by simpa using hwhole.symm, hmark⟩
    | cons e extra =>
      obtain ⟨rfl, -⟩ := List.cons.inj hrest
      have hin : quote ∈ blanks ++ mark := hwhole ▸ List.mem_append_right _ List.mem_cons_self
      rcases List.mem_append.mp hin with hin | hin
      · exact absurd (hmark.blank quote hin) (by simp [(plain_of_mem_quotes hquote).1])
      · exact absurd hin (hmark.ends.2.2 quote hquote)
  · exact transportHead_iff.mpr ⟨blanks, mark, extra, by rw [← List.append_assoc]; exact hwhole, hmark⟩

/-! ### The quote that closes a request -/

/-- What is closed is what stands in front of the first quote that can close it. -/
theorem closing_append (hbody : ∀ front back, body = front ++ quote :: back → ¬ transportHead (back ++ quote :: tail) = true)
    (hcount : tail.count quote % 2 = 0) (hhead : transportHead tail = true) :
    closing quote (body ++ quote :: tail) = some (body, tail) := by
  induction body with
  | nil =>
    rw [List.nil_append, closing, if_pos ⟨rfl, .inr ⟨hcount, hhead⟩⟩]
  | cons d body ih =>
    have hskip : ¬ (d = quote ∧ (body ++ quote :: tail = [] ∨
        ((body ++ quote :: tail).count quote % 2 = 0 ∧ transportHead (body ++ quote :: tail) = true))) := by
      rintro ⟨rfl, hnil | ⟨-, htail⟩⟩
      · exact absurd hnil (List.append_ne_nil_of_right_ne_nil _ (List.cons_ne_nil _ _))
      · exact hbody [] body rfl htail
    rw [List.cons_append, closing, if_neg hskip, ih fun front back h => hbody (d :: front) back (by rw [h]; rfl)]
    rfl

/-- What a quote closes stands in front of it, and a transport tail, or nothing, behind it. -/
theorem closing_eq_some (h : closing quote cs = some (body, tail)) :
    cs = body ++ quote :: tail ∧ (tail = [] ∨ transportHead tail = true) := by
  induction cs generalizing body with
  | nil => cases h
  | cons d rest ih =>
    rw [closing] at h
    split_ifs at h with hclose
    · obtain ⟨rfl, rfl⟩ := Prod.mk.inj (Option.some.inj h)
      obtain ⟨rfl, hrest⟩ := hclose
      exact ⟨rfl, hrest.imp_right And.right⟩
    · obtain ⟨⟨body', tail'⟩, hbody, heq⟩ := Option.map_eq_some_iff.mp h
      obtain ⟨rfl, rfl⟩ := Prod.mk.inj heq
      obtain ⟨hwhole, htail⟩ := ih hbody
      exact ⟨by rw [hwhole]; rfl, htail⟩

theorem isSpace_of_head_dropWhile {d : Char} (h : d ∈ (cs.dropWhile isSpace).head?) : isSpace d = false := by
  induction cs with
  | nil => cases h
  | cons c cs ih =>
    by_cases hc : isSpace c = true
    · exact ih (by rwa [List.dropWhile_cons_of_pos hc] at h)
    · rw [List.dropWhile_cons_of_neg hc] at h
      obtain rfl : c = d := Option.some.inj h
      exact Bool.eq_false_iff.mpr hc

/-- Stripping leaves a text that neither begins nor ends with white space. -/
theorem strip_ends (s : String) :
    (∀ c ∈ (strip s).toList.head?, isSpace c = false) ∧ ∀ c ∈ (strip s).toList.getLast?, isSpace c = false := by
  rw [strip, String.toList_ofList]
  refine ⟨fun c hc => ?_, fun c hc => ?_⟩
  · -- The front of what is left is the front of what the first pass leaves.
    obtain ⟨trail, htrail⟩ := List.dropWhile_suffix isSpace (l := (s.toList.dropWhile isSpace).reverse)
    have hinner := congrArg List.reverse htrail
    rw [List.reverse_append, List.reverse_reverse] at hinner
    have hfirst : c ∈ (s.toList.dropWhile isSpace).head? := by
      rw [← hinner, List.head?_append, Option.mem_def.mp hc]
      rfl
    exact isSpace_of_head_dropWhile hfirst
  · rw [List.getLast?_reverse] at hc
    exact isSpace_of_head_dropWhile hc

/-- White space around a text that has none of its own at its ends is what is stripped off. -/
theorem exists_strip (s : String) : ∃ pre post, s.toList = pre ++ ((strip s).toList ++ post) ∧
    (∀ c ∈ pre, isSpace c = true) ∧ (∀ c ∈ post, isSpace c = true) ∧
    (∀ c ∈ (strip s).toList.head?, isSpace c = false) ∧ ∀ c ∈ (strip s).toList.getLast?, isSpace c = false := by
  obtain ⟨pre, post, hparts, hpre, hpost⟩ := strip_parts s
  exact ⟨pre, post, hparts, hpre, hpost, strip_ends s⟩

/-- A request in quotes with a transport tail behind them is read as the request and the tail, when no quote in the
request has such a tail behind it. -/
theorem splitRequest_quoted (hquote : quote ∈ quotes) (hcount : tail.count quote % 2 = 0)
    (hhead : transportHead tail = true)
    (hbody : ∀ front back, body = front ++ quote :: back → ¬ transportHead back = true) :
    splitRequest (String.ofList (quote :: (body ++ quote :: tail))) =
      (strip (String.ofList body), strip (String.ofList tail)) := by
  have hspace : isSpace quote = false := (plain_of_mem_quotes hquote).1
  -- Only white space at the end of the tail is stripped off the whole.
  obtain ⟨kept, spaces, rfl, hspaces, hlast⟩ : ∃ kept spaces, tail = kept ++ spaces ∧
      (∀ b ∈ spaces, isSpace b = true) ∧ ∀ b ∈ kept.getLast?, isSpace b = false := by
    refine ⟨(tail.reverse.dropWhile isSpace).reverse, (tail.reverse.takeWhile isSpace).reverse, ?_, ?_, ?_⟩
    · rw [← List.reverse_append, List.takeWhile_append_dropWhile, List.reverse_reverse]
    · exact fun b hb => List.all_eq_true.mp List.all_takeWhile b (List.mem_reverse.mp hb)
    · intro b hb
      rw [List.getLast?_reverse] at hb
      exact isSpace_of_head_dropWhile hb
  have hkept : transportHead kept = true := transportHead_of_append_spaces hspaces hhead
  have hne : kept ≠ [] := by
    rintro rfl
    cases hkept
  have hstrip : strip (String.ofList (quote :: (body ++ quote :: (kept ++ spaces)))) =
      String.ofList (quote :: (body ++ quote :: kept)) := by
    refine strip_padded [] _ spaces ?_ (by simp) hspaces ?_ ?_
    · rw [String.toList_ofList]
      simp
    · intro c hc
      rw [← Option.some.inj hc]
      exact hspace
    · intro c hc
      have hsame : (quote :: (body ++ quote :: kept)).getLast? = kept.getLast? := by
        obtain ⟨init, last, rfl⟩ := (List.eq_nil_or_concat' kept).resolve_left hne
        rw [← List.cons_append, ← List.cons_append, ← List.append_assoc, List.getLast?_concat, List.getLast?_concat]
      exact hlast c (hsame ▸ hc)
  have hkeptcount : kept.count quote % 2 = 0 := by
    have hnone : spaces.count quote = 0 := by
      rw [List.count_eq_zero]
      exact fun hin => absurd (hspaces quote hin) (by simp [hspace])
    rwa [List.count_append, hnone, Nat.add_zero] at hcount
  have hclosing : closing quote (body ++ quote :: kept) = some (body, kept) :=
    closing_append (fun front back h htail => hbody front back h (transportHead_of_append_quote hquote htail))
      hkeptcount hkept
  have htailstrip : strip (String.ofList (kept ++ spaces)) = strip (String.ofList kept) := by
    obtain ⟨pre, post, hparts, hpre, hpost, hfirst, hend⟩ := exists_strip (String.ofList kept)
    rw [String.toList_ofList] at hparts
    refine (strip_padded pre (strip (String.ofList kept)).toList (post ++ spaces) ?_ hpre ?_ hfirst hend).trans
      (String.ofList_toList ..)
    · rw [String.toList_ofList]
      conv_lhs => rw [hparts]
      simp
    · intro c hc
      exact (List.mem_append.mp hc).elim (hpost c) (hspaces c)
  rw [splitRequest, hstrip, String.toList_ofList]
  simp only [if_pos hquote, hclosing, htailstrip]

example : splitRequest "'fix the user's page' --json" = ("fix the user's page", "--json") := by decide +kernel

/-- A tail is reported only where a quote closes the request and a transport tail follows. -/
theorem exists_of_splitRequest {s : String} (h : (splitRequest s).2 ≠ "") : ∃ quote ∈ quotes, ∃ body tail,
    (strip s).toList = quote :: (body ++ quote :: tail) ∧ transportHead tail = true ∧
      (splitRequest s).1 = strip (String.ofList body) := by
  cases hs : (strip s).toList with
  | nil => simp only [splitRequest, hs, ne_eq, not_true_eq_false] at h
  | cons quote rest =>
    by_cases hquote : quote ∈ quotes
    · cases hclose : closing quote rest with
      | none => simp only [splitRequest, hs, if_pos hquote, hclose, ne_eq, not_true_eq_false] at h
      | some r =>
        obtain ⟨body, tail⟩ := r
        obtain ⟨rfl, htail⟩ := closing_eq_some hclose
        simp only [splitRequest, hs, if_pos hquote, hclose] at h ⊢
        refine ⟨quote, hquote, body, tail, rfl, htail.resolve_left ?_, rfl⟩
        rintro rfl
        exact h (by decide)
    · simp only [splitRequest, hs, if_neg hquote, ne_eq, not_true_eq_false] at h

/-! ### Normalised texts -/

/-- Line endings are normalised on either side of a place that is none. -/
theorem normaliseNewlines_append (h : ∀ d ∈ back.head?, d ≠ '\n') :
    normaliseNewlines (cs ++ back) = normaliseNewlines cs ++ normaliseNewlines back := by
  induction cs using normaliseNewlines.induct with
  | case1 => rfl
  | case2 cs ih => exact congrArg ('\n' :: ·) ih
  | case3 cs hcs ih =>
    have hpair : ∀ ds, (∀ d ∈ ds.head?, d ≠ '\n') → normaliseNewlines ('\r' :: ds) = '\n' :: normaliseNewlines ds := by
      intro ds hds
      cases ds with
      | nil => rfl
      | cons d ds => exact normaliseNewlines.eq_3 _ fun ds' heq => hds d rfl (List.cons.inj heq).1
    have hhead : ∀ d ∈ cs.head?, d ≠ '\n' := by
      intro d hd hbreak
      cases cs with
      | nil => cases hd
      | cons e cs => exact hcs cs (by rw [Option.some.inj hd, hbreak])
    have hwhole : ∀ d ∈ (cs ++ back).head?, d ≠ '\n' := by
      intro d hd
      cases cs with
      | nil => exact h d hd
      | cons e cs => exact hhead d hd
    rw [List.cons_append, hpair _ hwhole, hpair _ hhead, ih]
    rfl
  | case4 c cs h1 h2 ih =>
    have hc : c ≠ '\r' := by
      rintro rfl
      exact h2 rfl
    rw [List.cons_append, normaliseNewlines_cons hc, normaliseNewlines_cons hc, ih]
    rfl

theorem isSpace_normaliseNewlines (h : ∀ c ∈ cs, isSpace c = true) : ∀ c ∈ normaliseNewlines cs, isSpace c = true := by
  induction cs using normaliseNewlines.induct with
  | case1 => exact h
  | case2 cs ih =>
    exact List.forall_mem_cons.mpr ⟨by decide, ih fun c hc => h c (List.mem_cons_of_mem _ (List.mem_cons_of_mem _ hc))⟩
  | case3 cs hcs ih =>
    rw [normaliseNewlines.eq_3 _ hcs]
    exact List.forall_mem_cons.mpr ⟨by decide, ih fun c hc => h c (List.mem_cons_of_mem _ hc)⟩
  | case4 c cs h1 h2 ih =>
    rw [normaliseNewlines.eq_4 _ _ h1 h2]
    exact List.forall_mem_cons.mpr ⟨h c List.mem_cons_self, ih fun d hd => h d (List.mem_cons_of_mem _ hd)⟩

/-- White space around a text makes no difference to what is stripped. -/
theorem strip_around {pre mid post : List Char} (hpre : ∀ c ∈ pre, isSpace c = true) (hpost : ∀ c ∈ post, isSpace c = true) :
    strip (String.ofList (pre ++ (mid ++ post))) = strip (String.ofList mid) := by
  obtain ⟨lead, trail, hparts, hlead, htrail, hfirst, hend⟩ := exists_strip (String.ofList mid)
  rw [String.toList_ofList] at hparts
  refine (strip_padded (pre ++ lead) (strip (String.ofList mid)).toList (trail ++ post) ?_ ?_ ?_ hfirst hend).trans
    (String.ofList_toList ..)
  · rw [String.toList_ofList]
    conv_lhs => rw [hparts]
    simp
  · exact fun c hc => (List.mem_append.mp hc).elim (hpre c) (hlead c)
  · exact fun c hc => (List.mem_append.mp hc).elim (htrail c) (hpost c)

/-- A text and what is left of it when it is stripped are one request. -/
theorem normalized_strip (s : String) : normalized (strip s) = normalized s := by
  obtain ⟨pre, post, hparts, hpre, hpost, hfirst, hend⟩ := exists_strip s
  have hbreak : isSpace '\n' = true := by decide
  rw [normalized, normalized, hparts]
  rcases List.eq_nil_or_concat' (strip s).toList with hnil | ⟨init, last, hconcat⟩
  · -- Nothing but white space.
    have hall : ∀ c ∈ pre ++ post, isSpace c = true := fun c hc => (List.mem_append.mp hc).elim (hpre c) (hpost c)
    have hempty : strip (String.ofList (normaliseNewlines (pre ++ post) ++ ([] ++ []))) = strip (String.ofList []) :=
      strip_around (isSpace_normaliseNewlines hall) (by simp)
    rw [hnil, List.nil_append]
    simpa [normaliseNewlines] using hempty.symm
  · have hmid : ∀ d ∈ ((strip s).toList ++ post).head?, d ≠ '\n' := by
      rintro d hd rfl
      have hne : (strip s).toList ≠ [] := by rw [hconcat]; simp
      rw [List.head?_append_of_ne_nil _ hne] at hd
      rw [hfirst _ hd] at hbreak
      cases hbreak
    have hlast : last ≠ '\r' := by
      rintro rfl
      have hspace := hend '\r' (by rw [hconcat, List.getLast?_concat]; rfl)
      revert hspace
      decide
    have hback : normaliseNewlines ((strip s).toList ++ post) =
        normaliseNewlines (strip s).toList ++ normaliseNewlines post := by
      have hone : ∀ ds, normaliseNewlines (last :: ds) = last :: normaliseNewlines ds := fun ds =>
        normaliseNewlines_cons hlast
      have hsplit : ∀ ds, normaliseNewlines (init ++ last :: ds) = normaliseNewlines init ++ (last :: normaliseNewlines ds) := by
        intro ds
        rw [normaliseNewlines_append ?_, hone]
        rintro d hd rfl
        have hspace := hend last (by rw [hconcat, List.getLast?_concat]; rfl)
        rw [Option.some.inj hd, hbreak] at hspace
        cases hspace
      rw [hconcat, List.append_assoc, List.singleton_append, hsplit, hsplit]
      simp [normaliseNewlines]
    rw [normaliseNewlines_append hmid, hback]
    exact (strip_around (isSpace_normaliseNewlines hpre) (isSpace_normaliseNewlines hpost)).symm

/-! ### What a record admits -/

/-- A preview that holds as many bytes as the request is the whole of it. -/
theorem preview_whole {payload : String}
    (h : (encodeUtf8 (normalized payload)).length ≤ (encodeUtf8 (record sha payload).preview).length) :
    (record sha payload).preview = normalized payload := by
  have hparts := List.take_append_drop 160 (normalized payload).toList
  have hwhole : encodeUtf8 (normalized payload) =
      encodeUtf8 (String.ofList ((normalized payload).toList.take 160)) ++
        ((normalized payload).toList.drop 160).flatMap String.utf8EncodeChar := by
    rw [← String.ofList_toList (s := normalized payload), encodeUtf8_ofList, String.toList_ofList, encodeUtf8_ofList,
      ← List.flatMap_append, hparts]
  rw [hwhole, List.length_append] at h
  have hnil : (normalized payload).toList.drop 160 = [] := by
    cases hdrop : (normalized payload).toList.drop 160 with
    | nil => rfl
    | cons c rest =>
      rw [hdrop, List.flatMap_cons, List.length_append, String.length_utf8EncodeChar] at h
      have hpos := c.utf8Size_pos
      have hsame : (record sha payload).preview = String.ofList ((normalized payload).toList.take 160) := rfl
      rw [hsame] at h
      omega
  rw [hnil, List.append_nil] at hparts
  rw [record, hparts, String.ofList_toList]

/-- A text that is admitted without the recorded digest has that of a request which the record shows with the quotes
around it and a transport tail behind them. -/
theorem exists_of_enforce {e : Entry} {text : String} (h : enforce sha (.entry e) text false = none) :
    ingressDigest sha text = e.digest ∨ (∃ size, e.bytes = some size ∧ 0 < size ∧ size ≤ (encodeUtf8 e.preview).length) ∧
      ∃ quote ∈ quotes, ∃ body tail, (strip e.preview).toList = quote :: (body ++ quote :: tail) ∧
        transportHead tail = true ∧ ingressDigest sha text = ingressDigest sha (String.ofList body) := by
  rw [enforce, if_neg Bool.false_ne_true] at h
  split_ifs at h with hdigest hlegacy
  · exact .inl hdigest
  · obtain ⟨hne, hsame⟩ := hlegacy
    cases hbytes : e.bytes with
    | none => exact absurd (by rw [recordedRequestDigest, hbytes]) hne
    | some size =>
      have hrequest : recordedRequestDigest sha e =
          if e.preview = "" ∨ size ≤ 0 ∨ (encodeUtf8 e.preview).length < size then ""
          else if (splitRequest e.preview).1 = "" ∨ (splitRequest e.preview).2 = "" then ""
            else ingressDigest sha (splitRequest e.preview).1 := by
        rw [recordedRequestDigest, hbytes]
      rw [hrequest] at hne hsame
      split_ifs at hne hsame with hsize hrest
      · exact absurd rfl hne
      · exact absurd rfl hne
      · rw [not_or, not_or, not_le, not_lt] at hsize
        rw [not_or] at hrest
        obtain ⟨quote, hquote, body, tail, hwhole, htail, hcandidate⟩ := exists_of_splitRequest hrest.2
        refine .inr ⟨⟨size, rfl, hsize.2⟩, quote, hquote, body, tail, hwhole, htail, ?_⟩
        rw [hsame, hcandidate, ingressDigest, normalized_strip, ingressDigest]

theorem strip_normalized (payload : String) : strip (normalized payload) = normalized payload := strip_strip _

/-- The ingress boundary shortens no request: a request in quotes with a transport tail is cut off where it ends, and
a pending record admits a text only if its digest is the recorded one, or that of a request which makes up the recorded
payload with its quotes and a transport tail. -/
theorem ingress_boundary :
    (∀ quote ∈ quotes, ∀ body tail, transportHead tail = true → tail.count quote % 2 = 0 →
      (∀ front back, body = front ++ quote :: back → ¬ transportHead back = true) →
      splitRequest (String.ofList (quote :: (body ++ quote :: tail))) =
        (strip (String.ofList body), strip (String.ofList tail))) ∧
    (∀ text, enforce sha .malformed text false ≠ none) ∧
    (∀ e text, enforce sha (.entry e) text false = none → ingressDigest sha text = e.digest ∨
      (∃ size, e.bytes = some size ∧ 0 < size ∧ size ≤ (encodeUtf8 e.preview).length) ∧
      ∃ quote ∈ quotes, ∃ body tail, (strip e.preview).toList = quote :: (body ++ quote :: tail) ∧
        transportHead tail = true ∧ ingressDigest sha text = ingressDigest sha (String.ofList body)) ∧
    ∀ payload text, enforce sha (.entry (record sha payload)) text false = none →
      ingressDigest sha text = ingressDigest sha payload ∨
      ∃ quote ∈ quotes, ∃ body tail, (normalized payload).toList = quote :: (body ++ quote :: tail) ∧
        transportHead tail = true ∧ ingressDigest sha text = ingressDigest sha (String.ofList body) := by
  refine ⟨fun quote hquote body tail hhead hcount hbody => splitRequest_quoted hquote hcount hhead hbody,
    fun text h => ?_, fun e text => exists_of_enforce, fun payload text h => ?_⟩
  · cases h
  · rcases exists_of_enforce h with hdigest | ⟨⟨size, hsize, -, hle⟩, quote, hquote, body, tail, hwhole, htail, hsame⟩
    · exact .inl hdigest
    · obtain rfl := Option.some.inj hsize
      rw [preview_whole (Int.ofNat_le.mp hle), strip_normalized] at hwhole
      exact .inr ⟨quote, hquote, body, tail, hwhole, htail, hsame⟩

end Saipen.Ingress

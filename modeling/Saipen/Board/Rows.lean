import Saipen.Board.Grammar

/-! # Rows of the BOARD

A row is a frame (white space, the checkbox, the id, white space) in front of parts with bars between
them. What follows is how the reader finds the frame, what stripping and masking do to a row, and where
an opener of a second ticket may stand in it. -/

namespace Saipen.Board

open Text

/-! ### Openers of a second ticket -/

theorem dropWhile_append_cons {p : Char → Bool} {cs : List Char} {d : Char} (hcs : ∀ c ∈ cs, p c = true)
    (hd : p d = false) (ds : List Char) : (cs ++ d :: ds).dropWhile p = d :: ds := by
  rw [List.dropWhile_append_of_pos hcs, List.dropWhile_cons_of_neg (by simp [hd])]

theorem takeWhile_append_cons {p : Char → Bool} {cs : List Char} {d : Char} (hcs : ∀ c ∈ cs, p c = true)
    (hd : p d = false) (ds : List Char) : (cs ++ d :: ds).takeWhile p = cs := by
  rw [List.takeWhile_append_of_pos hcs, List.takeWhile_cons_of_neg (by simp [hd]), List.append_nil]

theorem mem_takeWhile_spaces {cs : List Char} : ∀ c ∈ cs.takeWhile isSpace, isSpace c = true :=
  fun c hc => List.all_eq_true.mp List.all_takeWhile c hc

/-- An opener is a checkbox, white space and the beginning of a ticket id. -/
theorem openerAt_iff {cs : List Char} : openerAt cs = true ↔
    ∃ c gap d more, cs = ['[', c, ']'] ++ gap ++ ['T', '-', d] ++ more ∧ isCheckbox c = true ∧ gap ≠ [] ∧
      (∀ g ∈ gap, isSpace g = true) ∧ isDecimal d = true := by
  constructor
  · intro h
    unfold openerAt at h
    split at h
    case h_1 c cs =>
      rw [Bool.and_eq_true, Bool.and_eq_true] at h
      obtain ⟨⟨hc, hhead⟩, hid⟩ := h
      split at hid
      case h_1 d more heq =>
        refine ⟨c, cs.takeWhile isSpace, d, more, ?_, hc, ?_, mem_takeWhile_spaces, hid⟩
        · have hcs : cs = cs.takeWhile isSpace ++ ('T' :: '-' :: d :: more) := by
            rw [← heq, List.takeWhile_append_dropWhile]
          conv_lhs => rw [hcs]
          simp
        · intro hnil
          cases cs with
          | nil => cases hhead
          | cons e cs =>
            rw [List.head?_cons, Option.any_some] at hhead
            rw [List.takeWhile_cons_of_pos hhead] at hnil
            cases hnil
      case h_2 => cases hid
    case h_2 => cases h
  · rintro ⟨c, gap, d, more, rfl, hc, hne, hgap, hd⟩
    have hdrop : (gap ++ 'T' :: '-' :: d :: more).dropWhile isSpace = 'T' :: '-' :: d :: more :=
      dropWhile_append_cons hgap (by decide) _
    obtain ⟨g, gap, rfl⟩ := List.exists_cons_of_ne_nil hne
    have hg : isSpace g = true := hgap g List.mem_cons_self
    simp only [List.cons_append] at hdrop
    simp [openerAt, hc, hdrop, hg, hd]

/-- Where a part ends: white space, and then nothing or a bar. -/
def EndsPart (cs : List Char) : Prop := ∀ c ∈ (cs.dropWhile isSpace).head?, c = '|'

/-- An opener does not reach behind its part. -/
theorem openerAt_append {cs ds : List Char} (h : EndsPart ds) : openerAt (cs ++ ds) = openerAt cs := by
  rw [Bool.eq_iff_iff, openerAt_iff, openerAt_iff]
  constructor
  · rintro ⟨c, gap, d, more, heq, hc, hne, hgap, hd⟩
    rcases List.append_eq_append_iff.mp heq with ⟨extra, hwhole, hds⟩ | ⟨kept, hcs, -⟩
    · -- The opener would reach into what follows, which begins with white space and a bar.
      cases hextra : extra.dropWhile isSpace with
      | nil =>
        cases extra using List.reverseRecOn with
        | nil =>
          rw [List.append_nil] at hwhole
          exact ⟨c, gap, d, [], by rw [List.append_nil, hwhole], hc, hne, hgap, hd⟩
        | append_singleton extra e =>
          have he : isSpace e = true := List.dropWhile_eq_nil_iff.mp hextra e (by simp)
          have hlast : d = e := by
            have hsnoc : ['[', c, ']'] ++ gap ++ ['T', '-'] ++ [d] = cs ++ extra ++ [e] := by
              simpa using hwhole
            exact List.singleton_inj.mp (List.append_inj' hsnoc rfl).2
          rw [← hlast, isSpace_of_isDecimal hd] at he
          cases he
      | cons e rest =>
        have hbar : e = '|' := h e (by rw [hds, List.dropWhile_append, hextra]; rfl)
        have hmem : '|' ∈ ['[', c, ']'] ++ gap ++ ['T', '-', d] := by
          rw [hwhole, List.mem_append]
          refine .inr ((List.dropWhile_suffix isSpace).subset ?_)
          rw [hextra, hbar]
          exact List.mem_cons_self
        simp only [List.mem_append, List.mem_cons, List.not_mem_nil, or_false] at hmem
        rcases hmem with ((hm | rfl | hm) | hm) | hm | hm | rfl
        · cases hm
        · cases hc
        · cases hm
        · have := hgap _ hm; cases this
        · cases hm
        · cases hm
        · exact absurd hd (by decide)
    · exact ⟨c, gap, d, kept, hcs, hc, hne, hgap, hd⟩
  · rintro ⟨c, gap, d, more, rfl, hrest⟩
    exact ⟨c, gap, d, more ++ ds, by rw [List.append_assoc], hrest⟩

theorem embedsTicket_cons (c : Char) (cs : List Char) :
    embedsTicket (c :: cs) = (openerAt (c :: cs) || embedsTicket cs) := by
  rw [embedsTicket, List.tails, List.any_cons, embedsTicket]

theorem embedsTicket_append {cs ds : List Char} (h : EndsPart ds) :
    embedsTicket (cs ++ ds) = (embedsTicket cs || embedsTicket ds) := by
  induction cs with
  | nil => rfl
  | cons c cs ih =>
    rw [List.cons_append, embedsTicket_cons, embedsTicket_cons, ih, ← List.cons_append, openerAt_append h,
      Bool.or_assoc]

theorem endsPart_bar (cs : List Char) : EndsPart (bar ++ cs) := by
  intro c hc
  simpa [bar, isSpace] using hc.symm

theorem endsPart_spaces {trail : List Char} (h : ∀ c ∈ trail, isSpace c = true) : EndsPart trail := by
  intro c hc
  rw [List.dropWhile_eq_nil_iff.mpr h] at hc
  cases hc

theorem embedsTicket_bar (cs : List Char) : embedsTicket (bar ++ cs) = embedsTicket cs := by
  simp [bar, embedsTicket_cons, openerAt]

theorem embedsTicket_spaces {trail : List Char} (h : ∀ c ∈ trail, isSpace c = true) :
    embedsTicket trail = false := by
  induction trail with
  | nil => rfl
  | cons c trail ih =>
    rw [embedsTicket_cons, ih fun d hd => h d (List.mem_cons_of_mem _ hd), Bool.or_false]
    have hc := h c List.mem_cons_self
    unfold openerAt
    split
    case h_1 heq =>
      obtain ⟨rfl, -⟩ := List.cons.inj heq
      cases hc
    case h_2 => rfl

/-- A row embeds a ticket where one of its parts does. -/
theorem embedsTicket_joinBars (part : List Char) (parts : List (List Char)) :
    embedsTicket (joinBars (part :: parts)) = (part :: parts).any embedsTicket := by
  induction parts generalizing part with
  | nil => simp [joinBars]
  | cons q parts ih =>
    rw [joinBars_cons_cons, embedsTicket_append (endsPart_bar _), embedsTicket_bar, ih]
    rfl

theorem embedsTicket_rtrim (cs : List Char) : embedsTicket (rtrim cs) = embedsTicket cs := by
  obtain ⟨trail, hcs, htrail⟩ := exists_trail cs
  conv_rhs => rw [hcs]
  rw [embedsTicket_append (endsPart_spaces htrail), embedsTicket_spaces htrail, Bool.or_false]

theorem embedsTicket_row (part : List Char) (parts : List (List Char)) :
    embedsTicket (rtrim (joinBars (part :: parts))) = (part :: parts).any embedsTicket := by
  rw [embedsTicket_rtrim, embedsTicket_joinBars]

/-! ### Rows -/

/-- What stands in front of the text of a row: white space, the checkbox, the id and white space. -/
structure Frame where
  lead : List Char
  checkbox : Char
  digits : List Char
  gap : List Char
  lead_space : ∀ c ∈ lead, isSpace c = true
  isBox : isCheckbox checkbox = true
  digits_ne : digits ≠ []
  decimal : ∀ c ∈ digits, isDecimal c = true
  gap_ne : gap ≠ []
  gap_space : ∀ c ∈ gap, isSpace c = true

/-- The frame of a stripped row. -/
def Frame.opening (f : Frame) : List Char :=
  ['-', ' ', '[', f.checkbox, ']', ' ', 'T', '-'] ++ (f.digits ++ f.gap)

/-- The frame of a row. -/
def Frame.text (f : Frame) : List Char := f.lead ++ f.opening

/-- The id of a row. -/
def Frame.id (f : Frame) : String := "T-" ++ String.ofList f.digits

/-- A text that begins with no white space. -/
def Flush (cs : List Char) : Prop := ∀ c ∈ cs.head?, isSpace c = false

theorem flush_dropWhile (cs : List Char) : Flush (cs.dropWhile isSpace) := by
  intro c hc
  cases hdrop : cs.dropWhile isSpace with
  | nil => rw [hdrop] at hc; cases hc
  | cons d ds =>
    rw [hdrop] at hc
    obtain rfl := Option.some.inj hc
    have hfirst := List.head_dropWhile_not isSpace (l := cs) (by rw [hdrop]; exact List.cons_ne_nil _ _)
    simpa only [hdrop, List.head_cons] using hfirst

theorem isDecimal_of_isSpace {c : Char} (h : isSpace c = true) : isDecimal c = false := by
  by_contra hd
  rw [Bool.not_eq_false] at hd
  rw [isSpace_of_isDecimal hd] at h
  cases h

/-- A row is read off its frame. -/
theorem readRow_opening (f : Frame) {rest : List Char} (h : Flush rest) :
    readRow (f.opening ++ rest) = some ⟨f.checkbox, f.id, rest⟩ := by
  obtain ⟨g, gap, hgap⟩ := List.exists_cons_of_ne_nil f.gap_ne
  have hg : isSpace g = true := f.gap_space g (by rw [hgap]; exact List.mem_cons_self)
  have hmore : f.digits ++ f.gap ++ rest = f.digits ++ g :: (gap ++ rest) := by
    rw [hgap, List.append_assoc, List.cons_append]
  have htake : (f.digits ++ f.gap ++ rest).takeWhile isDecimal = f.digits := by
    rw [hmore, takeWhile_append_cons f.decimal (isDecimal_of_isSpace hg)]
  have hdrop : (f.digits ++ f.gap ++ rest).dropWhile isDecimal = g :: (gap ++ rest) := by
    rw [hmore, dropWhile_append_cons f.decimal (isDecimal_of_isSpace hg)]
  have hrest : (g :: (gap ++ rest)).dropWhile isSpace = rest := by
    rw [← List.cons_append, ← hgap, List.dropWhile_append_of_pos f.gap_space]
    cases rest with
    | nil => rfl
    | cons c rest => exact List.dropWhile_cons_of_neg (by simp [h c rfl])
  have hne : f.digits.isEmpty = false := by
    rw [List.isEmpty_eq_false_iff]
    exact f.digits_ne
  rw [Frame.opening, List.append_assoc]
  simp only [readRow, List.cons_append, List.nil_append, htake, hdrop, hrest]
  rw [f.isBox, hne, List.head?_cons, Option.any_some, hg]
  rfl

/-- Every row has a frame. -/
theorem exists_frame {cs : List Char} {row : Row} (h : readRow cs = some row) :
    ∃ f : Frame, f.lead = [] ∧ cs = f.opening ++ row.rest ∧ row.checkbox = f.checkbox ∧ row.id = f.id ∧
      Flush row.rest := by
  unfold readRow at h
  split at h
  case h_2 => cases h
  case h_1 c cs =>
    dsimp only at h
    split at h
    case isFalse => cases h
    case isTrue hcond =>
      obtain rfl := Option.some.inj h
      rw [Bool.and_eq_true, Bool.and_eq_true] at hcond
      obtain ⟨⟨hbox, hdigits⟩, hhead⟩ := hcond
      have hgap : (cs.dropWhile isDecimal).takeWhile isSpace ≠ [] := by
        intro hnil
        cases hmore : cs.dropWhile isDecimal with
        | nil => rw [hmore] at hhead; cases hhead
        | cons g more =>
          rw [hmore, List.head?_cons, Option.any_some] at hhead
          rw [hmore, List.takeWhile_cons_of_pos hhead] at hnil
          cases hnil
      refine ⟨⟨[], c, cs.takeWhile isDecimal, (cs.dropWhile isDecimal).takeWhile isSpace,
        (fun _ hc => by cases hc), hbox, ?_, ?_, hgap, mem_takeWhile_spaces⟩, rfl, ?_, rfl, rfl, ?_⟩
      · intro hnil
        rw [hnil] at hdigits
        cases hdigits
      · exact fun d hd => List.all_eq_true.mp List.all_takeWhile d hd
      · rw [Frame.opening, List.append_assoc, List.append_assoc, List.takeWhile_append_dropWhile,
          List.takeWhile_append_dropWhile]
        rfl
      · exact flush_dropWhile _

/-! ### Stripped and masked -/

theorem stripChars_padded {pre mid post : List Char} (hpre : ∀ c ∈ pre, isSpace c = true)
    (hpost : ∀ c ∈ post, isSpace c = true) (hhead : Flush mid)
    (hlast : ∀ c ∈ mid.getLast?, isSpace c = false) : stripChars (pre ++ (mid ++ post)) = mid := by
  rw [stripChars_eq, List.dropWhile_append_of_pos hpre]
  cases mid with
  | nil =>
    rw [List.nil_append, List.dropWhile_eq_nil_iff.mpr hpost]
    rfl
  | cons c mid =>
    rw [List.cons_append, List.dropWhile_cons_of_neg (by simp [hhead c rfl]), ← List.cons_append,
      rtrim_append hpost, rtrim_of_last hlast]

theorem maskPipes_spaces {cs : List Char} (h : ∀ c ∈ cs, isSpace c = true) : maskPipes cs = cs := by
  induction cs with
  | nil => rfl
  | cons c cs ih =>
    rw [maskPipes_cons, ih fun d hd => h d (List.mem_cons_of_mem _ hd)]
    rintro ⟨rfl, -⟩
    exact absurd (h _ List.mem_cons_self) (by decide)

theorem maskPipes_ne_nil {cs : List Char} (h : cs ≠ []) : maskPipes cs ≠ [] := by
  obtain ⟨c, cs, rfl⟩ := List.exists_cons_of_ne_nil h
  rw [maskPipes.eq_def]
  split
  case h_1 => exact List.cons_ne_nil _ _
  case h_2 => exact List.cons_ne_nil _ _
  case h_3 heq => cases heq

theorem Flush.rtrim {cs : List Char} (h : Flush cs) : Flush (rtrim cs) := by
  obtain ⟨trail, hcs, -⟩ := exists_trail cs
  intro c hc
  refine h c ?_
  rw [hcs, List.head?_append, Option.mem_def.mp hc]
  rfl

theorem flush_maskPipes {cs : List Char} (h : Flush cs) : Flush (maskPipes cs) := by
  intro d hd
  cases cs using maskPipes.fun_cases with
  | case1 cs =>
    obtain rfl : pipeSentinel = d := Option.some.inj hd
    decide
  | case2 c cs hne =>
    rw [maskPipes_cons_of_ne hne] at hd
    obtain rfl : c = d := Option.some.inj hd
    exact h c rfl
  | case3 => cases hd

theorem last_maskPipes {cs : List Char} (h : ∀ c ∈ cs.getLast?, isSpace c = false) :
    ∀ c ∈ (maskPipes cs).getLast?, isSpace c = false := by
  induction cs using maskPipes.induct with
  | case1 cs ih =>
    rw [maskPipes]
    intro d hd
    rw [List.getLast?_cons] at hd
    cases hlast : (maskPipes cs).getLast? with
    | none =>
      rw [hlast] at hd
      obtain rfl : pipeSentinel = d := Option.some.inj hd
      decide
    | some e =>
      rw [hlast] at hd
      obtain rfl : e = d := Option.some.inj hd
      refine ih (fun c hc => h c ?_) e hlast
      rw [List.getLast?_cons, List.getLast?_cons, Option.mem_def.mp hc]
      rfl
  | case2 c cs hne ih =>
    rw [maskPipes_cons_of_ne hne]
    intro d hd
    rw [List.getLast?_cons] at hd
    cases hlast : (maskPipes cs).getLast? with
    | none =>
      rw [hlast] at hd
      obtain rfl : c = d := Option.some.inj hd
      have hnil : cs = [] := by
        cases cs with
        | nil => rfl
        | cons e cs =>
          rw [List.getLast?_eq_none_iff] at hlast
          exact absurd hlast (maskPipes_ne_nil (List.cons_ne_nil _ _))
      exact h c (by rw [hnil]; rfl)
    | some e =>
      rw [hlast] at hd
      obtain rfl : e = d := Option.some.inj hd
      refine ih (fun a ha => h a ?_) e hlast
      rw [List.getLast?_cons, Option.mem_def.mp ha]
      rfl
  | case3 => exact h

/-- Stripping and masking a line is masking and stripping it. -/
theorem maskPipes_strip (line : String) :
    maskPipes (strip line).toList = stripChars (maskPipes line.toList) := by
  obtain ⟨pre, post, hline, hpre, hpost⟩ := strip_parts line
  have hmid : (strip line).toList = stripChars line.toList := by
    rw [strip, String.toList_ofList, stripChars]
  have hhead : Flush (strip line).toList := by
    rw [hmid, stripChars_eq]
    exact (flush_dropWhile _).rtrim
  have hlast : ∀ c ∈ (strip line).toList.getLast?, isSpace c = false := by
    rw [hmid, stripChars_eq]
    exact last_rtrim _
  rw [hline, maskPipes_append, maskPipes_append, maskPipes_spaces hpre, maskPipes_spaces hpost,
    stripChars_padded hpre hpost (flush_maskPipes hhead) (last_maskPipes hlast)]
  · rintro ⟨-, hbar⟩
    cases post with
    | nil => cases hbar
    | cons c post =>
      obtain rfl : c = '|' := Option.some.inj hbar
      exact absurd (hpost _ List.mem_cons_self) (by decide)
  · rintro ⟨hslash, -⟩
    exact absurd (hpre _ (List.mem_of_getLast? hslash)) (by decide)

/-! ### Parts as they are read -/

/-- The text of a part as it is read. -/
def cleanPart (part : List Char) : String := String.ofList (unescape (stripChars part))

theorem cleanPart_rtrim (part : List Char) : cleanPart (rtrim part) = cleanPart part := by
  obtain ⟨trail, hpart, htrail⟩ := exists_trail part
  have hstrip : stripChars part = stripChars (rtrim part) := by
    by_cases hnil : rtrim part = []
    · have hall := rtrim_eq_nil.mp hnil
      rw [hnil, stripChars_eq, List.dropWhile_eq_nil_iff.mpr hall]
      rfl
    · rw [stripChars_eq, stripChars_eq]
      conv_lhs => rw [hpart]
      rw [List.dropWhile_append]
      split
      case isTrue hempty =>
        rw [List.isEmpty_iff] at hempty
        exact absurd (rtrim_eq_nil.mpr (List.dropWhile_eq_nil_iff.mp hempty)) (by rwa [rtrim_rtrim])
      case isFalse => exact rtrim_append htrail
  rw [cleanPart, cleanPart, hstrip]

/-- The last part stands at the end of the row. -/
theorem exists_joinBars_concat (parts : List (List Char)) :
    ∃ pre, ∀ last, joinBars (parts ++ [last]) = pre ++ last := by
  induction parts with
  | nil => exact ⟨[], fun last => joinBars_singleton last⟩
  | cons p parts ih =>
    obtain ⟨pre, hpre⟩ := ih
    refine ⟨p ++ (bar ++ pre), fun last => ?_⟩
    obtain ⟨q, rest, hrest⟩ := List.exists_cons_of_ne_nil (l := parts ++ [last]) (by simp)
    rw [List.cons_append, hrest, joinBars_cons_cons, ← hrest, hpre, List.append_assoc, List.append_assoc]

/-- A row is trimmed at its last part. -/
theorem rtrim_joinBars {parts : List (List Char)} {last : List Char} (h : rtrim last ≠ []) :
    rtrim (joinBars (parts ++ [last])) = joinBars (parts ++ [rtrim last]) := by
  obtain ⟨pre, hpre⟩ := exists_joinBars_concat parts
  rw [hpre, hpre, rtrim_append_of_ne_nil h]

end Saipen.Board

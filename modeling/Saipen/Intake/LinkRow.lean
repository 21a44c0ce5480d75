import Saipen.Intake.Link

/-! # The row with the link

Where the row that the projection edits is the first place of the BOARD at which its characters stand, and the
values it writes are read back as they are, the BOARD that is written names the receipt. -/

namespace Saipen.SourceLink

open Text Board

/-! ### Lines -/

/-- A newline ends the lines in front of it. -/
theorem linesFrom_append_newline (init ds : List Char) : ∀ line : List Char,
    linesFrom line (init ++ '\n' :: ds) = linesFrom line (init ++ ['\n']) ++ linesFrom [] ds := by
  have hnewline : ∀ line : List Char, linesFrom line ('\n' :: ds) = linesFrom line ['\n'] ++ linesFrom [] ds := by
    intro line
    rw [linesFrom_cons (by decide), linesFrom_cons (by decide), if_pos (by decide), if_pos (by decide)]
    simp [linesFrom]
  induction init using List.twoStepInduction with
  | nil => exact hnewline
  | singleton c =>
    intro line
    by_cases hc : c = '\r'
    · subst hc
      simp [linesFrom]
    · rw [List.singleton_append, List.singleton_append, linesFrom_cons hc, linesFrom_cons hc, hnewline, hnewline]
      split_ifs <;> rfl
  | cons_cons c b init ih ih' =>
    intro line
    simp only [List.cons_append] at ih' ⊢
    rw [linesFrom, linesFrom]
    split_ifs
    · rw [ih []]
      rfl
    · rw [ih' b []]
      rfl
    · exact ih' b _

/-- A line that stands between two newlines, or at an end of the text, is one of its lines. -/
theorem linesFrom_row {front row back : List Char} (hfront : front = [] ∨ ∃ init, front = init ++ ['\n'])
    (hback : back = [] ∨ ∃ rest, back = '\n' :: rest) (hrow : OneLine row) (hne : row ≠ []) :
    linesFrom [] (front ++ row ++ back) = linesFrom [] front ++ row :: linesFrom [] back.tail := by
  have hrest : linesFrom [] (row ++ back) = row :: linesFrom [] back.tail := by
    rcases hback with rfl | ⟨rest, rfl⟩
    · rw [List.append_nil, linesFrom_of_oneLine hrow, List.reverse_nil, List.nil_append, if_neg hne]
      simp [linesFrom]
    · rw [linesFrom_append_newline, linesFrom_newline hrow]
      rfl
  rcases hfront with rfl | ⟨init, rfl⟩
  · rw [List.nil_append, hrest]
    simp [linesFrom]
  · rw [List.append_assoc, List.append_assoc, List.singleton_append, linesFrom_append_newline, hrest]

/-! ### Reading the row -/

variable {p : Printable} {t u : Ticket} {text text' row receipt work s : String} {w : Walk}

/-- The walk over the lines of a text. -/
def walk (text : String) : Walk := (splitLines text).foldl Walk.readLine {}

/-- A text without white space is stripped. -/
theorem strip_of_noSpace {s : String} (h : ∀ c ∈ s.toList, isSpace c = false) : strip s = s := by
  have hkeep : ∀ cs : List Char, (∀ c ∈ cs, isSpace c = false) → cs.dropWhile isSpace = cs := by
    intro cs hcs
    cases cs with
    | nil => rfl
    | cons c cs => exact List.dropWhile_cons_of_neg (by simp [hcs c List.mem_cons_self])
  rw [strip, hkeep _ h, hkeep _ fun c hc => h c (List.mem_reverse.mp hc), List.reverse_reverse, String.ofList_toList]

/-- The id of a ticket that is read. -/
def Named (id : String) : Prop := strip id = id ∧ id ≠ ""

theorem named_of_readRow {cs : List Char} {r : Row} (h : readRow cs = some r) : Named r.id := by
  obtain ⟨f, -, -, -, hid, -⟩ := exists_frame h
  have hchars : f.id.toList = 'T' :: '-' :: f.digits := by
    rw [Frame.id, String.toList_append]
    simp
  rw [hid]
  refine ⟨strip_of_noSpace fun c hc => ?_, fun hempty => by rw [hempty] at hchars; cases hchars⟩
  rw [hchars, List.mem_cons, List.mem_cons] at hc
  rcases hc with rfl | rfl | hc
  · decide
  · decide
  · by_contra hspace
    rw [Bool.not_eq_false] at hspace
    have hdecimal := f.decimal c hc
    rw [isDecimal_of_isSpace hspace] at hdecimal
    cases hdecimal

/-- A line adds tickets behind those that have been read. -/
theorem tickets_readLine (w : Walk) (line : String) :
    ∃ more, (w.readLine line).tickets = w.tickets ++ more ∧ ∀ t ∈ more, Named t.id := by
  have hnone : ∃ more, w.tickets = w.tickets ++ more ∧ ∀ t ∈ more, Named t.id :=
    ⟨[], (List.append_nil _).symm, List.forall_mem_nil _⟩
  rw [Walk.readLine]
  split_ifs
  · exact hnone
  · exact hnone
  · rw [Walk.readTicket]
    split
    · exact hnone
    · next r hr =>
      split_ifs
      · exact hnone
      · split
        · exact hnone
        · dsimp only
          split_ifs
          · exact hnone
          · exact ⟨[_], rfl, fun t ht => List.mem_singleton.mp ht ▸ named_of_readRow hr⟩
          · exact hnone
  · split
    · exact hnone
    · split_ifs <;> exact hnone

/-- Tickets that have been read stay. -/
theorem tickets_foldl (w : Walk) (lines : List String) :
    ∃ more, (lines.foldl Walk.readLine w).tickets = w.tickets ++ more ∧ ∀ t ∈ more, Named t.id := by
  induction lines generalizing w with
  | nil => exact ⟨[], (List.append_nil _).symm, List.forall_mem_nil _⟩
  | cons line lines ih =>
    obtain ⟨more, hmore, hnamed⟩ := tickets_readLine w line
    obtain ⟨last, hlast, hnamed'⟩ := ih (w.readLine line)
    refine ⟨more ++ last, by rw [List.foldl_cons, hlast, hmore, List.append_assoc], fun t ht => ?_⟩
    exact (List.mem_append.mp ht).elim (hnamed t) (hnamed' t)

/-- The id of a Work has no white space around it. -/
theorem Lists.named (h : Lists text work receipt) : Named work := by
  obtain ⟨t, ht, -⟩ := h
  have hfound : decide (t.id = work) = true := List.find?_some (p := fun x : Ticket => decide (x.id = work)) ht
  obtain ⟨more, hmore, hnamed⟩ := tickets_foldl {} (splitLines text)
  have hin : t ∈ more := by
    have hmem := List.mem_of_find?_eq_some ht
    rw [parseBoard] at hmem
    dsimp only at hmem
    rwa [hmore, List.nil_append] at hmem
  rw [← of_decide_eq_true hfound]
  exact hnamed t hin

/-- A row that is read alone is read on the walk. -/
theorem tickets_readLine_row (h : readRecord s row = some t) (hs : w.sectionName = some s)
    (hnew : t.id ∉ w.tickets.map (·.id)) : (w.readLine row).tickets = w.tickets ++ [t] := by
  obtain ⟨r, hread, hembeds, hrequired, hticket⟩ := readRecord_eq_some_iff.mp h
  have hid : r.id = t.id := congrArg (fun x => x.1.id) hticket
  rw [Walk.readLine_row hread, Walk.readTicket, hread]
  simp only [hembeds, hs, hrequired, hticket, hid, not_true_eq_false, if_false, Bool.false_eq_true]
  rw [if_neg hnew]

/-- The row of a Work at its place in the text. -/
structure Stands (text : String) (t : Ticket) : Prop where
  /-- The row is the first place at which its characters stand, and no row of the Work stands above it. -/
  place : ∃ front back, partitionOn t.raw.toList text.toList = some (front, back) ∧
    (front = [] ∨ ∃ init, front = init ++ ['\n']) ∧ (back = [] ∨ ∃ rest, back = '\n' :: rest) ∧
    (walk (String.ofList front)).sectionName = some t.sectionName ∧
    t.id ∉ (walk (String.ofList front)).tickets.map (·.id)
  read : readRecord t.sectionName t.raw = some t

/-- A row that is put in the place of another one is the row of its Work. -/
theorem ticket_replaceFirst (h : Stands text t) (hrow : OneLine row.toList) (hread : readRecord t.sectionName row = some u)
    (hid : u.id = t.id) : (parseBoard (replaceFirst t.raw row text)).ticket t.id = some u := by
  obtain ⟨front, back, hpart, hfront, hback, hsection, hnew⟩ := h.place
  have hne : row.toList ≠ [] := by
    intro hnil
    have hempty : row = "" := String.toList_eq_nil_iff.mp hnil
    subst hempty
    obtain ⟨r, hr, -⟩ := readRecord_eq_some_iff.mp hread
    cases hr
  have hlines : splitLines (replaceFirst t.raw row text) =
      splitLines (String.ofList front) ++ row :: splitLines (String.ofList back.tail) := by
    rw [replaceFirst, hpart, splitLines, splitLines, splitLines, String.toList_ofList, String.toList_ofList,
      String.toList_ofList, linesFrom_row hfront hback hrow hne, List.map_append, List.map_cons, String.ofList_toList]
  have htickets : ∃ more, (parseBoard (replaceFirst t.raw row text)).tickets =
      (walk (String.ofList front)).tickets ++ [u] ++ more := by
    show ∃ more, ((splitLines (replaceFirst t.raw row text)).foldl Walk.readLine {}).tickets = _
    rw [hlines, List.foldl_append, List.foldl_cons]
    obtain ⟨more, hmore, -⟩ := tickets_foldl ((walk (String.ofList front)).readLine row) (splitLines (String.ofList back.tail))
    exact ⟨more, by rw [← tickets_readLine_row hread hsection (hid ▸ hnew)]; exact hmore⟩
  obtain ⟨more, hmore⟩ := htickets
  have hnone : (walk (String.ofList front)).tickets.find? (fun x => decide (x.id = t.id)) = none := by
    rw [List.find?_eq_none]
    intro x hx heq
    exact hnew (List.mem_map.mpr ⟨x, hx, of_decide_eq_true heq⟩)
  rw [Parsed.ticket, hmore, List.append_assoc, List.find?_append, hnone, Option.none_or, List.singleton_append,
    List.find?_cons_of_pos (by exact decide_eq_true hid)]

/-! ### Writing the receipts -/

/-- A row that the projection may edit: it stands where it is looked for, no bar stands at its edge, and what is
written into it is read back. -/
structure RowSafe (p : Printable) (text : String) (t : Ticket) (receipt : String) : Prop extends Stands text t where
  bare : bareBar t.raw = false
  verify : ∀ cleaned, stripPseudoLink t = some cleaned → SetSafe t.raw "verify" cleaned
  receipts : ∀ row, unlinkedRow p t = .ok row →
    bareBar row = false ∧ SetSafe row "source_receipts" (linkedReceipts t receipt)

theorem RowSafe.unlinked (h : RowSafe p text t receipt) (hrow : unlinkedRow p t = .ok row) :
    ∃ u, readRecord t.sectionName row = some u ∧ u.id = t.id := by
  unfold unlinkedRow at hrow
  split at hrow
  · next cleaned hcleaned =>
    obtain ⟨u, hu, hlaw⟩ :=
      (set_agrees_iff h.read h.bare hrow).mpr (h.verify cleaned hcleaned)
    exact ⟨u, hu, hlaw.id⟩
  · obtain rfl := Except.ok.inj hrow
    exact ⟨t, h.read, rfl⟩

/-- The row with the link is read as the Work with the receipts that were written. -/
theorem RowSafe.linked (h : RowSafe p text t receipt) (hrow : linkedRow p t receipt = .ok row) :
    OneLine row.toList ∧ ∃ u, readRecord t.sectionName row = some u ∧ u.id = t.id ∧
      u.fields.lookup "source_receipts" = some (linkedReceipts t receipt) := by
  unfold linkedRow at hrow
  cases hunlinked : unlinkedRow p t with
  | error message => rw [hunlinked] at hrow; cases hrow
  | ok first =>
    rw [hunlinked] at hrow
    replace hrow : setTicketField p first "source_receipts" (linkedReceipts t receipt) false = .ok row := hrow
    obtain ⟨v, hv, hid⟩ := h.unlinked hunlinked
    obtain ⟨hbare, hsafe⟩ := h.receipts first hunlinked
    obtain ⟨u, hu, hlaw⟩ :=
      (set_agrees_iff hv hbare hrow).mpr hsafe
    refine ⟨?_, u, hu, hlaw.id.trans hid, hlaw.changed⟩
    obtain ⟨-, -, rfl, hline⟩ := setTicketField_eq_ok_iff.mp hrow
    exact hline.1

theorem notMem_of_mem_receiptsOf (h : receipt ∈ receiptsOf t) : ',' ∉ receipt.toList := by
  obtain ⟨hmem, -⟩ := List.mem_filter.mp h
  obtain ⟨piece, hpiece, rfl⟩ := List.mem_map.mp hmem
  obtain ⟨cs, hcs, rfl⟩ := List.mem_map.mp hpiece
  obtain ⟨pre, post, hparts, -⟩ := strip_parts (String.ofList cs)
  rw [String.toList_ofList] at hparts
  intro hin
  exact (mem_splitOn hcs).1 (hparts ▸ List.mem_append_right _ (List.mem_append_left _ hin))

theorem validReceiptId_chars (h : validReceiptId receipt = true) :
    ∃ d digits, receipt.toList = 'S' :: 'R' :: 'C' :: '-' :: d :: digits ∧ ∀ c ∈ d :: digits, isDecimal c = true := by
  unfold validReceiptId at h
  split at h
  · next d digits heq => exact ⟨d, digits, heq, List.all_eq_true.mp h⟩
  · cases h

/-- A receipt id is a piece of its own. -/
theorem piece_of_valid (h : validReceiptId receipt = true) :
    ',' ∉ receipt.toList ∧ strip receipt = receipt ∧ receipt ≠ "" := by
  obtain ⟨d, digits, hchars, hdigits⟩ := validReceiptId_chars h
  have hspace : ∀ c ∈ receipt.toList, c ≠ ',' ∧ isSpace c = false := by
    intro c hc
    rw [hchars] at hc
    simp only [List.mem_cons] at hc
    rcases hc with rfl | rfl | rfl | rfl | hc
    · decide
    · decide
    · decide
    · decide
    · have hdec := hdigits c (List.mem_cons.mpr hc)
      refine ⟨?_, ?_⟩
      · rintro rfl
        exact absurd hdec (by decide)
      · by_contra hsp
        rw [Bool.not_eq_false] at hsp
        rw [isDecimal_of_isSpace hsp] at hdec
        cases hdec
  refine ⟨fun hin => (hspace _ hin).1 rfl, strip_of_noSpace fun c hc => (hspace c hc).2, ?_⟩
  rintro rfl
  cases hchars

theorem mem_receiptsOf_linked (hreceipt : validReceiptId receipt = true)
    (hu : u.fields.lookup "source_receipts" = some (linkedReceipts t receipt)) : receipt ∈ receiptsOf u := by
  obtain ⟨hcomma, hstrip, hne⟩ := piece_of_valid hreceipt
  have hlist : ∃ rs : List String, linkedReceipts t receipt = ",".intercalate rs ∧ receipt ∈ rs ∧
      ∀ r ∈ rs, ',' ∉ r.toList := by
    refine ⟨_, rfl, ?_, ?_⟩
    · split_ifs with hin
      · exact hin
      · exact List.mem_append_right _ List.mem_cons_self
    · intro r hr
      split_ifs at hr with hin
      · exact notMem_of_mem_receiptsOf hr
      · rcases List.mem_append.mp hr with hr | hr
        · exact notMem_of_mem_receiptsOf hr
        · rwa [List.mem_singleton.mp hr]
  obtain ⟨rs, hlinked, hmem, hcommas⟩ := hlist
  have hsplit : split ',' (",".intercalate rs) = rs := split_intercalate hcommas (List.ne_nil_of_mem hmem)
  rw [receiptsOf, hu, Option.getD_some, hlinked, hsplit]
  exact List.mem_filter.mpr ⟨List.mem_map.mpr ⟨receipt, hmem, hstrip⟩, by simpa using hne⟩

/-- **Projection.** The BOARD that is written names the receipt in the row of the Work. -/
theorem project_lists (hsafe : ∀ t, (parseBoard text).ticket work = some t →
      ¬ (receipt ∈ receiptsOf t ∧ stripPseudoLink t = none) → RowSafe p text t receipt)
    (hreceipt : validReceiptId receipt = true) {already : Bool}
    (h : project p work receipt text = .ok (text', already)) : Lists text' work receipt := by
  unfold project at h
  split at h
  · cases h
  · next t ht =>
    split_ifs at h with hlisted
    · obtain ⟨rfl, -⟩ := Prod.mk.inj (Except.ok.inj h)
      exact ⟨t, ht, hlisted.1⟩
    · have hrow := hsafe t ht hlisted
      split at h
      · cases h
      · next row hlinked =>
        dsimp only at h
        split_ifs at h
        obtain ⟨rfl, -⟩ := Prod.mk.inj (Except.ok.inj h)
        obtain ⟨hone, u, hread, hid, hreceipts⟩ := hrow.linked hlinked
        have hfound : decide (t.id = work) = true :=
          List.find?_some (p := fun x : Ticket => decide (x.id = work)) ht
        have hwork : t.id = work := of_decide_eq_true hfound
        exact ⟨u, hwork ▸ ticket_replaceFirst hrow.toStands hone hread hid, mem_receiptsOf_linked hreceipt hreceipts⟩

end Saipen.SourceLink

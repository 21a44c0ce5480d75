import Saipen.SourceAppend.Calls
import Mathlib.Logic.Relation

/-! # Lost updates

Every write of a ledger is made from the ledger that its call has read. Where no other call has written the
file in between, an append stays in its place with its number, and the states of an append only go up. -/

namespace Saipen.SourceAppend

/-! ### Entries that stay -/

/-- An entry at an earlier and at a later moment. -/
structure Entry.LeadsTo (e e' : Entry) : Prop where
  receipt : e'.receipt = e.receipt
  seq : e'.seq = e.seq
  state : e.state.rank ≤ e'.state.rank
  steps : e.steps ⊆ e'.steps

theorem Entry.LeadsTo.refl (e : Entry) : e.LeadsTo e := ⟨rfl, rfl, le_rfl, List.Subset.refl _⟩

theorem Entry.LeadsTo.trans {e f g : Entry} (h : e.LeadsTo f) (h' : f.LeadsTo g) : e.LeadsTo g :=
  ⟨h'.receipt.trans h.receipt, h'.seq.trans h.seq, h.state.trans h'.state, List.Subset.trans h.steps h'.steps⟩

/-- Every entry of a ledger is in its place in a later one. -/
def Ledger.LeadsTo (l l' : Ledger) : Prop :=
  ∀ (i : Nat) (e : Entry), l.appends[i]? = some e → ∃ e' : Entry, l'.appends[i]? = some e' ∧ e.LeadsTo e'

variable {l l' : Ledger} {receipt source : String} {p : Nat} {a : Action} {s s' s'' : State}

theorem Ledger.LeadsTo.refl (l : Ledger) : l.LeadsTo l := fun _ e he => ⟨e, he, .refl e⟩

theorem Ledger.LeadsTo.trans {m : Ledger} (h : l.LeadsTo l') (h' : l'.LeadsTo m) : l.LeadsTo m := by
  intro i e he
  obtain ⟨f, hf, hef⟩ := h i e he
  obtain ⟨g, hg, hfg⟩ := h' i f hf
  exact ⟨g, hg, hef.trans hfg⟩

/-- A change of the entry of a receipt keeps the ledger when it keeps that entry. -/
theorem leadsTo_update {f : Entry → Entry} (hf : ∀ e, l.entry receipt = some e → e.LeadsTo (f e)) :
    l.LeadsTo (l.update receipt f) := by
  intro i e he
  rcases getElem?_update receipt f he with h | ⟨hentry, h⟩
  · exact ⟨e, h, .refl e⟩
  · exact ⟨f e, h, hf e hentry⟩

theorem leadsTo_append (l : Ledger) (e : Entry) : l.LeadsTo ⟨l.appends ++ [e]⟩ := by
  intro i x hx
  obtain ⟨hi, -⟩ := List.getElem?_eq_some_iff.mp hx
  exact ⟨x, by rw [List.getElem?_append_left hi, hx], .refl x⟩

theorem Entry.leadsTo_mark (e : Entry) (m : Mark) : e.LeadsTo (e.mark m) :=
  ⟨rfl, rfl, le_rfl, List.subset_append_left _ _⟩

theorem Entry.leadsTo_supersede (e : Entry) : e.LeadsTo (e.supersede receipt) := by
  refine ⟨rfl, rfl, ?_, List.Subset.refl _⟩
  show e.state.rank ≤ 2
  cases e.state <;> decide

/-- A projection keeps an entry that is not superseded. -/
theorem Entry.leadsTo_project {e : Entry} {x : Application} (h : e.state ≠ .superseded) : e.LeadsTo (e.project x) := by
  refine ⟨rfl, rfl, ?_, List.Subset.refl _⟩
  show e.state.rank ≤ 1
  cases hstate : e.state with
  | received => decide
  | projected => decide
  | superseded => exact absurd hstate h

/-! ### Writes -/

/-- A write of a ledger: its file, the ledger the call has read, and what it writes. -/
structure Write where
  source : String
  base : Ledger
  result : Ledger

/-- The write that a call is about to make. -/
def Point.write? : Point → Option Write
  | .adding source base draft =>
      some ⟨source, base, ⟨base.appends ++ [draft.entry (base.appends.length + 1)]⟩⟩
  | .marked x m base => some ⟨x.source, base, base.update x.receipt (Entry.mark m)⟩
  | .replaced x base target _ => some ⟨x.source, base, base.update target (Entry.supersede x.receipt)⟩
  | .projected x base => some ⟨x.source, base, base.update x.receipt (Entry.project x)⟩
  | _ => none

/-- A call that is about to set an append PROJECTED has read it as not superseded. -/
def Point.Projectable (point : Point) : Prop :=
  ∀ x base, point = .projected x base → ∀ e, base.entry x.receipt = some e → e.state ≠ .superseded

/-- A step that writes a ledger finds the file as its call has read it. -/
def Undisturbed (s : State) (p : Nat) (a : Action) : Prop :=
  ∀ rids, a = .go rids →
    (∀ w, (s.point p).write? = some w → readLedger s.files w.source = .ok w.base) ∧ (s.point p).Projectable

/-- Runs of undisturbed steps. -/
def Runs : State → State → Prop :=
  Relation.ReflTransGen fun s s' => ∃ p a, Undisturbed s p a ∧ step s p a = some s'

@[simp] theorem State.goTo_files (point : Point) : (s.goTo p point).files = s.files := rfl

@[simp] theorem State.goTo_replies (point : Point) : (s.goTo p point).replies = s.replies := rfl

@[simp] theorem State.return_files (reply : Reply) : (s.return p reply).files = s.files := rfl

@[simp] theorem State.return_replies (reply : Reply) : (s.return p reply).replies = s.replies ++ [reply] := rfl

@[simp] theorem State.write_files (l : Ledger) : (s.write source l).files = writeLedger s.files source l := rfl

@[simp] theorem State.write_replies (l : Ledger) : (s.write source l).replies = s.replies := rfl

/-- A call that reads a ledger leaves the files alone when it does so behind the reading. -/
theorem State.read_files {next : Ledger → State} (h : ∀ l, (next l).files = s.files) :
    (s.read p source next).files = s.files := by
  rw [State.read]
  cases readLedger s.files source with
  | error => rfl
  | ok l => exact h l

/-- The files change by the write of the call. -/
theorem files_go (rids : List String) (point : Point) : (go s p rids point).files =
    match point.write? with
    | none => s.files
    | some w => writeLedger s.files w.source w.result := by
  cases point with
  | idle | adding | marked | replaced | projected => rfl
  | superseding => exact State.read_files fun _ => rfl
  | captured source draft =>
    refine State.read_files fun l => ?_
    split <;> rfl
  | marking x m =>
    refine State.read_files fun l => ?_
    split
    · split_ifs <;> rfl
    · rfl
  | replacing x copy rest =>
    cases rest with
    | nil => rfl
    | cons target rest =>
      show (go s p rids (.replacing x copy (target :: rest))).files = s.files
      rw [go]
      by_cases hreference : isClauseReference target = true
      · rw [if_pos hreference, State.goTo_files]
      · rw [if_neg hreference]
        cases copy.entry target <;> rfl
  | rereading x target rest =>
    refine State.read_files fun l => ?_
    split <;> rfl
  | projecting x =>
    refine State.read_files fun l => ?_
    split <;> rfl

/-! ### What a step keeps -/

/-- The files change by a write that undisturbed calls make from what is there. -/
theorem files_step (hu : Undisturbed s p a) (h : step s p a = some s') : s'.files = s.files ∨
    ∃ w : Write, readLedger s.files w.source = .ok w.base ∧ w.base.LeadsTo w.result ∧
      (s.point p).write? = some w ∧ s'.files = writeLedger s.files w.source w.result := by
  cases a with
  | append source draft =>
    rw [step] at h
    split_ifs at h
    exact .inl (Option.some.inj h ▸ rfl)
  | apply receipt answers =>
    rw [step] at h
    split_ifs at h
    obtain rfl := Option.some.inj h
    refine .inl ?_
    rw [applyAppend]
    cases findAppend s.files receipt with
    | none => rfl
    | some found =>
      obtain ⟨source, e⟩ := found
      dsimp only
      cases e.state <;> rfl
  | fail =>
    rw [step] at h
    split_ifs at h
    exact .inl (Option.some.inj h ▸ rfl)
  | go rids =>
    rw [step] at h
    split_ifs at h
    obtain rfl := Option.some.inj h
    rw [files_go]
    obtain ⟨hbase, hprojectable⟩ := hu rids rfl
    cases hwrite : (s.point p).write? with
    | none => exact .inl rfl
    | some w =>
      refine .inr ⟨w, hbase w hwrite, ?_, rfl, rfl⟩
      unfold Point.write? at hwrite
      split at hwrite
      · obtain rfl := Option.some.inj hwrite
        exact leadsTo_append _ _
      · obtain rfl := Option.some.inj hwrite
        exact leadsTo_update fun e _ => e.leadsTo_mark _
      · obtain rfl := Option.some.inj hwrite
        exact leadsTo_update fun e _ => e.leadsTo_supersede
      · next hpoint =>
        obtain rfl := Option.some.inj hwrite
        exact leadsTo_update fun e he => Entry.leadsTo_project (hprojectable _ _ hpoint e he)
      · cases hwrite

/-- A call that read a ledger returns what it returns behind the reading. -/
theorem State.read_replies (next : Ledger → State) {reply : Reply} (h : ∀ l, reply ∈ (next l).replies → reply ∈ s.replies)
    (hmem : reply ∈ (s.read p source next).replies) : reply ∈ s.replies := by
  rw [State.read] at hmem
  cases hread : readLedger s.files source with
  | error =>
    rw [hread] at hmem
    exact hmem
  | ok l =>
    rw [hread] at hmem
    exact h l hmem

/-- `APPEND_RECEIVED` is returned by the call that writes the entry. -/
theorem appendReceived_of_go {rids : List String} {point : Point} {seq : Nat}
    (h : .appendReceived source receipt seq ∈ (go s p rids point).replies) :
    .appendReceived source receipt seq ∈ s.replies ∨
      ∃ base draft, point = .adding source base draft ∧ receipt = draft.receipt ∧
        seq = base.appends.length + 1 := by
  cases point with
  | idle | marked | replaced => exact .inl h
  | superseding x =>
    exact .inl (State.read_replies (fun l => s.goTo p (.replacing x l (targets x l))) (fun _ h => h) h)
  | adding source' base draft =>
    rcases List.mem_append.mp h with h | h
    · exact .inl h
    · obtain ⟨rfl, rfl, rfl⟩ := Reply.appendReceived.inj (List.mem_singleton.mp h)
      exact .inr ⟨base, draft, rfl, rfl, rfl⟩
  | projected x base =>
    rcases List.mem_append.mp h with h | h
    · exact .inl h
    · cases List.mem_singleton.mp h
  | captured source' draft =>
    refine .inl (State.read_replies _ (fun l hl => ?_) h)
    cases hentry : l.entry draft.receipt with
    | none =>
      rw [hentry] at hl
      exact hl
    | some e =>
      rw [hentry] at hl
      rcases List.mem_append.mp hl with hl | hl
      · exact hl
      · cases List.mem_singleton.mp hl
  | marking x m =>
    refine .inl (State.read_replies _ (fun l hl => ?_) h)
    split at hl
    · split_ifs at hl <;> exact hl
    · exact hl
  | replacing x copy rest =>
    cases rest with
    | nil => exact .inl h
    | cons target rest =>
      rw [go] at h
      by_cases hreference : isClauseReference target = true
      · rw [if_pos hreference] at h
        exact .inl h
      · rw [if_neg hreference] at h
        split at h <;> exact .inl h
  | rereading x target rest =>
    refine .inl (State.read_replies _ (fun l hl => ?_) h)
    split at hl <;> exact hl
  | projecting x =>
    refine .inl (State.read_replies _ (fun l hl => ?_) h)
    split at hl <;> exact hl

/-! ### Numbers -/

/-- The entries of a ledger are numbered in their order. -/
def Ledger.Numbered (l : Ledger) : Prop := ∀ (i : Nat) (e : Entry), l.appends[i]? = some e → e.seq = i + 1

/-- A numbered ledger has one entry for a number. -/
theorem Ledger.Numbered.unique (h : l.Numbered) {e e' : Entry} (he : e ∈ l.appends) (he' : e' ∈ l.appends)
    (hseq : e'.seq = e.seq) : e' = e := by
  obtain ⟨i, hi⟩ := List.mem_iff_getElem?.mp he
  obtain ⟨j, hj⟩ := List.mem_iff_getElem?.mp he'
  obtain rfl : j = i := Nat.succ.inj ((h j e' hj).symm.trans (hseq.trans (h i e hi)))
  exact Option.some.inj (hj.symm.trans hi)

theorem Ledger.Numbered.leadsTo (h : l.Numbered) (hlead : l.LeadsTo l')
    (hlength : l'.appends.length = l.appends.length) : l'.Numbered := by
  intro i e he
  obtain ⟨hi, -⟩ := List.getElem?_eq_some_iff.mp he
  rw [hlength] at hi
  obtain ⟨e', he', hto⟩ := hlead i _ (List.getElem?_eq_getElem hi)
  obtain rfl := Option.some.inj (he.symm.trans he')
  rw [hto.seq, h i _ (List.getElem?_eq_getElem hi)]

theorem Ledger.Numbered.append (h : l.Numbered) {e : Entry} (hseq : e.seq = l.appends.length + 1) :
    (Ledger.mk (l.appends ++ [e])).Numbered := by
  intro i x hx
  rcases lt_or_ge i l.appends.length with hi | hi
  · rw [List.getElem?_append_left hi] at hx
    exact h i x hx
  · -- only the new entry is behind the old ones
    rw [List.getElem?_append_right hi, List.getElem?_singleton] at hx
    split_ifs at hx with hzero
    obtain rfl := Option.some.inj hx
    rw [hseq]
    omega

/-- What a call writes is numbered as what it has read. -/
theorem numbered_write {point : Point} {w : Write} (hw : point.write? = some w) (hlead : w.base.LeadsTo w.result)
    (h : w.base.Numbered) : w.result.Numbered := by
  unfold Point.write? at hw
  split at hw
  · obtain rfl := Option.some.inj hw
    exact h.append rfl
  · obtain rfl := Option.some.inj hw
    exact h.leadsTo hlead length_update
  · obtain rfl := Option.some.inj hw
    exact h.leadsTo hlead length_update
  · obtain rfl := Option.some.inj hw
    exact h.leadsTo hlead length_update
  · cases hw

/-! ### What every state of a run has -/

/-- Every append that was received is in its ledger, and every ledger is numbered. -/
structure Invariant (s : State) : Prop where
  numbered : ∀ source l, readLedger s.files source = .ok l → l.Numbered
  recorded : ∀ source receipt seq, .appendReceived source receipt seq ∈ s.replies →
    ∃ l, readLedger s.files source = .ok l ∧ ∃ e ∈ l.appends, e.receipt = receipt ∧ e.seq = seq

/-- The ledgers of a state are still there in a later one, entry by entry. -/
def Kept (s s' : State) : Prop :=
  ∀ source l, readLedger s.files source = .ok l → ∃ l', readLedger s'.files source = .ok l' ∧ l.LeadsTo l'

theorem Kept.trans (h : Kept s s') (h' : Kept s' s'') : Kept s s'' := by
  intro source l hl
  obtain ⟨m, hm, hlm⟩ := h source l hl
  obtain ⟨n, hn, hmn⟩ := h' source m hm
  exact ⟨n, hn, hlm.trans hmn⟩

theorem kept_step (hu : Undisturbed s p a) (h : step s p a = some s') : Kept s s' := by
  intro source l hl
  rcases files_step hu h with hfiles | ⟨w, hbase, hlead, -, hfiles⟩
  · exact ⟨l, by rw [hfiles, hl], .refl l⟩
  · rw [hfiles]
    by_cases hsource : source = w.source
    · subst hsource
      obtain rfl := Except.ok.inj (hbase.symm.trans hl)
      exact ⟨w.result, readLedger_writeLedger, hlead⟩
    · exact ⟨l, by rw [readLedger_writeLedger_of_ne hsource, hl], .refl l⟩

/-- A reply that a step adds is that of a call which has just written the entry. -/
theorem appendReceived_of_step {seq : Nat} (hstep : step s p a = some s')
    (h : .appendReceived source receipt seq ∈ s'.replies) : .appendReceived source receipt seq ∈ s.replies ∨
      ∃ base draft, s.point p = .adding source base draft ∧ receipt = draft.receipt ∧
        seq = base.appends.length + 1 ∧ s'.files = writeLedger s.files source
          ⟨base.appends ++ [draft.entry seq]⟩ := by
  cases a with
  | append source' draft =>
    rw [step] at hstep
    split_ifs at hstep
    exact .inl (by rwa [← Option.some.inj hstep] at h)
  | apply receipt' answers =>
    rw [step] at hstep
    split_ifs at hstep
    obtain rfl := Option.some.inj hstep
    refine .inl ?_
    -- none of its replies is `APPEND_RECEIVED`
    have hreturn : ∀ reply, reply ≠ .appendReceived source receipt seq →
        .appendReceived source receipt seq ∈ (s.return p reply).replies →
          .appendReceived source receipt seq ∈ s.replies := by
      intro reply hne hmem
      rcases List.mem_append.mp hmem with hmem | hmem
      · exact hmem
      · exact absurd (List.mem_singleton.mp hmem).symm hne
    rw [applyAppend] at h
    split at h
    · exact hreturn _ (by simp) h
    · split at h
      · exact hreturn _ (by simp) h
      · exact hreturn _ (by simp) h
      · exact h
  | fail =>
    rw [step] at hstep
    split_ifs at hstep
    exact .inl (by rwa [← Option.some.inj hstep] at h)
  | go rids =>
    rw [step] at hstep
    split_ifs at hstep
    obtain rfl := Option.some.inj hstep
    rcases appendReceived_of_go h with h | ⟨base, draft, hpoint, hreceipt, hseq⟩
    · exact .inl h
    · refine .inr ⟨base, draft, hpoint, hreceipt, hseq, ?_⟩
      rw [files_go, hpoint, hseq]
      rfl

theorem Invariant.step (hi : Invariant s) (hu : Undisturbed s p a) (h : step s p a = some s') : Invariant s' := by
  have hkept := kept_step hu h
  constructor
  · intro source l hl
    rcases files_step hu h with hfiles | ⟨w, hbase, hlead, hwrite, hfiles⟩
    · exact hi.numbered source l (by rw [← hfiles, hl])
    · rw [hfiles] at hl
      by_cases hsource : source = w.source
      · subst hsource
        obtain rfl := Except.ok.inj (readLedger_writeLedger.symm.trans hl)
        exact numbered_write hwrite hlead (hi.numbered _ _ hbase)
      · exact hi.numbered source l (by rw [← readLedger_writeLedger_of_ne hsource, hl])
  · intro source receipt seq hreply
    rcases appendReceived_of_step h hreply with hold | ⟨base, draft, -, hreceipt, -, hfiles⟩
    · obtain ⟨l, hl, e, he, rfl, rfl⟩ := hi.recorded source receipt seq hold
      obtain ⟨l', hl', hlead⟩ := hkept source l hl
      obtain ⟨i, hget⟩ := List.mem_iff_getElem?.mp he
      obtain ⟨e', hget', hto⟩ := hlead i e hget
      exact ⟨l', hl', e', List.mem_iff_getElem?.mpr ⟨i, hget'⟩, hto.receipt, hto.seq⟩
    · refine ⟨_, by rw [hfiles]; exact readLedger_writeLedger, draft.entry seq, ?_, hreceipt.symm, rfl⟩
      exact List.mem_append_right _ (List.mem_singleton_self _)

theorem Invariant.runs (hi : Invariant s) (h : Runs s s') : Invariant s' := by
  induction h with
  | refl => exact hi
  | tail _ hstep ih =>
    obtain ⟨p, a, hu, hstep⟩ := hstep
    exact ih.step hu hstep

theorem kept_runs (h : Runs s s') : Kept s s' := by
  induction h with
  | refl => exact fun source l hl => ⟨l, hl, .refl l⟩
  | tail _ hstep ih =>
    obtain ⟨p, a, hu, hstep⟩ := hstep
    exact ih.trans (kept_step hu hstep)

/-- No call is under way and nothing has been returned. The ledgers are numbered. -/
structure State.Initial (s : State) : Prop where
  idle : ∀ p, s.point p = .idle
  replies : s.replies = []
  numbered : ∀ source l, readLedger s.files source = .ok l → l.Numbered

/-- What the calls promise of two states of a run. -/
structure AppendsKept (s s' : State) : Prop where
  /-- A received append is in its ledger, the only one with its number. -/
  received : ∀ source receipt seq, .appendReceived source receipt seq ∈ s'.replies →
    ∃ l, readLedger s'.files source = .ok l ∧ ∃ e ∈ l.appends, e.receipt = receipt ∧ e.seq = seq ∧
      ∀ e' ∈ l.appends, e'.seq = seq → e' = e
  /-- Every entry is in its place, and its state has not gone back. -/
  kept : Kept s s'

/-- **No lost appends.** In runs of undisturbed steps every append stays with its number and no state goes
back; and in every state reached the observation is sound exactly where the ledgers decode or one that decodes
has a received append. -/
theorem appends_kept {s₀ : State} (hinit : s₀.Initial) (h : Runs s₀ s) (h' : Runs s s') :
    AppendsKept s s' ∧ (ObservationSound s'.files ↔ (∀ file ∈ s'.files, Decodes s'.files file.1) ∨
      ∃ file ∈ s'.files, ∃ l, readLedger s'.files file.1 = .ok l ∧ ∃ e ∈ l.appends, e.state = .received) := by
  have hstart : Invariant s₀ := ⟨hinit.numbered, fun source receipt seq hreply => by
    rw [hinit.replies] at hreply
    cases hreply⟩
  have hinv : Invariant s' := (hstart.runs h).runs h'
  refine ⟨⟨fun source receipt seq hreply => ?_, kept_runs h'⟩, observationSound_iff⟩
  obtain ⟨l, hl, e, he, hreceipt, hseq⟩ := hinv.recorded source receipt seq hreply
  exact ⟨l, hl, e, he, hreceipt, hseq, fun e' he' hseq' =>
    (hinv.numbered source l hl).unique he he' (hseq'.trans hseq.symm)⟩

/-! ### Lost appends -/

/-- The steps of a run, one after the other. -/
def runSteps (s : State) : List (Nat × Action) → Option State
  | [] => some s
  | (p, a) :: rest => (step s p a).bind (runSteps · rest)

/-- No calls over ledger files. -/
def ledgersOf (files : Directory) : State := ⟨files, fun _ => .idle, []⟩

theorem ledgersOf_initial : (ledgersOf []).Initial := by
  refine ⟨fun _ => rfl, rfl, fun source l hl => ?_⟩
  obtain rfl := Except.ok.inj hl
  intro i e he
  cases he

/-- An append of a requirement to `SRC-001`. -/
def draftOf (receipt : String) : Draft := ⟨receipt, "APPEND", "implementation", [], "", "2026-10-01T00:00:00Z", none⟩

/-- Two calls read the ledger before either writes it. -/
def twoAppends : List (Nat × Action) :=
  [(1, .append "SRC-001" (draftOf "SRC-002")), (2, .append "SRC-001" (draftOf "SRC-003")), (1, .go []), (2, .go []),
    (1, .go []), (2, .go [])]

/-- Both appends return `APPEND_RECEIVED` with the number 1 and the first one is lost. A project with a ledger
that does not decode is told nothing. -/
theorem append_lost : (ledgersOf []).Initial ∧
    (∃ s : State, runSteps (ledgersOf []) twoAppends = some s ∧
      s.replies = [.appendReceived "SRC-001" "SRC-002" 1, .appendReceived "SRC-001" "SRC-003" 1] ∧
      readLedger s.files "SRC-001" = .ok ⟨[(draftOf "SRC-003").entry 1]⟩) ∧
    ¬ ObservationSound [("SRC-001", .error "append ledger SRC-001 is unreadable")] := by
  refine ⟨ledgersOf_initial, ⟨_, rfl, rfl, rfl⟩, fun h => ?_⟩
  have hnone : pendingAppendProjection [("SRC-001", .error "append ledger SRC-001 is unreadable")] = none := by
    refine pendingAppendProjection_eq_none_iff.mpr fun file hfile l hl => ?_
    obtain rfl := List.mem_singleton.mp hfile
    cases hl
  obtain ⟨l, hl, -⟩ := h hnone _ (List.mem_singleton_self _)
  cases hl

/-! ### Appends one after the other -/

@[simp] theorem State.goTo_self (point : Point) : (s.goTo p point).point p = point := Function.update_self ..

/-- A step that writes nothing is undisturbed. -/
theorem undisturbed_of_read (h : (s.point p).write? = none) : Undisturbed s p a := by
  refine fun rids _ => ⟨fun w hw => ?_, fun x base hpoint => ?_⟩
  · rw [h] at hw
    cases hw
  · rw [hpoint] at h
    cases h

theorem step_go {rids : List String} {point : Point} (hpoint : s.point p = point) (hbusy : point ≠ .idle) :
    step s p (.go rids) = some (go s p rids point) := by
  rw [step, hpoint, if_neg hbusy]

/-- A call of `append` that no other call disturbs. -/
theorem runs_append {draft : Draft} (hidle : s.point p = .idle) (hread : readLedger s.files source = .ok l)
    (hnew : l.entry draft.receipt = none) : ∃ s', Runs s s' ∧ s'.point p = .idle ∧
      s'.replies = s.replies ++ [.appendReceived source draft.receipt (l.appends.length + 1)] ∧
      readLedger s'.files source = .ok ⟨l.appends ++ [draft.entry (l.appends.length + 1)]⟩ := by
  have hcaptured : step s p (.append source draft) = some (s.goTo p (.captured source draft)) := if_pos hidle
  have hadding : step (s.goTo p (.captured source draft)) p (.go []) =
      some ((s.goTo p (.captured source draft)).goTo p (.adding source l draft)) := by
    rw [step_go (State.goTo_self _) (by simp), go, State.read, State.goTo_files, hread]
    dsimp only
    rw [hnew]
  have hwritten : step ((s.goTo p (.captured source draft)).goTo p (.adding source l draft)) p (.go []) =
      some (go ((s.goTo p (.captured source draft)).goTo p (.adding source l draft)) p []
        (.adding source l draft)) := step_go (State.goTo_self _) (by simp)
  refine ⟨_, ((Relation.ReflTransGen.single ⟨p, _, undisturbed_of_read ?_, hcaptured⟩).tail
    ⟨p, _, undisturbed_of_read ?_, hadding⟩).tail ⟨p, _, ?_, hwritten⟩, State.goTo_self _, rfl,
    readLedger_writeLedger⟩
  · -- the file is as the call has read it
    refine fun rids _ => ⟨fun w hw => ?_, fun x base hpoint => ?_⟩
    · rw [State.goTo_self] at hw
      obtain rfl := Option.some.inj hw
      exact hread
    · rw [State.goTo_self] at hpoint
      cases hpoint
  · rw [hidle]
    rfl
  · rw [State.goTo_self]
    rfl

/-- Two appends one after the other are both in the ledger. -/
theorem appends_kept_sample : ∃ s s' : State,
    s.replies = [.appendReceived "SRC-001" "SRC-002" 1] ∧
      s'.replies = [.appendReceived "SRC-001" "SRC-002" 1, .appendReceived "SRC-001" "SRC-003" 2] ∧
      AppendsKept s s' := by
  have hidle₀ : (ledgersOf []).point 1 = .idle := rfl
  have hread₀ : readLedger (ledgersOf []).files "SRC-001" = .ok ⟨[]⟩ := rfl
  have hnew₀ : (⟨[]⟩ : Ledger).entry (draftOf "SRC-002").receipt = none := rfl
  obtain ⟨s, hrun, hidle, hreplies, hread⟩ := runs_append hidle₀ hread₀ hnew₀
  have hnew : Ledger.entry ⟨[] ++ [(draftOf "SRC-002").entry 1]⟩ (draftOf "SRC-003").receipt = none := by decide
  obtain ⟨s', hrun', -, hreplies', -⟩ := runs_append hidle hread hnew
  rw [hreplies] at hreplies'
  exact ⟨s, s', hreplies, hreplies', (appends_kept ledgersOf_initial hrun hrun').1⟩

end Saipen.SourceAppend

import Saipen.Dispatch.Ledger
import Saipen.Run

/-! # The dispatch ledger across crashes

A dispatcher loads the ledger and commits transitions under the dispatch lock, and may die between any
two of its writes or in the middle of an append. What is read afterwards is what was committed, until
an append follows one that was torn: from there on nothing can be read. -/

namespace Saipen.Dispatch

open Text Replay

variable {ν δ : Type} {F : Format ν δ} {legacy : List String} {d : Disk ν δ}
  {committed rows : List (String × ν)} {t : Bytes}

/-! ### What is to be read -/

/-- What the mirror says of a key that is known from nowhere else. -/
def adopted (F : Format ν δ) (legacy : List String) (k : String) : Option ν :=
  if k ∈ legacy ∧ k ≠ "" then some F.migrated else none

/-- What is to be read of a key: its last transition, or what the mirror says. -/
def recorded (F : Format ν δ) (legacy : List String) (committed : List (String × ν)) (k : String) : Option ν :=
  ((replay [] committed).lookup k).or (adopted F legacy k)

theorem recorded_concat (row : String × ν) (k : String) :
    recorded F legacy (committed ++ [row]) k =
      if k = row.1 then some row.2 else recorded F legacy committed k := by
  rw [recorded, lookup_replay_concat]
  by_cases hk : k = row.1
  · rw [if_pos hk, if_pos hk, Option.some_or]
  · rw [if_neg hk, if_neg hk, recorded]

/-! ### What is on the disk -/

theorem count_linesOf (hF : F.Lawful) (hfits : Fits F rows) : (linesOf F rows).count 10 = rows.length := by
  induction rows with
  | nil => rfl
  | cons row rows ih =>
    have hnone : (F.dumps row.1 row.2).count 10 = 0 :=
      List.count_eq_zero.mpr (hF.newline _ _ (hfits row List.mem_cons_self).1)
    rw [linesOf_cons, List.count_append, hnone, List.count_cons_self, List.length_cons,
      ih fun r hr => hfits r (List.mem_cons_of_mem _ hr)]
    omega

/-- The first line of a text is determined by it. -/
theorem line_inj {a b x y : Bytes} (ha : 10 ∉ a) (hb : 10 ∉ b) (h : a ++ 10 :: x = b ++ 10 :: y) :
    a = b ∧ x = y := by
  induction a generalizing b with
  | nil =>
    cases b with
    | nil => exact ⟨rfl, (List.cons.inj h).2⟩
    | cons c b => exact absurd ((List.cons.inj h).1 ▸ List.mem_cons_self) hb
  | cons c a ih =>
    cases b with
    | nil => exact absurd ((List.cons.inj h).1 ▸ List.mem_cons_self) ha
    | cons e b =>
      rw [List.mem_cons, not_or] at ha hb
      obtain ⟨rfl, htail⟩ := List.cons.inj h
      obtain ⟨rfl, rfl⟩ := ih ha.2 hb.2 htail
      exact ⟨rfl, rfl⟩

/-- Where lines begin like other lines, the transitions do. -/
theorem prefix_of_linesOf (hF : F.Lawful) {first : List (String × ν)} (hfirst : Fits F first)
    (hrows : Fits F rows) (hten : 10 ∉ t) (h : linesOf F first <+: linesOf F rows ++ t) : first <+: rows := by
  induction first generalizing rows with
  | nil => exact List.nil_prefix
  | cons p first ih =>
    obtain ⟨rest, hrest⟩ := h
    rw [linesOf_cons, List.append_assoc, List.cons_append] at hrest
    cases rows with
    | nil =>
      rw [linesOf_nil, List.nil_append] at hrest
      exact absurd (hrest ▸ (by simp : (10 : UInt8) ∈ F.dumps p.1 p.2 ++ 10 :: (linesOf F first ++ rest))) hten
    | cons q rows =>
      rw [linesOf_cons, List.append_assoc, List.cons_append] at hrest
      -- the first lines are the same, and so are the transitions read from them
      have hp := (hfirst p List.mem_cons_self).1
      have hq := (hrows q List.mem_cons_self).1
      obtain ⟨hdumps, htail⟩ := line_inj (hF.newline _ _ hq) (hF.newline _ _ hp) hrest.symm
      have hloads := hF.loads_dumps _ _ hp
      rw [← hdumps, hF.loads_dumps _ _ hq] at hloads
      have hpq : q = p := by
        obtain ⟨hk, hr⟩ := Prod.mk.inj (Option.some.inj hloads)
        exact Prod.ext hk (Option.some.inj hr)
      rw [hpq, List.prefix_cons_inj]
      exact ih (fun r hr => hfirst r (List.mem_cons_of_mem _ hr)) (fun r hr => hrows r (List.mem_cons_of_mem _ hr))
        ⟨rest, htail.symm⟩

/-- The journal holds these transitions and a torn append, the checkpoint absorbed the transitions
whose lines it names, and together they read as what was committed. -/
structure Sound (F : Format ν δ) (legacy : List String) (d : Disk ν δ) (committed rows : List (String × ν))
    (t : Bytes) : Prop where
  journal : d.journal = linesOf F rows ++ t
  fits : Fits F rows
  newline : 10 ∉ t
  carriage : 13 ∉ t
  brace : t = [] ∨ t.head? = some 123
  absorbed : ∃ first, Fits F first ∧ (readCheckpoint F d).absorbedBytes = (linesOf F first).length ∧
    (readCheckpoint F d).absorbedSha256 = F.sha256 (linesOf F first) ∧
    Settled (readCheckpoint F d).records first
  reads : ∀ k, ((replay (readCheckpoint F d).records rows).lookup k).or (adopted F d.legacy k) =
    recorded F legacy committed k

/-- The last byte of the journal is no newline. -/
def torn (d : Disk ν δ) : Bool := d.journal.getLast?.any (· ≠ 10)

theorem Sound.torn_eq (h : Sound F legacy d committed rows t) : torn d = decide (t ≠ []) := by
  rw [torn, h.journal]
  by_cases ht : t = []
  · rcases List.eq_nil_or_concat rows with rfl | ⟨init, row, rfl⟩
    · simp [ht]
    · simp [ht, linesOf_concat, transitionLine, List.getLast?_append]
  · have hlast : t.getLast ht ≠ 10 := fun heq => h.newline (heq ▸ List.getLast_mem ht)
    simp [ht, List.getLast?_append, List.getLast?_eq_some_getLast ht, hlast]

/-! ### What a commit leaves -/

/-- The append of a commit. -/
theorem Sound.append (h : Sound F legacy d committed rows []) {k : String} {r : ν}
    (hwrite : F.writable k r = true) (hfit : (transitionLine F (k, r)).length ≤ maxJournalRecordBytes) :
    Sound F legacy { d with journal := d.journal ++ transitionLine F (k, r) } (committed ++ [(k, r)])
      (rows ++ [(k, r)]) [] where
  journal := by
    show d.journal ++ _ = _
    rw [h.journal, linesOf_concat, List.append_nil, List.append_nil]
  fits row hrow := by
    rcases List.mem_append.mp hrow with hold | hnew
    · exact h.fits row hold
    · rw [List.mem_singleton.mp hnew]
      exact ⟨hwrite, hfit⟩
  newline := h.newline
  carriage := h.carriage
  brace := h.brace
  absorbed := h.absorbed
  reads j := by
    rw [recorded_concat, ← h.reads j]
    show ((replay (readCheckpoint F d).records (rows ++ [(k, r)])).lookup j).or (adopted F d.legacy j) = _
    rw [lookup_replay_concat]
    by_cases hj : j = k
    · rw [if_pos hj, if_pos hj, Option.some_or]
    · rw [if_neg hj, if_neg hj]

/-- A disk with a checkpoint that has it all, whatever of the journal is there. -/
theorem sound_of_checkpoint {c : Checkpoint ν δ} {first mirror} (hfirst : Fits F first)
    (hbytes : c.absorbedBytes = (linesOf F first).length) (hdigest : c.absorbedSha256 = F.sha256 (linesOf F first))
    (habsorbed : Settled c.records first) (hrows : Fits F rows) (hsettled : Settled c.records rows)
    (hreads : ∀ k, c.records.lookup k = recorded F legacy committed k)
    (hmirror : ∀ k, (recorded F legacy committed k).or (adopted F mirror k) = recorded F legacy committed k) :
    Sound F legacy ⟨some c, linesOf F rows, mirror⟩ committed rows [] where
  journal := (List.append_nil _).symm
  fits := hrows
  newline := by simp
  carriage := by simp
  brace := Or.inl rfl
  absorbed := ⟨first, hfirst, hbytes, hdigest, habsorbed⟩
  reads k := by
    show ((replay c.records rows).lookup k).or (adopted F mirror k) = _
    rw [hsettled k, hreads k, hmirror k]

/-- What the mirror says is read already. -/
theorem Sound.or_adopted (h : Sound F legacy d committed rows t) (k : String) :
    (recorded F legacy committed k).or (adopted F d.legacy k) = recorded F legacy committed k := by
  rw [← h.reads k, Option.or_assoc, Option.or_self]

/-- Each write of a compaction keeps what is read. -/
theorem Sound.checkpoint (hF : F.Lawful) (h : Sound F legacy d committed rows []) {ledger : List (String × ν)}
    (hledger : ∀ k, ledger.lookup k = recorded F legacy committed k) {d' : Disk ν δ}
    (hd : d' ∈ checkpointJournal F d ledger) : ∃ rows', Sound F legacy d' committed rows' [] := by
  have hjournal : d.journal = linesOf F rows := h.journal.trans (List.append_nil _)
  have hread := readJournal_linesOf hF h.fits h.newline h.carriage
  rw [← h.journal] at hread
  -- of the keys in the journal the ledger says what the journal says
  have hsettled : Settled ledger rows := by
    refine @settled_of_agree ν rows ledger (readCheckpoint F d).records fun k hk => ?_
    obtain ⟨v, hv, -⟩ := lookup_replay_of_mem (readCheckpoint F d).records [] hk
    rw [hledger k, ← h.reads k, hv, Option.some_or]
  have hmirror : ∀ k, (recorded F legacy committed k).or (adopted F (legacyMirror F ledger) k) =
      recorded F legacy committed k := by
    intro k
    cases hk : recorded F legacy committed k with
    | some v => rfl
    | none =>
      -- the new mirror names keys of the ledger only
      rw [Option.none_or, adopted, if_neg]
      rintro ⟨hmem, -⟩
      rw [legacyMirror, List.mem_mergeSort] at hmem
      have hkey : k ∈ ledger.map Prod.fst := (List.filter_sublist.map Prod.fst).subset hmem
      exact Assoc.notMem_iff_lookup.mpr ((hledger k).trans hk) hkey
  have hnil : Fits F ([] : List (String × ν)) := by simp [Fits]
  rw [checkpointJournal, hread] at hd
  simp only [List.length_nil, Nat.sub_zero, List.take_length, hjournal] at hd
  rcases List.mem_cons.mp hd with rfl | hd
  · -- the checkpoint is there, and the journal still is
    exact ⟨rows, sound_of_checkpoint h.fits rfl rfl hsettled h.fits hsettled hledger h.or_adopted⟩
  rcases List.mem_cons.mp hd with rfl | hd
  · -- the journal is emptied: the lines the checkpoint names are gone, which no load minds
    exact ⟨[], sound_of_checkpoint h.fits rfl rfl hsettled hnil (fun _ => rfl) hledger h.or_adopted⟩
  · rw [List.mem_singleton.mp hd]
    exact ⟨[], sound_of_checkpoint h.fits rfl rfl hsettled hnil (fun _ => rfl) hledger hmirror⟩

/-- What a commit leaves on the disk: its append, or what the compaction behind it makes of that. -/
theorem commit_cases {ledger : List (String × ν)} {k : String} {r : ν} {d' : Disk ν δ}
    (hd : d' ∈ commitTransition F d ledger k r) :
    F.writable k r = true ∧ (transitionLine F (k, r)).length ≤ maxJournalRecordBytes ∧
      (d' = { d with journal := d.journal ++ transitionLine F (k, r) } ∨
        d' ∈ checkpointJournal F { d with journal := d.journal ++ transitionLine F (k, r) }
          (Assoc.set k r ledger)) := by
  rw [commitTransition] at hd
  dsimp only at hd
  split_ifs at hd with hrefused hgrown
  · simp at hd
  all_goals rw [not_or, Bool.not_eq_false, not_lt] at hrefused
  · exact ⟨hrefused.1, hrefused.2, List.mem_cons.mp hd⟩
  · exact ⟨hrefused.1, hrefused.2, Or.inl (List.mem_singleton.mp hd)⟩

/-- An append that is cut short. -/
theorem Sound.cut (hF : F.Lawful) (h : Sound F legacy d committed rows t) {k : String} {r : ν}
    (hwrite : F.writable k r = true) {u : Bytes} (hu : u <+: F.dumps k r) :
    Sound F legacy { d with journal := d.journal ++ u } committed rows (t ++ u) where
  journal := by
    show d.journal ++ u = _
    rw [h.journal, List.append_assoc]
  fits := h.fits
  newline hmem := (List.mem_append.mp hmem).elim h.newline fun hin => hF.newline _ _ hwrite (hu.subset hin)
  carriage hmem := (List.mem_append.mp hmem).elim h.carriage fun hin => hF.carriage _ _ hwrite (hu.subset hin)
  brace := by
    rcases h.brace with rfl | hbrace
    · cases u with
      | nil => exact Or.inl rfl
      | cons b u =>
        obtain ⟨rest, hrest⟩ := hu
        have hhead := hF.brace _ _ hwrite
        rw [← hrest] at hhead
        exact Or.inr hhead
    · obtain ⟨t', rfl⟩ := List.head?_eq_some_iff.mp hbrace
      exact Or.inr rfl
  absorbed := h.absorbed
  reads := h.reads

/-! ### What is read -/

variable [DecidableEq δ]

/-- What a load replays reads as the whole journal. -/
theorem Sound.replayed (hF : F.Lawful) (hsha : Function.Injective F.sha256)
    (h : Sound F legacy d committed rows t) (k : String) :
    (replay (readCheckpoint F d).records
      (rows.drop (replayedFrom F (readCheckpoint F d) d.journal))).lookup k =
      (replay (readCheckpoint F d).records rows).lookup k := by
  obtain ⟨first, hfirst, hbytes, hdigest, hsettled⟩ := h.absorbed
  rw [replayedFrom]
  split_ifs with habsorbed
  · -- the digest tells that the journal begins with what was absorbed
    obtain ⟨-, -, hsame⟩ := habsorbed
    have htake : d.journal.take (readCheckpoint F d).absorbedBytes = linesOf F first :=
      hsha (hsame.trans hdigest)
    have hprefixed : linesOf F first <+: linesOf F rows ++ t := by
      rw [← htake, h.journal]
      exact List.take_prefix _ _
    obtain ⟨rest, hrest⟩ := prefix_of_linesOf hF hfirst h.fits h.newline hprefixed
    rw [htake, count_linesOf hF hfirst, ← hrest, List.drop_left]
    exact (hsettled.lookup_append rest).symm
  · rfl

/-- **A sound disk reads as what was committed.** -/
theorem Sound.load (hF : F.Lawful) (hsha : Function.Injective F.sha256)
    (h : Sound F legacy d committed rows t) :
    ∃ ledger, loadDispatchLedger F d = some ledger ∧ ∀ k, ledger.lookup k = recorded F legacy committed k := by
  have hread := readJournal_linesOf hF h.fits h.newline h.carriage
  rw [← h.journal] at hread
  refine ⟨_, by rw [loadDispatchLedger, hread, Option.bind_some, ← List.map_drop, applyJournal_rows,
    Option.map_some], fun k => ?_⟩
  rw [lookup_migrate, ← h.reads k, ← h.replayed hF hsha k]
  have hsame := h.replayed hF hsha k
  set records := replay (readCheckpoint F d).records
    (rows.drop (replayedFrom F (readCheckpoint F d) d.journal)) with hrecords
  cases hk : records.lookup k with
  | some v =>
    -- a key that was replayed is known, so the mirror adds nothing to it
    have hmem : k ∈ records.map Prod.fst := by
      by_contra hnot
      rw [Assoc.notMem_iff_lookup.mp hnot] at hk
      exact absurd hk (by simp)
    rw [if_neg fun hnew => hnew.2.2 (List.mem_append_right _ hmem), Option.some_or]
  | none =>
    -- a key that is missing is in no row of the journal, absorbed or not
    have hrecord : k ∉ records.map Prod.fst := Assoc.notMem_iff_lookup.mpr hk
    have hrow : k ∉ rows.map Prod.fst := fun hmem => by
      obtain ⟨v, hv, -⟩ := lookup_replay_of_mem (readCheckpoint F d).records [] hmem
      rw [← hsame, hk] at hv
      exact absurd hv (by simp)
    rw [Option.none_or, adopted]
    refine if_congr ?_ rfl rfl
    simp only [List.map_map, List.mem_append, not_or]
    exact ⟨fun hnew => ⟨hnew.1, hnew.2.1⟩, fun hold => ⟨hold.1, hold.2, hrow, hrecord⟩⟩

/-- A ledger that reads like the one on the disk. -/
def Loads (F : Format ν δ) (d : Disk ν δ) (ledger : List (String × ν)) : Prop :=
  ∃ loaded, loadDispatchLedger F d = some loaded ∧ ∀ k, ledger.lookup k = loaded.lookup k

/-- **A commit, and a crash between its writes.** -/
theorem Sound.commit (hF : F.Lawful) (hsha : Function.Injective F.sha256)
    (h : Sound F legacy d committed rows []) {ledger : List (String × ν)} (hloads : Loads F d ledger)
    {k : String} {r : ν} {d' : Disk ν δ} (hd : d' ∈ commitTransition F d ledger k r) :
    ∃ rows', Sound F legacy d' (committed ++ [(k, r)]) rows' [] := by
  obtain ⟨hwrite, hfit, hd⟩ := commit_cases hd
  have happended := h.append hwrite hfit
  rcases hd with rfl | hd
  · exact ⟨_, happended⟩
  · obtain ⟨loaded, hload, hsame⟩ := hloads
    obtain ⟨loaded', hload', hrecorded⟩ := h.load hF hsha
    obtain rfl : loaded = loaded' := Option.some.inj (hload.symm.trans hload')
    refine happended.checkpoint hF (fun j => ?_) hd
    rw [Assoc.lookup_set, recorded_concat, hsame j, hrecorded j]

/-- **An append behind a torn one loses the ledger.** -/
theorem Sound.glued (hF : F.Lawful) (h : Sound F legacy d committed rows t) (ht : t ≠ [])
    {ledger : List (String × ν)} {k : String} {r : ν} {d' : Disk ν δ}
    (hd : d' ∈ commitTransition F d ledger k r) : loadDispatchLedger F d' = none := by
  obtain ⟨hwrite, hfit, hd⟩ := commit_cases hd
  have hnone : readJournal F (d.journal ++ transitionLine F (k, r)) = none := by
    rw [h.journal]
    exact readJournal_glued hF h.fits h.newline h.carriage (h.brace.resolve_left ht) hwrite
  rcases hd with rfl | hd
  · rw [loadDispatchLedger, hnone, Option.bind_none]
  · rw [checkpointJournal, hnone] at hd
    simp at hd

/-! ### Runs -/

/-- The files, and what happened to them: the transitions whose append was complete, and whether one
of them came behind a torn append. -/
structure World (ν δ : Type) where
  disk : Disk ν δ
  committed : List (String × ν)
  glued : Bool

/-- What a dispatcher does while it holds the lock. -/
inductive Step (F : Format ν δ) : World ν δ → World ν δ → Prop
  /-- A commit, up to its end or to a crash after one of its writes. -/
  | commit {σ : World ν δ} {ledger : List (String × ν)} (hloads : Loads F σ.disk ledger) {k : String} {r : ν}
      {d : Disk ν δ} (hd : d ∈ commitTransition F σ.disk ledger k r) :
      Step F σ ⟨d, σ.committed ++ [(k, r)], σ.glued || torn σ.disk⟩
  /-- A crash in the middle of the append of a commit. -/
  | cut {σ : World ν δ} {ledger : List (String × ν)} (hloads : Loads F σ.disk ledger) {k : String} {r : ν}
      (hwrite : F.writable k r = true) {u : Bytes} (hu : u <+: F.dumps k r) :
      Step F σ { σ with disk := { σ.disk with journal := σ.disk.journal ++ u } }

/-- A project with the mirror from before there was a journal. -/
def World.initial (legacy : List String) : World ν δ := ⟨⟨none, [], legacy⟩, [], false⟩

/-- What every run keeps. -/
def Kept (F : Format ν δ) (legacy : List String) (σ : World ν δ) : Prop :=
  (σ.glued = true ∧ loadDispatchLedger F σ.disk = none) ∨
    (σ.glued = false ∧ ∃ rows t, Sound F legacy σ.disk σ.committed rows t)

theorem kept_initial (legacy : List String) : Kept F legacy (World.initial legacy) := by
  refine Or.inr ⟨rfl, [], [], ?_⟩
  exact
    { journal := rfl, fits := by simp [Fits], newline := by simp, carriage := by simp, brace := Or.inl rfl
      absorbed := ⟨[], by simp [Fits], rfl, rfl, fun _ => rfl⟩, reads := fun _ => rfl }

theorem Kept.step (hF : F.Lawful) (hsha : Function.Injective F.sha256) {σ τ : World ν δ}
    (h : Kept F legacy σ) (hstep : Step F σ τ) : Kept F legacy τ := by
  cases hstep with
  | commit hloads hd =>
    rcases h with ⟨-, hnone⟩ | ⟨hglued, rows, t, hsound⟩
    · -- nobody commits where the ledger cannot be read
      obtain ⟨loaded, hload, -⟩ := hloads
      rw [hnone] at hload
      exact absurd hload (by simp)
    · by_cases ht : t = []
      · subst ht
        exact Or.inr ⟨by simp [hglued, hsound.torn_eq], (hsound.commit hF hsha hloads hd).imp
          fun _ hrows => ⟨[], hrows⟩⟩
      · -- the torn text and the line behind it are one line, which is no JSON
        exact Or.inl ⟨by simp [hsound.torn_eq, ht], hsound.glued hF ht hd⟩
  | cut hloads hwrite hu =>
    rcases h with ⟨-, hnone⟩ | ⟨hglued, rows, t, hsound⟩
    · obtain ⟨loaded, hload, -⟩ := hloads
      rw [hnone] at hload
      exact absurd hload (by simp)
    · exact Or.inr ⟨hglued, rows, _, hsound.cut hF hwrite hu⟩

/-- **The ledger survives crashes, but for an append behind a torn one.** Whatever transitions are
committed and wherever the dispatchers die, a load reads of every key the last transition whose append
was complete, or else what the old mirror says; compactions, and crashes within them, change nothing.
Once a transition was appended behind a torn one, no load reads anything any more. -/
theorem ledger_survives_crashes (hF : F.Lawful) (hsha : Function.Injective F.sha256) (legacy : List String)
    {σ : World ν δ} (hrun : Run.Runs (Step F) (World.initial legacy) σ) :
    (σ.glued = true → loadDispatchLedger F σ.disk = none) ∧
    (σ.glued = false → ∃ ledger, loadDispatchLedger F σ.disk = some ledger ∧
      ∀ k, ledger.lookup k = recorded F legacy σ.committed k) := by
  have hkept := Run.keeps (fun _ _ hkeep hstep => Kept.step hF hsha hkeep hstep) hrun (kept_initial legacy)
  rcases hkept with ⟨hglued, hnone⟩ | ⟨hglued, rows, t, hsound⟩
  · exact ⟨fun _ => hnone, fun hfalse => absurd (hglued.symm.trans hfalse) (by decide)⟩
  · exact ⟨fun htrue => absurd (hglued.symm.trans htrue) (by decide), fun _ => hsound.load hF hsha⟩

/-- The line of a transition that accepts the key "a". -/
def sampleLine : Bytes :=
  "\x7b\"key\": \"a\", \"record\": \x7b\"status\": \"HOST_ACCEPTED\"\x7d\x7d".toList.map
    fun c => UInt8.ofNat c.toNat

def sampleFormat : Format Unit Bytes :=
  { writable := fun k _ => k = "a", dumps := fun _ _ => sampleLine
    loads := fun line => if line = sampleLine ++ [10] then some ("a", some ()) else none
    sha256 := id, accepted := fun _ => true, migrated := (), checkpointSize := fun _ => 0 }

theorem sampleFormat_lawful : sampleFormat.Lawful where
  loads_dumps k r hk := by
    obtain rfl : k = "a" := of_decide_eq_true hk
    simp [sampleFormat]
  newline k r hk := by
    show 10 ∉ sampleLine
    decide +kernel
  carriage k r hk := by
    show 13 ∉ sampleLine
    decide +kernel
  brace k r hk := by
    show sampleLine.head? = some 123
    decide +kernel
  glued t k r hk ht := by
    refine if_neg fun heq => ?_
    have hlength := congrArg List.length heq
    obtain ⟨t', rfl⟩ := List.head?_eq_some_iff.mp ht
    have hdumps : sampleFormat.dumps k r = sampleLine := rfl
    simp only [hdumps, List.length_append, List.length_cons] at hlength
    omega

/-- One transition is committed. -/
def sampleCommitted : World Unit Bytes := ⟨⟨none, sampleLine ++ [10], []⟩, [("a", ())], false⟩

/-- The dispatcher dies while it appends another one. -/
def sampleTorn : World Unit Bytes :=
  ⟨⟨none, sampleLine ++ [10] ++ sampleLine.take 7, []⟩, [("a", ())], false⟩

/-- The next dispatcher appends behind that. -/
def sampleGlued : World Unit Bytes :=
  ⟨⟨none, sampleLine ++ [10] ++ sampleLine.take 7 ++ (sampleLine ++ [10]), []⟩, [("a", ()), ("a", ())], true⟩

theorem sampleTorn_run : Run.Runs (Step sampleFormat) (World.initial []) sampleTorn := by
  have hempty : Loads sampleFormat (World.initial [] : World Unit Bytes).disk [] :=
    ⟨[], by decide +kernel, fun _ => rfl⟩
  have hcommit : sampleCommitted.disk ∈ commitTransition sampleFormat (World.initial []).disk [] "a" () := by
    decide +kernel
  have hloads : Loads sampleFormat sampleCommitted.disk [("a", ())] :=
    ⟨[("a", ())], by decide +kernel, fun _ => rfl⟩
  have hfirst : Step sampleFormat (World.initial []) sampleCommitted := .commit hempty hcommit
  have hcut : Step sampleFormat sampleCommitted sampleTorn :=
    @Step.cut _ _ _ sampleFormat sampleCommitted _ hloads "a" () rfl _ (List.take_prefix 7 sampleLine)
  exact (Relation.ReflTransGen.single hfirst).tail hcut

theorem sampleGlued_run : Run.Runs (Step sampleFormat) (World.initial []) sampleGlued := by
  have hloads : Loads sampleFormat sampleTorn.disk [("a", ())] :=
    ⟨[("a", ())], by decide +kernel, fun _ => rfl⟩
  have hcommit : sampleGlued.disk ∈ commitTransition sampleFormat sampleTorn.disk [("a", ())] "a" () := by
    decide +kernel
  have htorn : torn sampleTorn.disk = true := by decide +kernel
  have hstep := @Step.commit _ _ _ sampleFormat sampleTorn _ hloads _ _ _ hcommit
  rw [htorn] at hstep
  exact sampleTorn_run.tail hstep

theorem ledger_survives_crashes_sample :
    (∃ ledger, loadDispatchLedger sampleFormat sampleTorn.disk = some ledger ∧
      ∀ k, ledger.lookup k = recorded sampleFormat [] [("a", ())] k) ∧
    loadDispatchLedger sampleFormat sampleGlued.disk = none :=
  ⟨(ledger_survives_crashes sampleFormat_lawful Function.injective_id [] sampleTorn_run).2 rfl,
    (ledger_survives_crashes sampleFormat_lawful Function.injective_id [] sampleGlued_run).1 rfl⟩

end Saipen.Dispatch

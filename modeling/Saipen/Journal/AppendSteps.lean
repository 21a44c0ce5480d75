import Saipen.Journal.Publish
import Saipen.Journal.Rewrite
import Saipen.Journal.Accounts

/-! # The steps of an append

What `prepareAppendIntent` accepts, what each effect of an append does to the files of the journal
directory, and what `finishEntries` leaves there. A payload is staged where its name is free; a name
that is taken must hold bytes with the hash of the payload. -/

namespace Saipen

open FileTree DurableState

variable {env : Environment} {j : Journal} {d d' u : Disk}

/-! ### Requests -/

/-- A target the intent takes over: its path is owned, its action known, and a write comes with its
bytes and names no other hash. -/
structure AppendTarget.Accepted (env : Environment) (t : AppendTarget) (rel : Path) : Prop where
  action : (Action.ofName? t.action).isSome = true
  owned : ownedTargetPath env t.path = some rel
  bytes : t.action = "write" → ∃ c, t.content = some c ∧
    ∀ h, t.afterHash = some h → h = "" ∨ h = env.hashBytes c

/-- The entries of the intent from an index on. -/
def appendEntries (env : Environment) : Nat → List (AppendTarget × Path) → List Dict
  | _, [] => []
  | index, p :: ps => p.1.entry env index p.2 :: appendEntries env (index + 1) ps

/-- The intent takes a list over when it takes every target over and no two are one object, nor one
of the objects that are seen already. -/
structure AcceptedFrom (env : Environment) (seen : List String) (ts : List AppendTarget)
    (ps : List (AppendTarget × Path)) : Prop where
  targets : ps.map Prod.fst = ts
  accepted : ∀ p ∈ ps, p.1.Accepted env p.2
  distinct : (ps.map fun p => posix p.2).Nodup
  fresh : ∀ p ∈ ps, posix p.2 ∉ seen

theorem prepareAppendIntent_cons {index : Nat} {seen : List String} {t : AppendTarget}
    {ts : List AppendTarget} {es : List Dict} :
    prepareAppendIntent env index seen (t :: ts) = .ok es ↔
      ∃ rel rest, t.Accepted env rel ∧ posix rel ∉ seen ∧
        prepareAppendIntent env (index + 1) (seen ++ [posix rel]) ts = .ok rest ∧
        es = t.entry env index rel :: rest := by
  have hknown : ¬ (Action.ofName? t.action).isNone = true ↔ (Action.ofName? t.action).isSome = true := by
    cases Action.ofName? t.action <;> simp
  rw [prepareAppendIntent]
  constructor
  · intro h
    by_cases haction : (Action.ofName? t.action).isNone = true
    · rw [if_pos haction] at h
      cases h
    rw [if_neg haction] at h
    cases hrel : ownedTargetPath env t.path with
    | none => rw [hrel] at h; cases h
    | some rel =>
      simp only [hrel] at h
      split_ifs at h with hseen hbytes hhash
      cases hrest : prepareAppendIntent env (index + 1) (seen ++ [posix rel]) ts with
      | error e => rw [hrest] at h; cases h
      | ok rest =>
        rw [hrest] at h
        refine ⟨rel, rest, ⟨hknown.mp haction, hrel, fun hw => ?_⟩, hseen, hrest,
          (Except.ok.inj h).symm⟩
        obtain ⟨c, hc⟩ := Option.ne_none_iff_exists'.mp fun hn => hbytes ⟨hw, hn⟩
        refine ⟨c, hc, fun a ha => ?_⟩
        have hall := not_not.mp fun hn => hhash ⟨hw, hn⟩
        rw [ha, hc] at hall
        simpa using hall
  · rintro ⟨rel, rest, hacc, hseen, hrest, rfl⟩
    rw [if_neg (hknown.mpr hacc.action), hacc.owned]
    simp only
    have hbytes : ¬ (t.action = "write" ∧ t.content = none) := by
      rintro ⟨hw, hn⟩
      obtain ⟨c, hc, -⟩ := hacc.bytes hw
      rw [hn] at hc
      cases hc
    have hhash : ¬ (t.action = "write" ∧
        ¬ (t.afterHash.all fun h => h = "" ∨ some h = t.content.map env.hashBytes) = true) := by
      rintro ⟨hw, hn⟩
      obtain ⟨c, hc, hall⟩ := hacc.bytes hw
      apply hn
      cases ha : t.afterHash with
      | none => rfl
      | some a => simpa [hc] using hall a ha
    rw [if_neg hseen, if_neg hbytes, if_neg hhash, hrest]
    rfl

/-- What `_prepare_append_intent` accepts, and the entries it makes. -/
theorem prepareAppendIntent_eq_ok {ts : List AppendTarget} :
    ∀ {index : Nat} {seen : List String} {es : List Dict},
      prepareAppendIntent env index seen ts = .ok es ↔
        ∃ ps, AcceptedFrom env seen ts ps ∧ es = appendEntries env index ps := by
  induction ts with
  | nil =>
    intro index seen es
    constructor
    · intro h
      exact ⟨[], ⟨rfl, by simp, List.nodup_nil, by simp⟩, (Except.ok.inj h).symm⟩
    · rintro ⟨ps, h, rfl⟩
      rw [List.map_eq_nil_iff.mp h.targets]
      rfl
  | cons t ts ih =>
    intro index seen es
    rw [prepareAppendIntent_cons]
    constructor
    · rintro ⟨rel, rest, hacc, hseen, hrest, rfl⟩
      obtain ⟨ps, hps, rfl⟩ := ih.mp hrest
      refine ⟨(t, rel) :: ps, ⟨by rw [List.map_cons, hps.targets],
        List.forall_mem_cons.mpr ⟨hacc, hps.accepted⟩, ?_,
        List.forall_mem_cons.mpr ⟨hseen, fun p hp hm => hps.fresh p hp (List.mem_append_left _ hm)⟩⟩, rfl⟩
      rw [List.map_cons, List.nodup_cons]
      refine ⟨fun hm => ?_, hps.distinct⟩
      obtain ⟨p, hp, heq⟩ := List.mem_map.mp hm
      exact hps.fresh p hp (List.mem_append_right _ (List.mem_singleton.mpr heq))
    · rintro ⟨ps, h, rfl⟩
      cases ps with
      | nil => cases h.targets
      | cons p ps =>
        obtain ⟨rfl, hts⟩ := List.cons.inj h.targets
        obtain ⟨hacc, haccs⟩ := List.forall_mem_cons.mp h.accepted
        obtain ⟨hseen, hseens⟩ := List.forall_mem_cons.mp h.fresh
        obtain ⟨hnew, hdistinct⟩ := List.nodup_cons.mp h.distinct
        refine ⟨p.2, _, hacc, hseen, ih.mpr ⟨ps, ⟨hts, haccs, hdistinct, fun q hq hm => ?_⟩, rfl⟩, rfl⟩
        rcases List.mem_append.mp hm with hm | hm
        · exact hseens q hq hm
        · exact hnew (List.mem_map.mpr ⟨q, hq, List.mem_singleton.mp hm⟩)

/-! ### Files of the journal directory -/

/-- Two staged names of different indexes differ. -/
theorem stagedName_index {i k : Nat} {s t : String}
    (h : stagedName env i s = stagedName env k t) : i = k := by
  have hlist : Nat.toDigits 10 i ++ '_' :: ((env.hashText s).toList ++ ".staged".toList) =
      Nat.toDigits 10 k ++ '_' :: ((env.hashText t).toList ++ ".staged".toList) := by
    have := congrArg String.toList h
    simpa [stagedName, String.toList_append, Nat.toString_eq_repr, Nat.toList_repr] using this
  have hcut : ∀ (n : Nat) (cs : List Char),
      (Nat.toDigits 10 n ++ '_' :: cs).takeWhile (· ≠ '_') = Nat.toDigits 10 n := by
    intro n cs
    have hne : ∀ c ∈ Nat.toDigits 10 n, decide (c ≠ '_') = true := by
      intro c hc
      refine decide_eq_true ?_
      rintro rfl
      exact Nat.underscore_not_in_toDigits hc
    rw [List.takeWhile_append_of_pos hne]
    simp
  have hdigits : Nat.toDigits 10 i = Nat.toDigits 10 k := by
    rw [← hcut i, hlist, hcut]
  rw [← @Nat.ofDigitChars_toDigits 10 i (by omega) (by omega), hdigits,
    Nat.ofDigitChars_toDigits (by omega) (by omega)]

/-- A change of one file of the journal directory leaves the others alone. -/
theorem Journal.files_alter {mk : Bool} {f : Option (Node Content) → Option (Option (Node Content))}
    {name : String} (hdir : IsDirAt j.dir d) (h : alter mk f (j.dir ++ [name]) d = some d') :
    IsDirAt j.dir d' ∧ f ((j.files d).lookup name) = some ((j.files d').lookup name) ∧
      ∀ other, other ≠ name → (j.files d').lookup other = (j.files d).lookup other := by
  obtain ⟨es, hes⟩ := hdir
  obtain ⟨v, hv, hes'⟩ := probe_of_alter_entry hes h
  have hfiles : j.files d = es := by rw [Journal.files, dirEntries, hes]
  have hfiles' : j.files d' = setEntry name v es := by rw [Journal.files, dirEntries, hes']
  rw [hfiles, hfiles']
  exact ⟨⟨_, hes'⟩, by rw [hv, lookup_setEntry_self], fun other ho => lookup_setEntry_ne ho v es⟩

/-- A change that the file allows is made. -/
theorem Journal.exists_alter {mk : Bool}
    {f : Option (Node Content) → Option (Option (Node Content))} {name : String}
    (hdir : IsDirAt j.dir d) (h : (f ((j.files d).lookup name)).isSome = true) :
    ∃ d', alter mk f (j.dir ++ [name]) d = some d' := by
  obtain ⟨es, hes⟩ := hdir
  have hfiles : j.files d = es := by rw [Journal.files, dirEntries, hes]
  obtain ⟨v, hv⟩ := Option.isSome_iff_exists.mp h
  rw [hfiles] at hv
  have hone : alter mk f [name] es = some (setEntry name v es) := by
    rw [alter_singleton, hv]
    rfl
  obtain ⟨d', hd', -⟩ := alter_append hes (by simp) hone
  exact ⟨d', hd'⟩

/-! ### Staging -/

/-- The bytes a target stages: those of a write. -/
def AppendTarget.bytes (t : AppendTarget) : Option Content :=
  if t.action = "write" then t.content else none

/-- The file a payload is staged under. -/
def payloadName (env : Environment) (index : Nat) (p : AppendTarget × Path) : String :=
  stagedName env index (posix p.2)

theorem payloadName_ne (env : Environment) (index : Nat) (p : AppendTarget × Path) {s : String}
    (h : s.toList.getLast? ≠ some 'd') : payloadName env index p ≠ s := stagedName_ne env _ _ h

/-- A name that a payload can be staged under: it is free, or holds readable bytes with the hash of
the payload. -/
def Fits (env : Environment) (c : Content) (found : Option (Node Content)) : Prop :=
  found = none ∨ ∃ b, found = some (.file b) ∧ env.size b ≤ maxEvidenceBytes ∧
    env.hashBytes b = env.hashBytes c

/-- The payloads of a list are staged in a directory with these files. -/
def Holds (env : Environment) (files : Entries Content) (index : Nat)
    (ps : List (AppendTarget × Path)) : Prop :=
  ∀ (i : Nat) (p : AppendTarget × Path) (c : Content), ps[i]? = some p → p.1.bytes = some c →
    ∃ b, files.lookup (payloadName env (index + i) p) = some (.file b) ∧
      env.hashBytes b = env.hashBytes c

/-- The payloads of a list can be staged in a directory with these files. -/
def HasRoom (env : Environment) (files : Entries Content) (index : Nat)
    (ps : List (AppendTarget × Path)) : Prop :=
  ∀ (i : Nat) (p : AppendTarget × Path) (c : Content), ps[i]? = some p → p.1.bytes = some c →
    Fits env c (files.lookup (payloadName env (index + i) p))

/-- The directory of `u` has the files of `d`, and payloads of the list where `d` has nothing. -/
structure Journal.Stages (env : Environment) (j : Journal) (index : Nat)
    (ps : List (AppendTarget × Path)) (d u : Disk) : Prop where
  dir : IsDirAt j.dir u
  files : ∀ name, (j.files u).lookup name = (j.files d).lookup name ∨
    ((j.files d).lookup name = none ∧ ∃ (i : Nat) (p : AppendTarget × Path) (c : Content),
      ps[i]? = some p ∧ p.1.bytes = some c ∧ name = payloadName env (index + i) p ∧
      (j.files u).lookup name = some (.file c))

theorem Journal.Stages.refl (hdir : IsDirAt j.dir d) (index : Nat)
    (ps : List (AppendTarget × Path)) : j.Stages env index ps d d :=
  ⟨hdir, fun _ => .inl rfl⟩

/-- The journal's own files are no payloads. -/
theorem Journal.Stages.lookup_eq {index : Nat} {ps : List (AppendTarget × Path)}
    (h : j.Stages env index ps d u) {name : String} (hname : name.toList.getLast? ≠ some 'd') :
    (j.files u).lookup name = (j.files d).lookup name := by
  rcases h.files name with heq | ⟨-, i, p, c, -, -, rfl, -⟩
  · exact heq
  · exact absurd rfl (stagedName_ne env _ _ hname)

/-- Staging the first payload of a list and then the others is staging the list. -/
theorem Journal.Stages.cons {index : Nat} {p : AppendTarget × Path}
    {ps : List (AppendTarget × Path)} (h : j.Stages env index [p] d d')
    (h' : j.Stages env (index + 1) ps d' u) : j.Stages env index (p :: ps) d u := by
  refine ⟨h'.dir, fun name => ?_⟩
  rcases h'.files name with heq | ⟨hnone, i, q, c, hq, hc, rfl, hu⟩
  · rcases h.files name with heq' | ⟨hnone, i, q, c, hq, hc, rfl, hd'⟩
    · exact .inl (heq.trans heq')
    · cases i with
      | zero => exact .inr ⟨hnone, 0, q, c, by simpa using hq, hc, rfl, heq.trans hd'⟩
      | succ i => cases hq
  · have hfree : (j.files d).lookup (payloadName env (index + 1 + i) q) = none := by
      rcases h.files (payloadName env (index + 1 + i) q) with heq' | ⟨hnone', -⟩
      · rw [← heq', hnone]
      · exact hnone'
    refine .inr ⟨hfree, i + 1, q, c, by simpa using hq, hc, ?_, hu⟩
    rw [show index + (i + 1) = index + 1 + i by omega]

/-- The object of the entry of a payload. -/
theorem AppendTarget.entry_payload {index : Nat} {p : AppendTarget × Path} {c : Content}
    (hc : p.1.bytes = some c) :
    (p.1.entry env index p.2).get "content_hash" = some (.str (env.hashBytes c)) ∧
      (p.1.entry env index p.2).get "content_size" = some (.int (env.size c)) ∧
      (p.1.entry env index p.2).get "content_b64" = some (.str (env.encode64 c)) := by
  have hbytes : (if p.1.action = "write" then p.1.content else none) = some c := hc
  rw [AppendTarget.entry, hbytes]
  exact ⟨rfl, rfl, rfl⟩

/-- A payload that is missing is created from the bytes of its entry. -/
theorem Journal.adoptStaged_free {index : Nat} {p : AppendTarget × Path} {c : Content}
    (hc : p.1.bytes = some c) (hfree : (j.files d).lookup (payloadName env index p) = none) :
    j.adoptStaged env (p.1.entry env index p.2) (payloadName env index p) d =
      createExclusive (j.dir ++ [payloadName env index p]) c d := by
  obtain ⟨hhash, hsize, hb64⟩ := @AppendTarget.entry_payload env index p c hc
  unfold Journal.adoptStaged
  rw [Prog.read_bind_run]
  simp only [hfree, hhash, hsize, hb64, env.decode64_encode64, and_self, if_true]

/-- `adoptStaged` creates a missing payload, accepts one that is there with the right hash, and
raises otherwise. -/
theorem Journal.adoptStaged_wp {index : Nat} {p : AppendTarget × Path} {c : Content}
    (hdir : IsDirAt j.dir d) (hc : p.1.bytes = some c) :
    wp (j.adoptStaged env (p.1.entry env index p.2) (payloadName env index p))
      (fun res u => j.Stages env index [p] d u ∧
        ((res = .ok () ∧ Fits env c ((j.files d).lookup (payloadName env index p)) ∧
            ∃ b, (j.files u).lookup (payloadName env index p) = some (.file b) ∧
              env.hashBytes b = env.hashBytes c) ∨
          ∃ e, res = .error e ∧ ¬ Fits env c ((j.files d).lookup (payloadName env index p))))
      (j.Stages env index [p] d) d := by
  have hstay : j.Stages env index [p] d d := .refl hdir index [p]
  obtain ⟨hhash, -, -⟩ := @AppendTarget.entry_payload env index p c hc
  cases hfound : (j.files d).lookup (payloadName env index p) with
  | none =>
    obtain ⟨d', hd'⟩ : ∃ d', createFile c (j.dir ++ [payloadName env index p]) d = some d' :=
      Journal.exists_alter hdir (by rw [hfound]; rfl)
    obtain ⟨hdir', hnew, hothers⟩ := Journal.files_alter hdir hd'
    rw [hfound] at hnew
    have hfile : (j.files d').lookup (payloadName env index p) = some (.file c) :=
      (Option.some.inj hnew).symm
    have hstages : j.Stages env index [p] d d' := by
      refine ⟨hdir', fun name => ?_⟩
      by_cases hname : name = payloadName env index p
      · subst hname
        exact .inr ⟨hfound, 0, p, c, rfl, hc, rfl, hfile⟩
      · exact .inl (hothers name hname)
    rw [wp_congr (Journal.adoptStaged_free hc hfound), createExclusive, wp_attempt, hd']
    exact ⟨hstay, hstages, .inl ⟨rfl, .inl rfl, c, hfile, rfl⟩⟩
  | some n =>
    unfold Journal.adoptStaged
    rw [wp_bind, wp_read]
    simp only [hfound, hhash]
    cases n with
    | file b =>
      simp only
      split_ifs with hbig hsame
      · refine (wp_raise _).mpr ⟨hstay, .inr ⟨_, rfl, ?_⟩⟩
        rintro (h | ⟨b', hb', hle, -⟩)
        · cases h
        · obtain rfl := Node.file.inj (Option.some.inj hb')
          omega
      · have heq : env.hashBytes b = env.hashBytes c := (Json.str.inj (Option.some.inj hsame)).symm
        refine (wp_pure _).mpr ⟨hstay, .inl ⟨rfl, .inr ⟨b, rfl, by omega, heq⟩, b, hfound, heq⟩⟩
      · refine (wp_raise _).mpr ⟨hstay, .inr ⟨_, rfl, ?_⟩⟩
        rintro (h | ⟨b', hb', -, heq⟩)
        · cases h
        · obtain rfl := Node.file.inj (Option.some.inj hb')
          exact hsame (by rw [heq])
    | _ =>
      refine (wp_raise _).mpr ⟨hstay, .inr ⟨_, rfl, ?_⟩⟩
      rintro (h | ⟨b, hb, -⟩)
      · cases h
      · cases hb

/-- The object of a target in the intent. -/
def AppendTarget.plan (env : Environment) (t : AppendTarget) (rel : Path) : Dict :=
  [("path", .str (posix rel)), ("role", .str t.role), ("action", .str t.action),
    ("before_hash", .str t.beforeHash),
    ("after_hash", .str (t.afterHash.getD (t.bytes.elim "" env.hashBytes)))]

/-- The object of a target that the manifest gets. -/
def AppendTarget.object (env : Environment) (t : AppendTarget) (rel : Path) : Dict :=
  t.plan env rel ++ [("applied", .bool false)]

theorem hasRoom_cons {files : Entries Content} {index : Nat} {p : AppendTarget × Path}
    {ps : List (AppendTarget × Path)} : HasRoom env files index (p :: ps) ↔
      HasRoom env files index [p] ∧ HasRoom env files (index + 1) ps := by
  constructor
  · intro h
    refine ⟨fun i q c hq hc => ?_, fun i q c hq hc => ?_⟩
    · cases i with
      | zero => exact h 0 q c hq hc
      | succ i => cases hq
    · rw [show index + 1 + i = index + (i + 1) by omega]
      exact h (i + 1) q c hq hc
  · rintro ⟨h, h'⟩ i q c hq hc
    cases i with
    | zero => exact h 0 q c hq hc
    | succ i =>
      rw [show index + (i + 1) = index + 1 + i by omega]
      exact h' i q c hq hc

theorem holds_cons {files : Entries Content} {index : Nat} {p : AppendTarget × Path}
    {ps : List (AppendTarget × Path)} (h : Holds env files index [p])
    (h' : Holds env files (index + 1) ps) : Holds env files index (p :: ps) := by
  intro i q c hq hc
  cases i with
  | zero => exact h 0 q c hq hc
  | succ i =>
    rw [show index + (i + 1) = index + 1 + i by omega]
    exact h' i q c hq hc

theorem hasRoom_singleton {files : Entries Content} {index : Nat} {p : AppendTarget × Path}
    {c : Content} (hc : p.1.bytes = some c) :
    HasRoom env files index [p] ↔ Fits env c (files.lookup (payloadName env index p)) := by
  constructor
  · exact fun h => h 0 p c rfl hc
  · intro h i q b hq hb
    cases i with
    | zero =>
      obtain rfl := Option.some.inj hq
      obtain rfl := Option.some.inj (hc.symm.trans hb)
      exact h
    | succ i => cases hq

theorem holds_singleton {files : Entries Content} {index : Nat} {p : AppendTarget × Path}
    {b c : Content} (hc : p.1.bytes = some c)
    (hb : files.lookup (payloadName env index p) = some (.file b))
    (heq : env.hashBytes b = env.hashBytes c) : Holds env files index [p] := by
  intro i q c' hq hc'
  cases i with
  | zero =>
    obtain rfl := Option.some.inj hq
    obtain rfl := Option.some.inj (hc.symm.trans hc')
    exact ⟨b, hb, heq⟩
  | succ i => cases hq

/-- What is there stays. -/
theorem Journal.Stages.lookup_of_some {index : Nat} {ps : List (AppendTarget × Path)}
    (h : j.Stages env index ps d u) {name : String} {n : Node Content}
    (hn : (j.files d).lookup name = some n) : (j.files u).lookup name = some n := by
  rcases h.files name with heq | ⟨hnone, -⟩
  · rw [heq, hn]
  · rw [hn] at hnone
    cases hnone

theorem Journal.Stages.holds {index k : Nat} {ps qs : List (AppendTarget × Path)}
    (h : j.Stages env index ps d u) (hd : Holds env (j.files d) k qs) :
    Holds env (j.files u) k qs := by
  intro i q c hq hc
  obtain ⟨b, hb, heq⟩ := hd i q c hq hc
  exact ⟨b, h.lookup_of_some hb, heq⟩

/-- Staging the payload of one index leaves the names of the later ones alone. -/
theorem Journal.Stages.hasRoom_iff {index : Nat} {p : AppendTarget × Path}
    {ps : List (AppendTarget × Path)} (h : j.Stages env index [p] d u) :
    HasRoom env (j.files u) (index + 1) ps ↔ HasRoom env (j.files d) (index + 1) ps := by
  have hsame : ∀ i q, (j.files u).lookup (payloadName env (index + 1 + i) q) =
      (j.files d).lookup (payloadName env (index + 1 + i) q) := by
    intro i q
    rcases h.files (payloadName env (index + 1 + i) q) with heq | ⟨-, k, r, c, hr, -, hname, -⟩
    · exact heq
    · cases k with
      | zero =>
        have := stagedName_index hname
        omega
      | succ k => cases hr
  unfold HasRoom
  simp only [hsame]

/-- One entry whose target the manifest does not have yet. -/
theorem Journal.finishEntry_wp {base index : Nat} {acc : List Dict} {p : AppendTarget × Path}
    (hdir : IsDirAt j.dir d) (hacc : p.1.Accepted env p.2) (hlen : acc.length = index)
    (hbase : base ≤ index) :
    wp (j.finishEntry env base acc (.obj (p.1.entry env index p.2)))
      (fun res u => j.Stages env index [p] d u ∧
        ((res = .ok (acc ++ [p.1.object env p.2]) ∧ HasRoom env (j.files d) index [p] ∧
            Holds env (j.files u) index [p]) ∨
          ∃ e, res = .error e ∧ ¬ HasRoom env (j.files d) index [p]))
      (j.Stages env index [p] d) d := by
  have hstay : j.Stages env index [p] d d := .refl hdir index [p]
  have hindex : Dict.get (p.1.entry env index p.2) "index" = some (.int index) := rfl
  have htarget : Dict.get (p.1.entry env index p.2) "target" =
      some (.obj (p.1.plan env p.2)) := rfl
  have haction : Dict.get (p.1.plan env p.2) "action" = some (.str p.1.action) := rfl
  have hpath : Dict.get (p.1.plan env p.2) "path" = some (.str (posix p.2)) := rfl
  have hobject : Dict.set (p.1.plan env p.2) "applied" (.bool false) = p.1.object env p.2 := rfl
  unfold Journal.finishEntry
  simp only [hindex, htarget, Option.bind_some, Json.int?_int]
  rw [if_neg (by omega), if_neg (by omega), haction]
  by_cases hwrite : p.1.action = "write"
  · obtain ⟨c, hc, -⟩ := hacc.bytes hwrite
    have hbytes : p.1.bytes = some c := by rw [AppendTarget.bytes, if_pos hwrite, hc]
    have hstaged : Dict.get (p.1.entry env index p.2) "staged_name" =
        some (.str (payloadName env index p)) := by
      have h : (if p.1.action = "write" then p.1.content else none) = some c := hbytes
      rw [AppendTarget.entry, h]
      rfl
    have hroom : HasRoom env (j.files d) index [p] ↔
        Fits env c ((j.files d).lookup (payloadName env index p)) :=
      hasRoom_singleton hbytes
    rw [if_pos (by rw [hwrite]), hstaged, hpath]
    have hname : payloadName env index p ≠ "" := stagedName_ne env _ _ (by decide)
    simp only [Option.getD_some, Int.toNat_natCast]
    rw [if_neg hname, if_pos (show payloadName env index p = stagedName env index (posix p.2) from rfl),
      hobject]
    refine wp_seq (wp_mono (Journal.adoptStaged_wp hdir hbytes) ?_ fun _ h => h) (fun _ u h => (wp_pure _).mpr h)
    rintro res u ⟨hstages, ⟨rfl, hfits, b, hb, heq⟩ | ⟨e, rfl, hmisfit⟩⟩
    · exact ⟨hstages, .inl ⟨rfl, hroom.mpr hfits, holds_singleton hbytes hb heq⟩⟩
    · exact ⟨hstages, .inr ⟨e, rfl, fun h => hmisfit (hroom.mp h)⟩⟩
  · have hbytes : p.1.bytes = none := if_neg hwrite
    have hnone : ∀ {i : Nat} {q : AppendTarget × Path} {c : Content}, [p][i]? = some q →
        q.1.bytes ≠ some c := by
      intro i q c hq
      obtain rfl := List.mem_singleton.mp (List.mem_of_getElem? hq)
      rw [hbytes]
      simp
    rw [if_neg (by simpa using hwrite), hobject]
    exact (wp_pure _).mpr ⟨hstay, .inl ⟨rfl, fun i q c hq hc => absurd hc (hnone hq),
      fun i q c hq hc => absurd hc (hnone hq)⟩⟩

/-- All entries of an intent whose targets the manifest does not have yet. -/
theorem Journal.finishEntries_wp {base : Nat} {ps : List (AppendTarget × Path)} :
    ∀ {index : Nat} {acc : List Dict} {d : Disk}, IsDirAt j.dir d →
      (∀ p ∈ ps, p.1.Accepted env p.2) → acc.length = index → base ≤ index →
      wp (j.finishEntries env base acc ((appendEntries env index ps).map .obj))
        (fun res u => j.Stages env index ps d u ∧
          ((res = .ok (acc ++ ps.map fun p => p.1.object env p.2) ∧
              HasRoom env (j.files d) index ps ∧ Holds env (j.files u) index ps) ∨
            ∃ e, res = .error e ∧ ¬ HasRoom env (j.files d) index ps))
        (j.Stages env index ps d) d := by
  induction ps with
  | nil =>
    intro index acc d hdir _ _ _
    rw [appendEntries, List.map_nil, Journal.finishEntries]
    refine (wp_pure _).mpr ⟨.refl hdir index [], .inl ⟨by simp, ?_, ?_⟩⟩
    · intro i p c hp
      cases hp
    · intro i p c hp
      cases hp
  | cons p ps ih =>
    intro index acc d hdir hacc hlen hbase
    obtain ⟨hp, hps⟩ := List.forall_mem_cons.mp hacc
    have hstart : ∀ u, j.Stages env index [p] d u → j.Stages env index (p :: ps) d u :=
      fun u hu => hu.cons (.refl hu.dir (index + 1) ps)
    rw [appendEntries, List.map_cons, Journal.finishEntries, wp_bind]
    refine wp_mono (Journal.finishEntry_wp hdir hp hlen hbase) ?_ hstart
    rintro res d' ⟨hstages, ⟨rfl, hroom, hholds⟩ | ⟨e, rfl, hroom⟩⟩
    · -- the first payload is staged; the others follow from the directory it leaves
      refine wp_mono (ih hstages.dir hps (by simp [hlen]) (by omega)) ?_ fun u hu => hstages.cons hu
      rintro res u ⟨hrest, ⟨rfl, hroom', hholds'⟩ | ⟨e, rfl, hroom'⟩⟩
      · refine ⟨hstages.cons hrest, .inl ⟨by simp, ?_, holds_cons (hrest.holds hholds) hholds'⟩⟩
        exact hasRoom_cons.mpr ⟨hroom, hstages.hasRoom_iff.mp hroom'⟩
      · refine ⟨hstages.cons hrest, .inr ⟨e, rfl, fun h => hroom' ?_⟩⟩
        exact hstages.hasRoom_iff.mpr (hasRoom_cons.mp h).2
    · exact ⟨hstart d' hstages, .inr ⟨e, rfl, fun h => hroom (hasRoom_cons.mp h).1⟩⟩

end Saipen

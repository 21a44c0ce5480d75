import Saipen.Board.Parse
import Saipen.Checks
import Saipen.Graph.Chain
import Saipen.Json.Python
import Saipen.Log.Compaction
import Saipen.Log.Detail

/-! # Resolving a detail reference

A compacted row names a metadata file, which names the row it was made from and, where that row was
compacted itself, the metadata of it. `resolve_detail` proves every artifact of this chain, up to the first
one that names a lineage checkpoint. The references seen are handed along, and looked at once, at the
first. -/

namespace Saipen.Board

open Text FileTree Log Graph Checks

/-- What goes wrong: every refusal is a `ValueError`. -/
inductive DetailError where
  | value
  | key
  | recursion
deriving DecidableEq

/-- `_require`. -/
def requireThat (b : Bool) : Except DetailError Unit := refuseIf (!b) .value

variable (w : World) (d : Disk)

/-! ### One artifact -/

/-- `str(value or "")`. -/
def textOf (j : Json) : String :=
  if j.truthy = false then ""
  else
    match j with
    | .str s => s
    | j => w.env.repr j

/-- The regular file an owned reference names. -/
def ownedFile (reference : String) : Except DetailError Content :=
  match ownedTargetPath w.env reference with
  | none => .error .value
  | some path =>
      match probe path d with
      | .found (.file c) => .ok c
      | _ => .error .value

/-- The object in a file of JSON. -/
def ownedObject (reference : String) : Except DetailError Dict := do
  let content ← ownedFile w d reference
  match content.loads with
  | some (.obj fields) => .ok fields
  | _ => .error .value

/-- The project an object was written in is this one. -/
def boundHere (fields : Dict) : Bool :=
  (fields.valueAt "project_lineage").same (nullable (projectLineageIdentity w.env d)) &&
    historyBoundHere (fields.valueAt "project_identity") (fields.valueAt "project_lineage") (w.binding d)

/-- An artifact all proofs of which hold. -/
structure Verified where
  metadata : Dict
  ticketId : String
  original : Bytes
  digest : String

/-- `_verified_detail`, whatever ticket is expected. -/
def provenDetail (reference : String) : Except DetailError Verified := do
  let metadata ← ownedObject w d reference
  requireThat ((metadata.valueAt "schema_version").same (.int 1))
  requireThat ((metadata.valueAt "operation").same (.str "board_legacy_compaction"))
  requireThat ((metadata.valueAt "status").same (.str "COMMITTED"))
  requireThat (metadata.valueAt "lossless" == .bool true)
  let ticketId := ((metadata.valueAt "ticket_id").str?).getD ""
  requireThat (isTicketId ticketId)
  requireThat (boundHere w d metadata)
  let recordRef := ((metadata.valueAt "original_record_path").str?).getD ""
  let content ← ownedFile w d recordRef
  let original := w.bytes content
  requireThat (metadata.valueAt "original_record_sha256" == .str (w.sha256 original))
  requireThat ((metadata.valueAt "original_record_bytes").same (.int original.length))
  return ⟨metadata, ticketId, original, w.sha256 original⟩

/-- `_verified_detail`. All its refusals are the same error, so their order is free. -/
def verifiedDetail (reference : String) (expected : Option String) : Except DetailError Verified := do
  let v ← provenDetail w d reference
  requireThat (expected.all (· == v.ticketId))
  return v

/-- `carried_detail_ref`: the reference the row carried before it was compacted. -/
def carriedDetailRef (original : Bytes) (ticketId : String) : Except DetailError String :=
  match decodeUtf8? original with
  | none => .error .value
  | some text =>
      let board := parseBoard ("## DOING\n" ++ rstripNewlines text ++ "\n## TODO\n## DONE\n## BLOCKED\n")
      let tolerated := fun e => match e with
        | .unrecognized id _ => id == ticketId
        | _ => false
      if board.errors.all tolerated = false then .error .value
      else
        match board.ticket ticketId with
        | none => .error .value
        | some ticket => .ok (strip ((ticket.fields.lookup "detail_ref").getD ""))

/-! ### Checkpoints -/

/-- Every entry supersedes the next one. -/
def contiguous : List Dict → Bool
  | e :: f :: es =>
      textOf w (e.valueAt "supersedes_detail_ref") == textOf w (f.valueAt "detail_ref") && contiguous (f :: es)
  | _ => true

/-- The entries of `_verified_checkpoint`. -/
def verifiedCheckpoint (checkpoint ticketId : String) : Except DetailError (List Dict) := do
  let payload ← ownedObject w d checkpoint
  requireThat ((payload.valueAt "schema_version").same (.int 1))
  requireThat ((payload.valueAt "operation").same (.str "board_legacy_compaction_lineage"))
  requireThat ((payload.valueAt "status").same (.str "COMMITTED") && payload.valueAt "lossless" == .bool true)
  requireThat ((payload.valueAt "ticket_id").same (.str ticketId))
  requireThat (boundHere w d payload)
  match payload.valueAt "entries" with
  | .arr items =>
      requireThat (items.all fun e => e.dict?.isSome)
      let entries := items.filterMap Json.dict?
      requireThat (entries.length ≤ 64)
      requireThat ((payload.valueAt "entry_count").same (.int entries.length))
      requireThat ((payload.valueAt "entries_digest").same (.str (w.env.digestJson (Json.arr items).canonical)))
      let refs := entries.map fun e => textOf w (e.valueAt "detail_ref")
      requireThat (!refs.contains "" && decide refs.Nodup)
      requireThat (contiguous w entries)
      return entries
  | _ => .error .value

/-- `entry[key]`. -/
def entryAt (entry : Dict) (key : String) : Except DetailError Json :=
  match entry.get key with
  | none => .error .key
  | some j => .ok j

/-- An ancestor a checkpoint names, as a leaf. -/
def verifiedAncestor (ticketId : String) (entry : Dict) : Except DetailError (String × Dict) := do
  let reference := textOf w (entry.valueAt "detail_ref")
  let v ← verifiedDetail w d reference (some ticketId)
  let sha ← entryAt entry "original_record_sha256"
  requireThat (sha == .str v.digest)
  let count ← entryAt entry "original_record_bytes"
  requireThat (count.same (.int v.original.length))
  return (reference, v.metadata)

/-- The lineage a checkpoint stands for. -/
def checkpointLineage (v : Verified) (declared checkpoint : String) :
    Except DetailError (List (String × Dict)) := do
  let entries ← verifiedCheckpoint w d checkpoint v.ticketId
  let recorded := ((v.metadata.valueAt "supersedes_checkpoint_sha256").str?).getD ""
  let content ← ownedFile w d checkpoint
  requireThat (recorded != "" && w.sha256 (w.bytes content) == recorded)
  requireThat (textOf w ((entries.headD []).valueAt "detail_ref") == declared)
  entries.mapM (verifiedAncestor w d v.ticketId)

/-! ### The chain -/

/-- What `resolve_detail` returns. -/
structure Resolved where
  metadata : Dict
  original : Bytes
  sha256 : String
  supersedes : String
  checkpoint : String
  lineage : List (String × Dict)

/-- A reference with the ticket it is expected to belong to. -/
abbrev DetailRef := String × Option String

/-- The predecessor the metadata declares. -/
def declaredRef (metadata : Dict) : Except DetailError String :=
  match metadata.get "supersedes_detail_ref" with
  | none => .ok ""
  | some (.str s) => .ok (strip s)
  | some _ => .error .value

/-- What an artifact resolves to, and the reference that has to be resolved before it counts. -/
def detailEdge (v : Verified) : Except DetailError (Resolved × Option DetailRef) := do
  let declared ← declaredRef v.metadata
  let carried ← carriedDetailRef v.original v.ticketId
  requireThat (declared == carried)
  let checkpoint := strip (((v.metadata.valueAt "supersedes_checkpoint").str?).getD "")
  if checkpoint ≠ "" then
    let lineage ← checkpointLineage w d v declared checkpoint
    return (⟨v.metadata, v.original, v.digest, declared, checkpoint, lineage⟩, none)
  else
    return (⟨v.metadata, v.original, v.digest, declared, "", []⟩,
      if declared = "" then none else some (declared, some v.ticketId))

/-- What is done about one reference. -/
def detailStep (r : DetailRef) : Except DetailError (Resolved × Option DetailRef) := do
  let v ← verifiedDetail w d r.1 r.2
  detailEdge w d v

/-- `_resolve_detail_seen`, within the calls the interpreter still admits. -/
def resolveDetailSeen : Nat → DetailRef → List String → Except DetailError Resolved
  | 0, _, _ => .error .recursion
  | calls + 1, r, seen => do
      let (resolved, next) ← detailStep w d r
      match next with
      | none => return resolved
      | some declared =>
          let _ ← resolveDetailSeen calls declared seen
          return resolved

/-- `_MAX_SUPERSESSION_DEPTH`. -/
def maxSupersessionDepth : Nat := 64

/-- `resolve_detail`. -/
def resolveDetail (calls : Nat) (r : DetailRef) (seen : List String) : Except DetailError Resolved :=
  if r.1 ∈ seen then .error .value
  else if maxSupersessionDepth ≤ seen.length then .error .value
  else resolveDetailSeen w d calls r (r.1 :: seen)

/-! ### Cyclic and deep chains -/

/-- The reference behind one that is proven. -/
def nextDetail (r : DetailRef) : Option DetailRef :=
  match detailStep w d r with
  | .ok (_, next) => next
  | .error _ => none

/-- The chain comes to a reference twice. -/
def CyclicChain (r : DetailRef) : Prop :=
  ∃ i j a b, i < j ∧ along (nextDetail w d) i r = some a ∧ along (nextDetail w d) j r = some b ∧ a.1 = b.1

/-- The chain has more references than the limit. -/
def DeepChain (r : DetailRef) : Prop := (along (nextDetail w d) maxSupersessionDepth r).isSome = true

variable {w d} {r a b : DetailRef} {calls : Nat} {seen : List String} {t : String}

theorem requireThat_eq_ok {b : Bool} {u : Unit} : requireThat b = .ok u ↔ b = true := by
  rw [requireThat, refuseIf_eq_ok, Bool.not_eq_false']

theorem verifiedDetail_eq_ok {reference : String} {expected : Option String} {v : Verified} :
    verifiedDetail w d reference expected = .ok v ↔
      provenDetail w d reference = .ok v ∧ expected.all (· == v.ticketId) = true := by
  unfold verifiedDetail
  simp only [bind_eq_ok, pure_eq_ok, requireThat_eq_ok]
  constructor
  · rintro ⟨u, hu, -, hexpected, rfl⟩
    exact ⟨hu, hexpected⟩
  · rintro ⟨hv, hexpected⟩
    exact ⟨v, hv, (), hexpected, rfl⟩

theorem nextDetail_eq_some : nextDetail w d r = some a ↔
    ∃ v resolved, verifiedDetail w d r.1 r.2 = .ok v ∧ detailEdge w d v = .ok (resolved, some a) := by
  have hstep : nextDetail w d r = some a ↔ ∃ resolved, detailStep w d r = .ok (resolved, some a) := by
    unfold nextDetail
    cases hstep : detailStep w d r with
    | error e => simp
    | ok result =>
      obtain ⟨resolved, next⟩ := result
      simp [Except.ok.injEq, Prod.mk.injEq]
  rw [hstep]
  unfold detailStep
  simp only [bind_eq_ok]
  exact exists_comm

/-- The reference behind an artifact is expected to be of its ticket. -/
theorem ticket_of_detailEdge {v : Verified} {resolved : Resolved} (h : detailEdge w d v = .ok (resolved, some a)) :
    a.2 = some v.ticketId := by
  unfold detailEdge at h
  simp only [bind_eq_ok] at h
  obtain ⟨declared, -, carried, -, -, -, h⟩ := h
  split_ifs at h with hcheckpoint
  · simp only [bind_eq_ok, pure_eq_ok, Prod.mk.injEq] at h
    obtain ⟨lineage, -, -, hnone⟩ := h
    cases hnone
  · rw [pure_eq_ok, Prod.mk.injEq] at h
    cases h.2
  · rw [pure_eq_ok, Prod.mk.injEq] at h
    exact congrArg Prod.snd (Option.some.inj h.2.symm)

/-- The ticket of a chain is the one of its first artifact. -/
theorem along_ticket {n : Nat} {reference : String}
    (h : along (nextDetail w d) n (reference, some t) = some b) : b.2 = some t := by
  induction n generalizing reference with
  | zero => rw [← Option.some.inj h]
  | succ n ih =>
    obtain ⟨a, ha, hb⟩ := Option.bind_eq_some_iff.mp h
    obtain ⟨v, resolved, hv, hedge⟩ := nextDetail_eq_some.mp ha
    have hticket : v.ticketId = t := by
      have := (verifiedDetail_eq_ok.mp hv).2
      exact (beq_iff_eq.mp this).symm
    have ha2 := ticket_of_detailEdge hedge
    rw [hticket] at ha2
    have hrest : along (nextDetail w d) n (a.1, some t) = some b := by
      rw [← ha2]
      exact hb
    exact ih hrest

/-- A chain that comes to a reference twice goes on from it the same way. -/
theorem nextDetail_eq_of_repeat {i j : Nat} (hlt : i < j) (hi : along (nextDetail w d) i r = some a)
    (hj : along (nextDetail w d) j r = some b) (hab : a.1 = b.1) : nextDetail w d a = nextDetail w d b := by
  obtain ⟨k, rfl⟩ : ∃ k, j = i + (k + 1) := ⟨j - i - 1, by omega⟩
  rw [along_add, hi, Option.bind_some] at hj
  obtain ⟨c, hc, hb⟩ := Option.bind_eq_some_iff.mp hj
  obtain ⟨v, resolved, hv, hedge⟩ := nextDetail_eq_some.mp hc
  have hc2 := ticket_of_detailEdge hedge
  have hrest : along (nextDetail w d) k (c.1, some v.ticketId) = some b := by
    rw [← hc2]
    exact hb
  have hb2 : b.2 = some v.ticketId := along_ticket hrest
  have hvb : verifiedDetail w d b.1 b.2 = .ok v := by
    rw [verifiedDetail_eq_ok, ← hab, hb2]
    exact ⟨(verifiedDetail_eq_ok.mp hv).1, by simp⟩
  rw [hc, eq_comm]
  exact nextDetail_eq_some.mpr ⟨v, resolved, hvb, hedge⟩

/-- A cyclic chain never ends. -/
theorem CyclicChain.along_isSome (h : CyclicChain w d r) (n : Nat) :
    (along (nextDetail w d) n r).isSome = true := by
  obtain ⟨i, j, a, b, hlt, hi, hj, hab⟩ := h
  exact along_isSome_of_repeat hi hj hlt (nextDetail_eq_of_repeat hlt hi hj hab) n

/-! ### What comes of a chain -/

theorem nextDetail_of_step {resolved : Resolved} {next : Option DetailRef}
    (h : detailStep w d r = .ok (resolved, next)) : nextDetail w d r = next := by
  rw [nextDetail, h]

theorem resolveDetailSeen_error {e : DetailError} (h : detailStep w d r = .error e) :
    resolveDetailSeen w d (calls + 1) r seen = .error e := by
  rw [resolveDetailSeen, h]
  rfl

theorem resolveDetailSeen_last {resolved : Resolved} (h : detailStep w d r = .ok (resolved, none)) :
    resolveDetailSeen w d (calls + 1) r seen = .ok resolved := by
  rw [resolveDetailSeen, h]
  rfl

theorem resolveDetailSeen_next {resolved : Resolved} (h : detailStep w d r = .ok (resolved, some a)) :
    resolveDetailSeen w d (calls + 1) r seen = (resolveDetailSeen w d calls a seen).map fun _ => resolved := by
  rw [resolveDetailSeen, h]
  cases hrest : resolveDetailSeen w d calls a seen <;> simp [bind, Except.bind, hrest, Except.map, pure, Except.pure]

/-- A chain is refused exactly when an artifact within the calls is. -/
theorem resolveDetailSeen_eq_value : resolveDetailSeen w d calls r seen = .error .value ↔
    ∃ k < calls, ∃ b, along (nextDetail w d) k r = some b ∧ detailStep w d b = .error .value := by
  induction calls generalizing r with
  | zero => simp [resolveDetailSeen]
  | succ calls ih =>
    cases hstep : detailStep w d r with
    | error e =>
      rw [resolveDetailSeen_error hstep]
      constructor
      · intro h
        exact ⟨0, Nat.succ_pos _, r, rfl, hstep.trans (by rw [Except.error.inj h])⟩
      · rintro ⟨k, -, b, hk, hb⟩
        cases k with
        | zero =>
          rw [← Option.some.inj hk, hstep] at hb
          rw [Except.error.inj hb]
        | succ k => simp [along, nextDetail, hstep] at hk
    | ok result =>
      obtain ⟨resolved, next⟩ := result
      have hnext := nextDetail_of_step hstep
      cases next with
      | none =>
        rw [resolveDetailSeen_last hstep]
        refine ⟨fun h => (by cases h), ?_⟩
        rintro ⟨k, -, b, hk, hb⟩
        cases k with
        | zero =>
          rw [← Option.some.inj hk, hstep] at hb
          cases hb
        | succ k => simp [along, hnext] at hk
      | some a =>
        have hmap : resolveDetailSeen w d (calls + 1) r seen = .error .value ↔
            resolveDetailSeen w d calls a seen = .error .value := by
          rw [resolveDetailSeen_next hstep]
          cases resolveDetailSeen w d calls a seen <;> simp [Except.map]
        rw [hmap, ih]
        constructor
        · rintro ⟨k, hk, b, hb, hrefused⟩
          exact ⟨k + 1, Nat.succ_lt_succ hk, b, by rw [along, hnext, Option.bind_some, hb], hrefused⟩
        · rintro ⟨k, hk, b, hb, hrefused⟩
          cases k with
          | zero =>
            rw [← Option.some.inj hb, hstep] at hrefused
            cases hrefused
          | succ k =>
            rw [along, hnext, Option.bind_some] at hb
            exact ⟨k, Nat.lt_of_succ_lt_succ hk, b, hb, hrefused⟩

/-- A chain that never ends uses up the calls. -/
theorem resolveDetailSeen_of_endless (h : ∀ n, (along (nextDetail w d) n r).isSome = true) :
    resolveDetailSeen w d calls r seen = .error .recursion := by
  induction calls generalizing r with
  | zero => rfl
  | succ calls ih =>
    obtain ⟨a, ha⟩ : ∃ a, nextDetail w d r = some a := by
      have := h 1
      rw [along, Option.isSome_bind] at this
      exact Option.isSome_iff_exists.mp (Option.isSome_of_any this)
    obtain ⟨v, resolved, hv, hedge⟩ := nextDetail_eq_some.mp ha
    have hstep : detailStep w d r = .ok (resolved, some a) := by
      rw [detailStep, hv]
      exact hedge
    rw [resolveDetailSeen_next hstep, ih fun n => by have := h (n + 1); rwa [along, ha] at this]
    rfl

/-- A chain that ends is accepted, however deep it is. -/
theorem resolveDetailSeen_of_end {k : Nat} {resolved : Resolved} (hk : along (nextDetail w d) k r = some b)
    (hend : detailStep w d b = .ok (resolved, none)) (hcalls : k < calls) :
    ∃ result, resolveDetailSeen w d calls r seen = .ok result := by
  induction k generalizing r calls with
  | zero =>
    obtain ⟨n, rfl⟩ : ∃ n, calls = n + 1 := ⟨calls - 1, by omega⟩
    rw [← Option.some.inj hk] at hend
    exact ⟨resolved, resolveDetailSeen_last hend⟩
  | succ k ih =>
    obtain ⟨n, rfl⟩ : ∃ n, calls = n + 1 := ⟨calls - 1, by omega⟩
    obtain ⟨a, ha, hb⟩ := Option.bind_eq_some_iff.mp hk
    obtain ⟨v, first, hv, hedge⟩ := nextDetail_eq_some.mp ha
    have hstep : detailStep w d r = .ok (first, some a) := by
      rw [detailStep, hv]
      exact hedge
    obtain ⟨result, hresult⟩ := ih hb (Nat.lt_of_succ_lt_succ hcalls)
    exact ⟨first, by rw [resolveDetailSeen_next hstep, hresult]; rfl⟩

/-- Detail resolution refuses a cyclic or too deep chain exactly when the chain is neither, or an artifact
of it within the calls the interpreter admits is refused for itself. -/
theorem resolveDetail_refuses_iff (w : World) (d : Disk) (calls : Nat) (r : DetailRef) :
    (CyclicChain w d r ∨ DeepChain w d r → resolveDetail w d calls r [] = .error .value) ↔
      ¬DeepChain w d r ∨
        ∃ k < calls, ∃ b, along (nextDetail w d) k r = some b ∧ detailStep w d b = .error .value := by
  have hresolve : resolveDetail w d calls r [] = resolveDetailSeen w d calls r [r.1] := by
    rw [resolveDetail, if_neg List.not_mem_nil, if_neg (by simp [maxSupersessionDepth])]
  rw [hresolve, resolveDetailSeen_eq_value]
  constructor
  · intro h
    by_cases hdeep : DeepChain w d r
    · exact .inr (h (.inr hdeep))
    · exact .inl hdeep
  · rintro (hshort | hrefused) hchain
    · exact absurd (hchain.elim (fun hcyclic => hcyclic.along_isSome _) id) hshort
    · exact hrefused

/-- A row that was compacted under the reference it carries itself. -/
def selfRow : String := "- [/] T-7 do it | detail_ref: .saipen/recovery/board-compaction/T-7/a.json\n"

/-- The metadata of the row, which names itself as its predecessor. -/
def selfMetadata : Dict :=
  [("schema_version", .int 1), ("operation", .str "board_legacy_compaction"), ("status", .str "COMMITTED"),
    ("lossless", .bool true), ("ticket_id", .str "T-7"), ("project_identity", .str "/work"),
    ("project_lineage", .null),
    ("original_record_path", .str ".saipen/recovery/board-compaction/T-7/a.BOARD.md"),
    ("original_record_sha256", .str "cb6a3e3c3513c2be82a1411f313bd567e78c1fc466239f34adb29be1b54de35c"),
    ("original_record_bytes", .int 75),
    ("supersedes_detail_ref", .str ".saipen/recovery/board-compaction/T-7/a.json")]

/-- The files of the row. -/
def selfDisk : Disk :=
  [(".saipen", .dir [("recovery", .dir [("board-compaction", .dir [("T-7", .dir
    [("a.json", .file (.json (.obj selfMetadata))), ("a.BOARD.md", .file (.text selfRow))])])])])]

/-- The digest of the row. -/
noncomputable def selfWorld : World :=
  { sampleWorld with
    sha256 := fun _ => "cb6a3e3c3513c2be82a1411f313bd567e78c1fc466239f34adb29be1b54de35c"
    sha256_hex := fun _ => List.all_eq_true.mp (by decide +kernel) }

theorem nextDetail_self : nextDetail selfWorld selfDisk
    (".saipen/recovery/board-compaction/T-7/a.json", some "T-7") =
      some (".saipen/recovery/board-compaction/T-7/a.json", some "T-7") := by
  decide +kernel

/-- An artifact that supersedes itself is no refusal, however many calls there are. -/
theorem self_reference_recurses : CyclicChain selfWorld selfDisk
      (".saipen/recovery/board-compaction/T-7/a.json", some "T-7") ∧
    ∀ calls, resolveDetail selfWorld selfDisk calls
      (".saipen/recovery/board-compaction/T-7/a.json", some "T-7") [] = .error .recursion := by
  have hcyclic : CyclicChain selfWorld selfDisk
      (".saipen/recovery/board-compaction/T-7/a.json", some "T-7") :=
    ⟨0, 1, _, _, Nat.one_pos, rfl, by rw [along, nextDetail_self]; rfl, rfl⟩
  refine ⟨hcyclic, fun calls => ?_⟩
  exact resolveDetailSeen_of_endless hcyclic.along_isSome

end Saipen.Board

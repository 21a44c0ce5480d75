import Saipen.Journal.Mutation
import Saipen.Journal.Paths

/-! # What a successful publication leaves

`Journal.start` creates the journal directory, stages the bytes of every write target and writes the
manifest last. A run of it that returns leaves exactly these entries, in this order, and no progress
sidecar. -/

namespace Saipen

open FileTree DurableState

variable {env : Environment}

/-! ### One effect in the journal directory -/

/-- An attempt built from an optional change succeeds exactly when the change does. -/
theorem yields_attempt_option {f : Disk → Option Disk} {e : Exn} {d d' : Disk} :
    (Prog.attempt (fun d => match f d with
      | some d' => .ok d'
      | none => .error e) : Engine Unit).Yields d () d' ↔ f d = some d' := by
  rw [Prog.yields_attempt]
  cases f d <;> simp

theorem atomicWrite_yields {p : Path} {c : Content} {d d' : Disk} :
    (atomicWrite p c).Yields d () d' ↔ writeFile c p d = some d' := yields_attempt_option

theorem createExclusive_yields {p : Path} {c : Content} {d d' : Disk} :
    (createExclusive p c).Yields d () d' ↔ createFile c p d = some d' := yields_attempt_option

theorem mkdirPath_yields {p : Path} {existOk : Bool} {d d' : Disk} :
    (mkdirPath p existOk).Yields d () d' ↔ makeDir existOk p d = some d' := yields_attempt_option

/-- A change of one entry of a directory that is there rewrites that entry alone. -/
theorem probe_of_alter_entry {mk : Bool} {f : Option (Node Content) → Option (Option (Node Content))}
    {p : Path} {name : String} {d d' : Disk} {es : Entries Content}
    (hp : probe p d = .found (.dir es)) (h : alter mk f (p ++ [name]) d = some d') :
    ∃ v, f (es.lookup name) = some v ∧ probe p d' = .found (.dir (setEntry name v es)) := by
  obtain ⟨es', hes, hp'⟩ := alter_append_eq_some hp (by simp) h
  rw [alter_singleton, Option.map_eq_some_iff] at hes
  obtain ⟨v, hv, rfl⟩ := hes
  exact ⟨v, hv, hp'⟩

/-- Reading an entry of a directory is looking its path up. -/
theorem dirEntries_lookup (p : Path) (name : String) (d : Disk) :
    (dirEntries p d).lookup name = (probe (p ++ [name]) d).node := by
  unfold dirEntries
  induction p generalizing d with
  | nil => rw [probe_nil, List.nil_append, probe_singleton]; cases d.lookup name <;> rfl
  | cons a p ih =>
    cases hl : d.lookup a with
    | none => rw [probe_cons_of_none p hl, List.cons_append, probe_cons_of_none _ hl]; rfl
    | some n =>
      cases n with
      | dir sub => rw [probe_cons_of_dir p hl, List.cons_append, probe_cons_of_dir _ hl]; exact ih sub
      | _ =>
        -- something that is not a directory has no entries and blocks the lookup
        rw [List.cons_append]
        simp only [probe, hl]
        by_cases hp : p = [] <;> simp [hp, Probe.node]

theorem Journal.files_lookup (j : Journal) (name : String) (d : Disk) :
    (j.files d).lookup name = (probe (j.dir ++ [name]) d).node := dirEntries_lookup j.dir name d

/-- A new entry goes behind the others. -/
theorem insertEntry_of_absent {name : String} {n : Node Content} {es : Entries Content}
    (h : es.lookup name = none) : insertEntry name n es = es ++ [(name, n)] := by
  induction es with
  | nil => rfl
  | cons e es ih =>
    obtain ⟨k, m⟩ := e
    have hk : k ≠ name := by
      rintro rfl
      simp at h
    rw [lookup_cons_ne (Ne.symm hk)] at h
    rw [insertEntry, if_neg hk, ih h, List.cons_append]

/-! ### Staged payloads -/

/-- The staged entry of one target, if it is a write. -/
def stagedEntry (env : Environment) (index : Nat) (t : PreparedTarget) : Entries Content :=
  match t.action, t.content with
  | .write, some c => [(stagedName env index (posix t.path), .file c)]
  | _, _ => []

/-- The staged entries of a plan from an index on. -/
def stagedEntries (env : Environment) : Nat → List PreparedTarget → Entries Content
  | _, [] => []
  | index, t :: ts => stagedEntry env index t ++ stagedEntries env (index + 1) ts

theorem staged_suffix_ne {s t : String} (h : s.toList.getLast? ≠ some 'd') : t ++ ".staged" ≠ s := by
  rintro rfl
  apply h
  have hd : ".staged".toList = ['.', 's', 't', 'a', 'g', 'e', 'd'] := by decide
  rw [String.toList_append, hd, List.getLast?_append]
  rfl

/-- A staged name is none of the names of the journal's own files. -/
theorem stagedName_ne (env : Environment) (index : Nat) (canonical : String) {s : String}
    (h : s.toList.getLast? ≠ some 'd') : stagedName env index canonical ≠ s := staged_suffix_ne h

theorem legacyStagedName_ne (index : Nat) (path : String) {s : String}
    (h : s.toList.getLast? ≠ some 'd') : legacyStagedName index path ≠ s := staged_suffix_ne h

theorem mem_stagedEntries {index : Nat} {ts : List PreparedTarget} {e : String × Node Content}
    (h : e ∈ stagedEntries env index ts) : ∃ i canonical, e.1 = stagedName env i canonical := by
  induction ts generalizing index with
  | nil => cases h
  | cons t ts ih =>
    rw [stagedEntries, List.mem_append] at h
    rcases h with h | h
    · unfold stagedEntry at h
      split at h
      · obtain rfl := List.mem_singleton.mp h
        exact ⟨_, _, rfl⟩
      · cases h
    · exact ih h

theorem stagedEntries_lookup_eq_none {index : Nat} {ts : List PreparedTarget} {s : String}
    (h : s.toList.getLast? ≠ some 'd') : (stagedEntries env index ts).lookup s = none := by
  apply Assoc.lookup_eq_none
  intro e he heq
  obtain ⟨i, canonical, hn⟩ := mem_stagedEntries he
  exact stagedName_ne env i canonical h (hn ▸ heq)

/-- Staging one target adds its entry. -/
theorem Journal.stageTarget_yields {j : Journal} {t : PreparedTarget} {index : Nat} {d d' : Disk}
    {es : Entries Content} (hdir : probe j.dir d = .found (.dir es))
    (h : (j.stageTarget env index t.path t).Yields d () d') :
    probe j.dir d' = .found (.dir (es ++ stagedEntry env index t)) := by
  obtain ⟨path, role, action, content, beforeHash, afterHash⟩ := t
  have keep : ((pure () : Engine Unit).Yields d () d') → probe j.dir d' = .found (.dir (es ++ [])) := by
    intro hpure
    obtain ⟨-, rfl⟩ := Prog.yields_pure.mp hpure
    rw [List.append_nil, hdir]
  cases action with
  | write =>
    cases content with
    | none => exact keep h
    | some c =>
      obtain ⟨v, hv, hp⟩ := probe_of_alter_entry hdir (createExclusive_yields.mp h)
      split at hv
      · next hn =>
        obtain rfl := Option.some.inj hv
        rw [hp, setEntry_some, insertEntry_of_absent hn]
        rfl
      · cases hv
  | deleteFile => exact keep h
  | deleteDir => exact keep h

/-- A run of the staging loop that returns adds the staged entries, and every path it met is a
resolved spelling of itself. -/
theorem Journal.stage_yields {j : Journal} {ts : List PreparedTarget} {index : Nat} {d d' : Disk}
    {es : Entries Content} (hclean : ∀ t ∈ ts, CleanPath t.path)
    (hdir : probe j.dir d = .found (.dir es)) (h : (j.stage env index ts).Yields d () d') :
    probe j.dir d' = .found (.dir (es ++ stagedEntries env index ts)) ∧
      ∀ t ∈ ts, ownedTargetPath env (posix t.path) = some t.path := by
  induction ts generalizing index d es with
  | nil =>
    obtain ⟨-, rfl⟩ := Prog.yields_pure.mp h
    exact ⟨by simpa [stagedEntries] using hdir, by simp⟩
  | cons t ts ih =>
    rw [Journal.stage] at h
    split at h
    · exact absurd h Prog.yields_raise
    · next canonical hc =>
      -- the spelling of a resolved path resolves to that path
      obtain rfl := ownedTargetPath_posix_eq (hclean t List.mem_cons_self) hc
      have htail : ∀ u ∈ ts, CleanPath u.path := fun u hu => hclean u (List.mem_cons_of_mem _ hu)
      obtain ⟨_, d₁, h₁, h₂⟩ := Prog.yields_bind.mp h
      have hstep := Journal.stageTarget_yields hdir h₁
      obtain ⟨hp, hown⟩ := ih htail hstep h₂
      refine ⟨by rw [hp, stagedEntries, List.append_assoc], ?_⟩
      intro u hu
      rcases List.mem_cons.mp hu with rfl | hu
      · exact hc
      · exact hown u hu

/-! ### The whole publication -/

/-- The manifest entry of a journal directory. -/
def manifestEntry (record : Json) : String × Node Content := ("operation.json", .file (.json record))

/-- A publication that returns found no directory of its name, dumped its record, and left the
staged payloads and the manifest. -/
theorem Journal.start_yields {j : Journal} {a : StartArguments} {now : Instant} {d d' : Disk}
    (hclean : ∀ t ∈ a.targets, CleanPath t.path) (h : (j.start env a now).Yields d () d') :
    ∃ record, PyVal.dumps false (.dict (a.record env j.opId now)) = some record ∧
      probe j.dir d = .absent ∧
      probe j.dir d' = .found (.dir (stagedEntries env 0 a.targets ++ [manifestEntry record])) ∧
      ∀ t ∈ a.targets, ownedTargetPath env (posix t.path) = some t.path := by
  obtain ⟨_, d₁, hmk, h⟩ := Prog.yields_bind.mp h
  obtain ⟨v, hv, hdir, hb⟩ := alter_eq_some (mkdirPath_yields.mp hmk)
  have habsent : probe j.dir d = .absent := by
    cases hp : probe j.dir d with
    | absent => rfl
    | blocked => exact absurd hp hb
    | found n => rw [hp] at hv; cases n <;> simp [Probe.node] at hv
  have hempty : probe j.dir d₁ = .found (.dir []) := by
    rw [habsent] at hv
    obtain rfl := Option.some.inj hv
    exact hdir
  -- the handler re-raises, so the publication itself returned
  have hpub : (j.publish env a now).Yields d₁ () d' := by
    rcases Prog.yields_rescue.mp h with h | ⟨e, u, -, h⟩
    · exact h
    · obtain ⟨_, _, _, h⟩ := Prog.yields_bind.mp h
      exact absurd h Prog.yields_raise
  obtain ⟨_, d₂, hstage, hman⟩ := Prog.yields_bind.mp hpub
  obtain ⟨hp, hown⟩ := j.stage_yields hclean hempty hstage
  split at hman
  · next record hrec =>
    refine ⟨record, hrec, habsent, ?_, hown⟩
    obtain ⟨v, hv, hp'⟩ := probe_of_alter_entry hp (atomicWrite_yields.mp hman)
    have hnone : (stagedEntries env 0 a.targets).lookup "operation.json" = none :=
      stagedEntries_lookup_eq_none (by decide)
    rw [List.nil_append] at hv hp'
    rw [hnone] at hv
    obtain rfl := Option.some.inj hv
    rw [hp', setEntry_some, insertEntry_of_absent hnone, manifestEntry]
  · exact absurd hman Prog.yields_raise

end Saipen

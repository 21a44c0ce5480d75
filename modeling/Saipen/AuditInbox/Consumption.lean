import Saipen.AuditInbox.Interleaving
import Saipen.Run

/-! # What a consumption deletes and what it leaves

The hashes `consume_layer` hands to the mutation are read after the gate, and the mutation prepares a
target with whatever stands there when it plans. Bytes that arrive in one of these windows are
protected by the compare-and-swap although no gate has seen them, and a record that arrives between
the two reads of the binding is dropped. Where no read finds something else than the read before it,
everything deleted is proven and every record stays. -/

namespace Saipen.AuditInbox

open FileTree Run

variable {π : Type} {W : World} {B : Bytes}

/-! ### The accesses that go wrong -/

/-- The bytes of a regular file. -/
def Slot.content? : Slot → Option Content
  | .file c => some c
  | _ => none

/-- Equal tokens at the path of a target have always stood for equal bytes. -/
def System.TellsApart (B : Bytes) (s : System π) (t : Target) : Prop :=
  ∀ m ∈ s.moments, ∀ n ∈ s.moments, t.live B (m.files t.path) = t.live B (n.files t.path) →
    (m.files t.path).content? = (n.files t.path).content?

/-- A change of a target goes right: a layer is still the one that was compared, and its token, or
that of the binding, is ambiguous with no other bytes. -/
structure System.MayAct (B : Bytes) (s : System π) (t : Target) : Prop where
  compared : t.change = .deleteFile → t.live B (s.files t.path) = t.before
  apart : t.change = .deleteFile ∨ t.path = bindingPath → s.TellsApart B t

/-- Two tables of layers have the same records but for one layer. -/
def AgreeOff (rel : String) (a b : Dict) : Prop := ∀ rel', rel' ≠ rel → a.get rel' = b.get rel'

/-- A name neither table has reads alike in both. -/
theorem agreeOff_iff {rel : String} {a b : Dict} :
    AgreeOff rel a b ↔ ∀ e ∈ a ++ b, e.1 ≠ rel → a.get e.1 = b.get e.1 := by
  refine ⟨fun h e _ hne => h e.1 hne, fun h rel' hne => ?_⟩
  by_cases hmem : ∃ e ∈ a ++ b, e.1 = rel'
  · obtain ⟨e, he, rfl⟩ := hmem
    exact h e he hne
  · push Not at hmem
    have ha : a.get rel' = none := Assoc.lookup_eq_none fun e he => hmem e (List.mem_append_left _ he)
    have hb : b.get rel' = none := Assoc.lookup_eq_none fun e he => hmem e (List.mem_append_right _ he)
    rw [ha, hb]

instance (rel : String) (a b : Dict) : Decidable (AgreeOff rel a b) :=
  decidable_of_iff _ agreeOff_iff.symm

instance (B : Bytes) (s : System π) (t : Target) : Decidable (s.TellsApart B t) := by
  unfold System.TellsApart
  infer_instance

instance (B : Bytes) (s : System π) (t : Target) : Decidable (s.MayAct B t) :=
  decidable_of_iff
    ((t.change = .deleteFile → t.live B (s.files t.path) = t.before) ∧
      (t.change = .deleteFile ∨ t.path = bindingPath → s.TellsApart B t))
    ⟨fun h => ⟨h.1, h.2⟩, fun h => ⟨h.compared, h.apart⟩⟩

/-- The accesses at which the second of two reads finds what the first one found. -/
def System.Careful (W : World) (s : System π) (p : π) : Event → Prop
  | .step _ =>
    match s.stages p with
    -- the bytes that are hashed are the ones the gate saw
    | .planLayer _ gate _ _ _ =>
        ∀ c ∈ gate.current, ∀ c' ∈ (s.files (components gate.rel)).content?, c' = c
    -- the binding that is hashed has the records of the one that is written back
    | .planPrecondition _ gate doc _ _ _ => AgreeOff gate.rel s.binding.layers (layersOf doc)
    -- a layer whose precondition holds was prepared with the same token
    | .checking _ targets ((path, expected) :: _) =>
        preconditionToken W.toBytes targets path (s.files path) = expected →
          ∀ t ∈ targets, t.path = path → t.change = .deleteFile → t.before = expected
    | .acting _ t _ => s.MayAct W.toBytes t
    | .replaying _ _ (t :: _) => s.MayAct W.toBytes t
    | _ => True
  | _ => True

instance (W : World) (s : System π) (p : π) (e : Event) : Decidable (s.Careful W p e) := by
  unfold System.Careful
  split
  · split <;> infer_instance
  · infer_instance

/-- A move that is a careful access, if it is an access. -/
def Move.Careful (W : World) (s : System π) : Move π → Prop
  | .act p e => s.Careful W p e
  | _ => True

instance (W : World) (s : System π) (m : Move π) : Decidable (m.Careful W s) := by
  unfold Move.Careful
  split <;> infer_instance

/-- A careful move. -/
def CarefulMove [DecidableEq π] (W : World) (s s' : System π) : Prop :=
  ∃ m : Move π, m.Careful W s ∧ s.move W m = some s'

/-! ### What a process may rely on -/

/-- The planned change of a target is justified: it deletes a layer that is proven, or it changes no
record but that of its own layer. -/
def Justified (B : Bytes) (past : List Moment) (rel : String) (record : Dict) (t : Target) : Prop :=
  match t.change with
  | .deleteFile => t.path ≠ bindingPath ∧
      ∃ c, Proven B past rel c ∧ (∃ m ∈ past, m.files t.path = .file c) ∧ t.before = B.hashBytes c
  | .write content => t.path = bindingPath →
      (Slot.file content).layers.get rel = some (.obj record) ∧
        ∃ m ∈ past, fileToken B (m.files bindingPath) = t.before ∧
          ∀ rel', rel' ≠ rel →
            (Slot.file content).layers.get rel' = (m.files bindingPath).layers.get rel'

/-- The gate has seen a record for the bytes it saw. -/
structure Gate.Seen (B : Bytes) (past : List Moment) (g : Gate) : Prop where
  isLayer : (layerName g.rel).isSome
  bound : ∀ c ∈ g.current, textField g.record "file_sha256" = B.sha256 c ∧
    ∃ m ∈ past, m.Binds B g.rel c g.record

/-- The gate has admitted the bytes it saw. -/
structure Gate.Admitted (B : Bytes) (past : List Moment) (g : Gate) : Prop where
  isLayer : (layerName g.rel).isSome
  proven : ∀ c ∈ g.current, Proven B past g.rel c

/-- Each target of a plan is justified by the hash it is guarded with. -/
structure Plan.Sound (B : Bytes) (past : List Moment) (plan : Plan) : Prop where
  nodup : (plan.targets.map Prod.fst).Nodup
  guarded : ∀ x ∈ plan.targets, x.1 ∈ plan.preconditions.map Prod.fst
  justified : ∀ x ∈ plan.targets, ∀ e, (x.1, e) ∈ plan.preconditions →
    Justified B past plan.payload.path plan.record ⟨x.1, x.2, e⟩

/-- Each target of a record is justified. -/
structure Operation.Sound (B : Bytes) (past : List Moment) (op : Operation) : Prop where
  nodup : (op.targets.map Target.path).Nodup
  justified : ∀ t ∈ op.targets, Justified B past op.payload.path op.record t

/-- The path and the change of a target. -/
def Target.planned (t : Target) : Path × Change := (t.path, t.change)

/-- What a process may rely on at each stage, when `holds` says that it holds the lock. -/
def Stage.Told (B : Bytes) (holds : Prop) (binding : Slot) (past : List Moment) : Stage → Prop
  | .gateLayer _ doc => ∃ m ∈ past, layersOf doc = (m.files bindingPath).layers
  | .gateIndex r _ => (layerName r.rel).isSome
  | .gateReceipt _ gate => gate.Seen B past
  | .gateBoard _ gate work => gate.Seen B past ∧ ∃ m ∈ past, ∃ st,
      m.facts.status gate.receipt = some st ∧ st.isClosed = true ∧
        linkedWork st gate.record = some work
  | .planBinding _ gate | .planDocs _ gate _ _ | .planLayer _ gate _ _ _ => gate.Admitted B past
  | .planPrecondition _ gate _ _ _ layerBefore => gate.Admitted B past ∧
      (gate.current.isSome → ∃ c, Proven B past gate.rel c ∧
        (∃ m ∈ past, m.files (components gate.rel) = .file c) ∧ layerBefore = B.hashBytes c)
  | .ready plan => plan.Sound B past
  | .locked plan | .preflight plan => holds ∧ plan.Sound B past
  | .preparing plan done rest => holds ∧ plan.Sound B past ∧
      done.map Target.planned ++ rest = plan.targets ∧
        ∀ t ∈ done, t.path = bindingPath → t.before = t.live B binding
  | .checking plan targets rest => holds ∧ plan.Sound B past ∧
      targets.map Target.planned = plan.targets ∧
        (∀ t ∈ targets, t.path = bindingPath → t.before = t.live B binding) ∧
        (∀ e ∈ rest, e ∈ plan.preconditions) ∧
        ∀ t ∈ targets, Justified B past plan.payload.path plan.record t ∨ ∃ e, (t.path, e) ∈ rest
  | .starting plan targets => holds ∧ (targets.map Target.path).Nodup ∧
      ∀ t ∈ targets, Justified B past plan.payload.path plan.record t
  | .begun op => holds ∧ op.Sound B past
  | .applying op rest | .landed op _ rest => holds ∧
      ∀ t ∈ rest, Justified B past op.payload.path op.record t
  | .acting op t rest => holds ∧ (t.path = bindingPath → t.live B binding = t.before) ∧
      ∀ u ∈ t :: rest, Justified B past op.payload.path op.record u
  | .verifying _ next | .settling _ next => holds ∧ ∀ plan ∈ next, plan.Sound B past
  | .judging op next judged rest => holds ∧ op.Sound B past ∧ (∀ plan ∈ next, plan.Sound B past) ∧
      judged.map Prod.fst ++ rest = op.targets ∧
        ∀ x ∈ judged, x.1.path = bindingPath → x.2 = x.1.classify B binding
  | .replaying op next rest => holds ∧ (∀ plan ∈ next, plan.Sound B past) ∧
      (rest.map Target.path).Nodup ∧
        (∀ t ∈ rest, Justified B past op.payload.path op.record t) ∧
        ∀ t ∈ rest, t.path = bindingPath → t.live B binding = t.before
  | .recovering _ | .bindReading _ | .releasing => holds
  | .bindWriting b doc record => holds ∧ ∀ rel, (layersOf (b.document doc record)).get rel =
      if rel = b.rel then some (.obj record) else binding.layers.get rel
  | _ => True

/-- What the gate hands on to the next access. -/
def GateStep.Told (B : Bytes) (past : List Moment) (rel : String) : GateStep → Prop
  | .refused _ => True
  | .derive _ => (layerName rel).isSome
  | .askStatus gate => gate.Seen B past
  | .askWork gate work => gate.Seen B past ∧ ∃ m ∈ past, ∃ st,
      m.facts.status gate.receipt = some st ∧ st.isClosed = true ∧
        linkedWork st gate.record = some work
  | .ready gate | .alreadyAbsent gate => gate.Admitted B past

/-- What holds in every state a careful run leads to. -/
structure Invariant (B : Bytes) (s : System π) : Prop where
  operations : ∀ op ∈ s.operations, op.Sound B s.moments
  told : ∀ p, (s.stages p).Told B (s.writer = some p) s.binding s.moments
  proven : ∀ rel c, .deleted rel c ∈ s.effects → Proven B s.moments rel c
  kept : ∀ rel record, lastRecorded s.effects rel = some record →
    s.binding.layers.get rel = some (.obj record)

theorem System.Initial.invariant {s : System π} (h : s.Initial) : Invariant B s where
  operations op hop := by simp [h.operations] at hop
  told p := by
    rw [h.idle p]
    trivial
  proven rel c hc := by simp [h.effects] at hc
  kept rel record hrecord := by simp [h.effects, lastRecorded] at hrecord

/-! ### The past grows -/

section Mono

variable {past past' : List Moment} (hsub : past ⊆ past')

include hsub

theorem exists_moment_mono {P : Moment → Prop} (h : ∃ m ∈ past, P m) : ∃ m ∈ past', P m := by
  obtain ⟨m, hm, hP⟩ := h
  exact ⟨m, hsub hm, hP⟩

theorem Justified.mono {rel : String} {record : Dict} {t : Target}
    (h : Justified B past rel record t) : Justified B past' rel record t := by
  obtain ⟨path, change, before⟩ := t
  cases change with
  | deleteFile =>
    obtain ⟨hpath, c, hproven, hstood, hbefore⟩ := h
    exact ⟨hpath, c, hproven.mono hsub, exists_moment_mono hsub hstood, hbefore⟩
  | write content =>
    intro hpath
    obtain ⟨hown, hothers⟩ := h hpath
    exact ⟨hown, exists_moment_mono hsub hothers⟩

theorem Gate.Seen.mono {g : Gate} (h : g.Seen B past) : g.Seen B past' where
  isLayer := h.isLayer
  bound c hc := ⟨(h.bound c hc).1, exists_moment_mono hsub (h.bound c hc).2⟩

theorem Gate.Admitted.mono {g : Gate} (h : g.Admitted B past) : g.Admitted B past' where
  isLayer := h.isLayer
  proven c hc := (h.proven c hc).mono hsub

theorem Plan.Sound.mono {plan : Plan} (h : plan.Sound B past) : plan.Sound B past' where
  nodup := h.nodup
  guarded := h.guarded
  justified x hx e he := (h.justified x hx e he).mono hsub

theorem Operation.Sound.mono {op : Operation} (h : op.Sound B past) : op.Sound B past' where
  nodup := h.nodup
  justified t ht := (h.justified t ht).mono hsub

/-- What a process was told stays true while the lock and the binding are left to it. -/
theorem Stage.Told.mono {stage : Stage} {holds holds' : Prop} {binding binding' : Slot}
    (hleft : holds → holds' ∧ binding' = binding) (h : stage.Told B holds binding past) :
    stage.Told B holds' binding' past' := by
  have hplan {plan : Plan} (hs : plan.Sound B past) : plan.Sound B past' := hs.mono hsub
  have hjust {rel : String} {record : Dict} {t : Target} (hj : Justified B past rel record t) :
      Justified B past' rel record t := hj.mono hsub
  cases stage with
  | gateLayer r doc => exact exists_moment_mono hsub h
  | gateIndex r c => exact h
  | gateReceipt r g => exact Gate.Seen.mono hsub h
  | gateBoard r g work => exact ⟨h.1.mono hsub, exists_moment_mono hsub h.2⟩
  | planBinding r g => exact Gate.Admitted.mono hsub h
  | planDocs r g doc record => exact Gate.Admitted.mono hsub h
  | planLayer r g doc record docs => exact Gate.Admitted.mono hsub h
  | planPrecondition r g doc record docs before =>
    refine ⟨h.1.mono hsub, fun hcurrent => ?_⟩
    obtain ⟨c, hproven, hstood, hbefore⟩ := h.2 hcurrent
    exact ⟨c, hproven.mono hsub, exists_moment_mono hsub hstood, hbefore⟩
  | ready plan => exact hplan h
  | locked plan => exact ⟨(hleft h.1).1, hplan h.2⟩
  | preflight plan => exact ⟨(hleft h.1).1, hplan h.2⟩
  | preparing plan done rest =>
    obtain ⟨hw, hsound, htargets, hbefore⟩ := h
    obtain ⟨hw', rfl⟩ := hleft hw
    exact ⟨hw', hplan hsound, htargets, hbefore⟩
  | checking plan targets rest =>
    obtain ⟨hw, hsound, htargets, hbefore, hrest, hj⟩ := h
    obtain ⟨hw', rfl⟩ := hleft hw
    exact ⟨hw', hplan hsound, htargets, hbefore, hrest, fun t ht => (hj t ht).imp hjust id⟩
  | starting plan targets => exact ⟨(hleft h.1).1, h.2.1, fun t ht => hjust (h.2.2 t ht)⟩
  | begun op => exact ⟨(hleft h.1).1, h.2.mono hsub⟩
  | applying op rest => exact ⟨(hleft h.1).1, fun t ht => hjust (h.2 t ht)⟩
  | landed op t rest => exact ⟨(hleft h.1).1, fun t ht => hjust (h.2 t ht)⟩
  | acting op t rest =>
    obtain ⟨hw, hlive, hj⟩ := h
    obtain ⟨hw', rfl⟩ := hleft hw
    exact ⟨hw', hlive, fun u hu => hjust (hj u hu)⟩
  | verifying op next => exact ⟨(hleft h.1).1, fun plan hp => hplan (h.2 plan hp)⟩
  | settling op next => exact ⟨(hleft h.1).1, fun plan hp => hplan (h.2 plan hp)⟩
  | judging op next judged rest =>
    obtain ⟨hw, hsound, hnext, htargets, hjudged⟩ := h
    obtain ⟨hw', rfl⟩ := hleft hw
    exact ⟨hw', hsound.mono hsub, fun plan hp => hplan (hnext plan hp), htargets, hjudged⟩
  | replaying op next rest =>
    obtain ⟨hw, hnext, hnodup, hj, hlive⟩ := h
    obtain ⟨hw', rfl⟩ := hleft hw
    exact ⟨hw', fun plan hp => hplan (hnext plan hp), hnodup, fun t ht => hjust (hj t ht), hlive⟩
  | recovering opId => exact (hleft h).1
  | bindReading b => exact (hleft h).1
  | releasing => exact (hleft h).1
  | bindWriting b doc record =>
    obtain ⟨hw, hlayers⟩ := h
    obtain ⟨hw', rfl⟩ := hleft hw
    exact ⟨hw', hlayers⟩
  | idle => trivial
  | gateBinding r => trivial
  | recoverLock opId => trivial
  | bindLock b => trivial

end Mono

/-! ### Moves -/

section Moves

variable {s s' : System π} {p q : π} {stage : Stage}

@[simp] theorem hold_moments {w : Option π} : (s.hold w).moments = s.moments := rfl

@[simp] theorem hold_binding {w : Option π} : (s.hold w).binding = s.binding := rfl

@[simp] theorem mark_moments {opId : String} {status : Status} :
    (s.mark opId status).moments = s.moments := rfl

theorem moments_subset_put {path : Path} {slot : Slot} : s.moments ⊆ (s.put path slot).moments :=
  List.subset_cons_self _ _

theorem put_binding {path : Path} {slot : Slot} (h : path ≠ bindingPath) :
    (s.put path slot).binding = s.binding := Function.update_of_ne h.symm _ _

theorem put_binding_self {slot : Slot} : (s.put bindingPath slot).binding = slot := by
  simp [System.binding, System.put]

@[simp] theorem moment_mem_moments : s.moment ∈ s.moments := List.mem_cons_self

/-- A changed status leaves a sound record sound. -/
theorem mark_sound {past : List Moment} {opId : String} {status : Status}
    (h : ∀ op ∈ s.operations, op.Sound B past) :
    ∀ op ∈ (s.mark opId status).operations, op.Sound B past := by
  intro op hop
  obtain ⟨op', hop', rfl⟩ := List.mem_map.mp hop
  split_ifs
  · exact ⟨(h op' hop').nodup, (h op' hop').justified⟩
  · exact h op' hop'

/-- A changed status is nothing any process relies on. -/
theorem Invariant.marked (h : Invariant B s) {opId : String} {status : Status} :
    Invariant B (s.mark opId status) where
  operations := mark_sound h.operations
  told := h.told
  proven := h.proven
  kept := h.kept

theorem lastRecorded_deleted (effects : List Effect) (rel rel' : String) (c : Content) :
    lastRecorded (.deleted rel c :: effects) rel' = lastRecorded effects rel' := rfl

theorem lastRecorded_recorded (effects : List Effect) (rel rel' : String) (record : Dict) :
    lastRecorded (.recorded rel record :: effects) rel' =
      if rel = rel' then some record else lastRecorded effects rel' := by
  unfold lastRecorded
  rw [List.findSome?_cons, Effect.recordFor]
  by_cases h : rel = rel' <;> simp [h]

variable [DecidableEq π]

@[simp] theorem at_moments : (s.at p stage).moments = s.moments := rfl

@[simp] theorem at_binding : (s.at p stage).binding = s.binding := rfl

@[simp] theorem at_writer : (s.at p stage).writer = s.writer := rfl

@[simp] theorem at_stage : (s.at p stage).stages p = stage := Function.update_self _ _ _

theorem at_of_ne (h : q ≠ p) : (s.at p stage).stages q = s.stages q := Function.update_of_ne h _ _

/-- What a step of `p` has to show. -/
theorem Invariant.step (h : Invariant B s) (hsub : s.moments ⊆ s'.moments)
    (hothers : ∀ q, q ≠ p → s'.stages q = s.stages q)
    (hleft : ∀ q, q ≠ p → s.writer = some q → s'.writer = some q ∧ s'.binding = s.binding)
    (hoperations : ∀ op ∈ s'.operations, op.Sound B s'.moments)
    (hproven : ∀ rel c, .deleted rel c ∈ s'.effects → Proven B s'.moments rel c)
    (hkept : ∀ rel record, lastRecorded s'.effects rel = some record →
      s'.binding.layers.get rel = some (.obj record))
    (hp : (s'.stages p).Told B (s'.writer = some p) s'.binding s'.moments) : Invariant B s' where
  operations := hoperations
  told q := by
    by_cases hq : q = p
    · exact hq ▸ hp
    · rw [hothers q hq]
      exact (h.told q).mono hsub (hleft q hq)
  proven := hproven
  kept := hkept

/-- A step that leaves files, journal and effects as they are. -/
theorem Invariant.at (h : Invariant B s)
    (hp : stage.Told B (s.writer = some p) s.binding s.moments) : Invariant B (s.at p stage) := by
  refine h.step (List.Subset.refl _) (fun q hq => at_of_ne hq) (fun q _ hw => ⟨hw, rfl⟩)
    h.operations h.proven h.kept ?_
  rw [at_stage]
  exact hp

/-- A step that takes the free lock. -/
theorem Invariant.lock (h : Invariant B s) (hfree : s.writer = none)
    (hp : stage.Told B True s.binding s.moments) :
    Invariant B ((s.hold (some p)).at p stage) := by
  refine h.step (List.Subset.refl _) (fun q hq => at_of_ne hq)
    (fun q _ hw => by rw [hfree] at hw; cases hw) h.operations h.proven h.kept ?_
  rw [at_stage]
  exact hp.mono (List.Subset.refl _) fun _ => ⟨rfl, rfl⟩

/-- A step that gives up the lock, if the process has it. -/
theorem Invariant.unlock (h : Invariant B s) {w : Option π}
    (hw : ∀ q, q ≠ p → s.writer = some q → w = some q) : Invariant B ((s.hold w).at p .idle) := by
  refine h.step (List.Subset.refl _) (fun q hq => at_of_ne hq)
    (fun q hq hwriter => ⟨hw q hq hwriter, rfl⟩) h.operations h.proven h.kept ?_
  rw [at_stage]
  trivial

/-- A step that marks a record. -/
theorem Invariant.mark (h : Invariant B s) {opId : String} {status : Status}
    (hp : stage.Told B (s.writer = some p) s.binding s.moments) :
    Invariant B ((s.mark opId status).at p stage) := by
  refine h.step (List.Subset.refl _) (fun q hq => at_of_ne hq) (fun q _ hw => ⟨hw, rfl⟩)
    (mark_sound h.operations) h.proven h.kept ?_
  rw [at_stage]
  exact hp

/-- The mutation that ends in CONFLICT still holds the lock. -/
theorem Invariant.conflict (h : Invariant B s) {op : Operation} (hw : s.writer = some p) :
    Invariant B (s.conflict p op).1 := h.mark hw

/-- The gate goes on with what the next read needs. -/
theorem Invariant.gate (h : Invariant B s) {r : Request} {next : GateStep}
    (hnext : next.Told B s.moments r.rel) : Invariant B (s.gate p r next).1 := by
  cases next with
  | refused code => exact h.at trivial
  | derive c => exact h.at hnext
  | askStatus g => exact h.at hnext
  | askWork g work => exact h.at hnext
  | ready g => exact h.at hnext
  | alreadyAbsent g =>
    simp only [System.gate]
    split_ifs
    · exact h.at trivial
    · exact h.at hnext

end Moves

/-! ### The gate -/

section Gates

variable {past : List Moment} {g : Gate} {m : Moment} {rel : String}

/-- A layer that is seen or found absent has the name of one. -/
theorem isLayer_of_snapshot {slot : Slot} {snap : Snapshot} (h : snapshotLayer B rel slot = snap)
    (hvalid : ∀ reason, snap ≠ .invalid reason) : (layerName rel).isSome := by
  by_contra hnone
  have hnone' : (layerName rel).isNone = true := by simpa using hnone
  apply hvalid "noncanonical"
  rw [← h]
  unfold snapshotLayer
  exact if_pos hnone'

theorem gateSnapshot_told {doc : Dict} {slot : Slot}
    (hdoc : ∃ m ∈ past, layersOf doc = (m.files bindingPath).layers) :
    (gateSnapshot B rel doc slot).Told B past rel := by
  unfold gateSnapshot
  split
  · next c _ hsnap => exact isLayer_of_snapshot hsnap fun reason => Snapshot.noConfusion
  · trivial
  · next record hrecord =>
    split_ifs with hreceipt
    · trivial
    split
    · next hsnap =>
      exact ⟨isLayer_of_snapshot hsnap fun reason => Snapshot.noConfusion, fun c hc => by cases hc⟩
    · trivial
    · next c hsnap =>
      split_ifs with hdigest
      · refine ⟨isLayer_of_snapshot hsnap fun reason => Snapshot.noConfusion, fun c' hc' => ?_⟩
        obtain rfl := Option.mem_some.mp hc'
        obtain ⟨m, hm, hlayers⟩ := hdoc
        exact ⟨hdigest.symm, m, hm, .inl (hlayers ▸ boundRecord_eq_some hrecord)⟩
      · trivial

/-- A derived record names the digest it was derived from. -/
theorem digest_derivedRecord (c : Content) (receipt : Receipt) :
    textField (derivedRecord B rel c receipt) "file_sha256" = B.sha256 c := by
  simp [textField, derivedRecord, Dict.get, Assoc.lookup_cons]

theorem gateDerive_told {c : Content} (hlayer : (layerName rel).isSome) (hm : m ∈ past) :
    (gateDerive B rel c m.facts).Told B past rel := by
  unfold gateDerive
  split
  · trivial
  · next receipt hreceipt =>
    split_ifs
    · trivial
    · refine ⟨hlayer, fun c' hc' => ?_⟩
      obtain rfl := Option.mem_some.mp hc'
      exact ⟨digest_derivedRecord _ receipt, m, hm, .inr ⟨receipt, hreceipt, rfl⟩⟩

/-- Bytes the gate has seen are proven once the receipt is closed and its Work done. -/
theorem Gate.Seen.admitted (h : g.Seen B past) {st : ReceiptStatus} (hm : m ∈ past)
    (hst : m.facts.status g.receipt = some st) (hclosed : st.isClosed = true)
    (hwork : ∀ work, AuditInbox.linkedWork st g.record = some work →
      ∃ m ∈ past, m.facts.workDone work = true) : g.Admitted B past where
  isLayer := h.isLayer
  proven c hc := ⟨g.record, (h.bound c hc).2, (h.bound c hc).1, m, hm, st, hst, hclosed, hwork⟩

theorem gateStatus_told (h : g.Seen B past) (hm : m ∈ past) :
    (gateStatus g m.facts).Told B past rel := by
  unfold gateStatus
  split
  · trivial
  · next st hst =>
    split_ifs with hclosed
    · split
      · next hnone =>
        exact h.admitted hm hst hclosed fun work hwork => by rw [hnone] at hwork; cases hwork
      · next work hwork => exact ⟨⟨h.isLayer, h.bound⟩, m, hm, st, hst, hclosed, hwork⟩
    · trivial

theorem gateWork_told {work : Json} (hm : m ∈ past)
    (h : (GateStep.askWork g work).Told B past rel) : (gateWork g work m.facts).Told B past rel := by
  obtain ⟨hseen, n, hn, st, hst, hclosed, hlinked⟩ := h
  unfold gateWork
  split_ifs with hdone
  · refine hseen.admitted hn hst hclosed fun work' hwork' => ?_
    obtain rfl := Option.some.inj (hlinked.symm.trans hwork')
    exact ⟨m, hm, hdone⟩
  · trivial

end Gates

/-! ### The plan -/

section Plans

variable {past : List Moment} {g : Gate} {m : Moment} {doc record : Dict} {docs : Docs}

theorem components_of_isLayer {rel : String} (h : (layerName rel).isSome) :
    ∃ name, components rel = ["audit", name] := by
  unfold layerName at h
  split at h
  · next dir name hcomponents =>
    split_ifs at h with hlayer
    · exact ⟨name, by rw [hcomponents, hlayer.2.1]⟩
    · cases h
  · cases h

/-- The layer, the binding and the documents stand at four paths. -/
theorem components_ne {rel : String} (h : (layerName rel).isSome) :
    components rel ≠ bindingPath ∧ components rel ≠ logPath ∧ components rel ≠ statePath := by
  obtain ⟨name, hname⟩ := components_of_isLayer h
  rw [hname]
  simp [bindingPath, logPath, statePath]

/-- A change that is not a deletion reads the token of a file. -/
theorem token_write (c : Content) (slot : Slot) : (Change.write c).token B slot = fileToken B slot := by
  cases slot <;> rfl

/-- The binding a consumption writes has its own record and, for the others, what was read. -/
theorem layers_planned (doc record : Dict) (rel rel' : String) :
    (Slot.file (bindingBytes (setLayer doc rel (.obj record)))).layers.get rel' =
      if rel' = rel then some (.obj record) else (layersOf doc).get rel' := by
  rw [layers_bindingBytes, layersOf_setLayer, Dict.get, Dict.set, Assoc.lookup_set]
  rfl

/-- Every target of a plan has a precondition. -/
theorem planned_guarded (layerBefore bindingBefore : String) :
    (planTargets g doc record docs).map Prod.fst ⊆
      (planPreconditions g docs layerBefore bindingBefore).map Prod.fst := by
  unfold planTargets
  cases g.current with
  | none => exact List.subset_cons_self _ _
  | some c => exact List.Subset.refl _

/-- A plan whose two reads of the layer and of the binding found the same is sound. -/
theorem planOf_sound {layerBefore : String} (hg : g.Admitted W.toBytes past)
    (hlayer : g.current.isSome → ∃ c, Proven W.toBytes past g.rel c ∧
      (∃ m ∈ past, m.files (components g.rel) = .file c) ∧ layerBefore = W.hashBytes c)
    (hm : m ∈ past)
    (hbinding : AgreeOff g.rel (m.files bindingPath).layers (layersOf doc)) :
    (planOf W g doc record docs layerBefore
      (fileToken W.toBytes (m.files bindingPath))).Sound W.toBytes past := by
  obtain ⟨hne, hneLog, hneState⟩ := components_ne hg.isLayer
  have hdistinct : bindingPath ≠ logPath ∧ bindingPath ≠ statePath ∧ logPath ≠ statePath := by decide
  have hdelete (e : String) (he : (components g.rel, e) ∈
      planPreconditions g docs layerBefore (fileToken W.toBytes (m.files bindingPath))) :
      e = layerBefore := by
    simpa [planPreconditions, hne, hneLog, hneState] using he
  have hwrite (e : String) (he : (bindingPath, e) ∈
      planPreconditions g docs layerBefore (fileToken W.toBytes (m.files bindingPath))) :
      e = fileToken W.toBytes (m.files bindingPath) := by
    simpa [planPreconditions, hne.symm, hdistinct] using he
  -- the three documents of every plan
  have hdocs (x : Path × Change) (hx : x ∈ [(bindingPath,
        Change.write (bindingBytes (setLayer doc g.rel (.obj record)))),
        (logPath, .write docs.newLog), (statePath, .write docs.newState)]) (e : String)
      (he : (x.1, e) ∈ planPreconditions g docs layerBefore (fileToken W.toBytes (m.files bindingPath))) :
      Justified W.toBytes past g.rel record ⟨x.1, x.2, e⟩ := by
    simp only [List.mem_cons, List.not_mem_nil, or_false] at hx
    rcases hx with rfl | rfl | rfl
    · intro _
      refine ⟨?_, m, hm, (hwrite e he).symm, fun rel' hrel' => ?_⟩
      · rw [layers_planned, if_pos rfl]
      · rw [layers_planned, if_neg hrel', hbinding rel' hrel']
    · exact fun h => absurd h.symm hdistinct.1
    · exact fun h => absurd h.symm hdistinct.2.1
  constructor
  · cases hcurrent : g.current <;>
      simp [planOf, planTargets, hcurrent, hne, hneLog, hneState, hdistinct]
  · exact fun x hx => planned_guarded _ _ (List.mem_map_of_mem hx)
  · cases hcurrent : g.current with
    | none =>
      intro x hx e he
      simp only [planOf, planTargets, hcurrent, List.nil_append] at hx
      exact hdocs x hx e he
    | some c =>
      intro x hx e he
      simp only [planOf, planTargets, hcurrent, List.cons_append, List.nil_append] at hx
      rcases List.mem_cons.mp hx with rfl | hx
      · obtain ⟨c', hproven, hstood, hbefore⟩ := hlayer (by rw [hcurrent]; rfl)
        exact ⟨hne, c', hproven, hstood, (hdelete e he).trans hbefore⟩
      · exact hdocs x hx e he

end Plans

/-! ### The change of a target -/

section Acts

variable {s s₁ : System π} {op : Operation} {t : Target}

/-- The layers of a slot are those of its bytes. -/
theorem layers_congr {a b : Slot} (h : a.content? = b.content?) : a.layers = b.layers := by
  cases a <;> cases b <;> simp_all [Slot.content?, Slot.layers]

/-- What a changed target leaves. -/
structure Acted (B : Bytes) (s s₁ : System π) (t : Target) : Prop where
  moments : s.moments ⊆ s₁.moments
  writer : s₁.writer = s.writer
  stages : s₁.stages = s.stages
  operations : s₁.operations = s.operations
  binding : t.path ≠ bindingPath → s₁.binding = s.binding
  proven : ∀ rel c, .deleted rel c ∈ s₁.effects → Proven B s₁.moments rel c
  kept : ∀ rel record, lastRecorded s₁.effects rel = some record →
    s₁.binding.layers.get rel = some (.obj record)

/-- A deletion that goes right deletes bytes that are proven. -/
theorem Invariant.actDelete (h : Invariant B s) {path : Path} {before : String}
    (hact : s.act op ⟨path, .deleteFile, before⟩ = some s₁)
    (hjust : Justified B s.moments op.payload.path op.record ⟨path, .deleteFile, before⟩)
    (hmay : s.MayAct B ⟨path, .deleteFile, before⟩) : Acted B s s₁ ⟨path, .deleteFile, before⟩ := by
  obtain ⟨hpath, c', hproven, ⟨m, hm, hstood⟩, hbefore⟩ := hjust
  cases hslot : s.files path with
  | absent => simp [System.act, hslot] at hact
  | other mode => simp [System.act, hslot] at hact
  | file c =>
    simp only [System.act, hslot, Option.some.injEq] at hact
    obtain rfl := hact
    -- the token is that of bytes that are proven, and it stands for no others
    have hlive : B.hashBytes c = B.hashBytes c' := by
      have hcompared := hmay.compared rfl
      rw [hslot] at hcompared
      exact hcompared.trans hbefore
    have hcontent := hmay.apart (.inl rfl) s.moment moment_mem_moments m hm (by
      show Change.token B .deleteFile (s.files path) = Change.token B .deleteFile (m.files path)
      rw [hslot, hstood]
      exact hlive)
    have hc : c = c' := by
      simp only [System.moment] at hcontent
      rw [hslot, hstood] at hcontent
      exact Option.some.inj hcontent
    have hsub : s.moments ⊆ (s.put path .absent).moments := moments_subset_put
    refine ⟨hsub, rfl, rfl, rfl, fun _ => put_binding hpath, ?_, ?_⟩
    · intro rel d hd
      rcases List.mem_cons.mp hd with heq | hd
      · obtain ⟨rfl, rfl⟩ := Effect.deleted.inj heq
        rw [hc]
        exact hproven.mono hsub
      · exact (h.proven rel d hd).mono hsub
    · intro rel record hrecord
      have hkept := h.kept rel record ((lastRecorded_deleted _ _ _ _).symm.trans hrecord)
      rwa [← show (s.put path .absent).binding = s.binding from put_binding hpath] at hkept

/-- A write that goes right changes no record but that of its own layer. -/
theorem Invariant.actWrite (h : Invariant B s) {path : Path} {content : Content} {before : String}
    (hact : s.act op ⟨path, .write content, before⟩ = some s₁)
    (hjust : Justified B s.moments op.payload.path op.record ⟨path, .write content, before⟩)
    (hmay : s.MayAct B ⟨path, .write content, before⟩)
    (hlive : path = bindingPath → fileToken B s.binding = before) :
    Acted B s s₁ ⟨path, .write content, before⟩ := by
  have hs₁ : s₁ = (s.put path (.file content)).note
      (op.effects ⟨path, .write content, before⟩ (s.files path)) := by
    cases hslot : s.files path <;> simp_all [System.act]
  subst hs₁
  have hsub : s.moments ⊆ (s.put path (.file content)).moments := moments_subset_put
  by_cases hpath : path = bindingPath
  · subst hpath
    obtain ⟨hown, m, hm, htoken, hothers⟩ := hjust rfl
    have hlayers : s.binding.layers = (m.files bindingPath).layers := by
      apply layers_congr
      apply hmay.apart (.inr rfl) s.moment moment_mem_moments m hm
      show Change.token B _ s.binding = Change.token B _ (m.files bindingPath)
      rw [token_write, token_write, hlive rfl, htoken]
    refine ⟨hsub, rfl, rfl, rfl, fun hne => absurd rfl hne, ?_, ?_⟩
    · intro rel d hd
      rcases List.mem_cons.mp hd with heq | hd
      · cases heq
      · exact (h.proven rel d hd).mono hsub
    · intro rel record hrecord
      show (s.put bindingPath (.file content)).binding.layers.get rel = some (.obj record)
      rw [put_binding_self]
      have hlast : lastRecorded (.recorded op.payload.path op.record :: s.effects) rel =
          some record := hrecord
      rw [lastRecorded_recorded] at hlast
      split_ifs at hlast with hrel
      · obtain rfl := Option.some.inj hlast
        exact hrel ▸ hown
      · rw [hothers rel (Ne.symm hrel), ← hlayers]
        exact h.kept rel record hlast
  · have heffects : op.effects ⟨path, .write content, before⟩ (s.files path) = [] := by
      simp [Operation.effects, hpath]
    rw [heffects]
    refine ⟨hsub, rfl, rfl, rfl, fun _ => put_binding hpath, ?_, ?_⟩
    · exact fun rel d hd => (h.proven rel d hd).mono hsub
    · intro rel record hrecord
      have hkept := h.kept rel record hrecord
      rwa [← show (s.put path (.file content)).binding = s.binding from put_binding hpath] at hkept

theorem Invariant.acted (h : Invariant B s) (hact : s.act op t = some s₁)
    (hjust : Justified B s.moments op.payload.path op.record t) (hmay : s.MayAct B t)
    (hlive : t.path = bindingPath → t.live B s.binding = t.before) : Acted B s s₁ t := by
  obtain ⟨path, change, before⟩ := t
  cases change with
  | deleteFile => exact h.actDelete hact hjust hmay
  | write content =>
    refine h.actWrite hact hjust hmay fun hpath => ?_
    rw [← token_write content]
    exact hlive hpath

variable [DecidableEq π] {p : π} {stage : Stage}

/-- The holder of the lock changes a target and goes on. -/
theorem Invariant.act (h : Invariant B s) (hacted : Acted B s s₁ t) (hw : s.writer = some p)
    (hp : stage.Told B (s₁.writer = some p) s₁.binding s₁.moments) :
    Invariant B (s₁.at p stage) := by
  refine h.step (p := p) hacted.moments (fun q hq => ?_) (fun q hq hwq => ?_) (fun op hop => ?_)
    hacted.proven hacted.kept ?_
  · rw [at_of_ne hq, hacted.stages]
  · exact absurd (Option.some.inj (hwq.symm.trans hw)) hq
  · have hop' : op ∈ s₁.operations := hop
    rw [hacted.operations] at hop'
    exact (h.operations op hop').mono hacted.moments
  · rw [at_stage]
    exact hp

/-- `bind_layer` writes the record of its layer and leaves the others. -/
theorem Invariant.bound (h : Invariant B s) {b : BindRequest} {doc record : Dict}
    (hw : s.writer = some p)
    (hlayers : ∀ rel, (layersOf (b.document doc record)).get rel =
      if rel = b.rel then some (.obj record) else s.binding.layers.get rel) :
    Invariant B (((s.put bindingPath (.file (bindingBytes (b.document doc record)))).note
      [.recorded b.rel record]).at p .releasing) := by
  refine h.step (p := p) moments_subset_put (fun q hq => at_of_ne hq) (fun q hq hwq => ?_)
    (fun op hop => (h.operations op hop).mono moments_subset_put) (fun rel c hc => ?_)
    (fun rel written hwritten => ?_) ?_
  · exact absurd (Option.some.inj (hwq.symm.trans hw)) hq
  · rcases List.mem_cons.mp hc with heq | hc
    · cases heq
    · exact (h.proven rel c hc).mono moments_subset_put
  · show (s.put bindingPath (.file (bindingBytes (b.document doc record)))).binding.layers.get rel =
      some (.obj written)
    have hlast : lastRecorded (.recorded b.rel record :: s.effects) rel = some written := hwritten
    rw [lastRecorded_recorded] at hlast
    rw [put_binding_self, layers_bindingBytes, hlayers]
    split_ifs at hlast ⊢ with hrel hrel' hrel'
    · rw [Option.some.inj hlast]
    · exact absurd hrel.symm hrel'
    · exact absurd hrel'.symm hrel
    · exact h.kept rel written hlast
  · rw [at_stage]
    exact hw

end Acts

end Saipen.AuditInbox

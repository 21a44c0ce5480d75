import Saipen.HostAuthority.Admission

/-! # Which answered capabilities can be used

`staleness` does not ask whether the capability of a record has expired, nor whether a label that one
side lacks is the label the capability is bound to. In every state a broker can reach, the capability
it answers is verified against the request's own binding exactly when the record it comes from has the
request's labels and its capability has not expired. -/

namespace Saipen.HostAuthority

open Binary64

variable {w : World}

/-! ### Runs -/

/-- A broker and everything its authority has minted. -/
structure Service where
  broker : Broker
  history : List Minted

/-- A request a broker serves, with what the system answers it. -/
inductive Request where
  | admission (payload : Payload) (profile : Option String) (found : Components) (capabilityId : Hex)
      (removed written : Bool)
  | invalidate (payload : Payload) (removed : Bool)
  | authorize (payload : Payload) (later : ℚ)

/-- The token a request would draw was not drawn before. -/
def Service.Fresh (s : Service) : Request → Prop
  | .admission _ _ _ capabilityId _ _ => ∀ m ∈ s.history, m.fields.capabilityId ≠ capabilityId
  | _ => True

/-- A request and its answer. -/
def Service.serve (w : World) (s : Service) (now : ℚ) : Request → Reply × Service
  | .admission payload profile found capabilityId removed written =>
      let (reply, broker, minted) :=
        s.broker.admission w payload profile found now capabilityId removed written
      (reply, { broker := broker, history := s.history ++ minted.toList })
  | .invalidate payload removed =>
      let (reply, broker) := s.broker.invalidate w payload removed
      (reply, { s with broker := broker })
  | .authorize payload later => (s.broker.authorize w payload now later, s)

/-- A broker that has served nothing: no record in the ledger is of its generation. -/
structure Broker.Initial (b : Broker) : Prop where
  issued : b.authority.issued = []
  ledger : ∀ path record, b.ledger path = some record → record.kid ≠ b.authority.instanceId

/-- The states any requests lead to, at any readings of the clock. -/
inductive Served (w : World) : Service → Prop where
  | start {b : Broker} : b.Initial → Served w { broker := b, history := [] }
  | serve {s : Service} (now : ℚ) (request : Request) :
      Served w s → s.Fresh request → Served w (s.serve w now request).2

/-! ### The ledger -/

/-- A record of this broker's generation is where its scope puts it, and its capability was minted for
that scope. -/
def Service.Wrote (w : World) (s : Service) (path : String × String) (record : Record) : Prop :=
  ∃ scope, ∃ m ∈ s.history, path = w.ledgerPath scope.root scope.session ∧
    record.body.capability = m.capability ∧ m.fields.binding = w.binding scope ∧
    record.body.session = scope.session ∧ record.body.host = scope.host ∧
    record.body.model = scope.model ∧ record.body.provider = scope.provider

/-- What holds in every state a broker can reach. -/
structure Service.Invariant (w : World) (s : Service) : Prop where
  minting : Minting s.broker.authority s.history
  wrote : ∀ path record, s.broker.ledger path = some record →
    record.kid = s.broker.authority.instanceId → s.Wrote w path record

theorem Broker.Initial.invariant {b : Broker} (h : b.Initial) :
    Service.Invariant w { broker := b, history := [] } where
  minting := .start h.issued
  wrote path record hrecord hkid := absurd hkid (h.ledger path record hrecord)

theorem Service.Wrote.mono {s : Service} {b : Broker} {more : List Minted} {path : String × String}
    {record : Record} (h : s.Wrote w path record) :
    Service.Wrote w { broker := b, history := s.history ++ more } path record := by
  obtain ⟨scope, m, hm, hrest⟩ := h
  exact ⟨scope, m, List.mem_append_left _ hm, hrest⟩

/-- Removing a record keeps the others. -/
theorem Service.Invariant.remove {s : Service} (h : s.Invariant w) (scope : Scope) (removed : Bool) :
    Service.Invariant w { s with broker := s.broker.remove w scope removed } := by
  unfold Broker.remove
  cases removed with
  | false => exact h
  | true =>
    refine ⟨h.minting, fun path record hrecord hkid => ?_⟩
    by_cases hpath : path = w.ledgerPath scope.root scope.session
    · subst hpath
      simp at hrecord
    · have hkept : s.broker.ledger path = some record := by
        simpa [Function.update_of_ne hpath] using hrecord
      exact h.wrote path record hkept hkid

theorem Service.Invariant.renewed {s : Service} (h : s.Invariant w) (payload : Payload)
    (scope : Scope) (removed : Bool) :
    Service.Invariant w { s with broker := s.broker.renewed w payload scope removed } := by
  unfold Broker.renewed
  split
  · exact h.remove scope removed
  · exact h

section Handshake

variable {s : Service} {scope : Scope} {found : Components} {now : ℚ} {capabilityId : Hex}
  {written : Bool} {state : AdmissionState} {stale : List String}

section Cases

variable (w scope found now capabilityId written)

/-- A handshake raises, or it answers the capability it has minted for the scope. -/
theorem handshake_cases (state : AdmissionState) (stale : List String) (b : Broker) :
    b.handshake w scope found now capabilityId written state stale = (.raised, b, none) ∨
      ∃ authority' minted ledger', b.handshake w scope found now capabilityId written state stale =
          (.admitted ⟨minted.capability, state, stale, written⟩, ⟨authority', ledger'⟩, some minted) ∧
        b.authority.mint (w.binding scope) (w.generation found.proofs) (w.adapter scope.host)
          (w.authorityDigest found.proofs) now capabilityId = some (authority', minted) ∧
        ∀ path record, ledger' path = some record → b.ledger path = some record ∨
          (path = w.ledgerPath scope.root scope.session ∧
            record.body.capability = minted.capability ∧ record.body.session = scope.session ∧
            record.body.host = scope.host ∧ record.body.model = scope.model ∧
            record.body.provider = scope.provider) := by
  unfold Broker.handshake
  cases hmint : b.authority.mint (w.binding scope) (w.generation found.proofs) (w.adapter scope.host)
      (w.authorityDigest found.proofs) now capabilityId with
  | none => exact .inl rfl
  | some pair =>
    obtain ⟨authority', minted⟩ := pair
    refine .inr ⟨authority', minted, _, rfl, rfl, fun path record hrecord => ?_⟩
    cases written with
    | false => exact .inl hrecord
    | true =>
      by_cases hpath : path = w.ledgerPath scope.root scope.session
      · subst hpath
        simp only [if_true, Function.update_self, Option.some.injEq] at hrecord
        subst hrecord
        exact .inr ⟨rfl, rfl, rfl, rfl, rfl, rfl⟩
      · left
        simpa [Function.update_of_ne hpath] using hrecord

/-- A scope without problems is answered from its record or by a handshake. -/
theorem settle_cases (b : Broker) :
    (∃ record, b.proven w scope = some record ∧ staleness record.body scope found.proofs = [] ∧
      b.settle w scope found now capabilityId written =
        (.admitted ⟨record.body.capability, .admitted, [], false⟩, b, none)) ∨
    ((∀ record, b.proven w scope = some record →
        staleness record.body scope found.proofs ≠ []) ∧
      ∃ state stale, b.settle w scope found now capabilityId written =
        b.handshake w scope found now capabilityId written state stale) := by
  unfold Broker.settle
  cases hproven : b.proven w scope with
  | none => exact .inr ⟨fun _ hrecord => by simp at hrecord, _, _, rfl⟩
  | some record =>
    by_cases hstale : staleness record.body scope found.proofs = []
    · exact .inl ⟨record, rfl, hstale, if_pos hstale⟩
    · refine .inr ⟨fun _ hrecord => Option.some.inj hrecord ▸ hstale, .stale, _, if_neg hstale⟩

end Cases

/-- A handshake keeps the invariant. -/
theorem Service.Invariant.handshake (h : s.Invariant w)
    (hfresh : ∀ m ∈ s.history, m.fields.capabilityId ≠ capabilityId) {reply : Reply} {b : Broker}
    {minted : Option Minted}
    (hb : s.broker.handshake w scope found now capabilityId written state stale = (reply, b, minted)) :
    Service.Invariant w { broker := b, history := s.history ++ minted.toList } := by
  rcases handshake_cases w scope found now capabilityId written state stale s.broker with
    hraised | ⟨authority', m, ledger', hansweredted, hmint, hledger⟩
  · obtain ⟨-, rfl, rfl⟩ : reply = .raised ∧ b = s.broker ∧ minted = none := by
      simpa [hraised, eq_comm] using hb
    simpa using h
  · obtain ⟨-, rfl, rfl⟩ : reply = .admitted ⟨m.capability, state, stale, written⟩ ∧
        b = ⟨authority', ledger'⟩ ∧ minted = some m := by
      simpa [hansweredted, eq_comm] using hb
    obtain ⟨rfl, -, -, -, hbinding, -⟩ := mint_eq_some hmint
    refine ⟨h.minting.mint hfresh hmint, fun path record hrecord hkid => ?_⟩
    rcases hledger path record hrecord with hold | ⟨hpath, hcapability, hrest⟩
    · exact (h.wrote path record hold hkid).mono
    · exact ⟨scope, m, by simp, hpath, hcapability, hbinding, hrest⟩

/-- An answer to a scope keeps the invariant. -/
theorem Service.Invariant.settle (h : s.Invariant w)
    (hfresh : ∀ m ∈ s.history, m.fields.capabilityId ≠ capabilityId) {reply : Reply} {b : Broker}
    {minted : Option Minted}
    (hb : s.broker.settle w scope found now capabilityId written = (reply, b, minted)) :
    Service.Invariant w { broker := b, history := s.history ++ minted.toList } := by
  rcases settle_cases w scope found now capabilityId written s.broker with
    ⟨record, -, -, hreused⟩ | ⟨-, state, stale, hhandshake⟩
  · obtain ⟨-, rfl, rfl⟩ : reply = .admitted ⟨record.body.capability, .admitted, [], false⟩ ∧
        b = s.broker ∧ minted = none := by
      simpa [hreused, eq_comm] using hb
    simpa using h
  · exact h.handshake hfresh (hhandshake ▸ hb)

end Handshake

/-- **One request.** -/
theorem Service.Invariant.serve {s : Service} (h : s.Invariant w) (now : ℚ) {request : Request}
    (hfresh : s.Fresh request) : (s.serve w now request).2.Invariant w := by
  cases request with
  | admission payload profile found capabilityId removed written =>
    show Service.Invariant w { broker := _, history := _ }
    cases hscope : w.read payload profile with
    | error refusal => simpa [Broker.admission, hscope] using h
    | ok scope =>
      have hrenewed := h.renewed payload scope removed
      by_cases hproblems : found.problems = []
      · simp only [hproblems, ne_eq, not_true_eq_false, if_false]
        exact hrenewed.settle hfresh rfl
      · simpa [Broker.admission, hscope, hproblems] using hrenewed
  | invalidate payload removed =>
    show Service.Invariant w { broker := _, history := _ }
    cases hscope : w.scope payload with
    | error refusal => simpa [Broker.invalidate, hscope] using h
    | ok scope => simpa [Broker.invalidate, hscope] using h.remove scope removed
  | authorize payload later => exact h

theorem Served.invariant {s : Service} (h : Served w s) : s.Invariant w := by
  induction h with
  | start hinitial => exact hinitial.invariant
  | serve now request _ hfresh ih => exact ih.serve now hfresh

/-! ### Usable answers -/

/-- The capability of a record can be used for a scope: the table has it, neither its second nor its
expiry has passed, and its labels are the scope's. -/
def Broker.Current (b : Broker) (record : RecordBody) (scope : Scope) (now : ℚ) : Prop :=
  (∃ fields ∈ b.authority.issued, b.authority.capability fields = record.capability ∧
    now ≤ trunc fields.expires ∧ now ≤ fields.expires) ∧
    label record.model = label scope.model ∧ label record.provider = label scope.provider

/-- A lifetime that begins now does not end before now, nor is its entry dropped from the table as
soon as it is recorded. -/
def Authority.Lasts (a : Authority) (now : ℚ) : Prop :=
  ∀ expires, plusSeconds now a.ttlSeconds = .finite expires →
    now ≤ trunc expires ∧ now ≤ expires ∧
      (4096 ≤ a.issued.length → (plusSeconds now (-a.ttlSeconds)).lt (.finite expires) = true)

/-- What an admission needs for its answer to be usable: the record it would answer from is current,
or the capability it would mint lasts. -/
def Broker.Usable (w : World) (b : Broker) (scope : Scope) (found : Components) (now : ℚ) : Prop :=
  (∀ record, b.proven w scope = some record → staleness record.body scope found.proofs = [] →
      b.Current record.body scope now) ∧
    ((∀ record, b.proven w scope = some record → staleness record.body scope found.proofs ≠ []) →
      b.authority.Lasts now)

/-- Two capabilities with one text are one. -/
theorem History.capability_inj {a : Authority} {history : List Minted} (h : History a history)
    {m m' : Minted} (hm : m ∈ history) (hm' : m' ∈ history)
    (htext : a.capability m.fields = a.capability m'.fields) : m = m' := by
  have hparts := congrArg (Text.split '.') htext
  rw [split_capability (h.instanceId m hm), split_capability (h.instanceId m' hm')] at hparts
  simp only [List.cons.injEq, true_and, and_true] at hparts
  exact h.unique m hm m' hm' (Hex.ext hparts.2.1)

/-- A record that is not stale is of the scope's host. -/
theorem host_of_not_stale {record : RecordBody} {scope : Scope} {proofs : List (String × String)}
    (h : staleness record scope proofs = []) : record.host = scope.host := by
  unfold staleness at h
  by_contra hhost
  simp [hhost] at h

section Usable

variable {s : Service} {scope : Scope} {found : Components} {now : ℚ} {capabilityId : Hex}
  {written : Bool}

/-- What is known of a record the broker answers from. -/
theorem Service.Invariant.proven (h : s.Invariant w) {record : Record}
    (hproven : s.broker.proven w scope = some record)
    (hstale : staleness record.body scope found.proofs = []) :
    ∃ m ∈ s.history, record.body.capability = m.capability ∧
      (m.fields.binding = w.binding scope ↔ label record.body.model = label scope.model ∧
        label record.body.provider = label scope.provider) := by
  obtain ⟨hread, hproves⟩ := Option.filter_eq_some_iff.mp hproven
  obtain ⟨hledger, hread⟩ := Option.filter_eq_some_iff.mp hread
  simp only [Broker.proves, Bool.and_eq_true, beq_iff_eq] at hproves hread
  obtain ⟨scope₀, m, hm, hpath, hcapability, hbinding, hsession, hhost, hmodel, hprovider⟩ :=
    h.wrote _ _ hledger hproves.1.1
  refine ⟨m, hm, hcapability, ?_⟩
  have hroot : scope.root = scope₀.root := (Prod.mk.inj hpath).1
  have hsessions : scope₀.session = scope.session := hsession.symm.trans hread.2
  have hhosts : scope₀.host = scope.host := hhost.symm.trans (host_of_not_stale hstale)
  rw [hbinding, hmodel, hprovider]
  simp [World.binding, hroot, hsessions, hhosts]

/-- An answer from the ledger. -/
theorem Service.Invariant.reused (h : s.Invariant w) {record : Record}
    (hproven : s.broker.proven w scope = some record)
    (hstale : staleness record.body scope found.proofs = []) :
    (∃ detail, s.broker.authority.verify (some record.body.capability) (w.binding scope) now now =
        .ok (.verified detail)) ↔ s.broker.Current record.body scope now := by
  obtain ⟨m, hm, hcapability, hbinding⟩ := h.proven hproven hstale
  have hist := h.minting.history
  rw [hcapability, verified_iff hist hm, hbinding, Broker.Current, hcapability]
  constructor
  · rintro ⟨hknown, hsecond, hexpires, hlabels⟩
    exact ⟨⟨m.fields, hknown, (hist.text m hm).symm, hsecond, hexpires⟩, hlabels⟩
  · rintro ⟨⟨fields, hknown, htext, hsecond, hexpires⟩, hlabels⟩
    obtain ⟨m', hm', rfl⟩ := hist.issued fields hknown
    obtain rfl := hist.capability_inj hm' hm (htext.trans (hist.text m hm))
    exact ⟨hknown, hsecond, hexpires, hlabels⟩

/-- An answer with a new capability. -/
theorem Service.Invariant.minted (h : s.Invariant w)
    (hfresh : ∀ m ∈ s.history, m.fields.capabilityId ≠ capabilityId) {authority' : Authority}
    {m : Minted} {generation adapter authority : String}
    (hmint : s.broker.authority.mint (w.binding scope) generation adapter authority now
      capabilityId = some (authority', m)) :
    (∃ detail, authority'.verify (some m.capability) (w.binding scope) now now =
        .ok (.verified detail)) ↔ s.broker.authority.Lasts now := by
  have hist := (h.minting.mint hfresh hmint).history
  obtain ⟨rfl, -, -, -, hbinding, hexpires⟩ := mint_eq_some hmint
  have hissued : m.fields.issued = now := by
    unfold Authority.mint at hmint
    split at hmint
    · exact (Prod.mk.inj (Option.some.inj hmint)).2 ▸ rfl
    · simp at hmint
  rw [verified_iff hist (by simp), Authority.Lasts]
  have hrecorded : m.fields ∈ s.broker.authority.record m.fields ↔
      (4096 ≤ s.broker.authority.issued.length →
        (plusSeconds now (-s.broker.authority.ttlSeconds)).lt (.finite m.fields.expires) = true) := by
    unfold Authority.record
    simp only [List.length_append, List.length_singleton, hissued]
    by_cases hfull : 4096 ≤ s.broker.authority.issued.length
    · rw [if_pos (Nat.lt_succ_of_le hfull), List.mem_filter]
      simp [hfull]
    · rw [if_neg (fun hless => hfull (Nat.le_of_lt_succ hless))]
      simp [hfull]
  constructor
  · rintro ⟨hknown, hsecond, hlater, -⟩ expires hfinite
    obtain rfl := Value.finite.inj (hexpires.symm.trans hfinite)
    exact ⟨hsecond, hlater, hrecorded.mp hknown⟩
  · intro hlasts
    obtain ⟨hsecond, hlater, hkept⟩ := hlasts _ hexpires
    exact ⟨hrecorded.mpr hkept, hsecond, hlater, hbinding⟩

/-- The answer to a scope whose components have no problem. -/
theorem Service.Invariant.settle_usable (h : s.Invariant w)
    (hfresh : ∀ m ∈ s.history, m.fields.capabilityId ≠ capabilityId) {answer : Admitted} {b : Broker}
    {minted : Option Minted}
    (hanswered : s.broker.settle w scope found now capabilityId written = (.admitted answer, b, minted)) :
    (∃ detail, b.authority.verify (some answer.capability) (w.binding scope) now now =
        .ok (.verified detail)) ↔ s.broker.Usable w scope found now := by
  rcases settle_cases w scope found now capabilityId written s.broker with
    ⟨record, hproven, hstale, hreused⟩ | ⟨hno, state, stale, hhandshake⟩
  · obtain ⟨rfl, rfl, -⟩ : answer = ⟨record.body.capability, .admitted, [], false⟩ ∧
        b = s.broker ∧ minted = none := by
      simpa [hreused, eq_comm] using hanswered
    rw [h.reused hproven hstale]
    constructor
    · intro hcurrent
      refine ⟨fun record' hrecord' _ => ?_, fun hno => absurd hstale (hno record hproven)⟩
      obtain rfl := Option.some.inj (hproven.symm.trans hrecord')
      exact hcurrent
    · exact fun husable => husable.1 record hproven hstale
  · rcases handshake_cases w scope found now capabilityId written state stale s.broker with
      hraised | ⟨authority', m, ledger', hansweredted, hmint, -⟩
    · simp [hhandshake, hraised] at hanswered
    · obtain ⟨rfl, rfl, -⟩ : answer = ⟨m.capability, state, stale, written⟩ ∧
          b = ⟨authority', ledger'⟩ ∧ minted = some m := by
        simpa [hhandshake, hansweredted, eq_comm] using hanswered
      rw [h.minted hfresh hmint]
      constructor
      · exact fun hlasts =>
          ⟨fun record hproven hstale => absurd hstale (hno record hproven), fun _ => hlasts⟩
      · exact fun husable => husable.2 hno

end Usable

/-- **Usable capabilities.** In every state a broker can reach, when `_admission` answers with a
capability, the authority verifies it against the binding of the same request at the same moment if
and only if the record it was answered from is current, or the capability that was minted lasts. -/
theorem admission_usable_iff {s : Service} (h : Served w s) {payload : Payload}
    {profile : Option String} {found : Components} {now : ℚ} {capabilityId : Hex}
    {removed written : Bool} {answer : Admitted} {b : Broker} {minted : Option Minted}
    (hfresh : ∀ m ∈ s.history, m.fields.capabilityId ≠ capabilityId)
    (hanswered : s.broker.admission w payload profile found now capabilityId removed written =
      (.admitted answer, b, minted)) :
    ∃ scope, w.read payload profile = .ok scope ∧
      ((∃ detail, b.authority.verify (some answer.capability) (w.binding scope) now now =
          .ok (.verified detail)) ↔
        (s.broker.renewed w payload scope removed).Usable w scope found now) := by
  unfold Broker.admission at hanswered
  cases hscope : w.read payload profile with
  | error refusal =>
    simp [hscope] at hanswered
  | ok scope =>
    refine ⟨scope, rfl, ?_⟩
    simp only [hscope] at hanswered
    split at hanswered
    · simp at hanswered
    · exact (h.invariant.renewed payload scope removed).settle_usable hfresh hanswered

/-! ### A record that outlives its capability -/

/-- The capability of a reply that admits. -/
def Reply.capability : Reply → Option String
  | .admitted answer => some answer.capability
  | _ => none

theorem admitted_of_capability {reply : Reply} {text : String} (h : reply.capability = some text) :
    ∃ answer, reply = .admitted answer ∧ answer.capability = text := by
  cases reply with
  | admitted answer => exact ⟨answer, rfl, Option.some.inj h⟩
  | _ => simp [Reply.capability] at h

/-- Every path is a project and every digest its own text. -/
def sampleWorld : World where
  resolve := some
  isProject _ := true
  normcase := id
  normPath := id
  fingerprint := id
  ledgerName := id
  generation _ := "adm-0"
  adapter _ := ""
  authorityDigest _ := ""
  provenance _ := ⟨"d1", by decide⟩

/-- A request of one session of `claude`. -/
def samplePayload (model : Option String) : Payload :=
  { project := some "/p", session := some "s", host := some "claude", model := model }

/-- The scope of the request. -/
def sampleScope (model : Option String) : Scope := ⟨"/p", "s", "claude", model, none, none⟩

/-- The broker after it admitted the session at second 1000, for the model `opus`. -/
def admittedService : Service :=
  (Service.serve sampleWorld { broker := { authority := sampleAuthority }, history := [] } 1000
    (.admission (samplePayload (some "opus")) none {} firstToken true true)).2

theorem admittedService_served : Served sampleWorld admittedService :=
  .serve 1000 _ (.start ⟨rfl, fun _ _ h => by simp at h⟩) fun _ hm => by simp at hm

/-- The next admission of the session, at second `now` and for `model`. -/
def nextAdmission (model : Option String) (now : ℚ) : Reply × Broker × Option Minted :=
  admittedService.broker.admission sampleWorld (samplePayload model) none {} now ⟨"2f", by decide⟩
    true true

/-- The record is answered after its capability has expired, and to a request without a model. Both
answers are refused by `verify`. -/
theorem answered_capability_refused :
    ((nextAdmission (some "opus") 2000).1.capability = some "cap.broker-0a.1900.1f.c4" ∧
      (nextAdmission (some "opus") 2000).2.1.authority.verify (some "cap.broker-0a.1900.1f.c4")
        (sampleWorld.binding (sampleScope (some "opus"))) 2000 2000 =
          .ok (.refused "BROKER_CAPABILITY_EXPIRED" "capability has expired")) ∧
    ((nextAdmission none 1500).1.capability = some "cap.broker-0a.1900.1f.c4" ∧
      (nextAdmission none 1500).2.1.authority.verify (some "cap.broker-0a.1900.1f.c4")
        (sampleWorld.binding (sampleScope none)) 1500 1500 =
          .ok (.refused "BROKER_BINDING_MISMATCH" "capability is bound to another model")) := by
  decide +kernel

/-- At second 1500 the record is current for its own model. -/
theorem admission_usable_again :
    ∃ scope, sampleWorld.read (samplePayload (some "opus")) none = .ok scope ∧
      (admittedService.broker.renewed sampleWorld (samplePayload (some "opus")) scope true).Usable
        sampleWorld scope {} 1500 := by
  have hcapability : (nextAdmission (some "opus") 1500).1.capability =
      some "cap.broker-0a.1900.1f.c4" := by decide +kernel
  have hverify : (nextAdmission (some "opus") 1500).2.1.authority.verify
      (some "cap.broker-0a.1900.1f.c4") (sampleWorld.binding (sampleScope (some "opus"))) 1500 1500 =
        .ok (.verified "capability verified against the issuing broker") := by decide +kernel
  have hnew : ∀ m ∈ admittedService.history, m.fields.capabilityId ≠ ⟨"2f", by decide⟩ := by
    decide +kernel
  obtain ⟨answer, hanswer, htext⟩ := admitted_of_capability hcapability
  obtain ⟨scope, hscope, husable⟩ := admission_usable_iff admittedService_served hnew
    (show nextAdmission (some "opus") 1500 =
        (.admitted answer, (nextAdmission (some "opus") 1500).2) from Prod.ext hanswer rfl)
  obtain rfl : sampleScope (some "opus") = scope := Except.ok.inj hscope
  exact ⟨_, hscope, husable.mp ⟨_, htext ▸ hverify⟩⟩

end Saipen.HostAuthority

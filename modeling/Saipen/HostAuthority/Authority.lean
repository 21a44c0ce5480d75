import Saipen.Text.Number

/-! # Capabilities

`Authority` mints capabilities bound to a project, a session, a host, a model and a provider, keeps
what it minted in a table that it prunes, and verifies a text against the table. The keyed digest is a
function of the fields; a random token is any hexadecimal text. -/

namespace Saipen.HostAuthority

open Binary64

/-- Hexadecimal text, as digests and tokens have it. -/
@[ext] structure Hex where
  text : String
  hex : text.toList.all Text.isLowerHex = true
deriving DecidableEq

/-- The scope a capability is bound to. -/
@[ext] structure Binding where
  project : String
  session : String
  host : String
  model : String
  provider : String
deriving DecidableEq

/-- The fields of a minted capability. -/
structure Fields where
  instanceId : String
  capabilityId : Hex
  issued : ℚ
  expires : ℚ
  binding : Binding
  adapter : String
  authority : String
  generation : String
deriving DecidableEq

/-- `Minted`. -/
structure Minted where
  capability : String
  fields : Fields

/-- `Authority`: `_mac` under its key, the random part of its instance, the table of what it issued. -/
structure Authority where
  mac : Fields → Hex
  token : Hex
  ttlSeconds : ℤ
  issued : List Fields := []

/-- `self.instance`. -/
def Authority.instanceId (a : Authority) : String := "broker-" ++ a.token.text

/-- The text of a capability. -/
def Authority.capability (a : Authority) (fields : Fields) : String :=
  ".".intercalate ["cap", fields.instanceId, Text.str (trunc fields.expires),
    fields.capabilityId.text, (a.mac fields).text]

/-- `issued + seconds`, as numbers of the machine. -/
def plusSeconds (moment : ℚ) (seconds : ℤ) : Value := ofRat (moment + Binary64.round seconds)

/-- The table with a new entry: over 4096 entries, those that expired a lifetime ago are dropped. -/
def Authority.record (a : Authority) (fields : Fields) : List Fields :=
  let issued := a.issued ++ [fields]
  if 4096 < issued.length then
    issued.filter fun known => (plusSeconds fields.issued (-a.ttlSeconds)).lt (.finite known.expires)
  else issued

/-- `mint`, with the token it drew; `none` where the expiry is no finite number. -/
def Authority.mint (a : Authority) (binding : Binding) (generation adapter authority : String)
    (issued : ℚ) (capabilityId : Hex) : Option (Authority × Minted) :=
  match plusSeconds issued a.ttlSeconds with
  | .finite expires =>
      let fields : Fields :=
        { instanceId := a.instanceId
          capabilityId := capabilityId
          issued := issued
          expires := expires
          binding := binding
          adapter := adapter
          authority := authority
          generation := generation }
      some ({ a with issued := a.record fields }, ⟨a.capability fields, fields⟩)
  | _ => none

/-- What `verify` answers. -/
inductive Verdict where
  | verified (detail : String)
  | refused (code detail : String)
deriving DecidableEq

/-- The exceptions `verify` does not catch. -/
inductive Raised where
  | overflowError
  | valueError
  | typeError
deriving DecidableEq

/-- `int` of a double. -/
def int : Value → Except Raised ℤ
  | .finite x => .ok (trunc x)
  | .infinity _ => .error .overflowError
  | .nan => .error .valueError

/-- The fields of a binding under their names. -/
def Binding.fields (b : Binding) : List (String × String) :=
  [("project", b.project), ("session", b.session), ("host", b.host), ("model", b.model),
    ("provider", b.provider)]

/-- The first field in which two bindings differ. -/
def firstDifference (x y : Binding) : Option String :=
  ((x.fields.zip y.fields).find? fun field => field.1.2 != field.2.2).map fun field => field.1.1

/-- Whether a text is ASCII. -/
def isAscii (s : String) : Bool := s.toList.all (·.toNat < 128)

/-- `hmac.compare_digest` of two texts, which have to be ASCII. -/
def compareDigest (digest text : String) : Except Raised Bool :=
  if isAscii digest && isAscii text then .ok (digest == text) else .error .typeError

/-- What `verify` does with an entry of the table and an expiry that have not expired. -/
def Authority.compare (a : Authority) (fields : Fields) (expires : Value) (mac : String)
    (binding : Binding) : Except Raised Verdict := do
  if (← int expires) ≠ trunc fields.expires then
    return .refused "BROKER_CAPABILITY_INVALID" "presented expiry is not the minted expiry"
  match firstDifference fields.binding binding with
  | some name => return .refused "BROKER_BINDING_MISMATCH" ("capability is bound to another " ++ name)
  | none =>
    if ← compareDigest (a.mac fields).text mac then
      return .verified "capability verified against the issuing broker"
    else return .refused "BROKER_CAPABILITY_INVALID" "capability mac does not verify"

/-- `verify`, with the two readings of the clock it takes; `none` is a value that is no text. -/
def Authority.verify (a : Authority) (capability : Option String) (binding : Binding)
    (now now' : ℚ) : Except Raised Verdict :=
  match capability with
  | none => return .refused "BROKER_CAPABILITY_INVALID" "no capability presented"
  | some text =>
    if text = "" then return .refused "BROKER_CAPABILITY_INVALID" "no capability presented"
    else match Text.split '.' text with
      | [kind, instanceId, expiresText, capabilityId, mac] =>
        if kind ≠ "cap" then return .refused "BROKER_CAPABILITY_INVALID" "malformed capability"
        else if instanceId ≠ a.instanceId then
          return .refused "BROKER_CAPABILITY_INVALID" "capability was issued by another generation"
        else match Text.float expiresText with
          | none => return .refused "BROKER_CAPABILITY_INVALID" "unreadable expiry"
          | some expires =>
            match a.issued.find? (·.capabilityId.text == capabilityId) with
            | none =>
              return .refused "BROKER_CAPABILITY_REPLAY" "capability is not one this broker issued"
            | some fields =>
              if expires.lt (.finite now) || fields.expires < now' then
                return .refused "BROKER_CAPABILITY_EXPIRED" "capability has expired"
              else a.compare fields expires mac binding
      | _ => return .refused "BROKER_CAPABILITY_INVALID" "malformed capability"

/-! ### Minting -/

/-- Whatever an authority has minted, with the table it has kept. A token that was drawn before is
not drawn again. -/
inductive Minting : Authority → List Minted → Prop where
  | start {a : Authority} : a.issued = [] → Minting a []
  | mint {a a' : Authority} {history : List Minted} {m : Minted} {binding : Binding}
      {generation adapter authority : String} {issued : ℚ} {capabilityId : Hex} :
      Minting a history → (∀ known ∈ history, known.fields.capabilityId ≠ capabilityId) →
      a.mint binding generation adapter authority issued capabilityId = some (a', m) →
      Minting a' (history ++ [m])

/-- What `mint` returns and what it leaves of the authority. -/
theorem mint_eq_some {a a' : Authority} {m : Minted} {binding : Binding}
    {generation adapter authority : String} {issued : ℚ} {capabilityId : Hex}
    (h : a.mint binding generation adapter authority issued capabilityId = some (a', m)) :
    a' = { a with issued := a.record m.fields } ∧ m.capability = a.capability m.fields ∧
      m.fields.instanceId = a.instanceId ∧ m.fields.capabilityId = capabilityId ∧
      m.fields.binding = binding ∧ plusSeconds issued a.ttlSeconds = .finite m.fields.expires := by
  unfold Authority.mint at h
  split at h
  · next expires hexpires =>
    obtain ⟨rfl, rfl⟩ := Prod.mk.inj (Option.some.inj h)
    exact ⟨rfl, rfl, rfl, rfl, rfl, hexpires⟩
  · simp at h

/-- The table never holds more than was minted. -/
theorem mem_record {a : Authority} {fields known : Fields} (h : known ∈ a.record fields) :
    known ∈ a.issued ∨ known = fields := by
  unfold Authority.record at h
  simp only at h
  split at h
  · simpa using (List.mem_filter.mp h).1
  · simpa using h

/-- What holds of everything an authority has minted. -/
structure History (a : Authority) (history : List Minted) : Prop where
  issued : ∀ fields ∈ a.issued, ∃ m ∈ history, m.fields = fields
  text : ∀ m ∈ history, m.capability = a.capability m.fields
  instanceId : ∀ m ∈ history, m.fields.instanceId = a.instanceId
  expires : ∀ m ∈ history, ∃ x, ofRat x = .finite m.fields.expires
  unique : ∀ m ∈ history, ∀ m' ∈ history, m.fields.capabilityId = m'.fields.capabilityId → m = m'

theorem Minting.history {a : Authority} {history : List Minted} (h : Minting a history) :
    History a history := by
  induction h with
  | start hempty =>
    exact ⟨fun _ h => by simp [hempty] at h, by simp, by simp, by simp, by simp⟩
  | @mint a a' history m binding generation adapter authority issued capabilityId _ hfresh hmint ih =>
    obtain ⟨rfl, htext, hinstance, hid, -, hexpires⟩ := mint_eq_some hmint
    refine ⟨fun fields hf => ?_, fun k hk => ?_, fun k hk => ?_, fun k hk => ?_, ?_⟩
    · rcases mem_record hf with hf | rfl
      · obtain ⟨k, hk, rfl⟩ := ih.issued fields hf
        exact ⟨k, List.mem_append_left _ hk, rfl⟩
      · exact ⟨m, by simp, rfl⟩
    · rcases List.mem_append.mp hk with hk | hk
      · exact ih.text k hk
      · obtain rfl := List.mem_singleton.mp hk
        exact htext
    · rcases List.mem_append.mp hk with hk | hk
      · exact ih.instanceId k hk
      · obtain rfl := List.mem_singleton.mp hk
        exact hinstance
    · rcases List.mem_append.mp hk with hk | hk
      · exact ih.expires k hk
      · obtain rfl := List.mem_singleton.mp hk
        exact ⟨_, hexpires⟩
    · intro k hk k' hk' heq
      rcases List.mem_append.mp hk with hold | hnew <;>
        rcases List.mem_append.mp hk' with hold' | hnew'
      · exact ih.unique k hold k' hold' heq
      · obtain rfl := List.mem_singleton.mp hnew'
        exact absurd (heq.trans hid) (hfresh k hold)
      · obtain rfl := List.mem_singleton.mp hnew
        exact absurd (heq.symm.trans hid) (hfresh k' hold')
      · exact (List.mem_singleton.mp hnew).trans (List.mem_singleton.mp hnew').symm

end Saipen.HostAuthority

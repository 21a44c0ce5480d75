import Saipen.HostAuthority.Authority

/-! # Which capabilities verify

`verify` reads the expiry of a text with `float` and compares it with the minted one as integers, so
that a text may spell the expiry otherwise than the authority wrote it; the text carries the whole
seconds of the expiry only, and the table is pruned by a clock that may go back. Apart from this,
`verify` accepts exactly the capabilities that were minted for the binding and have not expired, and
refuses every other text. -/

namespace Saipen.HostAuthority

open Binary64

/-! ### The text of a capability -/

theorem Hex.notMem_dot (h : Hex) : '.' ∉ h.text.toList := fun hdot =>
  absurd (List.all_eq_true.mp h.hex '.' hdot) (by decide)

theorem Hex.ascii (h : Hex) : isAscii h.text = true := by
  rw [isAscii, List.all_eq_true]
  intro c hc
  have hhex := List.all_eq_true.mp h.hex c hc
  simp only [Text.isLowerHex, Bool.or_eq_true, Bool.and_eq_true, decide_eq_true_eq] at hhex
  simp only [decide_eq_true_eq]
  omega

theorem instanceId_notMem_dot (a : Authority) : '.' ∉ a.instanceId.toList := by
  rw [Authority.instanceId, String.toList_append, List.mem_append, not_or]
  exact ⟨by decide, a.token.notMem_dot⟩

/-- A capability is read back as its five parts. -/
theorem split_capability {a : Authority} {fields : Fields}
    (hinstance : fields.instanceId = a.instanceId) :
    Text.split '.' (a.capability fields) = ["cap", a.instanceId, Text.str (trunc fields.expires),
      fields.capabilityId.text, (a.mac fields).text] := by
  have hdots : ∀ w ∈ ["cap", a.instanceId, Text.str (trunc fields.expires),
      fields.capabilityId.text, (a.mac fields).text], '.' ∉ w.toList := by
    intro w hw
    simp only [List.mem_cons, List.not_mem_nil, or_false] at hw
    rcases hw with rfl | rfl | rfl | rfl | rfl
    · decide
    · exact instanceId_notMem_dot a
    · exact fun hdot => absurd (Text.isNumeral_of_mem_str hdot) (by decide)
    · exact Hex.notMem_dot _
    · exact Hex.notMem_dot _
  rw [Authority.capability, hinstance]
  exact Text.split_intercalate hdots (by simp)

/-! ### Reading a text -/

/-- What a text presents when none of its first checks refuses it: five parts, an entry of the table,
an expiry that can be read and has not passed. -/
structure Authority.Presents (a : Authority) (text : String) (now now' : ℚ) (expiresText : String)
    (expires : Value) (fields : Fields) (mac : String) : Prop where
  parts : Text.split '.' text =
    ["cap", a.instanceId, expiresText, fields.capabilityId.text, mac]
  expiry : Text.float expiresText = some expires
  known : fields ∈ a.issued
  live : expires.lt (.finite now) = false
  minted : now' ≤ fields.expires

section Reading

variable {a : Authority} {history : List Minted} {text expiresText mac : String}
  {binding : Binding} {now now' : ℚ} {expires : Value} {fields : Fields}

/-- The table finds an entry under its token. -/
theorem History.find? (h : History a history) (hf : fields ∈ a.issued) :
    a.issued.find? (·.capabilityId.text == fields.capabilityId.text) = some fields := by
  cases hfind : a.issued.find? (·.capabilityId.text == fields.capabilityId.text) with
  | none =>
    have := List.find?_eq_none.mp hfind fields hf
    simp at this
  | some found =>
    obtain ⟨m, hm, rfl⟩ := h.issued found (List.mem_of_find?_eq_some hfind)
    obtain ⟨m', hm', rfl⟩ := h.issued fields hf
    have hid : m.fields.capabilityId = m'.fields.capabilityId :=
      Hex.ext (by simpa using List.find?_some hfind)
    rw [h.unique m hm m' hm' hid]

/-- A text that presents an entry is compared with it. -/
theorem Authority.Presents.verify (hp : a.Presents text now now' expiresText expires fields mac)
    (h : History a history) :
    a.verify (some text) binding now now' = a.compare fields expires mac binding := by
  have hne : text ≠ "" := by
    rintro rfl
    have := congrArg List.length hp.parts
    simp [Text.split] at this
  have hlive : (expires.lt (.finite now) || decide (fields.expires < now')) = false := by
    simp [hp.live, hp.minted]
  simp [Authority.verify, hne, hp.parts, hp.expiry, h.find? hp.known, hlive]

/-- A text that presents none is refused. -/
theorem verify_of_not_presents (binding : Binding)
    (hp : ∀ expiresText expires fields mac,
      ¬ a.Presents text now now' expiresText expires fields mac) :
    ∃ code detail, a.verify (some text) binding now now' = .ok (.refused code detail) := by
  unfold Authority.verify
  simp only
  split
  · exact ⟨_, _, rfl⟩
  split
  · next kind instanceId expiresText capabilityId mac hparts =>
    split
    · exact ⟨_, _, rfl⟩
    · next hkind =>
      split
      · exact ⟨_, _, rfl⟩
      · next hinstance =>
        split
        · exact ⟨_, _, rfl⟩
        · next expires hexpiry =>
          split
          · exact ⟨_, _, rfl⟩
          · next fields hfind =>
            split
            · exact ⟨_, _, rfl⟩
            · next hlive =>
              obtain rfl := not_not.mp hkind
              obtain rfl := not_not.mp hinstance
              obtain rfl : fields.capabilityId.text = capabilityId := by
                simpa using List.find?_some hfind
              simp only [Bool.or_eq_true, decide_eq_true_eq, not_or, not_lt,
                Bool.not_eq_true] at hlive
              exact absurd ⟨hparts, hexpiry, List.mem_of_find?_eq_some hfind, hlive.1, hlive.2⟩
                (hp expiresText expires fields mac)
  · exact ⟨_, _, rfl⟩

/-- A text presents one entry at most. -/
theorem Authority.Presents.unique (h : History a history) {expiresText₂ mac₂ : String}
    {expires₂ : Value} {fields₂ : Fields}
    (hp : a.Presents text now now' expiresText expires fields mac)
    (hp₂ : a.Presents text now now' expiresText₂ expires₂ fields₂ mac₂) :
    expiresText₂ = expiresText ∧ expires₂ = expires ∧ fields₂ = fields ∧ mac₂ = mac := by
  have hparts := hp₂.parts.symm.trans hp.parts
  simp only [List.cons.injEq, true_and, and_true] at hparts
  obtain ⟨rfl, hid, rfl⟩ := hparts
  have hexpires : expires₂ = expires := Option.some.inj (hp₂.expiry.symm.trans hp.expiry)
  have hfind := h.find? hp.known
  rw [← hid, h.find? hp₂.known] at hfind
  exact ⟨rfl, hexpires, Option.some.inj hfind, rfl⟩

/-- A minted capability in the table presents its own entry, with its whole seconds. -/
theorem History.presents (h : History a history) {m : Minted} (hm : m ∈ history)
    (hknown : m.fields ∈ a.issued) (hnow : now ≤ trunc m.fields.expires)
    (hnow' : now' ≤ m.fields.expires) :
    a.Presents m.capability now now' (Text.str (trunc m.fields.expires))
      (.finite (trunc m.fields.expires)) m.fields (a.mac m.fields).text where
  parts := by rw [h.text m hm, split_capability (h.instanceId m hm)]
  expiry := by
    obtain ⟨x, hx⟩ := h.expires m hm
    rw [Text.float_str, ofRat_trunc hx]
  known := hknown
  live := by simpa [Value.lt] using hnow
  minted := hnow'

/-- A text that presents an entry and is a minted capability is the capability of that entry. -/
theorem History.of_presents (h : History a history)
    (hp : a.Presents text now now' expiresText expires fields mac) {m : Minted} (hm : m ∈ history)
    (htext : m.capability = text) :
    m.fields = fields ∧ expiresText = Text.str (trunc fields.expires) ∧
      expires = .finite (trunc fields.expires) ∧ mac = (a.mac fields).text := by
  have hparts := hp.parts
  rw [← htext, h.text m hm, split_capability (h.instanceId m hm)] at hparts
  simp only [List.cons.injEq, true_and, and_true] at hparts
  obtain ⟨hexpires, hid, hmac⟩ := hparts
  obtain ⟨m', hm', rfl⟩ := h.issued fields hp.known
  obtain rfl := h.unique m hm m' hm' (Hex.ext hid)
  refine ⟨rfl, hexpires.symm, ?_, hmac.symm⟩
  obtain ⟨x, hx⟩ := h.expires m hm
  have hfloat := hp.expiry
  rw [← hexpires, Text.float_str, ofRat_trunc hx] at hfloat
  exact (Option.some.inj hfloat).symm

end Reading

/-! ### The comparison -/

theorem firstDifference_eq_none_iff {x y : Binding} : firstDifference x y = none ↔ x = y := by
  obtain ⟨p, s, h, m, q⟩ := x
  obtain ⟨p', s', h', m', q'⟩ := y
  simp [firstDifference, Binding.fields]

section Compare

variable {a : Authority} {fields : Fields} {mac : String} {binding : Binding}

theorem compareDigest_hex {digest : Hex} {text : String} :
    compareDigest digest.text text =
      if isAscii text then .ok (digest.text == text) else .error .typeError := by
  rw [compareDigest, digest.ascii, Bool.true_and]

theorem compare_infinite (a : Authority) (fields : Fields) (mac : String) (binding : Binding)
    {expires : Value} (h : ∀ x, expires ≠ .finite x) :
    ∃ e, a.compare fields expires mac binding = .error e := by
  cases expires with
  | finite x => exact absurd rfl (h x)
  | infinity negative => exact ⟨.overflowError, rfl⟩
  | nan => exact ⟨.valueError, rfl⟩

/-- Another whole second, or another binding, is refused. -/
theorem compare_refuses (a : Authority) (mac : String) {x : ℚ} (h : trunc x = trunc fields.expires → fields.binding ≠ binding) :
    ∃ code detail, a.compare fields (.finite x) mac binding = .ok (.refused code detail) := by
  by_cases hx : trunc x = trunc fields.expires
  · cases hdiff : firstDifference fields.binding binding with
    | none => exact absurd (firstDifference_eq_none_iff.mp hdiff) (h hx)
    | some name =>
      refine ⟨"BROKER_BINDING_MISMATCH", "capability is bound to another " ++ name, ?_⟩
      simp [Authority.compare, int, hx, hdiff, bind, Except.bind, pure, Except.pure]
  · refine ⟨"BROKER_CAPABILITY_INVALID", "presented expiry is not the minted expiry", ?_⟩
    simp [Authority.compare, int, hx, bind, Except.bind, pure, Except.pure]

/-- For the entry's own second and binding the digest decides. -/
theorem compare_digest {x : ℚ} (hx : trunc x = trunc fields.expires)
    (hbinding : fields.binding = binding) :
    a.compare fields (.finite x) mac binding =
      if isAscii mac then
        if (a.mac fields).text = mac then
          .ok (.verified "capability verified against the issuing broker")
        else .ok (.refused "BROKER_CAPABILITY_INVALID" "capability mac does not verify")
      else .error .typeError := by
  have hdiff := firstDifference_eq_none_iff.mpr hbinding
  simp only [Authority.compare, int, hx, hdiff, compareDigest_hex, bind, Except.bind, pure,
    Except.pure]
  by_cases hmac : isAscii mac <;> by_cases heq : (a.mac fields).text = mac <;> simp [hmac, heq]

end Compare

/-! ### Exactness -/

/-- `text` is a capability minted for the binding whose expiry no reading of the clock has passed. -/
def Live (history : List Minted) (text : String) (binding : Binding) (now now' : ℚ) : Prop :=
  ∃ m ∈ history, m.capability = text ∧ m.fields.binding = binding ∧
    now ≤ m.fields.expires ∧ now' ≤ m.fields.expires

/-- `verify` raises nothing and accepts a text exactly when it is a live capability. -/
def Authority.VerifiesExactly (a : Authority) (history : List Minted) (text : String)
    (binding : Binding) (now now' : ℚ) : Prop :=
  (Live history text binding now now' ∧
      ∃ detail, a.verify (some text) binding now now' = .ok (.verified detail)) ∨
    (¬ Live history text binding now now' ∧
      ∃ code detail, a.verify (some text) binding now now' = .ok (.refused code detail))

/-- What a text and the readings of the clock must not be for `verify` to be exact. -/
structure Authority.Regular (a : Authority) (history : List Minted) (text : String)
    (binding : Binding) (now now' : ℚ) : Prop where
  /-- No capability that has not expired was pruned. -/
  kept : ∀ m ∈ history, m.capability = text → m.fields.binding = binding →
    now ≤ m.fields.expires → now' ≤ m.fields.expires → m.fields ∈ a.issued
  /-- The clock is not between the expiry of the capability and its whole second. -/
  whole : ∀ m ∈ history, m.capability = text → m.fields.binding = binding → m.fields ∈ a.issued →
    now' ≤ m.fields.expires → (now ≤ trunc m.fields.expires ↔ now ≤ m.fields.expires)
  /-- The expiry of a text that presents an entry is finite; where it is in the entry's second and
  the binding is the entry's, the digest is ASCII, and with the entry's digest the expiry is spelled
  as the authority spells it. -/
  spelled : ∀ expiresText expires fields mac,
    a.Presents text now now' expiresText expires fields mac →
      ∃ x, expires = .finite x ∧ (trunc x = trunc fields.expires → fields.binding = binding →
        isAscii mac = true ∧
          ((a.mac fields).text = mac → expiresText = Text.str (trunc fields.expires)))

section Exact

variable {a : Authority} {history : List Minted} {text : String} {binding : Binding} {now now' : ℚ}

/-- A text that presents no entry. -/
theorem exact_of_not_presents (h : History a history)
    (hp : ∀ expiresText expires fields mac,
      ¬ a.Presents text now now' expiresText expires fields mac) :
    a.VerifiesExactly history text binding now now' ↔
      a.Regular history text binding now now' := by
  obtain ⟨code, detail, hrefused⟩ := verify_of_not_presents binding hp
  have hexact : a.VerifiesExactly history text binding now now' ↔
      ¬ Live history text binding now now' := by
    simp [Authority.VerifiesExactly, hrefused]
  rw [hexact]
  constructor
  · intro hdead
    refine ⟨fun m hm htext hb hnow hnow' => absurd ⟨m, hm, htext, hb, hnow, hnow'⟩ hdead,
      fun m hm htext hb hknown hnow' => ⟨fun hnow => ?_, fun hnow => ?_⟩,
      fun _ _ _ _ hpresents => absurd hpresents (hp _ _ _ _)⟩
    · exact absurd (htext ▸ h.presents hm hknown hnow hnow') (hp _ _ _ _)
    · exact absurd ⟨m, hm, htext, hb, hnow, hnow'⟩ hdead
  · rintro hregular ⟨m, hm, htext, hb, hnow, hnow'⟩
    have hknown := hregular.kept m hm htext hb hnow hnow'
    have hwhole := (hregular.whole m hm htext hb hknown hnow').mpr hnow
    exact hp _ _ _ _ (htext ▸ h.presents hm hknown hwhole hnow')

variable {expiresText mac : String} {expires : Value} {fields : Fields}

/-- Where no capability has the text, it must not be accepted and nothing must be raised. -/
theorem regular_of_no_capability (h : History a history)
    (hp : a.Presents text now now' expiresText expires fields mac)
    (hno : ∀ m ∈ history, m.capability = text → m.fields.binding ≠ binding) :
    a.Regular history text binding now now' ↔
      ∃ x, expires = .finite x ∧ (trunc x = trunc fields.expires → fields.binding = binding →
        isAscii mac = true ∧
          ((a.mac fields).text = mac → expiresText = Text.str (trunc fields.expires))) := by
  constructor
  · exact fun hregular => hregular.spelled _ _ _ _ hp
  · intro hspelled
    refine ⟨fun m hm htext hb => absurd hb (hno m hm htext),
      fun m hm htext hb => absurd hb (hno m hm htext), fun _ _ _ _ hp₂ => ?_⟩
    obtain ⟨rfl, rfl, rfl, rfl⟩ := hp.unique h hp₂
    exact hspelled

theorem not_live_of_no_capability (now now' : ℚ)
    (hno : ∀ m ∈ history, m.capability = text → m.fields.binding ≠ binding) :
    ¬ Live history text binding now now' := by
  rintro ⟨m, hm, htext, hb, -⟩
  exact hno m hm htext hb

/-- A text that is the capability of the entry it presents. -/
theorem exact_of_capability (h : History a history) {m : Minted} (hm : m ∈ history)
    (hp : a.Presents m.capability now now' expiresText expires fields mac)
    (hb : m.fields.binding = binding) :
    a.VerifiesExactly history m.capability binding now now' ↔
      a.Regular history m.capability binding now now' := by
  obtain ⟨rfl, rfl, rfl, rfl⟩ := h.of_presents hp hm rfl
  have hverify : a.verify (some m.capability) binding now now' =
      .ok (.verified "capability verified against the issuing broker") := by
    rw [hp.verify h, compare_digest (by simp) hb, if_pos (Hex.ascii _), if_pos rfl]
  have hwhole : now ≤ trunc m.fields.expires := by simpa [Value.lt] using hp.live
  have hone : ∀ m' ∈ history, m'.capability = m.capability → m' = m := by
    intro m' hm' htext
    have hfields := (h.of_presents hp hm' htext).1
    exact h.unique m' hm' m hm (by rw [hfields])
  have hlive : Live history m.capability binding now now' ↔ now ≤ m.fields.expires := by
    constructor
    · rintro ⟨m', hm', htext, -, hnow, -⟩
      exact hone m' hm' htext ▸ hnow
    · exact fun hnow => ⟨m, hm, rfl, hb, hnow, hp.minted⟩
  have hexact : a.VerifiesExactly history m.capability binding now now' ↔
      now ≤ m.fields.expires := by
    simp [Authority.VerifiesExactly, hverify, hlive]
  rw [hexact]
  constructor
  · intro hnow
    refine ⟨fun m' hm' htext _ _ _ => hone m' hm' htext ▸ hp.known, fun m' hm' htext _ _ _ => ?_,
      fun _ _ _ _ hp₂ => ?_⟩
    · obtain rfl := hone m' hm' htext
      exact ⟨fun _ => hnow, fun _ => hwhole⟩
    · obtain ⟨rfl, rfl, rfl, rfl⟩ := hp.unique h hp₂
      exact ⟨_, rfl, fun _ _ => ⟨Hex.ascii _, fun _ => rfl⟩⟩
  · intro hregular
    exact (hregular.whole m hm rfl hb hp.known hp.minted).mp hwhole

/-- A text that presents an entry and is no capability minted for the binding. -/
theorem exact_of_no_capability (h : History a history)
    (hp : a.Presents text now now' expiresText expires fields mac)
    (hno : ∀ m ∈ history, m.capability = text → m.fields.binding ≠ binding) :
    a.VerifiesExactly history text binding now now' ↔
      a.Regular history text binding now now' := by
  rw [regular_of_no_capability h hp hno]
  have hdead := not_live_of_no_capability now now' hno
  have hexact : a.VerifiesExactly history text binding now now' ↔
      ∃ code detail, a.compare fields expires mac binding = .ok (.refused code detail) := by
    simp [Authority.VerifiesExactly, hdead, hp.verify h]
  rw [hexact]
  by_cases hfinite : ∃ x, expires = .finite x
  · obtain ⟨x, rfl⟩ := hfinite
    by_cases hsame : trunc x = trunc fields.expires ∧ fields.binding = binding
    · rw [compare_digest hsame.1 hsame.2]
      by_cases hascii : isAscii mac = true
      · by_cases hmac : (a.mac fields).text = mac
        · -- the entry's digest: accepted, so the spelling has to differ from the capability's
          have hspelled : expiresText ≠ Text.str (trunc fields.expires) := by
            rintro rfl
            obtain ⟨m, hm, rfl⟩ := h.issued fields hp.known
            refine hno m hm ?_ hsame.2
            rw [h.text m hm, Authority.capability, h.instanceId m hm, hmac]
            exact (congrArg _ hp.parts.symm).trans (Text.intercalate_split text)
          simp [hascii, hmac, hsame, hspelled]
        · simp [hascii, hmac]
      · simp [hascii, hsame]
    · have hrefuses := compare_refuses a mac fun hx hb => hsame ⟨hx, hb⟩
      exact ⟨fun _ => ⟨x, rfl, fun hx hb => absurd ⟨hx, hb⟩ hsame⟩, fun _ => hrefuses⟩
  · obtain ⟨e, he⟩ := compare_infinite a fields mac binding fun x hx => hfinite ⟨x, hx⟩
    simp only [he, reduceCtorEq, exists_false, false_iff]
    rintro ⟨x, hx, -⟩
    exact hfinite ⟨x, hx⟩

end Exact

/-- **Exactness of `verify`.** Whatever was minted, `verify` of a text is exact if and only if the
text and the clock are regular: no capability was pruned before its expiry, the clock is not between
the whole second of the capability and its expiry, and the text spells the expiry of the entry it
presents as the authority does, with an ASCII digest. -/
theorem verifies_exactly_iff {a : Authority} {history : List Minted} (h : Minting a history)
    (text : String) (binding : Binding) (now now' : ℚ) :
    a.VerifiesExactly history text binding now now' ↔
      a.Regular history text binding now now' := by
  have hist := h.history
  by_cases hp : ∃ expiresText expires fields mac,
      a.Presents text now now' expiresText expires fields mac
  · obtain ⟨expiresText, expires, fields, mac, hp⟩ := hp
    by_cases hm : ∃ m ∈ history, m.capability = text ∧ m.fields.binding = binding
    · obtain ⟨m, hm, rfl, hb⟩ := hm
      exact exact_of_capability hist hm hp hb
    · exact exact_of_no_capability hist hp fun m hmem htext hb => hm ⟨m, hmem, htext, hb⟩
  · exact exact_of_not_presents hist fun expiresText expires fields mac hpresents =>
      hp ⟨expiresText, expires, fields, mac, hpresents⟩

/-- A minted capability is verified while the table has it and its second and its expiry have not
passed, against its own binding. -/
theorem verified_iff {a : Authority} {history : List Minted} (h : History a history) {m : Minted}
    (hm : m ∈ history) (binding : Binding) (now now' : ℚ) :
    (∃ detail, a.verify (some m.capability) binding now now' = .ok (.verified detail)) ↔
      m.fields ∈ a.issued ∧ now ≤ trunc m.fields.expires ∧ now' ≤ m.fields.expires ∧
        m.fields.binding = binding := by
  constructor
  · rintro ⟨detail, hverify⟩
    by_cases hp : ∃ expiresText expires fields mac,
        a.Presents m.capability now now' expiresText expires fields mac
    · obtain ⟨expiresText, expires, fields, mac, hp⟩ := hp
      obtain ⟨rfl, rfl, rfl, rfl⟩ := h.of_presents hp hm rfl
      refine ⟨hp.known, by simpa [Value.lt] using hp.live, hp.minted, ?_⟩
      by_contra hb
      obtain ⟨code, detail, hrefused⟩ := compare_refuses a (a.mac m.fields).text
        (x := trunc m.fields.expires) fun _ => hb
      rw [hp.verify h, hrefused] at hverify
      simp at hverify
    · obtain ⟨code, detail, hrefused⟩ := verify_of_not_presents binding
        fun expiresText expires fields mac hpresents => hp ⟨expiresText, expires, fields, mac, hpresents⟩
      rw [hrefused] at hverify
      simp at hverify
  · rintro ⟨hknown, hnow, hnow', hb⟩
    have hp := h.presents hm hknown hnow hnow'
    refine ⟨"capability verified against the issuing broker", ?_⟩
    rw [hp.verify h, compare_digest (by simp) hb, if_pos (Hex.ascii _), if_pos rfl]

/-! ### A spelling of the expiry -/

/-- The scope of the examples. -/
def sampleBinding : Binding := ⟨"3f", "9a", "claude", "opus", ""⟩

/-- An authority that has minted nothing; its digest is the same for all fields. -/
def sampleAuthority : Authority where
  mac _ := ⟨"c4", by decide⟩
  token := ⟨"0a", by decide⟩
  ttlSeconds := 900

/-- The first token it draws. -/
def firstToken : Hex := ⟨"1f", by decide⟩

/-- What it mints at second 1000. -/
def sampleMint : Option (Authority × Minted) :=
  sampleAuthority.mint sampleBinding "svc" "" "" 1000 firstToken

theorem sampleMint_isSome : sampleMint.isSome = true := by decide +kernel

/-- The authority with its first capability. -/
def mintedAuthority : Authority := (sampleMint.get sampleMint_isSome).1

/-- Its first capability. -/
def firstCapability : Minted := (sampleMint.get sampleMint_isSome).2

theorem sampleMinting : Minting mintedAuthority [firstCapability] :=
  .mint (.start rfl) (by simp) (Option.some_get sampleMint_isSome).symm

/-- The expiry of the capability is 1900. Spelled `+1900` it is accepted, though no such text was
minted; spelled `inf` it makes `verify` raise. -/
theorem other_spellings_verify :
    ¬ mintedAuthority.VerifiesExactly [firstCapability] "cap.broker-0a.+1900.1f.c4" sampleBinding
        1500 1500 ∧
      mintedAuthority.verify (some "cap.broker-0a.inf.1f.c4") sampleBinding 1500 1500 =
        .error .overflowError := by
  have haccepts : mintedAuthority.verify (some "cap.broker-0a.+1900.1f.c4") sampleBinding 1500 1500 =
      .ok (.verified "capability verified against the issuing broker") := by decide +kernel
  have hother : firstCapability.capability ≠ "cap.broker-0a.+1900.1f.c4" := by decide +kernel
  refine ⟨?_, by decide +kernel⟩
  rintro (⟨⟨m, hm, htext, -⟩, -⟩ | ⟨-, code, detail, hrefused⟩)
  · obtain rfl := List.mem_singleton.mp hm
    exact hother htext
  · simp [haccepts] at hrefused

/-- The capability as it was minted is verified exactly, so it is regular. -/
theorem verifies_exactly_minted :
    mintedAuthority.Regular [firstCapability] "cap.broker-0a.1900.1f.c4" sampleBinding 1500 1500 := by
  have haccepts : mintedAuthority.verify (some "cap.broker-0a.1900.1f.c4") sampleBinding 1500 1500 =
      .ok (.verified "capability verified against the issuing broker") := by decide +kernel
  have hlive : Live [firstCapability] "cap.broker-0a.1900.1f.c4" sampleBinding 1500 1500 :=
    ⟨firstCapability, List.mem_singleton_self _, by decide +kernel⟩
  exact (verifies_exactly_iff sampleMinting _ sampleBinding 1500 1500).mp (.inl ⟨hlive, _, haccepts⟩)


end Saipen.HostAuthority

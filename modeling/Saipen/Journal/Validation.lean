import Saipen.Journal.Codec
import Saipen.Journal.Paths
import Saipen.Journal.Mutation

/-! # What the validator accepts

Inversion of `validateMutationRequest` and of the plan made from its answer: canonical, pairwise
different target paths, non-empty keys, canonical metadata; and the prepared targets, one for each
requested one. `json.dumps` of a value that came from JSON is that value. -/

namespace Saipen

open FileTree Checks

variable {env : Environment}

/-! ### Related lists -/

theorem exists_of_forall₂_left {α β : Type} {R : α → β → Prop} {as : List α} {bs : List β}
    (h : List.Forall₂ R as bs) {a : α} (ha : a ∈ as) : ∃ b ∈ bs, R a b := by
  induction h with
  | nil => cases ha
  | cons hab _ ih =>
    rcases List.mem_cons.mp ha with rfl | ha
    · exact ⟨_, List.mem_cons_self, hab⟩
    · obtain ⟨b, hb, hr⟩ := ih ha
      exact ⟨b, List.mem_cons_of_mem _ hb, hr⟩

theorem exists_of_forall₂_right {α β : Type} {R : α → β → Prop} {as : List α} {bs : List β}
    (h : List.Forall₂ R as bs) {b : β} (hb : b ∈ bs) : ∃ a ∈ as, R a b :=
  exists_of_forall₂_left h.flip hb

theorem map_eq_of_forall₂ {α β γ : Type} {f : α → γ} {g : β → γ} {as : List α} {bs : List β}
    (h : List.Forall₂ (fun a b => f a = g b) as bs) : as.map f = bs.map g := by
  induction h with
  | nil => rfl
  | cons hab _ ih => rw [List.map_cons, List.map_cons, hab, ih]

/-! ### `json.dumps` on values that came from JSON -/

theorem ofFields_kind (fs : List (String × Json)) :
    ((PyVal.ofFields fs).map Prod.fst).all (·.kind = 0) = true := by
  induction fs with
  | nil => rfl
  | cons e fs ih =>
    obtain ⟨k, j⟩ := e
    simpa [PyVal.ofFields, PyKey.kind] using ih

mutual
/-- Dumping what was loaded gives the same value back. -/
theorem dumps_ofJson (sort : Bool) : ∀ j : Json, PyVal.dumps sort (PyVal.ofJson j) = some j
  | .null | .bool _ | .int _ | .float _ | .str _ => rfl
  | .arr items => by
    rw [PyVal.ofJson, PyVal.dumps, dumpsItems_ofItems sort items]
    rfl
  | .obj fields => by
    have hs : PyKey.sortable ((PyVal.ofFields fields).map Prod.fst) = true := by
      rw [PyKey.sortable, ofFields_kind, Bool.or_true, Bool.true_or]
    rw [PyVal.ofJson, PyVal.dumps, hs, dumpsFields_ofFields sort fields]
    simp

theorem dumpsItems_ofItems (sort : Bool) : ∀ js : List Json,
    PyVal.dumpsItems sort (PyVal.ofItems js) = some js
  | [] => rfl
  | j :: js => by
    rw [PyVal.ofItems, PyVal.dumpsItems, dumps_ofJson sort j, dumpsItems_ofItems sort js]
    rfl

theorem dumpsFields_ofFields (sort : Bool) : ∀ fs : List (String × Json),
    PyVal.dumpsFields sort (PyVal.ofFields fs) = some fs
  | [] => rfl
  | (k, j) :: fs => by
    rw [PyVal.ofFields, PyVal.dumpsFields, dumps_ofJson sort j, dumpsFields_ofFields sort fs]
    rfl
end

theorem dumpsFields_append (sort : Bool) (fs gs : List (PyKey × PyVal)) :
    PyVal.dumpsFields sort (fs ++ gs) = (PyVal.dumpsFields sort fs).bind fun ds =>
      (PyVal.dumpsFields sort gs).map (ds ++ ·) := by
  induction fs with
  | nil => cases h : PyVal.dumpsFields sort gs <;> simp [PyVal.dumpsFields, h]
  | cons e fs ih =>
    obtain ⟨k, v⟩ := e
    rw [List.cons_append, PyVal.dumpsFields, PyVal.dumpsFields, ih]
    cases k.dumps <;> cases PyVal.dumps sort v <;> cases PyVal.dumpsFields sort fs <;>
      cases PyVal.dumpsFields sort gs <;> rfl

theorem dumps_pyStringMap (m : List (String × String)) :
    PyVal.dumps false (pyStringMap m) = some (stringMap m) := by
  have h : ∀ m : List (String × String), PyVal.dumpsFields false
      (m.map fun e => (PyKey.str e.1, PyVal.str e.2)) =
        some (m.map fun e => (e.1, Json.str e.2)) := by
    intro m
    induction m with
    | nil => rfl
    | cons e m ih => rw [List.map_cons, PyVal.dumpsFields, ih]; rfl
  rw [pyStringMap, PyVal.dumps, h]
  rfl

/-- Only a string is dumped as a string. -/
theorem dumps_eq_str {sort : Bool} {v : PyVal} {s : String}
    (h : PyVal.dumps sort v = some (.str s)) : v = .str s := by
  cases v with
  | str t => simpa [PyVal.dumps] using h
  | list items => simp [PyVal.dumps] at h
  | tuple items => simp [PyVal.dumps] at h
  | dict fields => simp [PyVal.dumps] at h
  | _ => simp [PyVal.dumps] at h

/-! ### Inversion of the validator -/

/-- What validation says about one target of the request and the target it returns. -/
structure ValidatedTarget (env : Environment) (t : TargetRequest) (u : ValidTarget) : Prop where
  path : ∃ s, t.path = some (.str s) ∧ ownedTargetPath env s = some u.path
  action : validateMember "action" Action.ofName? .write t.action = .ok u.action
  content : u.action = .write → u.content.isSome = true
  plannedBeforeHash : u.plannedBeforeHash = t.plannedBeforeHash

theorem validateContent_isSome {action : Action} {c : RequestContent} {content : Option Content}
    (h : validateContent action c = .ok content) (ha : action = .write) :
    content.isSome = true := by
  subst ha
  cases c <;> simp_all [validateContent]
  rw [← h, Option.isSome_some]

theorem validateTargetPath_eq_ok {seen : List Path} {v : Option PyVal} {p : Path}
    (h : validateTargetPath env seen v = .ok p) :
    ∃ s, v = some (.str s) ∧ ownedTargetPath env s = some p ∧ p ∉ seen := by
  unfold validateTargetPath at h
  split at h
  · cases h
  · next s hs =>
    split at h
    · cases h
    · next q hq =>
      split_ifs at h with hmem
      obtain rfl := Except.ok.inj h
      obtain ⟨w, rfl, hw⟩ := Option.bind_eq_some_iff.mp hs
      refine ⟨s, ?_, hq, hmem⟩
      cases w <;> simp_all [PyVal.nonEmptyStr?, PyVal.str?, Option.filter]

/-- The targets are validated one by one, and their owned paths are pairwise different. -/
theorem validateTargets_eq_ok {seen : List Path} {ts : List (Option TargetRequest)}
    {us : List ValidTarget} (h : validateTargets env seen ts = .ok us) :
    List.Forall₂ (fun t u => ∃ t', t = some t' ∧ ValidatedTarget env t' u) ts us ∧
      (us.map (·.path)).Nodup ∧ ∀ u ∈ us, u.path ∉ seen := by
  induction ts generalizing seen us with
  | nil =>
    obtain rfl := Except.ok.inj h
    exact ⟨.nil, List.nodup_nil, by simp⟩
  | cons t ts ih =>
    cases t with
    | none => cases h
    | some t =>
      simp only [validateTargets, bind_eq_ok, pure_eq_ok] at h
      obtain ⟨u, hu, us, hus, rfl⟩ := h
      simp only [validateTarget, bind_eq_ok, pure_eq_ok] at hu
      obtain ⟨p, hp, role, -, action, ha, content, hc, rfl⟩ := hu
      obtain ⟨s, hs, howned, hnew⟩ := validateTargetPath_eq_ok hp
      obtain ⟨hall, hnodup, hseen⟩ := ih hus
      refine ⟨.cons ⟨t, rfl, ⟨s, hs, howned⟩, ha, validateContent_isSome hc, rfl⟩ hall, ?_, ?_⟩
      · rw [List.map_cons, List.nodup_cons]
        refine ⟨fun hm => ?_, hnodup⟩
        obtain ⟨w, hw, hwp⟩ := List.mem_map.mp hm
        exact hseen w hw (by simp [hwp])
      · intro w hw
        rcases List.mem_cons.mp hw with rfl | hw
        · exact hnew
        · exact fun hm => hseen w hw (List.mem_append_left _ hm)

/-- Every key of a validated map is non-empty, when the canonical spellings are. -/
theorem validateHashMap_keys {what : String} {canonical : String → Option String}
    (hcan : ∀ s c, canonical s = some c → c ≠ "") {acc m : List (String × String)}
    {fs : List (PyKey × PyVal)} (hacc : ∀ k ∈ acc.map Prod.fst, k ≠ "")
    (h : validateHashMap what canonical acc fs = .ok m) : ∀ k ∈ m.map Prod.fst, k ≠ "" := by
  induction fs generalizing acc with
  | nil =>
    obtain rfl := Except.ok.inj h
    exact hacc
  | cons e fs ih =>
    unfold validateHashMap at h
    split at h
    · cases ‹_ :: _ = []›
    · next heq =>
      obtain ⟨rfl, rfl⟩ := List.cons.inj heq
      split_ifs at h
      split at h
      · cases h
      · next can hc =>
        refine ih (fun k hk => ?_) h
        rw [Assoc.keys_set] at hk
        split at hk
        · exact hacc k hk
        · rcases List.mem_append.mp hk with hk | hk
          · exact hacc k hk
          · rw [List.mem_singleton.mp hk]
            exact hcan _ _ hc
    · split_ifs at h
    · cases h

theorem preconditionKey_ne {s c : String} (h : preconditionKey env s = some c) : c ≠ "" := by
  obtain ⟨p, hp, rfl⟩ := Option.map_eq_some_iff.mp h
  exact posix_ne_empty (ownedTargetPath_clean hp)

theorem readPreconditionKey_ne {s c : String} (h : readPreconditionKey env s = some c) :
    c ≠ "" := by
  unfold readPreconditionKey at h
  split_ifs at h
  · obtain rfl := Option.some.inj h
    exact append_ne_empty (by decide)
  · exact preconditionKey_ne h

theorem requireArgument_ne {name s : String} {v : PyVal} (h : requireArgument name v = .ok s) :
    s ≠ "" := by
  unfold requireArgument at h
  split at h
  · next w hw =>
    obtain rfl := Except.ok.inj h
    unfold PyVal.nonEmptyStr? at hw
    simpa using (Option.filter_eq_some_iff.mp hw).2
  · cases h

theorem validateMetadata_eq_ok {v : PyVal} {m : Option (List (PyKey × PyVal))}
    (h : validateMetadata v = .ok m) : canonicalRequestMetadata v = .ok m := by
  unfold validateMetadata at h
  split at h
  · cases h
  · next hc => rw [hc, ← Except.ok.inj h]
  · next hc =>
    split_ifs at h
    rw [hc, ← Except.ok.inj h]

/-- What an accepted request looks like. -/
structure Validated (env : Environment) (r : MutationRequest) (v : ValidRequest) : Prop where
  operation : v.operation ≠ ""
  targets : ∃ ts, r.targets = some ts ∧
    List.Forall₂ (fun t u => ∃ t', t = some t' ∧ ValidatedTarget env t' u) ts v.targets
  nodup : (v.targets.map (·.path)).Nodup
  preconditions : ∀ k ∈ v.preconditions.map Prod.fst, k ≠ ""
  readPreconditions : ∀ k ∈ v.readPreconditions.map Prod.fst, k ≠ ""
  receiptMetadata : canonicalRequestMetadata r.receiptMetadata = .ok v.receiptMetadata

theorem validateMutationRequest_eq_ok {r : MutationRequest} {v : ValidRequest}
    (h : validateMutationRequest env r = .ok v) : Validated env r v := by
  simp only [validateMutationRequest, bind_eq_ok] at h
  obtain ⟨opId, -, operation, hop, agent, -, identity, -, payload, -, policy, -, pre, -, readPre, -,
    metadata, hm, ts, hts, h⟩ := h
  split_ifs at h with hdebt
  simp only [bind_eq_ok] at h
  obtain ⟨us, hus, pre', hpre, readPre', hread, h⟩ := h
  split_ifs at h with hoverlap
  rw [pure_eq_ok] at h
  subst h
  have hrt : r.targets = some ts := by
    unfold requireTargets at hts
    split at hts
    · next heq => rw [heq, Except.ok.inj hts]
    · cases hts
  obtain ⟨hall, hnodup, -⟩ := validateTargets_eq_ok hus
  exact ⟨requireArgument_ne hop, ⟨ts, hrt, hall⟩, hnodup,
    validateHashMap_keys (fun _ _ => preconditionKey_ne) (by simp) hpre,
    validateHashMap_keys (fun _ _ => readPreconditionKey_ne) (by simp) hread,
    validateMetadata_eq_ok hm⟩

theorem Validated.clean {r : MutationRequest} {v : ValidRequest} (h : Validated env r v) :
    ∀ t ∈ v.targets, CleanPath t.path := by
  obtain ⟨ts, -, hall⟩ := h.targets
  intro t ht
  obtain ⟨-, -, t', -, hv⟩ := exists_of_forall₂_right hall ht
  obtain ⟨s, -, hs⟩ := hv.path
  exact ownedTargetPath_clean hs

/-! ### The plan -/

/-- What planning says about one target: its identity is that of the request, and its before state
is a token, except for a directory, which carries the planned hash. -/
structure PlannedTarget (env : Environment) (d : Disk) (t : ValidTarget) (u : PreparedTarget) :
    Prop where
  path : u.path = t.path
  role : u.role = t.role
  action : u.action = t.action
  content : u.action = .write → u.content = t.content
  beforeHash : u.beforeHash =
    if t.action = .deleteDir then t.plannedBeforeHash.getD .none
    else .str (targetLiveHash env d t.action t.path)
  afterHash : u.afterHash = t.afterHash env

theorem prepareTarget_eq_ok {d : Disk} {t : ValidTarget} {u : PreparedTarget}
    (hclean : CleanPath t.path) (h : prepareTarget env d t = .ok u) : PlannedTarget env d t u := by
  have live : ∀ s, preparedLiveHash env d t.action t.path = .ok s →
      s = targetLiveHash env d t.action t.path := by
    intro s hs
    unfold preparedLiveHash at hs
    split at hs
    · next p hp =>
      rw [ownedTargetPath_posix_eq hclean hp] at hs
      exact (Except.ok.inj hs).symm
    · cases hs
  unfold prepareTarget at h
  cases ha : t.action with
  | deleteDir =>
    rw [ha] at h
    obtain rfl := pure_eq_ok.mp h
    exact ⟨rfl, rfl, ha.symm, by simp, by simp [ha], by simp [ValidTarget.afterHash, ha]⟩
  | _ =>
    rw [ha] at h live
    simp only [bind_eq_ok, pure_eq_ok] at h
    obtain ⟨s, hs, rfl⟩ := h
    exact ⟨rfl, rfl, ha.symm, fun _ => rfl, by simp [ha, live s hs], rfl⟩

/-- The plan has one prepared target for each requested one. -/
theorem planRequest_eq_ok {d : Disk} {v : ValidRequest} {ts : List PreparedTarget}
    (hclean : ∀ t ∈ v.targets, CleanPath t.path) (h : planRequest env d v = .ok (.ok ts)) :
    List.Forall₂ (PlannedTarget env d) v.targets ts := by
  simp only [planRequest, bind_eq_ok] at h
  obtain ⟨us, hus, x, -, h⟩ := h
  have hts : us = ts := by
    cases x with
    | some path => simp [pure, Except.pure] at h
    | none =>
      simp only [bind_eq_ok] at h
      obtain ⟨y, -, h⟩ := h
      cases y with
      | some path => simp [pure, Except.pure] at h
      | none => simpa [pure, Except.pure] using h
  subst hts
  have hall := (List.forall₂_and_left _ _).mpr ⟨hclean, mapM_eq_ok.mp hus⟩
  exact hall.imp fun t u h => prepareTarget_eq_ok h.1 h.2

end Saipen

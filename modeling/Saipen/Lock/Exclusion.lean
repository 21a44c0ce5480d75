import Saipen.Lock.Objects

/-! # Two holders of one file

The invariant says which keys an object may have reserved at each of its stages and which it has
for certain. It is kept by every step of every object, so two holders of one file in one domain are
one object, and an object whose `acquire` failed has nothing left in any registry. -/

namespace Saipen.Lock

variable {ω : Type} {p : Platform}

/-! ### The invariant -/

/-- The keys an object may have in its registry at the stage it has reached. -/
def LockObject.MayReserve (p : Platform) (l : LockObject) (key : Key) : Prop :=
  match l.stage with
  | .opening | .promoting _ => key = l.reservation p
  | .keying file => key = .inode file
  | .closingHandle | .droppingPath => key = l.reservation p ∨ l.holderKey = some key
  | .forgetting | .clearing => False
  | _ => l.holderKey = some key

/-- The stages of the handler, where a key may have been given up already. -/
def Stage.undoing : Stage → Bool
  | .closingHandle | .droppingPath | .droppingKey | .forgetting => true
  | _ => false

/-- The open handle carries the system's lock and the reservation is the file's. -/
structure LockObject.Locked (l : LockObject) : Prop where
  osLocked : l.osLocked = true
  keyed : ∃ file, l.handle = some file ∧ l.holderKey = some (.inode file)

/-- The fields at each stage. -/
def LockObject.WellFormed (l : LockObject) : Prop :=
  match l.stage with
  | .idle =>
      (l.acquired = true ∧ l.Locked) ∨
        (l.acquired = false ∧ l.handle = none ∧ l.holderKey = none ∧ l.osLocked = false)
  | .opening => l.acquired = false ∧ l.handle = none ∧ l.holderKey = none ∧ l.osLocked = false
  | .promoting file | .keying file =>
      l.acquired = false ∧ l.handle = some file ∧ l.holderKey = none ∧ l.osLocked = false
  | .locking =>
      l.acquired = false ∧ ∃ file, l.handle = some file ∧ l.holderKey = some (.inode file)
  | .recording | .entering => l.acquired = false ∧ l.Locked
  | .closingHandle => l.acquired = false
  | .droppingPath | .droppingKey | .forgetting | .dropping | .clearing =>
      l.acquired = false ∧ l.handle = none ∧ l.osLocked = false
  | .unlocking => l.acquired = true ∧ l.Locked
  | .closing => l.acquired = true
  | .leaving => l.acquired = true ∧ l.handle = none ∧ l.osLocked = false

/-- What holds between the objects and the registries in every reachable state. -/
structure Invariant (p : Platform) (s : LockState ω) : Prop where
  wellFormed : ∀ o, (s.objects o).WellFormed
  sound : ∀ d k o, s.registries d k = some o →
    (s.objects o).domain = d ∧ (s.objects o).MayReserve p k
  kept : ∀ o k, (s.objects o).stage.undoing = false → (s.objects o).MayReserve p k →
    s.registryOf o k = some o
  osExclusive : ∀ a b, a ≠ b → (s.objects a).osLocked = true → (s.objects b).osLocked = true →
    (s.objects a).handle = (s.objects b).handle →
      p.reentrant = true ∧ (s.objects a).domain.process = (s.objects b).domain.process

/-- A fresh object holds nothing and has reserved nothing. -/
theorem LockState.Initial.invariant {s : LockState ω} (h : s.Initial) : Invariant p s where
  wellFormed o := by
    rw [h.fresh o]
    exact Or.inr ⟨rfl, rfl, rfl, rfl⟩
  sound d k o hk := by simp [h.empty d k] at hk
  kept o k _ hk := by
    rw [h.fresh o] at hk
    exact absurd hk (by simp [LockObject.MayReserve])
  osExclusive a b _ ha := by
    rw [h.fresh a] at ha
    exact absurd ha (by simp)

/-! ### Holders -/

/-- An object that holds a file has reserved its identity and carries the system's lock. -/
theorem Invariant.holds {s : LockState ω} (h : Invariant p s) {o : ω} {file : FileIdentity}
    (ho : (s.objects o).Holds file) :
    s.registryOf o (.inode file) = some o ∧ (s.objects o).osLocked = true := by
  obtain ⟨hacquired, hhandle, hst⟩ := ho
  have hwf := h.wellFormed o
  have hlocked : (s.objects o).Locked := by
    rcases hst with hst | hst
    · simp only [LockObject.WellFormed, hst] at hwf
      exact (hwf.resolve_right fun hfree => by simp [hacquired] at hfree).2
    · simp only [LockObject.WellFormed, hst] at hwf
      exact hwf.2
  obtain ⟨hos, file', hhandle', hkey⟩ := hlocked
  obtain rfl : file = file' := Option.some.inj (hhandle.symm.trans hhandle')
  refine ⟨h.kept o _ ?_ ?_, hos⟩
  · rcases hst with hst | hst <;> simp [hst, Stage.undoing]
  · rcases hst with hst | hst <;> simpa [LockObject.MayReserve, hst] using hkey

/-- Two holders of one file in one domain are one object. -/
theorem Invariant.holder_unique {s : LockState ω} (h : Invariant p s) {a b : ω}
    {file : FileIdentity} (ha : (s.objects a).Holds file) (hb : (s.objects b).Holds file)
    (hdomain : (s.objects a).domain = (s.objects b).domain) : a = b := by
  have hra := (h.holds ha).1
  have hrb := (h.holds hb).1
  rw [LockState.registryOf, hdomain] at hra
  exact Option.some.inj (hra.symm.trans hrb)

/-- Two objects hold one file only where the system lets a process lock a file twice. -/
theorem Invariant.holders_reentrant {s : LockState ω} (h : Invariant p s) {a b : ω}
    {file : FileIdentity} (ha : (s.objects a).Holds file) (hb : (s.objects b).Holds file)
    (hab : a ≠ b) :
    p.reentrant = true ∧ (s.objects a).domain.process = (s.objects b).domain.process :=
  h.osExclusive a b hab (h.holds ha).2 (h.holds hb).2 (ha.2.1.trans hb.2.1.symm)

/-- An object nobody is acquiring and that holds nothing. -/
def LockObject.AtRest (l : LockObject) : Prop := l.stage = .idle ∧ l.acquired = false

theorem Invariant.atRest {s : LockState ω} (h : Invariant p s) {o : ω}
    (ho : (s.objects o).AtRest) :
    (s.objects o).handle = none ∧ (s.objects o).holderKey = none ∧
      (s.objects o).osLocked = false := by
  have hwf := h.wellFormed o
  simp only [LockObject.WellFormed, ho.1] at hwf
  exact (hwf.resolve_left fun hheld => by simp [ho.2] at hheld).2

/-- Nothing in any registry belongs to an object at rest. -/
theorem Invariant.nothing_left {s : LockState ω} (h : Invariant p s) {o : ω}
    (ho : (s.objects o).AtRest) (d : Domain) (k : Key) : s.registries d k ≠ some o := by
  intro hk
  have hmay := (h.sound d k o hk).2
  simp [LockObject.MayReserve, ho.1, (h.atRest ho).2.1] at hmay

/-! ### One step -/

variable [DecidableEq ω]

section Put

variable {s : LockState ω} {o : ω} {l : LockObject} {registry : Registry Key ω}

@[simp] theorem put_objects_self : (s.put o l registry).objects o = l := Function.update_self ..

theorem put_objects_of_ne {c : ω} (h : c ≠ o) :
    (s.put o l registry).objects c = s.objects c := Function.update_of_ne h _ _

@[simp] theorem put_registries_self :
    (s.put o l registry).registries (s.objects o).domain = registry := Function.update_self ..

theorem put_registries_of_ne {d : Domain} (h : d ≠ (s.objects o).domain) :
    (s.put o l registry).registries d = s.registries d := Function.update_of_ne h _ _

/-- What a step of `o` has to show: it speaks for its own entries only, and the system's lock is one
it had or was granted. -/
theorem Invariant.put (h : Invariant p s) (hdomain : l.domain = (s.objects o).domain)
    (hwf : l.WellFormed) (hothers : (s.registryOf o).LeavesOthers registry o)
    (hsound : ∀ k, registry k = some o → l.MayReserve p k)
    (hkept : ∀ k, l.stage.undoing = false → l.MayReserve p k → registry k = some o)
    (hos : l.osLocked = true →
      ((s.objects o).osLocked = true ∧ l.handle = (s.objects o).handle) ∨
        (l.handle = (s.objects o).handle ∧ Grants p s o)) :
    Invariant p (s.put o l registry) := by
  -- the locks of the others exclude the one `o` has after the step
  have hexclusive : ∀ b, b ≠ o → l.osLocked = true → (s.objects b).osLocked = true →
      l.handle = (s.objects b).handle →
        p.reentrant = true ∧ (s.objects b).domain.process = l.domain.process := by
    intro b hb hl hbl heq
    rw [hdomain]
    obtain ⟨hold, hhandle⟩ | ⟨hhandle, hgrants⟩ := hos hl
    · exact h.osExclusive b o hb hbl hold (heq.symm.trans hhandle)
    · exact hgrants b hb hbl (heq.symm.trans hhandle)
  refine ⟨fun c => ?_, fun d k c hk => ?_, fun c k hundo hk => ?_, fun a b hab ha hb heq => ?_⟩
  · by_cases hc : c = o
    · subst hc
      simpa using hwf
    · rw [put_objects_of_ne hc]
      exact h.wellFormed c
  · by_cases hd : d = (s.objects o).domain
    · subst hd
      rw [put_registries_self] at hk
      by_cases hc : c = o
      · subst hc
        rw [put_objects_self]
        exact ⟨hdomain, hsound k hk⟩
      · rw [put_objects_of_ne hc]
        exact h.sound _ k c ((hothers k c hc).mp hk)
    · rw [put_registries_of_ne hd] at hk
      have hc : c ≠ o := fun hc => hd (hc ▸ ((h.sound d k c hk).1).symm)
      rw [put_objects_of_ne hc]
      exact h.sound d k c hk
  · by_cases hc : c = o
    · subst hc
      rw [put_objects_self] at hundo hk
      rw [LockState.registryOf, put_objects_self, hdomain, put_registries_self]
      exact hkept k hundo hk
    · rw [put_objects_of_ne hc] at hundo hk
      have hold := h.kept c k hundo hk
      rw [LockState.registryOf, put_objects_of_ne hc]
      by_cases hd : (s.objects c).domain = (s.objects o).domain
      · rw [hd, put_registries_self]
        refine (hothers k c hc).mpr ?_
        rw [LockState.registryOf, ← hd]
        exact hold
      · rw [put_registries_of_ne hd]
        exact hold
  · by_cases hao : a = o
    · subst hao
      have hbo : b ≠ a := Ne.symm hab
      simp only [put_objects_self, put_objects_of_ne hbo] at ha hb heq ⊢
      exact ⟨(hexclusive b hbo ha hb heq).1, (hexclusive b hbo ha hb heq).2.symm⟩
    · by_cases hbo : b = o
      · subst hbo
        simp only [put_objects_self, put_objects_of_ne hao] at ha hb heq ⊢
        exact hexclusive a hao hb ha heq.symm
      · simp only [put_objects_of_ne hao, put_objects_of_ne hbo] at ha hb heq ⊢
        exact h.osExclusive a b hab ha hb heq

/-- A step that leaves the registry alone. -/
theorem Invariant.putLocal (h : Invariant p s) (hdomain : l.domain = (s.objects o).domain)
    (hwf : l.WellFormed) (hsound : ∀ k, (s.objects o).MayReserve p k → l.MayReserve p k)
    (hkept : ∀ k, l.stage.undoing = false → l.MayReserve p k →
      (s.objects o).stage.undoing = false ∧ (s.objects o).MayReserve p k)
    (hos : l.osLocked = true →
      ((s.objects o).osLocked = true ∧ l.handle = (s.objects o).handle) ∨
        (l.handle = (s.objects o).handle ∧ Grants p s o)) :
    Invariant p (s.put o l (s.registryOf o)) :=
  h.put hdomain hwf (.refl _ _) (fun k hk => hsound k (h.sound _ k o hk).2)
    (fun k hundo hk => h.kept o k (hkept k hundo hk).1 (hkept k hundo hk).2) hos

end Put

/-- Every step of every object keeps the invariant. -/
theorem Invariant.step {s s' : LockState ω} {o : ω} {e : Event} (h : Invariant p s)
    (hstep : Step p s o e s') : Invariant p s' := by
  obtain ⟨hstep, hgrants⟩ := hstep
  have hwf := h.wellFormed o
  unfold advance at hstep
  simp only at hstep
  split at hstep
  case h_1 hst =>
    -- `acquire`: the path is reserved, or the call is refused and nothing has changed
    simp only [LockObject.WellFormed, hst] at hwf
    split at hstep
    case isTrue => exact Option.some.inj hstep ▸ h
    case isFalse hnot =>
      have hfree := hwf.resolve_left fun hheld => hnot hheld.1
      split at hstep
      case h_1 => exact Option.some.inj hstep ▸ h
      case h_2 registry hreserve =>
        obtain rfl := Option.some.inj hstep
        refine h.put rfl hfree (Registry.leavesOthers_reserve hreserve) (fun k hk => ?_)
          (fun k _ hk => (Registry.reserve_own hreserve).mpr (.inl hk)) (by simp [hfree])
        rcases (Registry.reserve_own hreserve).mp hk with hk | hk
        · exact hk
        · have hmay := (h.sound _ k o hk).2
          simp [LockObject.MayReserve, hst, hfree.2.2.1] at hmay
  case h_2 file hst =>
    simp only [LockObject.WellFormed, hst] at hwf
    obtain rfl := Option.some.inj hstep
    exact h.putLocal rfl ⟨hwf.1, rfl, hwf.2.2.1, rfl⟩
      (by simp [LockObject.MayReserve, hst, LockObject.reservation])
      (by simp [LockObject.MayReserve, Stage.undoing, hst, LockObject.reservation]) (by simp)
  case h_3 hst =>
    simp only [LockObject.WellFormed, hst] at hwf
    obtain rfl := Option.some.inj hstep
    exact h.putLocal rfl hwf.1
      (by simp +contextual [LockObject.MayReserve, hst, LockObject.reservation])
      (by simp [Stage.undoing]) (by simp [hwf])
  case h_4 file hst =>
    -- the reservation by path becomes one by identity, or is given up
    simp only [LockObject.WellFormed, hst] at hwf
    have hleaves := Registry.leavesOthers_promoteReservation (s.registryOf o)
      ((s.objects o).reservation p) (.inode file) o
    have hown := fun k => @Registry.promoteReservation_own _ _ _ _ (s.registryOf o) k o
      ((s.objects o).reservation p) (.inode file)
    have hold : ∀ k, s.registryOf o k = some o → k = (s.objects o).reservation p := fun k hk => by
      simpa [LockObject.MayReserve, hst] using (h.sound _ k o hk).2
    split at hstep
    case h_1 registry hpromote =>
      obtain rfl := Option.some.inj hstep
      simp only [hpromote, true_and] at hleaves hown
      refine h.put rfl hwf hleaves (fun k hk => ?_) (fun k _ hk => (hown k).mpr (.inl hk))
        (by simp [hwf])
      exact ((hown k).mp hk).resolve_right fun hk => hk.1 (hold k hk.2)
    case h_2 registry hpromote =>
      obtain rfl := Option.some.inj hstep
      simp only [hpromote, Bool.false_eq_true, false_and, false_or] at hleaves hown
      refine h.put rfl hwf.1 hleaves (fun k hk => ?_) (by simp [Stage.undoing]) (by simp [hwf])
      exact .inl (hold k ((hown k).mp hk).2)
  case h_5 file hst =>
    simp only [LockObject.WellFormed, hst] at hwf
    obtain rfl := Option.some.inj hstep
    exact h.putLocal rfl ⟨hwf.1, file, hwf.2.1, rfl⟩
      (by simp [LockObject.MayReserve, hst])
      (by simp [LockObject.MayReserve, Stage.undoing, hst]) (by simp [hwf])
  case h_6 hst =>
    -- the system granted the lock
    simp only [LockObject.WellFormed, hst] at hwf
    obtain rfl := Option.some.inj hstep
    by_cases hclass : (s.objects o).domain.lockClass = .writer
    · rw [if_pos hclass]
      exact h.putLocal rfl ⟨hwf.1, rfl, hwf.2⟩ (by simp [LockObject.MayReserve, hst])
        (by simp [LockObject.MayReserve, Stage.undoing, hst])
        (fun _ => .inr ⟨rfl, hgrants hst rfl⟩)
    · rw [if_neg hclass]
      exact h.putLocal rfl ⟨hwf.1, rfl, hwf.2⟩ (by simp [LockObject.MayReserve, hst])
        (by simp [LockObject.MayReserve, Stage.undoing, hst])
        (fun _ => .inr ⟨rfl, hgrants hst rfl⟩)
  case h_7 hst =>
    simp only [LockObject.WellFormed, hst] at hwf
    obtain rfl := Option.some.inj hstep
    exact h.putLocal rfl hwf.1 (by simp +contextual [LockObject.MayReserve, hst])
      (by simp [Stage.undoing]) (fun hos => .inl ⟨hos, rfl⟩)
  case h_8 hst =>
    simp only [LockObject.WellFormed, hst] at hwf
    obtain rfl := Option.some.inj hstep
    exact h.putLocal rfl ⟨hwf.1, hwf.2.1, hwf.2.2⟩ (by simp [LockObject.MayReserve, hst])
      (by simp [LockObject.MayReserve, Stage.undoing, hst]) (fun hos => .inl ⟨hos, rfl⟩)
  case h_9 hst =>
    simp only [LockObject.WellFormed, hst] at hwf
    obtain rfl := Option.some.inj hstep
    exact h.putLocal rfl hwf.1 (by simp +contextual [LockObject.MayReserve, hst])
      (by simp [Stage.undoing]) (fun hos => .inl ⟨hos, rfl⟩)
  case h_10 hst =>
    simp only [LockObject.WellFormed, hst] at hwf
    obtain rfl := Option.some.inj hstep
    exact h.putLocal rfl (.inl ⟨rfl, hwf.2.1, hwf.2.2⟩) (by simp [LockObject.MayReserve, hst])
      (by simp [LockObject.MayReserve, Stage.undoing, hst]) (fun hos => .inl ⟨hos, rfl⟩)
  case h_11 hst =>
    -- the handler of a failed `acquire` begins
    simp only [LockObject.WellFormed, hst] at hwf
    obtain rfl := Option.some.inj hstep
    exact h.putLocal rfl ⟨hwf, rfl, rfl⟩
      (by simp [LockObject.MayReserve, hst, LockObject.reservation]) (by simp [Stage.undoing])
      (by simp)
  case h_12 hst =>
    simp only [LockObject.WellFormed, hst] at hwf
    obtain rfl := Option.some.inj hstep
    refine h.put rfl hwf (Registry.leavesOthers_dropReservation _ _ _) (fun k hk => ?_)
      (by simp [Stage.undoing]) (by simp [hwf])
    obtain ⟨hne, hk⟩ := Registry.dropReservation_own.mp hk
    have hmay := (h.sound _ k o hk).2
    simp only [LockObject.MayReserve, hst] at hmay
    exact hmay.resolve_left fun heq => hne (heq ▸ rfl)
  case h_13 hst =>
    simp only [LockObject.WellFormed, hst] at hwf
    obtain rfl := Option.some.inj hstep
    refine h.put rfl hwf (Registry.leavesOthers_dropReservation _ _ _) (fun k hk => ?_)
      (by simp [Stage.undoing]) (by simp [hwf])
    obtain ⟨hne, hk⟩ := Registry.dropReservation_own.mp hk
    have hmay := (h.sound _ k o hk).2
    simp only [LockObject.MayReserve, hst] at hmay
    exact absurd hmay hne
  case h_14 hst =>
    simp only [LockObject.WellFormed, hst] at hwf
    obtain rfl := Option.some.inj hstep
    exact h.putLocal rfl (.inr ⟨hwf.1, hwf.2.1, rfl, hwf.2.2⟩)
      (by simp [LockObject.MayReserve, hst]) (by simp [LockObject.MayReserve]) (by simp [hwf])
  case h_15 hst =>
    -- `release`: nothing to do, or the object holds a file
    simp only [LockObject.WellFormed, hst] at hwf
    split at hstep
    case isTrue hheld =>
      obtain rfl := Option.some.inj hstep
      have hlocked := hwf.resolve_right fun hfree => by simp [hheld.1] at hfree
      exact h.putLocal rfl ⟨hlocked.1, hlocked.2.1, hlocked.2.2⟩
        (by simp [LockObject.MayReserve, hst])
        (by simp [LockObject.MayReserve, Stage.undoing, hst]) (fun hos => .inl ⟨hos, rfl⟩)
    case isFalse => exact Option.some.inj hstep ▸ h
  case h_16 hst =>
    simp only [LockObject.WellFormed, hst] at hwf
    obtain rfl := Option.some.inj hstep
    exact h.putLocal rfl hwf.1 (by simp [LockObject.MayReserve, hst])
      (by simp [LockObject.MayReserve, Stage.undoing, hst]) (by simp)
  case h_17 hst =>
    simp only [LockObject.WellFormed, hst] at hwf
    obtain rfl := Option.some.inj hstep
    exact h.putLocal rfl hwf.1 (by simp [LockObject.MayReserve, hst])
      (by simp [LockObject.MayReserve, Stage.undoing, hst]) (fun hos => .inl ⟨hos, rfl⟩)
  case h_18 hst =>
    simp only [LockObject.WellFormed, hst] at hwf
    obtain rfl := Option.some.inj hstep
    exact h.putLocal rfl ⟨hwf, rfl, rfl⟩ (by simp [LockObject.MayReserve, hst])
      (by simp [LockObject.MayReserve, Stage.undoing, hst]) (by simp)
  case h_19 hst =>
    simp only [LockObject.WellFormed, hst] at hwf
    obtain rfl := Option.some.inj hstep
    exact h.putLocal rfl ⟨rfl, hwf.2⟩ (by simp [LockObject.MayReserve, hst])
      (by simp [LockObject.MayReserve, Stage.undoing, hst]) (by simp [hwf])
  case h_20 hst =>
    simp only [LockObject.WellFormed, hst] at hwf
    obtain rfl := Option.some.inj hstep
    refine h.put rfl hwf (Registry.leavesOthers_dropReservation _ _ _) (fun k hk => ?_)
      (by simp [LockObject.MayReserve]) (by simp [hwf])
    obtain ⟨hne, hk⟩ := Registry.dropReservation_own.mp hk
    have hmay := (h.sound _ k o hk).2
    simp only [LockObject.MayReserve, hst] at hmay
    exact absurd hmay hne
  case h_21 hst =>
    simp only [LockObject.WellFormed, hst] at hwf
    obtain rfl := Option.some.inj hstep
    exact h.putLocal rfl (.inr ⟨hwf.1, hwf.2.1, rfl, hwf.2.2⟩)
      (by simp [LockObject.MayReserve, hst]) (by simp [LockObject.MayReserve]) (by simp [hwf])
  case h_22 => cases hstep

theorem Reachable.invariant {s : LockState ω} (h : Reachable p s) : Invariant p s := by
  induction h with
  | start h => exact h.invariant
  | step _ hstep ih => exact ih.step hstep

/-! ### Acquiring a free file -/

/-- A step changes one object, but neither its class nor its path, and keys it by an identity only. -/
theorem advance_put {s s' : LockState ω} {o : ω} {e : Event} (h : advance p s o e = some s') :
    s' = s ∨ ∃ l registry, s' = s.put o l registry ∧ l.domain = (s.objects o).domain ∧
      l.path = (s.objects o).path ∧
      ∀ k, l.holderKey = some k → (s.objects o).holderKey = some k ∨ ∃ file, k = .inode file := by
  unfold advance at h
  simp only at h
  split at h
  case h_1 =>
    split at h
    · exact .inl (Option.some.inj h).symm
    · split at h
      · exact .inl (Option.some.inj h).symm
      · exact .inr ⟨_, _, (Option.some.inj h).symm, rfl, rfl, fun k hk => .inl hk⟩
  case h_4 =>
    split at h <;> exact .inr ⟨_, _, (Option.some.inj h).symm, rfl, rfl, fun k hk => .inl hk⟩
  case h_5 file _ =>
    exact .inr ⟨_, _, (Option.some.inj h).symm, rfl, rfl,
      fun k hk => .inr ⟨file, (Option.some.inj hk).symm⟩⟩
  case h_15 =>
    split at h
    · exact .inr ⟨_, _, (Option.some.inj h).symm, rfl, rfl, fun k hk => .inl hk⟩
    · exact .inl (Option.some.inj h).symm
  case h_14 | h_21 => exact .inr ⟨_, _, (Option.some.inj h).symm, rfl, rfl, by simp⟩
  case h_22 => cases h
  all_goals exact .inr ⟨_, _, (Option.some.inj h).symm, rfl, rfl, fun k hk => .inl hk⟩

theorem Step.domain {s s' : LockState ω} {o : ω} {e : Event} (h : Step p s o e s') :
    (s'.objects o).domain = (s.objects o).domain := by
  obtain rfl | ⟨l, registry, rfl, hdomain, -⟩ := advance_put h.1
  · rfl
  · rw [put_objects_self, hdomain]

/-- The key an object keeps is that of an identity. -/
theorem Reachable.keyed {s : LockState ω} (h : Reachable p s) (o : ω) (k : Key)
    (hk : (s.objects o).holderKey = some k) : ∃ file, k = .inode file := by
  induction h generalizing o k with
  | start h =>
    rw [h.fresh o] at hk
    cases hk
  | @step s c e s' _ hstep ih =>
    obtain rfl | ⟨l, registry, rfl, -, -, hkey⟩ := advance_put hstep.1
    · exact ih o k hk
    · by_cases ho : o = c
      · subst ho
        rw [put_objects_self] at hk
        exact (hkey k hk).elim (ih o k) id
      · rw [put_objects_of_ne ho] at hk
        exact ih o k hk

/-- No other object has the file open or keeps its key, and none is inside a call on the path of
`o`. -/
def LockState.Free (p : Platform) (s : LockState ω) (o : ω) (file : FileIdentity) : Prop :=
  ∀ other, other ≠ o →
    (s.objects other).handle ≠ some file ∧ (s.objects other).holderKey ≠ some (.inode file) ∧
      ((s.objects other).stage = .idle ∨
        (s.objects other).reservation p ≠ (s.objects o).reservation p)

/-- The steps of `o` do not take a file away from it. -/
theorem LockState.Free.step {s s' : LockState ω} {o : ω} {e : Event} {file : FileIdentity}
    (h : s.Free p o file) (hstep : Step p s o e s') : s'.Free p o file := by
  obtain rfl | ⟨l, registry, rfl, -, hpath, -⟩ := advance_put hstep.1
  · exact h
  · intro other hother
    simp only [put_objects_self, put_objects_of_ne hother, LockObject.reservation, hpath]
    exact h other hother

/-- What somebody has reserved, of the two keys an `acquire` of `o` asks for, is reserved by `o`. -/
theorem Reachable.free_holder {s : LockState ω} (h : Reachable p s) {o holder : ω}
    {file : FileIdentity} (hfree : s.Free p o file) {k : Key}
    (hk : k = (s.objects o).reservation p ∨ k = .inode file)
    (hholder : s.registryOf o k = some holder) : holder = o := by
  by_contra hother
  have hmay := (h.invariant.sound _ k holder hholder).2
  have hwf := h.invariant.wellFormed holder
  obtain ⟨hhandle, hfile, hpath⟩ := hfree holder hother
  -- a key it keeps is neither the path of `o` nor the file
  have hkept : (s.objects holder).holderKey ≠ some k := by
    intro hkey
    obtain ⟨file', rfl⟩ := h.keyed holder k hkey
    rcases hk with hk | hk
    · cases hk
    · exact hfile (hkey.trans (congrArg some hk))
  -- a path it has reserved is not that of `o`, since it is inside a call
  have hreserved : (s.objects holder).stage ≠ .idle → k ≠ (s.objects holder).reservation p := by
    rintro hst rfl
    rcases hk with hk | hk
    · exact hpath.elim hst fun hne => hne hk
    · cases hk
  unfold LockObject.MayReserve at hmay
  split at hmay
  case h_1 hst => exact hreserved (by simp [hst]) hmay
  case h_2 hst => exact hreserved (by simp [hst]) hmay
  case h_3 file' hst =>
    subst hmay
    simp only [LockObject.WellFormed, hst] at hwf
    rcases hk with hk | hk
    · cases hk
    · exact hhandle (hwf.2.1.trans (congrArg some (Key.inode.inj hk)))
  case h_4 hst => exact hmay.elim (hreserved (by simp [hst])) hkept
  case h_5 hst => exact hmay.elim (hreserved (by simp [hst])) hkept
  case h_6 => exact hmay
  case h_7 => exact hmay
  case h_8 => exact hkept hmay

section Progress

variable {s : LockState ω} {o : ω} {file : FileIdentity}

attribute [local simp] advance

theorem Reachable.step_acquire (h : Reachable p s) (hfree : s.Free p o file)
    (hrest : (s.objects o).AtRest) :
    ∃ s', Step p s o .acquire s' ∧ (s'.objects o).stage = .opening := by
  have hreserve := Registry.reserve_eq_some_iff.mpr
    ⟨fun holder hholder => h.free_holder hfree (.inl rfl) hholder, rfl⟩
  exact ⟨s.put o { s.objects o with stage := .opening }
    (Function.update (s.registryOf o) ((s.objects o).reservation p) (some o)),
    ⟨by simp [hrest.1, hrest.2, hreserve], by simp [hrest.1]⟩, by simp⟩

theorem step_opened (hst : (s.objects o).stage = .opening) :
    ∃ s', Step p s o (.opened file) s' ∧ (s'.objects o).stage = .promoting file :=
  ⟨s.put o { s.objects o with handle := some file, osLocked := false, stage := .promoting file }
    (s.registryOf o), ⟨by simp [hst], by simp [hst]⟩, by simp⟩

theorem Reachable.step_promoted (h : Reachable p s) (hfree : s.Free p o file)
    (hst : (s.objects o).stage = .promoting file) :
    ∃ s', Step p s o .done s' ∧ (s'.objects o).stage = .keying file := by
  have hgranted := @Registry.promoteReservation_granted _ _ _ _ _ o
    ((s.objects o).reservation p) _ fun holder hholder => h.free_holder hfree (.inr rfl) hholder
  cases hpromote : (s.registryOf o).promoteReservation ((s.objects o).reservation p)
      (.inode file) o with
  | mk granted registry =>
    rw [hpromote] at hgranted
    cases hgranted
    exact ⟨s.put o { s.objects o with stage := .keying file } registry,
      ⟨by simp [hst, hpromote], by simp [hst]⟩, by simp⟩

theorem Invariant.step_keyed (h : Invariant p s) (hst : (s.objects o).stage = .keying file) :
    ∃ s', Step p s o .done s' ∧ (s'.objects o).stage = .locking ∧
      (s'.objects o).handle = some file := by
  have hwf := h.wellFormed o
  simp only [LockObject.WellFormed, hst] at hwf
  exact ⟨s.put o { s.objects o with holderKey := some (.inode file), stage := .locking }
    (s.registryOf o), ⟨by simp [hst], by simp [hst]⟩, by simp, by simpa using hwf.2.1⟩

/-- The system grants a file that no other handle has locked. -/
theorem step_locked (hfree : s.Free p o file) (hst : (s.objects o).stage = .locking)
    (hhandle : (s.objects o).handle = some file) :
    ∃ s', Step p s o .done s' ∧ (s'.objects o).handle = some file ∧
      (s'.objects o).stage =
        if (s.objects o).domain.lockClass = .writer then .recording else .entering := by
  refine ⟨s.put o { s.objects o with
    osLocked := true
    stage := if (s.objects o).domain.lockClass = .writer then .recording else .entering }
    (s.registryOf o), ⟨by simp [hst], fun _ _ other hother _ heq => ?_⟩,
    by simpa using hhandle, by simp⟩
  exact absurd (heq.trans hhandle) (hfree other hother).1

theorem step_recorded (hst : (s.objects o).stage = .recording)
    (hhandle : (s.objects o).handle = some file) :
    ∃ s', Step p s o .done s' ∧ (s'.objects o).stage = .entering ∧
      (s'.objects o).handle = some file :=
  ⟨s.put o { s.objects o with stage := .entering } (s.registryOf o),
    ⟨by simp [hst], by simp [hst]⟩, by simp, by simpa using hhandle⟩

theorem step_entered (hst : (s.objects o).stage = .entering)
    (hhandle : (s.objects o).handle = some file) :
    ∃ s', Step p s o .done s' ∧ (s'.objects o).Holds file :=
  ⟨s.put o { s.objects o with acquired := true, stage := .idle } (s.registryOf o),
    ⟨by simp [hst], by simp [hst]⟩, by simp [LockObject.Holds, hhandle]⟩

/-- The events of an `acquire` in which the path opens a file and no statement fails. -/
def acquisition (lockClass : LockClass) (file : FileIdentity) : List Event :=
  if lockClass = .writer then
    [.acquire, .opened file, .done, .done, .done, .done, .done]
  else [.acquire, .opened file, .done, .done, .done, .done]

/-- On a free file the run of `acquire` meets no refusal. -/
theorem Reachable.acquire_holds (h : Reachable p s) (hfree : s.Free p o file)
    (hrest : (s.objects o).AtRest) :
    ∃ s', Runs p o s (acquisition (s.objects o).domain.lockClass file) s' ∧
      (s'.objects o).Holds file := by
  obtain ⟨s₁, h₁, hst₁⟩ := h.step_acquire hfree hrest
  obtain ⟨s₂, h₂, hst₂⟩ := @step_opened _ _ _ _ _ file hst₁
  have hreach₂ := (h.step h₁).step h₂
  have hfree₂ := (hfree.step h₁).step h₂
  obtain ⟨s₃, h₃, hst₃⟩ := hreach₂.step_promoted hfree₂ hst₂
  obtain ⟨s₄, h₄, hst₄, hhandle₄⟩ := (hreach₂.step h₃).invariant.step_keyed hst₃
  obtain ⟨s₅, h₅, hhandle₅, hst₅⟩ := step_locked ((hfree₂.step h₃).step h₄) hst₄ hhandle₄
  have hclass : (s₄.objects o).domain.lockClass = (s.objects o).domain.lockClass := by
    rw [h₄.domain, h₃.domain, h₂.domain, h₁.domain]
  rw [hclass] at hst₅
  unfold acquisition
  by_cases hwriter : (s.objects o).domain.lockClass = .writer
  · -- the project lock records its holder first
    rw [if_pos hwriter] at hst₅ ⊢
    obtain ⟨s₆, h₆, hst₆, hhandle₆⟩ := step_recorded hst₅ hhandle₅
    obtain ⟨s₇, h₇, hholds⟩ := step_entered hst₆ hhandle₆
    exact ⟨s₇, .cons h₁ (.cons h₂ (.cons h₃ (.cons h₄ (.cons h₅ (.cons h₆ (.cons h₇ .nil)))))),
      hholds⟩
  · rw [if_neg hwriter] at hst₅ ⊢
    obtain ⟨s₆, h₆, hholds⟩ := step_entered hst₅ hhandle₅
    exact ⟨s₆, .cons h₁ (.cons h₂ (.cons h₃ (.cons h₄ (.cons h₅ (.cons h₆ .nil))))), hholds⟩

/-- The handler of a failed `acquire` runs to its end, whatever is still to be undone. -/
theorem handler_ends (hst : (s.objects o).stage = .closingHandle)
    (hacquired : (s.objects o).acquired = false) :
    ∃ s', Runs p o s [.done, .done, .done, .done] s' ∧ (s'.objects o).AtRest := by
  obtain ⟨s₁, h₁, hst₁, hacquired₁⟩ : ∃ s₁, Step p s o .done s₁ ∧
      (s₁.objects o).stage = .droppingPath ∧ (s₁.objects o).acquired = false :=
    ⟨s.put o { s.objects o with handle := none, osLocked := false, stage := .droppingPath }
      (s.registryOf o), ⟨by simp [hst], by simp [hst]⟩, by simp, by simpa using hacquired⟩
  obtain ⟨s₂, h₂, hst₂, hacquired₂⟩ : ∃ s₂, Step p s₁ o .done s₂ ∧
      (s₂.objects o).stage = .droppingKey ∧ (s₂.objects o).acquired = false :=
    ⟨s₁.put o { s₁.objects o with stage := .droppingKey }
      ((s₁.registryOf o).dropReservation (some ((s₁.objects o).reservation p)) o),
      ⟨by simp [hst₁], by simp [hst₁]⟩, by simp, by simpa using hacquired₁⟩
  obtain ⟨s₃, h₃, hst₃, hacquired₃⟩ : ∃ s₃, Step p s₂ o .done s₃ ∧
      (s₃.objects o).stage = .forgetting ∧ (s₃.objects o).acquired = false :=
    ⟨s₂.put o { s₂.objects o with stage := .forgetting }
      ((s₂.registryOf o).dropReservation (s₂.objects o).holderKey o),
      ⟨by simp [hst₂], by simp [hst₂]⟩, by simp, by simpa using hacquired₂⟩
  exact ⟨s₃.put o { s₃.objects o with holderKey := none, stage := .idle } (s₃.registryOf o),
    .cons h₁ (.cons h₂ (.cons h₃ (.cons ⟨by simp [hst₃], by simp [hst₃]⟩ .nil))),
    by simp [LockObject.AtRest, hacquired₃]⟩

end Progress

/-! ### Mutual exclusion -/

/-- **Two holders of one file.** They are one object, unless they are of different classes in one
process whose locks are re-entrant: each class keeps a registry of its own. An object whose
`acquire` failed ends at rest with nothing left in any registry, and acquires any free file. -/
theorem lock_exclusion {s : LockState ω} (h : Reachable p s) :
    (∀ a b file, (s.objects a).Holds file → (s.objects b).Holds file →
      ((s.objects a).domain.lockClass = (s.objects b).domain.lockClass ∨
        (s.objects a).domain.process ≠ (s.objects b).domain.process ∨ p.reentrant = false) →
      a = b) ∧
    (∀ o, (s.objects o).stage = .closingHandle →
      ∃ s', Runs p o s [.done, .done, .done, .done] s' ∧ (s'.objects o).AtRest) ∧
    (∀ o, (s.objects o).AtRest → (∀ d k, s.registries d k ≠ some o) ∧
      ∀ file, s.Free p o file →
        ∃ s', Runs p o s (acquisition (s.objects o).domain.lockClass file) s' ∧
          (s'.objects o).Holds file) := by
  refine ⟨fun a b file ha hb hapart => ?_, fun o hst => ?_, fun o hrest => ?_⟩
  · by_contra hab
    -- two objects need a re-entrant lock and one process, so the classes are the same
    obtain ⟨hre, hprocess⟩ := h.invariant.holders_reentrant ha hb hab
    rcases hapart with hclass | hother | hre'
    · exact hab (h.invariant.holder_unique ha hb (Domain.ext hprocess hclass))
    · exact hother hprocess
    · simp [hre] at hre'
  · have hwf := h.invariant.wellFormed o
    simp only [LockObject.WellFormed, hst] at hwf
    exact handler_ends hst hwf
  · exact ⟨h.invariant.nothing_left hrest, fun file hfree => h.acquire_holds hfree hrest⟩

/-! ### Locks of two classes -/

/-- Steps of several objects, one after the other, with every lock granted. -/
def drive (p : Platform) (s : LockState ω) : List (ω × Event) → Option (LockState ω)
  | [] => some s
  | (o, e) :: acts => (advance p s o e).bind fun s => drive p s acts

/-- In one process with re-entrant locks the system refuses nothing. -/
theorem Reachable.drive (hre : p.reentrant = true) {acts : List (ω × Event)} :
    ∀ {s s' : LockState ω}, Reachable p s →
      (∀ a b, (s.objects a).domain.process = (s.objects b).domain.process) →
      drive p s acts = some s' → Reachable p s' := by
  induction acts with
  | nil =>
    intro s s' h _ hdrive
    exact Option.some.inj hdrive ▸ h
  | cons act acts ih =>
    intro s s' h hprocess hdrive
    obtain ⟨s₁, hadvance, hdrive⟩ := Option.bind_eq_some_iff.mp hdrive
    have hstep : Step p s act.1 act.2 s₁ :=
      ⟨hadvance, fun _ _ other _ _ _ => ⟨hre, hprocess other act.1⟩⟩
    refine ih (h.step hstep) (fun a b => ?_) hdrive
    have hkept : ∀ c, (s₁.objects c).domain = (s.objects c).domain := by
      intro c
      by_cases hc : c = act.1
      · rw [hc, hstep.domain]
      · obtain rfl | ⟨l, registry, rfl, -⟩ := advance_put hadvance
        · rfl
        · rw [put_objects_of_ne hc]
    rw [hkept a, hkept b]
    exact hprocess a b

/-- A platform whose locks a process may take twice. -/
def reentrantPlatform : Platform := { normcase := id, reentrant := true }

/-- A generic file lock and the project lock, on one path of one process. -/
def twoClasses : LockState Bool where
  objects o :=
    { domain := { process := 0, lockClass := if o then .writer else .file }
      path := ".saipen/locks/core.lock" }
  registries _ _ := none

/-- The file both open. -/
def coreLock : FileIdentity := { dev := 1, ino := 7 }

/-- Locks of two classes know nothing of each other, and the system grants both. -/
theorem two_classes_hold_one_file :
    ∃ s : LockState Bool, Reachable reentrantPlatform s ∧
      (s.objects false).Holds coreLock ∧ (s.objects true).Holds coreLock := by
  have hstart : Reachable reentrantPlatform twoClasses := .start ⟨fun _ => rfl, fun _ _ => rfl⟩
  have hholds : (drive reentrantPlatform twoClasses
      ((acquisition .file coreLock).map (false, ·) ++
        (acquisition .writer coreLock).map (true, ·))).any
      (fun s => (s.objects false).Holds coreLock ∧ (s.objects true).Holds coreLock) = true := by
    decide +kernel
  obtain ⟨s, hdrive, hs⟩ := (Option.any_eq_true _ _).mp hholds
  exact ⟨s, hstart.drive rfl (fun _ _ => rfl) hdrive, of_decide_eq_true hs⟩

/-- Two project locks on aliases of one file. -/
def twoAliases : LockState Bool where
  objects o :=
    { domain := { process := 0, lockClass := .writer }
      path := if o then "alias/.saipen/locks/core.lock" else ".saipen/locks/core.lock" }
  registries _ _ := none

/-- The second project lock is refused although the system would grant it; it leaves nothing. -/
theorem lock_exclusion_aliases :
    ∃ s : LockState Bool, (s.objects false).Holds coreLock ∧
      (∀ b, (s.objects b).Holds coreLock → b = false) ∧ ∀ d k, s.registries d k ≠ some true := by
  have hstart : Reachable reentrantPlatform twoAliases := .start ⟨fun _ => rfl, fun _ _ => rfl⟩
  have hholds : (drive reentrantPlatform twoAliases
      ((acquisition .writer coreLock).map (false, ·) ++
        [(true, .acquire), (true, .opened coreLock), (true, .done), (true, .done), (true, .done),
          (true, .done), (true, .done)])).any
      (fun s => (s.objects false).Holds coreLock ∧ (s.objects true).stage = .idle ∧
        (s.objects true).acquired = false ∧
        (s.objects false).domain.lockClass = (s.objects true).domain.lockClass) = true := by
    decide +kernel
  obtain ⟨s, hdrive, hs⟩ := (Option.any_eq_true _ _).mp hholds
  obtain ⟨hfirst, hidle, hfree, hclass⟩ := of_decide_eq_true hs
  have hreach := hstart.drive rfl (fun _ _ => rfl) hdrive
  refine ⟨s, hfirst, fun b hb => ?_, ((lock_exclusion hreach).2.2 true ⟨hidle, hfree⟩).1⟩
  refine (lock_exclusion hreach).1 b false coreLock hb hfirst (.inl ?_)
  cases b
  · rfl
  · exact hclass.symm

end Saipen.Lock

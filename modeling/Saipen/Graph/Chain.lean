import Mathlib.Data.List.Perm.Subperm
import Saipen.Graph.Search

/-! # Following a partial map

Where every node has one successor at most, a chain of successors either ends or runs into itself. The walk
keeps the chain it has gone and reports the part of it that closes a cycle. -/

namespace Graph

universe u

variable {α : Type u} [DecidableEq α]

/-- The edges of a partial map. -/
def Next (next : α → Option α) (a b : α) : Prop := next a = some b

/-- The walk from a node, with the chain behind it: the cycle it runs into, if it does. There is no answer
when the steps run out first. -/
def follow (next : α → Option α) : Nat → List α → α → Option (Option (List α))
  | 0, _, _ => none
  | n + 1, chain, a =>
      match next a with
      | none => some none
      | some b => if a ∈ chain then some (some (closing chain a)) else follow next n (chain ++ [a]) b

variable {next : α → Option α} {keys chain : List α} {a b : α}

/-- The chain leads to the node the walk is at. -/
def Leads (next : α → Option α) (chain : List α) (a : α) : Prop :=
  chain.IsChain (Next next) ∧ ∀ b ∈ chain.getLast?, next b = some a

omit [DecidableEq α] in
theorem Leads.snoc (h : Leads next chain a) (hb : next a = some b) : Leads next (chain ++ [a]) b := by
  refine ⟨List.isChain_append.mpr ⟨h.1, .singleton _, fun c hc d hd => ?_⟩, fun c hc => ?_⟩
  · rw [List.head?_singleton, Option.mem_some_iff] at hd
    exact hd ▸ h.2 c hc
  · rw [List.getLast?_concat, Option.mem_some_iff] at hc
    exact hc ▸ hb

/-- A walk over the keys of a map comes to an answer in as many steps as there are keys, and one more. -/
theorem follow_ne_none (hkeys : ∀ a b, next a = some b → a ∈ keys) {n : Nat} (hchain : chain ⊆ keys)
    (hnodup : chain.Nodup) (hn : keys.length < n + chain.length) : follow next n chain a ≠ none := by
  induction n generalizing chain a with
  | zero =>
    have := (List.subperm_of_subset hnodup hchain).length_le
    omega
  | succ n ih =>
    rw [follow]
    cases hnext : next a with
    | none => exact Option.some_ne_none _
    | some b =>
      dsimp only
      split_ifs with hmem
      · exact Option.some_ne_none _
      · refine ih (List.append_subset.mpr ⟨hchain, by simpa using hkeys a b hnext⟩) ?_ ?_
        · exact List.nodup_append.mpr ⟨hnodup, List.nodup_singleton a, by
          rintro c hc d hd rfl
          exact hmem (List.mem_singleton.mp hd ▸ hc)⟩
        · rw [List.length_append, List.length_singleton]
          omega

/-- What a walk reports is a cycle. -/
theorem isCycle_of_follow {n : Nat} {cycle : List α} (hlead : Leads next chain a)
    (h : follow next n chain a = some (some cycle)) : IsCycle (Next next) cycle := by
  induction n generalizing chain a with
  | zero => cases h
  | succ n ih =>
    rw [follow] at h
    cases hnext : next a with
    | none =>
      rw [hnext] at h
      cases h
    | some b =>
      rw [hnext] at h
      dsimp only at h
      split_ifs at h with hmem
      · obtain rfl := Option.some.inj (Option.some.inj h)
        have hne : chain ≠ [] := List.ne_nil_of_mem hmem
        have hlast := List.getLast?_eq_some_getLast hne
        exact isCycle_closing hlead.1 hlast hmem (hlead.2 _ hlast)
      · exact ih (hlead.snoc hnext) h

omit [DecidableEq α] in
/-- From a node of a cycle every path goes on around it. -/
theorem transGen_self_of_step (h : Relation.TransGen (Next next) a a) (hb : next a = some b) :
    Relation.TransGen (Next next) b b := by
  obtain ⟨c, hac, hca⟩ := Relation.TransGen.head'_iff.mp h
  obtain rfl : c = b := Option.some.inj (hac.symm.trans hb)
  exact .tail' hca hb

/-- A walk from a node of a cycle never ends. -/
theorem follow_ne_end (h : Relation.TransGen (Next next) a a) {n : Nat} :
    follow next n chain a ≠ some none := by
  induction n generalizing chain a with
  | zero => exact fun h => by cases h
  | succ n ih =>
    rw [follow]
    obtain ⟨b, hb, -⟩ := Relation.TransGen.head'_iff.mp h
    rw [show next a = some b from hb]
    dsimp only
    split_ifs
    · exact fun h => by cases h
    · exact ih (transGen_self_of_step h hb)

/-! ### Nodes along a chain -/

/-- The node some steps along. -/
def along (next : α → Option α) : Nat → α → Option α
  | 0, a => some a
  | n + 1, a => (next a).bind (along next n)

omit [DecidableEq α] in
theorem along_add (m n : Nat) (a : α) :
    along next (m + n) a = (along next m a).bind (along next n) := by
  induction m generalizing a with
  | zero => rw [Nat.zero_add, along, Option.bind_some]
  | succ m ih =>
    rw [Nat.succ_add, along, along, Option.bind_assoc]
    exact congrArg _ (funext ih)

omit [DecidableEq α] in
/-- A chain has every node in front of one it has. -/
theorem along_isSome_of_le {m n : Nat} (hle : m ≤ n) (h : (along next n a).isSome = true) :
    (along next m a).isSome = true := by
  obtain ⟨k, rfl⟩ := Nat.exists_eq_add_of_le hle
  rw [along_add] at h
  exact Option.isSome_of_isSome_bind h

omit [DecidableEq α] in
/-- A chain that comes to where it has been never ends. -/
theorem along_isSome_of_repeat {i j : Nat} {start : α} (hi : along next i start = some a)
    (hj : along next j start = some b) (hlt : i < j) (hab : next a = next b) (n : Nat) :
    (along next n start).isSome = true := by
  induction n using Nat.strong_induction_on with
  | _ n ih =>
    by_cases hn : n ≤ j
    · exact along_isSome_of_le hn (by rw [hj]; rfl)
    · -- the rest of the way from the later node is the way from the earlier one
      obtain ⟨k, rfl⟩ : ∃ k, n = j + (k + 1) := ⟨n - j - 1, by omega⟩
      have hback := ih (i + (k + 1)) (by omega)
      rw [along_add, hi, Option.bind_some, along, hab] at hback
      rw [along_add, hj, Option.bind_some, along]
      exact hback

/-! ### Arriving at a goal -/

/-- Whether the walk from a node ends at a goal, within so many nodes and without coming back to one of them
or to the chain behind it. -/
def arrives (next : α → Option α) (goal : α → Bool) : Nat → List α → α → Bool
  | 0, _, _ => false
  | n + 1, chain, a =>
      if a ∈ chain then false
      else
        match next a with
        | none => goal a
        | some b => arrives next goal n (chain ++ [a]) b

/-- **Paths.** The walk arrives exactly where a path leads to a goal. -/
theorem arrives_iff {goal : α → Bool} {n : Nat} : arrives next goal n chain a = true ↔
    ∃ path : List α, path.head? = some a ∧ path.IsChain (Next next) ∧ path.Nodup ∧ (∀ b ∈ path, b ∉ chain) ∧
      path.length ≤ n ∧ ∃ z, path.getLast? = some z ∧ next z = none ∧ goal z = true := by
  induction n generalizing chain a with
  | zero =>
    refine iff_of_false Bool.false_ne_true ?_
    rintro ⟨path, hhead, -, -, -, hlength, -⟩
    rw [List.length_eq_zero_iff.mp (Nat.le_zero.mp hlength)] at hhead
    cases hhead
  | succ n ih =>
    rw [arrives]
    by_cases hmem : a ∈ chain
    · rw [if_pos hmem]
      refine iff_of_false Bool.false_ne_true ?_
      rintro ⟨path, hhead, -, -, hnew, -, -⟩
      exact hnew a (List.mem_of_mem_head? hhead) hmem
    · rw [if_neg hmem]
      cases hnext : next a with
      | none =>
        constructor
        · intro hgoal
          refine ⟨[a], rfl, .singleton a, List.nodup_singleton a, ?_, ?_, a, rfl, hnext, hgoal⟩
          · intro b hb
            rwa [List.mem_singleton.mp hb]
          · rw [List.length_singleton]
            omega
        · rintro ⟨path, hhead, hchain, -, -, -, z, hlast, -, hgoal⟩
          obtain ⟨rest, rfl⟩ := List.head?_eq_some_iff.mp hhead
          cases rest with
          | nil =>
            obtain rfl : a = z := Option.some.inj hlast
            exact hgoal
          | cons b rest =>
            have hb : next a = some b := (List.isChain_cons_cons.mp hchain).1
            rw [hnext] at hb
            cases hb
      | some b =>
        dsimp only
        rw [ih]
        constructor
        · rintro ⟨path, hhead, hchain, hnodup, hnew, hlength, z, hlast, hz⟩
          obtain ⟨rest, rfl⟩ := List.head?_eq_some_iff.mp hhead
          have ha : a ∉ b :: rest := fun ha => hnew a ha (List.mem_append_right _ (List.mem_singleton_self a))
          refine ⟨a :: b :: rest, rfl, List.isChain_cons_cons.mpr ⟨hnext, hchain⟩,
            List.nodup_cons.mpr ⟨ha, hnodup⟩, ?_, Nat.succ_le_succ hlength, z, ?_, hz⟩
          · rintro c hc
            rcases List.mem_cons.mp hc with rfl | hc
            · exact hmem
            · exact fun hin => hnew c hc (List.mem_append_left _ hin)
          · rw [List.getLast?_cons_cons, hlast]
        · rintro ⟨path, hhead, hchain, hnodup, hnew, hlength, z, hlast, hz⟩
          obtain ⟨rest, rfl⟩ := List.head?_eq_some_iff.mp hhead
          cases rest with
          | nil =>
            obtain rfl : a = z := Option.some.inj hlast
            rw [hz.1] at hnext
            cases hnext
          | cons c rest =>
            obtain ⟨hc, hrest⟩ := List.isChain_cons_cons.mp hchain
            obtain rfl : b = c := Option.some.inj (hnext.symm.trans hc)
            obtain ⟨ha, hnodup⟩ := List.nodup_cons.mp hnodup
            refine ⟨b :: rest, rfl, hrest, hnodup, fun c hc hin => ?_, Nat.le_of_succ_le_succ hlength, z, ?_, hz⟩
            · rcases List.mem_append.mp hin with hin | hin
              · exact hnew c (List.mem_cons_of_mem a hc) hin
              · rw [List.mem_singleton.mp hin] at hc
                exact ha hc
            · rwa [List.getLast?_cons_cons] at hlast

end Graph

import Mathlib.Data.List.Induction
import Saipen.Assoc

/-! # Replaying assignments

A dictionary is rebuilt from a list of assignments. The last assignment to a key is the one that is
read, so replaying once more what was replayed already changes nothing that is read. -/

namespace Replay

variable {α : Type} {rows : List (String × α)} {k : String}

/-- Make the assignments in turn. -/
def replay (d rows : List (String × α)) : List (String × α) :=
  rows.foldl (fun d row => Assoc.set row.1 row.2 d) d

theorem replay_append (d rows rows' : List (String × α)) :
    replay d (rows ++ rows') = replay (replay d rows) rows' :=
  List.foldl_append

@[simp] theorem replay_nil (d : List (String × α)) : replay d [] = d := rfl

theorem lookup_replay_concat (d : List (String × α)) (row : String × α) :
    (replay d (rows ++ [row])).lookup k = if k = row.1 then some row.2 else (replay d rows).lookup k := by
  rw [replay_append]
  exact Assoc.lookup_set _ _ _ _

/-- A key no assignment names reads as before. -/
theorem lookup_replay_of_notMem (d : List (String × α)) (h : k ∉ rows.map Prod.fst) :
    (replay d rows).lookup k = d.lookup k := by
  induction rows using List.reverseRecOn with
  | nil => rfl
  | append_singleton rows row ih =>
    rw [List.map_append, List.mem_append, not_or] at h
    rw [lookup_replay_concat, if_neg (by simpa using h.2), ih h.1]

/-- A key some assignment names is there, and reads the same whatever was there before. -/
theorem lookup_replay_of_mem (d e : List (String × α)) (h : k ∈ rows.map Prod.fst) :
    ∃ v, (replay d rows).lookup k = some v ∧ (replay e rows).lookup k = some v := by
  induction rows using List.reverseRecOn with
  | nil => simp at h
  | append_singleton rows row ih =>
    rw [lookup_replay_concat, lookup_replay_concat]
    by_cases hk : k = row.1
    · exact ⟨row.2, by rw [if_pos hk], by rw [if_pos hk]⟩
    · rw [if_neg hk, if_neg hk]
      rw [List.map_append, List.mem_append] at h
      exact ih (h.resolve_right (by simpa using hk))

/-- Dictionaries that read alike read alike after the same assignments. -/
theorem lookup_replay_congr {d e : List (String × α)} (h : ∀ k, d.lookup k = e.lookup k)
    (rows : List (String × α)) (k : String) : (replay d rows).lookup k = (replay e rows).lookup k := by
  by_cases hk : k ∈ rows.map Prod.fst
  · obtain ⟨v, hd, he⟩ := lookup_replay_of_mem d e hk
    rw [hd, he]
  · rw [lookup_replay_of_notMem d hk, lookup_replay_of_notMem e hk, h]

/-- The same value assigned to several keys. -/
theorem lookup_replay_const (d : List (String × α)) (ks : List String) (v : α) :
    (replay d (ks.map fun l => (l, v))).lookup k = if k ∈ ks then some v else d.lookup k := by
  induction ks using List.reverseRecOn with
  | nil => simp
  | append_singleton ks l ih =>
    rw [List.map_append, List.map_singleton, lookup_replay_concat, ih]
    by_cases hk : k = l <;> simp [hk]

/-- The assignments were made already: making them again changes nothing that is read. -/
def Settled (d rows : List (String × α)) : Prop := ∀ k, (replay d rows).lookup k = d.lookup k

/-- What agrees with the outcome of the assignments is settled. -/
theorem settled_of_agree {d e : List (String × α)}
    (h : ∀ k ∈ rows.map Prod.fst, d.lookup k = (replay e rows).lookup k) : Settled d rows := by
  intro k
  by_cases hk : k ∈ rows.map Prod.fst
  · obtain ⟨v, hd, he⟩ := lookup_replay_of_mem d e hk
    rw [hd, h k hk, he]
  · exact lookup_replay_of_notMem d hk

/-- **Replaying the rest is replaying all**, where the beginning is settled. -/
theorem Settled.lookup_append {d : List (String × α)} (h : Settled d rows) (rest : List (String × α)) :
    (replay d (rows ++ rest)).lookup k = (replay d rest).lookup k := by
  rw [replay_append]
  exact lookup_replay_congr h rest k

end Replay

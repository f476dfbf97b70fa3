import Mathlib.Data.List.Induction
import Mathlib.Data.List.Nodup
import Mathlib.Data.List.Perm.Basic
import Mathlib.Tactic.Common

/-!
# Grouping by key

Elements are added to the entry of their key, perhaps after a division by keys.
-/

namespace Smongo

open List

section

variable {α κ β : Type} [DecidableEq κ] (key : α → κ) (new : α → β) (add : β → α → β)

/-- Add to the entry of a key, or to a new one. -/
def upsertEntry (a : α) : List (κ × β) → List (κ × β)
  | [] => [(key a, add (new a) a)]
  | (k, b) :: rest => if k = key a then (k, add b a) :: rest else (k, b) :: upsertEntry a rest

def groupAll (xs : List α) : List (κ × β) :=
  xs.foldl (fun entries a => upsertEntry key new add a entries) []

/-- The entries for which a list stands. -/
def Entries (xs : List α) (k : κ) (b : β) : Prop :=
  ∃ a rest, (xs.filter fun x => key x = k) = a :: rest ∧ b = (a :: rest).foldl add (new a)

variable {key new add}

lemma keys_upsertEntry (a : α) (l : List (κ × β)) : (upsertEntry key new add a l).map Prod.fst =
      if key a ∈ l.map Prod.fst then l.map Prod.fst else l.map Prod.fst ++ [key a] := by
  induction l with
  | nil => rfl
  | cons e l ih =>
    obtain ⟨k, b⟩ := e
    rw [upsertEntry]
    by_cases hk : k = key a
    · simp [hk]
    · simp only [if_neg hk, map_cons, ih, mem_cons, Ne.symm hk, false_or]
      split <;> rfl

lemma nodup_upsertEntry {l : List (κ × β)} (h : (l.map Prod.fst).Nodup) (a : α) :
    ((upsertEntry key new add a l).map Prod.fst).Nodup := by
  rw [keys_upsertEntry]
  split
  · exact h
  · next hnew => exact h.append (nodup_singleton _) (by simpa using hnew)

lemma mem_upsertEntry {l : List (κ × β)} (h : (l.map Prod.fst).Nodup) (a : α) {k : κ} {b : β} :
    (k, b) ∈ upsertEntry key new add a l ↔ if k = key a then
        (∃ c, (k, c) ∈ l ∧ b = add c a) ∨ (k ∉ l.map Prod.fst ∧ b = add (new a) a)
      else (k, b) ∈ l := by
  induction l with
  | nil =>
    rw [upsertEntry]
    split <;> simp_all
  | cons e l ih =>
    obtain ⟨k', b'⟩ := e
    rw [map_cons, nodup_cons] at h
    rw [upsertEntry]
    by_cases hk' : k' = key a
    · by_cases hk : k = key a
      · have hnone : ∀ c, (key a, c) ∉ l := fun c hc => h.1 (mem_map.mpr ⟨_, hc, hk'.symm⟩)
        simp [hk, hk', hnone]
      · simp [hk, hk']
    · rw [if_neg hk', mem_cons, ih h.2]
      by_cases hk : k = key a
      · simp [hk, Ne.symm hk']
      · simp [hk]

lemma nodup_groupAll (xs : List α) : ((groupAll key new add xs).map Prod.fst).Nodup := by
  suffices ∀ l : List (κ × β), (l.map Prod.fst).Nodup →
      ((xs.foldl (fun l a => upsertEntry key new add a l) l).map Prod.fst).Nodup from
    this [] nodup_nil
  induction xs with
  | nil => exact fun _ h => h
  | cons a xs ih => exact fun l h => ih _ (nodup_upsertEntry h a)

lemma groupAll_concat (xs : List α) (a : α) :
    groupAll key new add (xs ++ [a]) = upsertEntry key new add a (groupAll key new add xs) := by
  simp [groupAll]

lemma mem_groupAll {xs : List α} {k : κ} {b : β} :
    (k, b) ∈ groupAll key new add xs ↔ Entries key new add xs k b := by
  induction xs using List.reverseRecOn generalizing k b with
  | nil => simp [groupAll, Entries]
  | append_singleton xs a ih =>
    have hmem : ∀ k, k ∈ (groupAll key new add xs).map Prod.fst ↔
        (xs.filter fun x => key x = k) ≠ [] := by
      intro k
      simp only [mem_map, Prod.exists, exists_and_right, exists_eq_right, ih, Entries]
      cases hys : xs.filter fun x => key x = k <;> simp [hys]
    rw [groupAll_concat, mem_upsertEntry (nodup_groupAll xs)]
    split
    · next hk =>
      subst hk
      simp only [hmem, ih, Entries, filter_append]
      cases hys : xs.filter fun x => key x = key a <;> simp
    · next hk =>
      rw [ih, Entries, Entries, filter_append, filter_singleton]
      simp [Ne.symm hk]

/-- Elements divided by a function of their keys have the same entries. -/
lemma groupAll_partition (part : κ → ℕ) {n : ℕ} (hpart : ∀ k, part k < n) (xs : List α) :
    ((List.range n).flatMap fun i =>
      groupAll key new add (xs.filter fun a => part (key a) = i)).Perm
      (groupAll key new add xs) := by
  have hentries : ∀ i k b, (k, b) ∈ groupAll key new add (xs.filter fun a => part (key a) = i) ↔
      part k = i ∧ (k, b) ∈ groupAll key new add xs := by
    intro i k b
    have hfilter : ((xs.filter fun a => part (key a) = i).filter fun x => key x = k) =
        if part k = i then xs.filter fun x => key x = k else [] := by
      rw [filter_filter]
      split
      · exact filter_congr fun x _ => by simp; grind
      · rw [filter_eq_nil_iff]
        grind
    rw [mem_groupAll, mem_groupAll, Entries, Entries, hfilter]
    split <;> simp_all
  rw [perm_ext_iff_of_nodup]
  · rintro ⟨k, b⟩
    simp only [mem_flatMap, mem_range, hentries]
    exact ⟨fun ⟨_, _, _, h⟩ => h, fun h => ⟨part k, hpart k, rfl, h⟩⟩
  · rw [nodup_flatMap]
    refine ⟨fun i _ => (nodup_groupAll _).of_map, ?_⟩
    refine nodup_range.imp fun {i j} hne => ?_
    rintro ⟨k, b⟩ hi hj
    exact hne (((hentries i k b).mp hi).1.symm.trans ((hentries j k b).mp hj).1)
  · exact (nodup_groupAll xs).of_map

end

end Smongo

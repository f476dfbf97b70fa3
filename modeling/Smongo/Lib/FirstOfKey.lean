import Mathlib.Data.List.Nodup

/-!
# Keeping the first of each key

A list is built by pushing elements whose key has not been seen.
-/

namespace Smongo

open List

section

variable {α κ : Type}

/-- The keys seen are those of the elements, and no two elements have the same one. -/
structure FirstOfKey (key : α → κ) (acc : List κ × List α) : Prop where
  mem_iff : ∀ k, k ∈ acc.1 ↔ k ∈ acc.2.map key
  nodup : (acc.2.map key).Nodup

variable {key : α → κ} {acc : List κ × List α}

lemma FirstOfKey.empty : FirstOfKey key ([], []) := ⟨fun _ => Iff.rfl, nodup_nil⟩

variable [DecidableEq κ]

def pushNew (key : α → κ) (acc : List κ × List α) (x : α) : List κ × List α :=
  if key x ∈ acc.1 then acc else (key x :: acc.1, acc.2 ++ [x])

lemma FirstOfKey.pushNew (h : FirstOfKey key acc) (x : α) : FirstOfKey key (pushNew key acc x) := by
  unfold Smongo.pushNew
  split
  · exact h
  · next hnew =>
    rw [h.mem_iff] at hnew
    refine ⟨fun k => ?_, ?_⟩
    · rw [map_append, mem_append, mem_cons, h.mem_iff, or_comm]
      simp
    · rw [map_append, nodup_append]
      refine ⟨h.nodup, nodup_singleton _, ?_⟩
      intro a ha b hb hab
      obtain rfl := mem_singleton.mp hb
      exact hnew (hab ▸ ha)

lemma FirstOfKey.mem_pushNew (h : FirstOfKey key acc) {x y : α}
    (hinj : ∀ z ∈ acc.2, key z = key x → z = x) :
    y ∈ (Smongo.pushNew key acc x).2 ↔ y ∈ acc.2 ∨ y = x := by
  unfold Smongo.pushNew
  split
  · next hseen =>
    rw [h.mem_iff, mem_map] at hseen
    obtain ⟨z, hz, hkey⟩ := hseen
    obtain rfl := hinj z hz hkey
    constructor
    · exact .inl
    · rintro (hy | rfl)
      · exact hy
      · exact hz
  · rw [mem_append, mem_singleton]

lemma FirstOfKey.foldl_pushNew (h : FirstOfKey key acc) (xs : List α)
    (hinj : ∀ x ∈ xs, ∀ z, z ∈ acc.2 ∨ z ∈ xs → key z = key x → z = x) :
    FirstOfKey key (xs.foldl (Smongo.pushNew key) acc) ∧
      ∀ y, y ∈ (xs.foldl (Smongo.pushNew key) acc).2 ↔ y ∈ acc.2 ∨ y ∈ xs := by
  induction xs generalizing acc with
  | nil => exact ⟨h, fun y => by simp⟩
  | cons x xs ih =>
    have hmem : ∀ y, y ∈ (Smongo.pushNew key acc x).2 ↔ y ∈ acc.2 ∨ y = x := fun y =>
      h.mem_pushNew fun z hz => hinj x mem_cons_self z (.inl hz)
    have hrest : ∀ x' ∈ xs, ∀ z, z ∈ (Smongo.pushNew key acc x).2 ∨ z ∈ xs → key z = key x' →
        z = x' := by
      intro x' hx' z hz
      apply hinj x' (mem_cons_of_mem _ hx')
      rw [hmem, or_assoc, ← mem_cons] at hz
      exact hz
    obtain ⟨hfirst, hfold⟩ := ih (h.pushNew x) hrest
    refine ⟨hfirst, fun y => ?_⟩
    rw [foldl_cons, hfold, hmem, or_assoc, ← mem_cons]

end

end Smongo

import Mathlib.Data.List.Lex
import Mathlib.Data.List.Sort
import Mathlib.Data.Prod.Lex
import Smongo.Lib.BinarySearch

/-!
# Lists sorted by a key

A comparison function that compares keys of a linear order, and sorting by it.
-/

namespace Smongo

open List

variable {α β κ : Type} [LinearOrder κ]

/-- On the elements of `s`, the function compares keys. -/
def MeasuredOn (s : Set α) (cmp : α → α → Ordering) (key : α → κ) : Prop :=
  ∀ a ∈ s, ∀ b ∈ s, cmp a b = compare (key a) (key b)

/-- What `Ord` promises, on the elements of `s`. -/
structure TotalOn (s : Set α) (cmp : α → α → Ordering) : Prop where
  swap : ∀ a ∈ s, ∀ b ∈ s, cmp b a = (cmp a b).swap
  trans : ∀ a ∈ s, ∀ b ∈ s, ∀ c ∈ s, cmp a b ≠ .gt → cmp b c ≠ .gt → cmp a c ≠ .gt

section

variable {s t : Set α} {cmp : α → α → Ordering} {key : α → κ}

section

variable (h : MeasuredOn s cmp key)
include h

lemma MeasuredOn.mono (hst : t ⊆ s) : MeasuredOn t cmp key :=
  fun a ha b hb => h a (hst ha) b (hst hb)

section

variable {a b : α} (ha : a ∈ s) (hb : b ∈ s)
include ha hb

lemma MeasuredOn.le_iff : cmp a b ≠ .gt ↔ key a ≤ key b := by
  rw [h a ha b hb, ne_eq, compare_gt_iff_gt, not_lt]

lemma MeasuredOn.eq_iff : cmp a b = .eq ↔ key a = key b := by
  rw [h a ha b hb, compare_eq_iff_eq]

lemma MeasuredOn.lt_iff : cmp a b = .lt ↔ key a < key b := by
  rw [h a ha b hb, compare_lt_iff_lt]

end

lemma MeasuredOn.totalOn : TotalOn s cmp where
  swap a ha b hb := by
    rw [h a ha b hb, h b hb a ha]
    exact Std.OrientedCmp.eq_swap
  trans a ha b hb c hc hab hbc := by
    rw [h.le_iff ha hb] at hab
    rw [h.le_iff hb hc] at hbc
    rw [h.le_iff ha hc]
    exact hab.trans hbc

lemma MeasuredOn.swap :
    MeasuredOn s (fun a b => (cmp a b).swap) (fun a => OrderDual.toDual (key a)) := by
  intro a ha b hb
  change (cmp a b).swap = compare (key b) (key a)
  rw [h a ha b hb]
  exact Std.OrientedCmp.eq_swap.symm

lemma MeasuredOn.comap (f : β → α) :
    MeasuredOn (Set.preimage f s) (fun a b => cmp (f a) (f b)) (fun a => key (f a)) :=
  fun a ha b hb => h (f a) ha (f b) hb

end

end

lemma compare_cons (a b : κ) (l m : List κ) :
    (LinearOrder.toOrd : Ord (List κ)).compare (a :: l) (b :: m) =
      (compare a b).then ((LinearOrder.toOrd : Ord (List κ)).compare l m) := by
  rcases lt_trichotomy a b with h | h | h
  · rw [compare_lt_iff_lt.mpr h]
    exact compare_lt_iff_lt.mpr (cons_lt_cons_iff.mpr (.inl h))
  · subst h
    rw [compare_eq_iff_eq.mpr rfl, Ordering.eq_then]
    cases hrest : (LinearOrder.toOrd : Ord (List κ)).compare l m with
    | lt =>
      rw [compare_lt_iff_lt] at hrest ⊢
      exact cons_lt_cons_iff.mpr (.inr ⟨rfl, hrest⟩)
    | eq =>
      rw [compare_eq_iff_eq] at hrest ⊢
      rw [hrest]
    | gt =>
      rw [compare_gt_iff_gt] at hrest ⊢
      exact cons_lt_cons_iff.mpr (.inr ⟨rfl, hrest⟩)
  · rw [compare_gt_iff_gt.mpr h]
    exact compare_gt_iff_gt.mpr (cons_lt_cons_iff.mpr (.inl h))

section

variable {key : α → κ} {l l₁ l₂ : List α}

lemma map_key_eq_of_perm (hperm : l₁.Perm l₂) (h₁ : l₁.Pairwise fun a b => key a ≤ key b)
    (h₂ : l₂.Pairwise fun a b => key a ≤ key b) : l₁.map key = l₂.map key := by
  refine (hperm.map key).eq_of_sortedLE ?_ ?_
  · exact (pairwise_map.mpr h₁).sortedLE
  · exact (pairwise_map.mpr h₂).sortedLE

lemma pairwise_insertionSort_key (key : α → κ) (l : List α) :
    (l.insertionSort fun a b => key a ≤ key b).Pairwise fun a b => key a ≤ key b := by
  exact pairwise_insertionSort _ _

variable {cmp : α → α → Ordering}

section

variable (h : MeasuredOn {a | a ∈ l} cmp key)
include h

lemma map_key_insertionSort :
    (l.insertionSort fun a b => cmp a b ≠ .gt).map key = (l.map key).insertionSort (· ≤ ·) :=
  map_insertionSort _ _ key l fun _ ha _ hb => h.le_iff ha hb

lemma pairwise_key_insertionSort :
    (l.insertionSort fun a b => cmp a b ≠ .gt).Pairwise fun a b => key a ≤ key b := by
  rw [← pairwise_map, map_key_insertionSort h]
  exact pairwise_insertionSort _ _

lemma pairwise_cmp_iff :
    (l.Pairwise fun a b => cmp a b ≠ .gt) ↔ l.Pairwise fun a b => key a ≤ key b :=
  List.Pairwise.iff_of_mem fun ha hb => h.le_iff ha hb

end

/-- Searching the sorted list finds the elements that compare as equal. -/
lemma search_insertionSort_iff {v : α} (h : MeasuredOn {a | a ∈ l ∨ a = v} cmp key) :
    (binarySearchBy (cmp · v) (l.insertionSort fun a b => cmp a b ≠ .gt)).toBool = true ↔
      ∃ a ∈ l, cmp a v = .eq := by
  have hmem : ∀ a ∈ l.insertionSort fun a b => cmp a b ≠ .gt, a ∈ l := fun a ha =>
    (mem_insertionSort _).mp ha
  have hsorted := pairwise_key_insertionSort (h.mono fun a ha => .inl ha)
  have hparts : Partitions (cmp · v) (l.insertionSort fun a b => cmp a b ≠ .gt) := by
    refine hsorted.imp_of_mem fun {a b} ha hb hab => ?_
    have hcmp : ∀ x ∈ l, cmp x v = compare (key x) (key v) := fun x hx => h x (.inl hx) v (.inr rfl)
    simp only [hcmp a (hmem a ha), hcmp b (hmem b hb), compare_gt_iff_gt, compare_lt_iff_lt]
    exact ⟨fun hgt => hgt.trans_le hab, fun hlt => hab.trans_lt hlt⟩
  cases hsearch : binarySearchBy (cmp · v) (l.insertionSort fun a b => cmp a b ≠ .gt) with
  | ok i =>
    obtain ⟨hlt, heq⟩ := binarySearchBy_ok hparts hsearch
    exact iff_of_true rfl ⟨_, hmem _ (getElem_mem hlt), heq⟩
  | error i =>
    obtain ⟨-, hbefore, hafter⟩ := binarySearchBy_error hparts hsearch
    refine iff_of_false Bool.false_ne_true ?_
    rintro ⟨a, ha, heq⟩
    rw [← mem_insertionSort fun a b => cmp a b ≠ .gt, ← take_append_drop i
      (l.insertionSort _), mem_append] at ha
    rcases ha with ha | ha
    · cases heq.symm.trans (hbefore a ha)
    · cases heq.symm.trans (hafter a ha)

lemma forall₂_cmp_of_map_key {s : Set α} (h : MeasuredOn s cmp key) (h₁ : ∀ a ∈ l₁, a ∈ s)
    (h₂ : ∀ a ∈ l₂, a ∈ s) (heq : l₁.map key = l₂.map key) :
    List.Forall₂ (fun a b => cmp a b = .eq) l₁ l₂ := by
  induction l₁ generalizing l₂ with
  | nil =>
    rw [map_nil, eq_comm, map_eq_nil_iff] at heq
    rw [heq]
    exact .nil
  | cons a l₁ ih =>
    cases l₂ with
    | nil => cases heq
    | cons b l₂ =>
      rw [map_cons, map_cons, cons.injEq] at heq
      refine .cons ?_ ?_
      · exact (h.eq_iff (h₁ a mem_cons_self) (h₂ b mem_cons_self)).mpr heq.1
      · apply ih
        · exact fun x hx => h₁ x (mem_cons_of_mem a hx)
        · exact fun x hx => h₂ x (mem_cons_of_mem b hx)
        · exact heq.2

end

end Smongo

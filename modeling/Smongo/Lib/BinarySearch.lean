import Mathlib.Data.List.Basic
import Mathlib.Tactic.Common

/-!
# Binary search

As in the Rust standard library, a window is halved until one position is left.
-/

namespace Smongo

open List Option

variable {α : Type}

/-- `base` is the last position known not to be greater than the target. -/
def binarySearchLoop (f : α → Ordering) (xs : List α) : ℕ → ℕ → ℕ → ℕ
  | 0, base, _ => base
  | fuel + 1, base, size =>
    if size ≤ 1 then base
    else
      let half := size / 2
      let mid := base + half
      let base' := if xs[mid]?.map f = some .gt then base else mid
      binarySearchLoop f xs fuel base' (size - half)

def binarySearchBy (f : α → Ordering) (xs : List α) : Except ℕ ℕ :=
  match xs with
  | [] => .error 0
  | _ :: _ =>
    let base := binarySearchLoop f xs xs.length 0 xs.length
    match xs[base]?.map f with
    | some .eq => .ok base
    | some .lt => .error (base + 1)
    | _ => .error base

/-- Along `xs` the outcomes of `f` are first `lt`, then `eq`, then `gt`. -/
def Partitions (f : α → Ordering) (xs : List α) : Prop :=
  xs.Pairwise fun a b => (f a = .gt → f b = .gt) ∧ (f b = .lt → f a = .lt)

variable {f : α → Ordering} {xs : List α}

section

variable (h : Partitions f xs)
include h

lemma Partitions.getElem {i j : ℕ} (hij : i < j) (hj : j < xs.length) :
    (f xs[i] = .gt → f xs[j] = .gt) ∧ (f xs[j] = .lt → f xs[i] = .lt) :=
  pairwise_iff_getElem.mp h i j (Nat.lt_trans hij hj) hj hij

lemma binarySearchLoop_spec (fuel base size : ℕ) (hfuel : size ≤ fuel) (hsize : 0 < size)
    (hlen : base + size ≤ xs.length) (hbase : base = 0 ∨ ∀ hb : base < xs.length, f xs[base] ≠ .gt)
    (hright : ∀ j, base + size ≤ j → ∀ hj : j < xs.length, f xs[j] = .gt) :
    ∃ b, binarySearchLoop f xs fuel base size = b ∧ b < xs.length ∧
      (b = 0 ∨ ∀ hb : b < xs.length, f xs[b] ≠ .gt) ∧
      ∀ j, b < j → ∀ hj : j < xs.length, f xs[j] = .gt := by
  induction fuel generalizing base size with
  | zero => omega
  | succ fuel ih =>
    rw [binarySearchLoop]
    split
    · next hone =>
      exact ⟨base, rfl, by omega, hbase, fun j hj => hright j (by omega)⟩
    · next hmany =>
      have hmid : base + size / 2 < xs.length := by omega
      simp only [getElem?_eq_getElem hmid, map_some, some.injEq]
      split
      · next hgt =>
        refine ih base (size - size / 2) (by omega) (by omega) (by omega) hbase fun j hj hjl => ?_
        rcases Nat.eq_or_lt_of_le (show base + size / 2 ≤ j by omega) with rfl | hlt
        · exact hgt
        · exact (h.getElem hlt hjl).1 hgt
      · next hngt =>
        exact ih (base + size / 2) (size - size / 2) (by omega) (by omega) (by omega)
          (.inr fun _ => hngt) fun j hj => hright j (by omega)

lemma binarySearchBy_ok {i : ℕ} (hi : binarySearchBy f xs = .ok i) :
    ∃ hlt : i < xs.length, f xs[i] = .eq := by
  cases xs with
  | nil => simp [binarySearchBy] at hi
  | cons x xs =>
    obtain ⟨b, hb, hlt, -, -⟩ := binarySearchLoop_spec h (x :: xs).length 0 (x :: xs).length
      (Nat.le_refl _) (by simp) (by simp) (.inl rfl) (by intro j _ hj; omega)
    simp only [binarySearchBy, hb, getElem?_eq_getElem hlt, map_some] at hi
    split at hi
    · next heq =>
      cases hi
      exact ⟨hlt, some.inj heq⟩
    · cases hi
    · cases hi

lemma binarySearchBy_error {i : ℕ} (hi : binarySearchBy f xs = .error i) :
    i ≤ xs.length ∧ (∀ a ∈ xs.take i, f a = .lt) ∧ ∀ a ∈ xs.drop i, f a = .gt := by
  cases xs with
  | nil =>
    cases hi
    simp
  | cons x xs =>
    obtain ⟨b, hb, hlt, hbase, hright⟩ := binarySearchLoop_spec h (x :: xs).length 0
      (x :: xs).length (Nat.le_refl _) (by simp) (by simp) (.inl rfl) (by intro j _ hj; omega)
    simp only [binarySearchBy, hb, getElem?_eq_getElem hlt, map_some] at hi
    split at hi
    · cases hi
    · next hcmp =>
      cases hi
      have hlast := some.inj hcmp
      refine ⟨hlt, ?_, ?_⟩
      · intro a ha
        obtain ⟨j, hj, rfl⟩ := mem_take_iff_getElem.mp ha
        rcases Nat.eq_or_lt_of_le (show j ≤ b by omega) with rfl | hjb
        · exact hlast
        · exact (h.getElem hjb hlt).2 hlast
      · intro a ha
        obtain ⟨j, hj, rfl⟩ := mem_drop_iff_getElem.mp ha
        exact hright _ (by omega) (by omega)
    · next hne hnl =>
      cases hi
      have hgt : f (x :: xs)[i] = .gt := by
        cases hc : f (x :: xs)[i] with
        | lt => exact absurd (congrArg some hc) hnl
        | eq => exact absurd (congrArg some hc) hne
        | gt => rfl
      obtain rfl : i = 0 := hbase.resolve_right fun hb => hb hlt hgt
      refine ⟨Nat.zero_le _, by simp, ?_⟩
      intro a ha
      obtain ⟨j, hj, rfl⟩ := mem_drop_iff_getElem.mp ha
      rcases Nat.eq_zero_or_pos j with rfl | hpos
      · exact hgt
      · exact hright _ (by omega) (by omega)

end

/-- The number of elements before the first that does not satisfy `p`. -/
def partitionPoint (p : α → Bool) (xs : List α) : ℕ :=
  match binarySearchBy (fun a => if p a then .lt else .gt) xs with
  | .ok i => i
  | .error i => i

section

variable {p : α → Bool}

section

variable (h : xs.Pairwise fun a b => p b = true → p a = true)
include h

lemma partitions_of_pairwise : Partitions (fun a => if p a then .lt else .gt) xs :=
  h.imp fun {a b} hab => by cases ha : p a <;> cases hb : p b <;> simp_all

lemma partitionPoint_spec : partitionPoint p xs ≤ xs.length ∧ ∀ i, ∀ hi : i < xs.length,
      i < partitionPoint p xs ↔ p xs[i] = true := by
  have hparts := partitions_of_pairwise h
  rw [partitionPoint]
  cases hsearch : binarySearchBy (fun a => if p a then .lt else .gt) xs with
  | ok i =>
    obtain ⟨_, heq⟩ := binarySearchBy_ok hparts hsearch
    split at heq <;> cases heq
  | error n =>
    obtain ⟨hle, hbefore, hafter⟩ := binarySearchBy_error hparts hsearch
    dsimp only
    refine ⟨hle, fun i hi => ⟨fun hlt => ?_, fun hp => ?_⟩⟩
    · have := hbefore _ (mem_take_iff_getElem.mpr ⟨i, by omega, rfl⟩)
      split at this
      · assumption
      · cases this
    · by_contra hge
      have := hafter _ (mem_drop_iff_getElem.mpr
        ⟨i - n, by omega, getElem_congr_idx (Nat.add_sub_of_le (Nat.le_of_not_lt hge))⟩)
      rw [if_pos hp] at this
      cases this

lemma lt_countP_iff {i : ℕ} (hi : i < xs.length) : i < xs.countP p ↔ p xs[i] = true := by
  induction xs generalizing i with
  | nil => cases hi
  | cons a xs ih =>
    rw [pairwise_cons] at h
    cases ha : p a with
    | true =>
      cases i with
      | zero => simp [ha]
      | succ i =>
        simp only [countP_cons, ha, if_true, getElem_cons_succ]
        rw [← ih h.2 (Nat.lt_of_succ_lt_succ hi), Nat.add_lt_add_iff_right]
    | false =>
      have hnone : ∀ b ∈ a :: xs, p b = false := by
        intro b hb
        rcases mem_cons.mp hb with rfl | hb
        · exact ha
        · exact Bool.eq_false_iff.mpr fun hp => by simp [h.1 b hb hp] at ha
      rw [countP_eq_zero.mpr fun b hb => by simp [hnone b hb], hnone _ (getElem_mem hi)]
      simp

end

end

lemma binarySearchLoop_congr {ys : List α} (h : xs.map f = ys.map f) (fuel base size : ℕ) :
    binarySearchLoop f xs fuel base size = binarySearchLoop f ys fuel base size := by
  induction fuel generalizing base size with
  | zero => rfl
  | succ fuel ih => simp only [binarySearchLoop, ← getElem?_map, h, ih]

lemma binarySearchBy_congr {ys : List α} (h : xs.map f = ys.map f) :
    binarySearchBy f xs = binarySearchBy f ys := by
  have hlength : xs.length = ys.length := by simpa using congrArg length h
  cases xs with
  | nil =>
    cases ys with
    | nil => rfl
    | cons y ys => cases h
  | cons x xs =>
    cases ys with
    | nil => cases h
    | cons y ys => simp only [binarySearchBy, binarySearchLoop_congr h, hlength, ← getElem?_map, h]

end Smongo

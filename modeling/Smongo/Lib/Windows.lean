import Smongo.Lib.SortedByKey

/-!
# Windows of sorted arrangements

What can stand in a window of a list once it is sorted, when elements with the same key may stand in
any order.
-/

namespace Smongo

open List

variable {α κ : Type} [LinearOrder κ] {key : α → κ} {l sorted found : List α} {k m : ℕ}

section

variable {cmp : α → α → Ordering} (h : TotalOn {a | a ∈ l} cmp)
include h

lemma TotalOn.lt_of_lt_of_le {a b c : α} (ha : a ∈ l) (hb : b ∈ l) (hc : c ∈ l)
    (hab : cmp a b = .lt) (hbc : cmp b c ≠ .gt) : cmp a c = .lt := by
  have hle : cmp a c ≠ .gt := h.trans a ha b hb c hc (by rw [hab]; nofun) hbc
  cases hac : cmp a c with
  | lt => rfl
  | gt => exact absurd hac hle
  | eq =>
    have hca : cmp c a = .eq := by rw [h.swap a ha c hc, hac]; rfl
    have hba : cmp b a = .gt := by rw [h.swap a ha b hb, hab]; rfl
    exact absurd hba (h.trans b hb c hc a ha hbc (by rw [hca]; nofun))

/-- An order of the elements of a list compares the numbers of smaller ones. -/
lemma TotalOn.measured : MeasuredOn {a | a ∈ l} cmp fun a => l.countP fun b => cmp b a = .lt := by
  have hle : ∀ a ∈ l, ∀ b ∈ l, cmp a b ≠ .gt →
      ∀ x ∈ l, decide (cmp x a = .lt) = true → decide (cmp x b = .lt) = true := by
    intro a ha b hb hab x hx hxa
    rw [decide_eq_true_eq] at hxa ⊢
    exact h.lt_of_lt_of_le hx ha hb hxa hab
  have hlt : ∀ a ∈ l, ∀ b ∈ l, cmp a b = .lt →
      (l.countP fun x => cmp x a = .lt) < l.countP fun x => cmp x b = .lt := by
    intro a ha b hb hab
    have haa : cmp a a ≠ .lt := by
      intro haa
      have hswap := h.swap a ha a ha
      rw [haa] at hswap
      cases hswap
    have himp := hle a ha b hb (by rw [hab]; nofun)
    -- the smaller element itself is counted once more
    obtain ⟨l₁, l₂, rfl⟩ := append_of_mem ha
    have h₁ := countP_mono_left fun x hx => himp x (mem_append_left _ hx)
    have h₂ := countP_mono_left fun x hx => himp x (mem_append_right _ (mem_cons_of_mem _ hx))
    simp only [countP_append, countP_cons, hab, haa, decide_true, decide_false, if_true,
      Bool.false_eq_true, if_false]
    omega
  intro a ha b hb
  have hswap := h.swap a ha b hb
  cases hab : cmp a b with
  | lt => exact (compare_lt_iff_lt.mpr (hlt a ha b hb hab)).symm
  | gt =>
    rw [hab] at hswap
    exact (compare_gt_iff_gt.mpr (hlt b hb a ha hswap)).symm
  | eq =>
    rw [hab] at hswap
    refine (compare_eq_iff_eq.mpr (le_antisymm ?_ ?_)).symm
    · exact countP_mono_left (hle a ha b hb (by rw [hab]; nofun))
    · exact countP_mono_left (hle b hb a ha (by rw [hswap]; nofun))

lemma TotalOn.pairwise_insertionSort :
    (l.insertionSort fun a b => cmp a b ≠ .gt).Pairwise fun a b => cmp a b ≠ .gt := by
  refine (pairwise_cmp_iff (h.measured.mono fun a ha => (mem_insertionSort _).mp ha)).mpr ?_
  exact pairwise_key_insertionSort h.measured

lemma TotalOn.mono {l' : List α} (hl : ∀ a ∈ l', a ∈ l) : TotalOn {a | a ∈ l'} cmp :=
  (h.measured.mono hl).totalOn

end

/-- The other elements, in order, have the keys before and after the window. -/
lemma keys_of_others {others : List α} (hperm : l.Perm (found ++ others)) (hsorted : sorted.Perm l)
    (hkeys : sorted.Pairwise fun a b => key a ≤ key b)
    (hfound : found.map key = ((sorted.drop k).take m).map key) :
    (others.insertionSort fun a b => key a ≤ key b).map key =
      (sorted.take k ++ (sorted.drop k).drop m).map key := by
  refine List.Perm.eq_of_sortedLE (pairwise_map.mpr (pairwise_insertionSort_key key _)).sortedLE
    (pairwise_map.mpr (hkeys.sublist ?_)).sortedLE ?_
  · calc sorted.take k ++ (sorted.drop k).drop m <+ sorted.take k ++ sorted.drop k :=
          (Sublist.refl _).append (drop_sublist _ _)
      _ = sorted := take_append_drop k sorted
  · -- with the keys of the window, both are the keys of the list
    refine ((perm_insertionSort _ others).map key).trans ?_
    refine (perm_append_left_iff (found.map key)).mp ?_
    have hall : (found.map key ++ others.map key).Perm (sorted.map key) := by
      rw [← map_append]
      exact (hperm.symm.trans hsorted.symm).map key
    have hcut : (sorted.drop k).take m ++ (sorted.take k ++ (sorted.drop k).drop m) ~ sorted := by
      refine (perm_append_comm_assoc _ _ _).trans ?_
      rw [take_append_drop, take_append_drop]
    refine hall.trans ?_
    rw [hfound, ← map_append]
    exact (hcut.map key).symm

omit [LinearOrder κ] in
lemma keys_of_parts {rest : List α}
    (h : rest.map key = (sorted.take k ++ (sorted.drop k).drop m).map key) :
    (rest.take k).map key = (sorted.take k).map key ∧
      (rest.drop k).map key = ((sorted.drop k).drop m).map key := by
  rw [map_take, map_drop, h]
  rcases le_or_gt k sorted.length with hle | hlt
  · have hk : ((sorted.take k).map key).length = k := by simpa using hle
    rw [map_append, take_left' hk, drop_left' hk]
    exact ⟨rfl, rfl⟩
  · rw [drop_eq_nil_of_le hlt.le, take_of_length_le hlt.le, drop_nil, append_nil,
      take_of_length_le (by simpa using hlt.le), drop_eq_nil_of_le (by simpa using hlt.le)]
    exact ⟨rfl, rfl⟩

/-- A part with the length of the window stands in it. -/
lemma eq_window_append {before after : List α} {n : ℕ} (hbefore : before.length = min k n)
    (hfound : found.length = min m (n - k)) (hafter : after.length = n - k - m) :
    found = ((before ++ (found ++ after)).drop k).take m := by
  rcases le_or_gt k n with hle | hlt
  · rw [drop_left' (by omega)]
    rcases le_or_gt m (n - k) with hm | hm
    · exact (take_left' (by omega)).symm
    · rw [eq_nil_of_length_eq_zero (l := after) (by omega), append_nil,
        take_of_length_le (by omega)]
  · rw [eq_nil_of_length_eq_zero (l := found) (by omega), drop_eq_nil_of_le, take_nil]
    simp only [length_append, length_nil]
    omega

/-- A window of some sorted arrangement holds elements of the list that have, place by place, the
keys of a given one. -/
lemma exists_window_iff (hsorted : sorted.Perm l)
    (hkeys : sorted.Pairwise fun a b => key a ≤ key b) :
    (∃ order : List α, order.Perm l ∧ (order.Pairwise fun a b => key a ≤ key b) ∧
        found = (order.drop k).take m) ↔
      found.Subperm l ∧ found.map key = ((sorted.drop k).take m).map key := by
  constructor
  · rintro ⟨order, hperm, horder, rfl⟩
    have hsame : order.map key = sorted.map key :=
      map_key_eq_of_perm (hperm.trans hsorted.symm) horder hkeys
    refine ⟨Subperm.trans (Sublist.subperm ?_) hperm.subperm, ?_⟩
    · exact (take_sublist _ _).trans (drop_sublist _ _)
    · rw [map_take, map_drop, hsame, map_take, map_drop]
  · rintro ⟨hsub, hfound⟩
    obtain ⟨found', hfound', hsublist⟩ := hsub
    obtain ⟨others, hothers⟩ := hsublist.exists_perm_append
    have hperm : l.Perm (found ++ others) := hothers.trans (hfound'.append_right others)
    have hrest := keys_of_others hperm hsorted hkeys hfound
    generalize hr : others.insertionSort (fun a b => key a ≤ key b) = rest at hrest
    have hrestPerm : rest.Perm others := hr ▸ perm_insertionSort _ others
    have hparts := keys_of_parts hrest
    refine ⟨rest.take k ++ (found ++ rest.drop k), ?_, ?_, ?_⟩
    · refine (perm_append_comm_assoc _ _ _).trans ?_
      rw [take_append_drop]
      exact (hrestPerm.append_left found).trans hperm.symm
    · have hmap : (rest.take k ++ (found ++ rest.drop k)).map key = sorted.map key := by
        rw [map_append, map_append, hparts.1, hfound, hparts.2, ← map_append, ← map_append,
          take_append_drop, take_append_drop]
      rw [← pairwise_map (R := (· ≤ ·)), hmap, pairwise_map]
      exact hkeys
    · have htake := congrArg length hparts.1
      have hdrop := congrArg length hparts.2
      have hlength := congrArg length hfound
      rw [length_map, length_map, length_take (l := sorted)] at htake
      rw [length_map, length_map, length_drop (l := sorted.drop k), length_drop (l := sorted)]
        at hdrop
      rw [length_map, length_map, length_take, length_drop] at hlength
      exact eq_window_append htake hlength hdrop

lemma map_key_eq_of_forall₂ {cmp : α → α → Ordering} {s : Set α} (h : MeasuredOn s cmp key)
    {l₁ l₂ : List α} (h₁ : ∀ a ∈ l₁, a ∈ s) (h₂ : ∀ a ∈ l₂, a ∈ s)
    (heq : List.Forall₂ (fun a b => cmp a b = .eq) l₁ l₂) : l₁.map key = l₂.map key := by
  induction heq with
  | nil => rfl
  | cons hab _ ih =>
    rw [forall_mem_cons] at h₁ h₂
    rw [map_cons, map_cons, ih h₁.2 h₂.2, (h.eq_iff h₁.1 h₂.1).mp hab]

/-- Elements of a list fill a window of a sorted arrangement iff, place by place, they compare as
equal to those of the sorted list. -/
lemma exists_sorted_window_iff {cmp : α → α → Ordering} (h : TotalOn {a | a ∈ l} cmp)
    (hsub : found.Subperm l) :
    (∃ order : List α, order.Perm l ∧ (order.Pairwise fun a b => cmp a b ≠ .gt) ∧
        found = (order.drop k).take m) ↔
      List.Forall₂ (fun a b => cmp a b = .eq) found
        (((l.insertionSort fun a b => cmp a b ≠ .gt).drop k).take m) := by
  have hmeasured := h.measured
  have hperm := perm_insertionSort (fun a b => cmp a b ≠ .gt) l
  have hfound : ∀ a ∈ found, a ∈ l := fun a ha => hsub.subset ha
  have hwindow : ∀ a ∈ ((l.insertionSort fun a b => cmp a b ≠ .gt).drop k).take m, a ∈ l :=
    fun a ha => hperm.mem_iff.mp (mem_of_mem_drop (mem_of_mem_take ha))
  have hiff : _ ↔ found.Subperm l ∧ _ := exists_window_iff (k := k) (m := m) hperm
    (pairwise_key_insertionSort hmeasured)
  calc _ ↔ _ := by
        refine exists_congr fun order => and_congr_right fun horder => and_congr_left fun _ => ?_
        exact pairwise_cmp_iff (hmeasured.mono fun a ha => horder.mem_iff.mp ha)
    _ ↔ _ := hiff
    _ ↔ _ := and_iff_right hsub
    _ ↔ _ := ⟨forall₂_cmp_of_map_key hmeasured hfound hwindow,
        map_key_eq_of_forall₂ hmeasured hfound hwindow⟩

section

variable (r : α → α → Prop) (k n : ℕ) (l : List α)

/-- After `k` of the first `n` elements the rest of them are in order, none of the `k` comes after
what follows them, and none of the `n` after what is left. -/
structure Leads : Prop where
  ordered : ((l.take n).drop k).Pairwise r
  skipped : ∀ a ∈ l.take k, ∀ b ∈ l.drop k, r a b
  left : ∀ a ∈ l.take n, ∀ b ∈ l.drop n, r a b

end

section

variable {cmp : α → α → Ordering} {x y : List α} (h : TotalOn {a | a ∈ x ++ y} cmp)
include h

/-- The first elements of a list begin a sorted arrangement iff they are in order and none of the
others comes before them. -/
lemma exists_sorted_append_iff :
    (∃ y', y'.Perm y ∧ (x ++ y').Pairwise fun a b => cmp a b ≠ .gt) ↔
      (x.Pairwise fun a b => cmp a b ≠ .gt) ∧ ∀ a ∈ x, ∀ b ∈ y, cmp a b ≠ .gt := by
  constructor
  · rintro ⟨y', hperm, hsorted⟩
    obtain ⟨hx, -, hcross⟩ := pairwise_append.mp hsorted
    exact ⟨hx, fun a ha b hb => hcross a ha b (hperm.mem_iff.mpr hb)⟩
  · rintro ⟨hx, hcross⟩
    refine ⟨_, perm_insertionSort (fun a b => cmp a b ≠ .gt) y, pairwise_append.mpr ⟨hx, ?_, ?_⟩⟩
    · exact (h.mono fun a ha => mem_append_right x ha).pairwise_insertionSort
    · exact fun a ha b hb => hcross a ha b ((mem_insertionSort _).mp hb)

/-- The last elements end one iff they are in order and none of the others comes after them. -/
lemma exists_append_sorted_iff :
    (∃ x', x'.Perm x ∧ (x' ++ y).Pairwise fun a b => cmp a b ≠ .gt) ↔
      (y.Pairwise fun a b => cmp a b ≠ .gt) ∧ ∀ a ∈ x, ∀ b ∈ y, cmp a b ≠ .gt := by
  constructor
  · rintro ⟨x', hperm, hsorted⟩
    obtain ⟨-, hy, hcross⟩ := pairwise_append.mp hsorted
    exact ⟨hy, fun a ha b hb => hcross a (hperm.mem_iff.mpr ha) b hb⟩
  · rintro ⟨hy, hcross⟩
    refine ⟨_, perm_insertionSort (fun a b => cmp a b ≠ .gt) x, pairwise_append.mpr ⟨?_, hy, ?_⟩⟩
    · exact (h.mono fun a ha => mem_append_left y ha).pairwise_insertionSort
    · exact fun a ha b hb => hcross a ((mem_insertionSort _).mp ha) b hb

end

/-- Taking `n` elements and then skipping `k` of them gives the window of a sorted arrangement iff
the list leads with it, provided that nothing is skipped or nothing is left. -/
lemma exists_same_window_iff {cmp : α → α → Ordering} {n : ℕ} (h : TotalOn {a | a ∈ l} cmp)
    (hcut : k = 0 ∨ l.length ≤ n) :
    (∃ order : List α, order.Perm l ∧ (order.Pairwise fun a b => cmp a b ≠ .gt) ∧
        (l.take n).drop k = (order.drop k).take n) ↔
      Leads (fun a b => cmp a b ≠ .gt) k n l := by
  rcases hcut with rfl | hle
  · have hiff := exists_sorted_append_iff (x := l.take n) (y := l.drop n) (by
      rwa [take_append_drop])
    constructor
    · rintro ⟨order, hperm, hsorted, htake⟩
      rw [drop_zero, drop_zero] at htake
      have hrest : (order.drop n).Perm (l.drop n) := by
        refine (perm_append_left_iff (l.take n)).mp ?_
        rwa [take_append_drop, htake, take_append_drop]
      obtain ⟨hordered, hleft⟩ := hiff.mp ⟨order.drop n, hrest, by rwa [htake, take_append_drop]⟩
      exact ⟨hordered, fun a ha => (not_mem_nil ha).elim, hleft⟩
    · intro hleads
      obtain ⟨rest, hrest, hsorted⟩ := hiff.mpr ⟨hleads.ordered, hleads.left⟩
      have hlength := hrest.length_eq
      refine ⟨l.take n ++ rest, ?_, hsorted, ?_⟩
      · refine (hrest.append_left _).trans ?_
        rw [take_append_drop]
      · rw [drop_zero, drop_zero]
        rw [length_drop] at hlength
        rcases le_or_gt n l.length with hn | hn
        · exact (take_left' (length_take_of_le hn)).symm
        · rw [eq_nil_of_length_eq_zero (l := rest) (by omega), append_nil, take_take, min_self]
  · have hiff := exists_append_sorted_iff (x := l.take k) (y := l.drop k) (by
      rwa [take_append_drop])
    have htake : l.take n = l := take_of_length_le hle
    have hdrop : l.drop n = [] := drop_eq_nil_of_le hle
    constructor
    · rintro ⟨order, hperm, hsorted, hwindow⟩
      rw [htake, take_of_length_le (by rw [length_drop, hperm.length_eq]; omega)] at hwindow
      have hrest : (order.take k).Perm (l.take k) := by
        refine (perm_append_right_iff (l.drop k)).mp ?_
        rwa [take_append_drop, hwindow, take_append_drop]
      obtain ⟨hordered, hskipped⟩ :=
        hiff.mp ⟨order.take k, hrest, by rwa [hwindow, take_append_drop]⟩
      exact ⟨by rwa [htake], hskipped, fun a _ b hb => by rw [hdrop] at hb; cases hb⟩
    · intro hleads
      obtain ⟨first, hfirst, hsorted⟩ := hiff.mpr ⟨htake ▸ hleads.ordered, hleads.skipped⟩
      refine ⟨first ++ l.drop k, ?_, hsorted, ?_⟩
      · refine (hfirst.append_right _).trans ?_
        rw [take_append_drop]
      · have hlength := hfirst.length_eq
        rw [length_take] at hlength
        rw [htake]
        rcases le_or_gt k l.length with hk | hk
        · rw [drop_left' (by omega), take_of_length_le (by rw [length_drop]; omega)]
        · rw [drop_eq_nil_of_le hk.le, append_nil, drop_eq_nil_of_le (by omega), take_nil]

/-- Stopping after `n` elements before `k` of them are skipped gives a window of a sorted
arrangement iff nothing is due, or skipping and stopping do not meet and the list leads with it. -/
lemma exists_stopped_window_iff {cmp : α → α → Ordering} {n : ℕ} {walk : List α}
    (h : TotalOn {a | a ∈ l} cmp) (hwalk : walk.Perm l) (hn : 0 < n) :
    (∃ order : List α, order.Perm l ∧ (order.Pairwise fun a b => cmp a b ≠ .gt) ∧
        (walk.take n).drop k = (order.drop k).take n) ↔
      l.length ≤ k ∨
        (k = 0 ∨ l.length ≤ n) ∧ Leads (fun a b => cmp a b ≠ .gt) k n walk := by
  have hlength := hwalk.length_eq
  by_cases hdue : l.length ≤ k
  · refine iff_of_true ⟨_, perm_insertionSort (fun a b => cmp a b ≠ .gt) l,
      h.pairwise_insertionSort, ?_⟩ (.inl hdue)
    rw [drop_eq_nil_of_le, drop_eq_nil_of_le, take_nil]
    · rwa [length_insertionSort]
    · rw [length_take]
      omega
  · rw [or_iff_right hdue]
    by_cases hcut : k = 0 ∨ l.length ≤ n
    · rw [and_iff_right hcut, ← exists_same_window_iff
        (h.mono fun a ha => hwalk.mem_iff.mp ha) (hlength ▸ hcut)]
      refine exists_congr fun order => and_congr_left fun _ => ?_
      exact ⟨fun horder => horder.trans hwalk.symm, fun horder => horder.trans hwalk⟩
    · refine iff_of_false ?_ fun hleads => hcut hleads.1
      rintro ⟨order, horder, -, hwindow⟩
      have hlengths := congrArg length hwindow
      simp only [length_drop, length_take, horder.length_eq] at hlengths
      omega

end Smongo

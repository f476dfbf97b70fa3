import Smongo.Lib.SortedByKey

/-!
# Selecting the least elements

The contract of `select_nth_unstable_by`.
-/

namespace Smongo

open List

section

variable {α : Type}

/-- A function that rearranges a list around the element that belongs at a position. -/
def SelectsNth (select : (α → α → Ordering) → ℕ → List α → List α) : Prop :=
  ∀ cmp n l, n < l.length → TotalOn {a | a ∈ l} cmp →
    (select cmp n l).Perm l ∧ ∀ x, (select cmp n l)[n]? = some x →
      (∀ a ∈ (select cmp n l).take n, cmp a x ≠ .gt) ∧
        ∀ b ∈ (select cmp n l).drop (n + 1), cmp x b ≠ .gt

lemma pairwise_insertionSort_of_totalOn {cmp : α → α → Ordering} {l : List α}
    (h : TotalOn {a | a ∈ l} cmp) :
    (l.insertionSort fun a b => cmp a b ≠ .gt).Pairwise fun a b => cmp a b ≠ .gt := by
  -- on the elements of the list the comparison is total and transitive
  let r : {a // a ∈ l} → {a // a ∈ l} → Prop := fun a b => cmp a b ≠ .gt
  have : Std.Total r := ⟨fun a b => by
    have hswap := h.swap a a.2 b b.2
    change cmp a b ≠ .gt ∨ cmp b a ≠ .gt
    rw [hswap]
    cases cmp a b <;> decide⟩
  have : IsTrans _ r := ⟨fun a b c => h.trans a a.2 b b.2 c c.2⟩
  have hmap := map_insertionSort r (fun a b => cmp a b ≠ .gt) Subtype.val l.attach
    fun _ _ _ _ => Iff.rfl
  rw [attach_map_subtype_val] at hmap
  rw [← hmap, pairwise_map]
  exact pairwise_insertionSort r l.attach

lemma selectsNth_insertionSort : SelectsNth fun (cmp : α → α → Ordering) (_ : ℕ) l =>
      l.insertionSort fun a b => cmp a b ≠ .gt := by
  intro cmp n l _ h
  refine ⟨perm_insertionSort _ l, fun x hx => ?_⟩
  have hsorted := pairwise_insertionSort_of_totalOn h
  obtain ⟨hlt, hget⟩ := List.getElem?_eq_some_iff.mp hx
  rw [← take_append_drop n (l.insertionSort _), drop_eq_getElem_cons hlt, hget,
    pairwise_append, pairwise_cons] at hsorted
  exact ⟨fun a ha => hsorted.2.2 a ha x mem_cons_self, hsorted.2.1.1⟩

lemma SelectsNth.le {select : (α → α → Ordering) → ℕ → List α → List α}
    (h : SelectsNth select) {cmp : α → α → Ordering} {n : ℕ} {l : List α} (hn : n < l.length)
    (hl : TotalOn {a | a ∈ l} cmp) :
    ∀ a ∈ (select cmp n l).take (n + 1), ∀ b ∈ (select cmp n l).drop (n + 1), cmp a b ≠ .gt := by
  obtain ⟨hperm, hselect⟩ := h cmp n l hn hl
  have hlt : n < (select cmp n l).length := hperm.length_eq ▸ hn
  obtain ⟨hbefore, hbehind⟩ := hselect _ (List.getElem?_eq_getElem hlt)
  have hmem : ∀ {a}, a ∈ select cmp n l → a ∈ l := fun h => hperm.mem_iff.mp h
  intro a ha b hb
  have hx := hbehind b hb
  rw [take_succ_eq_append_getElem hlt, mem_append, mem_singleton] at ha
  rcases ha with ha | rfl
  · exact hl.trans a (hmem (mem_of_mem_take ha)) _ (hmem (getElem_mem hlt)) b
      (hmem (mem_of_mem_drop hb)) (hbefore a ha) hx
  · exact hx

end

section

variable {α κ : Type} [LinearOrder κ] {key : α → κ}

lemma map_key_take {first rest l : List α} (hperm : (first ++ rest).Perm l)
    (hle : ∀ a ∈ first, ∀ b ∈ rest, key a ≤ key b) {s t : List α} (hs : s.Perm first)
    (hsorted : s.Pairwise fun a b => key a ≤ key b) (ht : t.Perm l)
    (htsorted : t.Pairwise fun a b => key a ≤ key b) :
    s.map key = (t.take first.length).map key := by
  have hrest := perm_insertionSort (fun a b => key a ≤ key b) rest
  have hboth : (s ++ rest.insertionSort fun a b => key a ≤ key b).Pairwise
      fun a b => key a ≤ key b := by
    rw [pairwise_append]
    refine ⟨hsorted, pairwise_insertionSort_key key rest, fun a ha b hb => ?_⟩
    exact hle a (hs.mem_iff.mp ha) b (hrest.mem_iff.mp hb)
  have hkeys := map_key_eq_of_perm ((hs.append hrest).trans (hperm.trans ht.symm)) hboth htsorted
  rw [map_take, ← hkeys, map_append, ← hs.length_eq, ← length_map key, take_left]

end

end Smongo

import Smongo.Lib.SortedByKey

/-!
# Max-heaps

A heap is given by its operations; `Lawful` is the contract of the standard library.
-/

namespace Smongo

open List

structure BinaryHeap (α : Type) where
  Heap : Type
  new : Heap
  push : Heap → α → Heap
  pop : Heap → Option (α × Heap)
  peek : Heap → Option α
  intoIter : Heap → List α

namespace BinaryHeap

variable {α : Type}

def len (H : BinaryHeap α) (h : H.Heap) : ℕ := (H.intoIter h).length

/-- The operations on the heaps that were built from elements of `s`. -/
structure Contract (H : BinaryHeap α) (cmp : α → α → Ordering) (s : Set α)
    (Valid : H.Heap → Prop) : Prop where
  new : Valid H.new ∧ H.intoIter H.new = []
  mem : ∀ {h}, Valid h → ∀ a ∈ H.intoIter h, a ∈ s
  push : ∀ {h a}, Valid h → a ∈ s →
    Valid (H.push h a) ∧ (H.intoIter (H.push h a)).Perm (a :: H.intoIter h)
  pop_none : ∀ {h}, Valid h → H.pop h = none → H.intoIter h = []
  pop_some : ∀ {h a h'}, Valid h → H.pop h = some (a, h') →
    Valid h' ∧ (H.intoIter h).Perm (a :: H.intoIter h') ∧ ∀ b ∈ H.intoIter h', cmp b a ≠ .gt
  peek_none : ∀ {h}, Valid h → H.peek h = none → H.intoIter h = []
  peek_some : ∀ {h a}, Valid h → H.peek h = some a →
    a ∈ H.intoIter h ∧ ∀ b ∈ H.intoIter h, cmp b a ≠ .gt

def Lawful (H : BinaryHeap α) (cmp : α → α → Ordering) : Prop :=
  ∀ s, TotalOn s cmp → ∃ Valid, H.Contract cmp s Valid

def popList (cmp : α → α → Ordering) : List α → Option (α × List α)
  | [] => none
  | a :: l =>
    match popList cmp l with
    | none => some (a, [])
    | some (b, rest) => if cmp b a = .gt then some (b, a :: rest) else some (a, l)

def ofList (cmp : α → α → Ordering) : BinaryHeap α where
  Heap := List α
  new := []
  push h a := h ++ [a]
  pop := popList cmp
  peek h := (popList cmp h).map Prod.fst
  intoIter := id

variable {cmp : α → α → Ordering}

lemma popList_eq_none {l : List α} (h : popList cmp l = none) : l = [] := by
  cases l with
  | nil => rfl
  | cons a l =>
    rw [popList] at h
    split at h
    · cases h
    · split at h <;> cases h

lemma popList_perm {l rest : List α} {a : α} (h : popList cmp l = some (a, rest)) :
    l.Perm (a :: rest) := by
  induction l generalizing a rest with
  | nil => cases h
  | cons x l ih =>
    rw [popList] at h
    split at h
    · next hnone =>
      cases h
      rw [popList_eq_none hnone]
    · next b rest' hsome =>
      split at h
      · cases h
        exact ((ih hsome).cons x).trans (.swap a x rest')
      · cases h
        rfl

lemma le_of_popList {s : Set α} (hs : TotalOn s cmp) {l rest : List α} {a : α}
    (hl : ∀ x ∈ l, x ∈ s) (h : popList cmp l = some (a, rest)) : ∀ b ∈ l, cmp b a ≠ .gt := by
  have hrefl : ∀ x ∈ s, cmp x x ≠ .gt := by
    intro x hx hgt
    have hswap := hs.swap x hx x hx
    rw [hgt] at hswap
    cases hswap
  induction l generalizing a rest with
  | nil => cases h
  | cons x l ih =>
    have hx : x ∈ s := hl x mem_cons_self
    have hl' : ∀ y ∈ l, y ∈ s := fun y hy => hl y (mem_cons_of_mem x hy)
    rw [popList] at h
    split at h
    · next hnone =>
      cases h
      rw [popList_eq_none hnone]
      intro b hb
      rw [mem_singleton.mp hb]
      exact hrefl _ hx
    · next m rest' hsome =>
      have hm : m ∈ s := hl' m ((popList_perm hsome).mem_iff.mpr mem_cons_self)
      split at h
      · next hgt =>
        cases h
        intro b hb
        rcases mem_cons.mp hb with rfl | hb
        · rw [hs.swap _ hm _ hx, hgt]
          decide
        · exact ih hl' hsome b hb
      · next hle =>
        cases h
        intro b hb
        rcases mem_cons.mp hb with rfl | hb
        · exact hrefl _ hx
        · exact hs.trans b (hl' b hb) m hm _ hx (ih hl' hsome b hb) hle

lemma lawful_ofList (cmp : α → α → Ordering) : (ofList cmp).Lawful cmp := by
  intro s hs
  refine ⟨fun h : List α => ∀ a ∈ h, a ∈ s, ?_⟩
  refine ⟨⟨fun a ha => absurd ha not_mem_nil, rfl⟩, fun h => h, ?_, ?_, ?_, ?_, ?_⟩
  · intro h a hvalid ha
    refine ⟨fun b hb => ?_, perm_append_singleton a h⟩
    rcases mem_append.mp hb with hb | hb
    · exact hvalid b hb
    · rw [mem_singleton.mp hb]
      exact ha
  · intro h _ hpop
    exact popList_eq_none hpop
  · intro h a h' hvalid hpop
    have hperm : List.Perm h (a :: h') := popList_perm hpop
    refine ⟨fun b hb => hvalid b (hperm.mem_iff.mpr (mem_cons_of_mem a hb)), hperm, ?_⟩
    intro b hb
    exact le_of_popList hs hvalid hpop b (hperm.mem_iff.mpr (mem_cons_of_mem a hb))
  · intro h _ hpeek
    exact popList_eq_none (Option.map_eq_none_iff.mp hpeek)
  · intro h a hvalid hpeek
    obtain ⟨⟨b, rest⟩, hpop, rfl⟩ := Option.map_eq_some_iff.mp hpeek
    exact ⟨(popList_perm hpop).mem_iff.mpr mem_cons_self, le_of_popList hs hvalid hpop⟩

end BinaryHeap

end Smongo

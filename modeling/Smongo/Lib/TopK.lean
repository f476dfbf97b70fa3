import Smongo.Lib.BinaryHeap

/-!
# Keeping the least elements in a bounded heap

Elements arrive one after the other, each with a value and the number of its arrival.
-/

namespace Smongo

open List

variable {δ : Type} [LinearOrder δ]

def cmpPairs (a b : δ × ℕ) : Ordering := (compare a.1 b.1).then (compare a.2 b.2)

lemma cmpPairs_measured : MeasuredOn Set.univ cmpPairs (toLex : δ × ℕ → δ ×ₗ ℕ) :=
  fun _ _ _ _ => rfl

def offer (H : BinaryHeap (δ × ℕ)) (k : ℕ) (h : H.Heap) (d : δ) (idx : ℕ) : H.Heap :=
  if H.len h < k then H.push h (d, idx)
  else
    match H.peek h with
    | none => h
    | some greatest =>
      if d < greatest.1 then
        match H.pop h with
        | some (_, h) => H.push h (d, idx)
        | none => H.push h (d, idx)
      else h

/-- The heap holds the `k` least of the pairs that have arrived. -/
structure HoldsLeast (H : BinaryHeap (δ × ℕ)) (k : ℕ) (h : H.Heap) (arrived rest : List (δ × ℕ)) :
    Prop where
  perm : (H.intoIter h ++ rest).Perm arrived
  length : H.len h = min k arrived.length
  least : ∀ a ∈ H.intoIter h, ∀ b ∈ rest, toLex a ≤ toLex b

section

variable {H : BinaryHeap (δ × ℕ)} {Valid : H.Heap → Prop} {k : ℕ} {h : H.Heap}
  {arrived rest : List (δ × ℕ)}

lemma HoldsLeast.new (hH : H.Contract cmpPairs Set.univ Valid) : HoldsLeast H k H.new [] [] := by
  have hempty := hH.new.2
  refine ⟨?_, ?_, ?_⟩
  · rw [hempty]
    rfl
  · rw [BinaryHeap.len, hempty]
    simp
  · exact fun _ _ _ hb => absurd hb not_mem_nil

lemma HoldsLeast.keep (hh : HoldsLeast H k h arrived rest) {new : δ × ℕ}
    (hfull : k ≤ H.len h) (hle : ∀ a ∈ H.intoIter h, toLex a ≤ toLex new) :
    HoldsLeast H k h (arrived ++ [new]) (rest ++ [new]) := by
  have hlen := hh.length
  refine ⟨?_, ?_, fun a ha b hb => ?_⟩
  · rw [← append_assoc]
    exact hh.perm.append_right _
  · rw [length_append, length_singleton]
    omega
  · rcases mem_append.mp hb with hb | hb
    · exact hh.least a ha b hb
    · rw [mem_singleton.mp hb]
      exact hle a ha

lemma HoldsLeast.replace (hh : HoldsLeast H k h arrived rest) {h' h'' : H.Heap}
    {new greatest : δ × ℕ} (hpop : (H.intoIter h).Perm (greatest :: H.intoIter h'))
    (hpush : (H.intoIter h'').Perm (new :: H.intoIter h')) (hfull : k ≤ H.len h)
    (hgreatest : ∀ a ∈ H.intoIter h, toLex a ≤ toLex greatest) (hlt : toLex new < toLex greatest) :
    HoldsLeast H k h'' (arrived ++ [new]) (greatest :: rest) := by
  have hlen := hh.length
  have hmem : greatest ∈ H.intoIter h := hpop.mem_iff.mpr mem_cons_self
  have hcount : H.len h'' = H.len h := by
    rw [BinaryHeap.len, BinaryHeap.len, hpush.length_eq, hpop.length_eq, length_cons, length_cons]
  have hkept : ∀ a ∈ H.intoIter h', a ∈ H.intoIter h := fun a ha =>
    hpop.mem_iff.mpr (mem_cons_of_mem _ ha)
  refine ⟨?_, ?_, fun a ha b hb => ?_⟩
  · calc (H.intoIter h'' ++ greatest :: rest).Perm
          ((new :: H.intoIter h') ++ greatest :: rest) := hpush.append_right _
      _ |>.Perm (new :: (greatest :: H.intoIter h' ++ rest)) := perm_middle.cons new
      _ |>.Perm (new :: arrived) := ((hpop.symm.append_right _).trans hh.perm).cons new
      _ |>.Perm (arrived ++ [new]) := (perm_append_singleton new arrived).symm
  · rw [hcount, length_append, length_singleton]
    omega
  · have hag : toLex a ≤ toLex greatest := by
      rcases mem_cons.mp (hpush.mem_iff.mp ha) with rfl | ha'
      · exact hlt.le
      · exact hgreatest a (hkept a ha')
    rcases mem_cons.mp hb with rfl | hb'
    · exact hag
    · exact hag.trans (hh.least greatest hmem b hb')

lemma HoldsLeast.offer (hH : H.Contract cmpPairs Set.univ Valid) (hvalid : Valid h)
    (hh : HoldsLeast H k h arrived rest) {d : δ} {idx : ℕ} (hidx : ∀ a ∈ arrived, a.2 < idx) :
    Valid (Smongo.offer H k h d idx) ∧
      ∃ rest', HoldsLeast H k (Smongo.offer H k h d idx) (arrived ++ [(d, idx)]) rest' := by
  have hle : ∀ {a b : δ × ℕ}, cmpPairs a b ≠ .gt → toLex a ≤ toLex b := fun hcmp =>
    (cmpPairs_measured.le_iff (Set.mem_univ _) (Set.mem_univ _)).mp hcmp
  rw [Smongo.offer]
  split
  · next hroom =>
    -- with room left nothing has been dropped
    have hlen := hh.length
    have hrest : rest = [] := by
      have hperm := hh.perm.length_eq
      rw [length_append] at hperm
      rw [BinaryHeap.len] at hlen hroom
      exact eq_nil_of_length_eq_zero (by omega)
    have hall := hh.perm
    rw [hrest, append_nil] at hall
    obtain ⟨hvalid', hperm⟩ := hH.push hvalid (Set.mem_univ (d, idx))
    refine ⟨hvalid', [], ?_, ?_, fun _ _ _ hb => absurd hb not_mem_nil⟩
    · rw [append_nil]
      exact hperm.trans ((hall.cons _).trans (perm_append_singleton _ _).symm)
    · rw [BinaryHeap.len] at hlen hroom ⊢
      rw [hperm.length_eq, length_cons, length_append, length_singleton]
      omega
  · next hfull =>
    have hfull : k ≤ H.len h := not_lt.mp hfull
    split
    · next hpeek =>
      refine ⟨hvalid, _, hh.keep hfull fun a ha => ?_⟩
      rw [hH.peek_none hvalid hpeek] at ha
      exact absurd ha not_mem_nil
    · next greatest hpeek =>
      obtain ⟨hmem, hgreatest⟩ := hH.peek_some hvalid hpeek
      split
      · next hlt =>
        have hnew : toLex (d, idx) < toLex greatest := Prod.Lex.toLex_lt_toLex.mpr (.inl hlt)
        split
        · next popped h' hpop =>
          obtain ⟨hvalid', hperm, hpopped⟩ := hH.pop_some hvalid hpop
          obtain ⟨hvalid'', hperm'⟩ := hH.push hvalid' (Set.mem_univ (d, idx))
          have htop : ∀ a ∈ H.intoIter h, toLex a ≤ toLex popped := by
            intro a ha
            rcases mem_cons.mp (hperm.mem_iff.mp ha) with rfl | ha'
            · exact le_rfl
            · exact hle (hpopped a ha')
          exact ⟨hvalid'', _, hh.replace hperm hperm' hfull htop
            (hnew.trans_le (htop greatest hmem))⟩
        · next hpop =>
          rw [hH.pop_none hvalid hpop] at hmem
          exact absurd hmem not_mem_nil
      · next hge =>
        refine ⟨hvalid, _, hh.keep hfull fun a ha => (hle (hgreatest a ha)).trans ?_⟩
        -- of equal values the later one is the greater pair
        have harrived := hh.perm.mem_iff.mp (mem_append_left rest hmem)
        rw [Prod.Lex.toLex_le_toLex]
        rcases (not_lt.mp hge).lt_or_eq with hlt | heq
        · exact .inl hlt
        · exact .inr ⟨heq, (hidx greatest harrived).le⟩

end

end Smongo

import Smongo.Lib.BinaryHeap
import Smongo.Lib.Effect

/-!
# Merging sorted runs

The runs are read one element at a time from sources that may fail.
-/

namespace Smongo

open List

structure MergeEntry (α : Type) where
  doc : α
  runIdx : ℕ
deriving DecidableEq

def MergeEntry.cmp {α : Type} (cmp : α → α → Ordering) (a b : MergeEntry α) : Ordering :=
  (cmp a.doc b.doc).swap

section

variable {α R ε : Type} (H : BinaryHeap (MergeEntry α)) (next : R → Outcome ε (Option α × R))

def refill (h : H.Heap) (runIdx : ℕ) (run : R) : Outcome ε (H.Heap × R) := do
  let (read, run) ← next run
  match read with
  | some doc => .ok (H.push h ⟨doc, runIdx⟩, run)
  | none => .ok (h, run)

def fillHeap (h : H.Heap) (runIdx : ℕ) : List R → Outcome ε (H.Heap × List R)
  | [] => .ok (h, [])
  | run :: runs => do
    let (h, run) ← refill H next h runIdx run
    let (h, runs) ← fillHeap h (runIdx + 1) runs
    .ok (h, run :: runs)

def mergeLoop : ℕ → H.Heap → List R → List α → Option (Outcome ε (List α))
  | 0, _, _, _ => none
  | fuel + 1, h, runs, merged =>
    match H.pop h with
    | none => some (.ok merged)
    | some (entry, h) =>
      match runs[entry.runIdx]? with
      | none => some .panic
      | some run =>
        match refill H next h entry.runIdx run with
        | .ok (h, run) => mergeLoop fuel h (runs.set entry.runIdx run) (merged ++ [entry.doc])
        | .error e => some (.error e)
        | .panic => some .panic

end

/-- `Left r l` says that the elements of `l` are what is left to read of `r`. -/
structure Sources {α R ε : Type} (next : R → Outcome ε (Option α × R)) (Left : R → List α → Prop) :
    Prop where
  nil : ∀ {r}, Left r [] → ∃ r', next r = .ok (none, r') ∧ Left r' []
  cons : ∀ {r a l}, Left r (a :: l) → ∃ r', next r = .ok (some a, r') ∧ Left r' l

section

variable {α R ε κ : Type} [LinearOrder κ] {H : BinaryHeap (MergeEntry α)}
  {next : R → Outcome ε (Option α × R)} {Left : R → List α → Prop} {s : Set α}
  {cmp : α → α → Ordering} {key : α → κ} {Valid : H.Heap → Prop}

variable {h : H.Heap} {rest merged : List α} {rests : List (List α)} {runs : List R}

lemma le_of_pop (hcmp : MeasuredOn s cmp key)
    (hH : H.Contract (MergeEntry.cmp cmp) {e | e.doc ∈ s} Valid) {h' : H.Heap}
    {entry : MergeEntry α} (hvalid : Valid h) (hpop : H.pop h = some (entry, h')) :
    ∀ e ∈ H.intoIter h, key entry.doc ≤ key e.doc := by
  obtain ⟨hvalid', hperm, hle⟩ := hH.pop_some hvalid hpop
  have hentry : entry.doc ∈ s := hH.mem hvalid entry (hperm.mem_iff.mpr mem_cons_self)
  intro e he
  rcases mem_cons.mp (hperm.mem_iff.mp he) with rfl | he'
  · exact le_rfl
  · have hes : e.doc ∈ s := hH.mem hvalid' e he'
    have hcmp' := hle e he'
    rw [MergeEntry.cmp, ne_eq, Ordering.swap_eq_gt, hcmp.lt_iff hes hentry] at hcmp'
    exact not_lt.mp hcmp'

def headEntry (runIdx : ℕ) (rest : List α) : List (MergeEntry α) :=
  rest.head?.toList.map fun doc => ⟨doc, runIdx⟩

lemma mem_headEntry {runIdx : ℕ} {e : MergeEntry α} :
    e ∈ headEntry runIdx rest ↔ rest.head? = some e.doc ∧ e.runIdx = runIdx := by
  obtain ⟨doc, i⟩ := e
  simp [headEntry, eq_comm]

lemma map_doc_headEntry (runIdx : ℕ) (rest : List α) :
    (headEntry runIdx rest).map MergeEntry.doc = rest.head?.toList := by
  cases rest <;> rfl

lemma head?_append_tail (rest : List α) : rest.head?.toList ++ rest.tail = rest := by
  cases rest <;> rfl

lemma refill_of_left (hsources : Sources next Left)
    (hH : H.Contract (MergeEntry.cmp cmp) {e | e.doc ∈ s} Valid) (hvalid : Valid h)
    {run : R} (hleft : Left run rest) (hrest : ∀ a ∈ rest, a ∈ s) (runIdx : ℕ) :
    ∃ h' run', refill H next h runIdx run = .ok (h', run') ∧ Valid h' ∧ Left run' rest.tail ∧
      (H.intoIter h').Perm (headEntry runIdx rest ++ H.intoIter h) := by
  cases rest with
  | nil =>
    obtain ⟨run', hnext, hleft'⟩ := hsources.nil hleft
    refine ⟨h, run', ?_, hvalid, hleft', .refl _⟩
    rw [refill, hnext]
    rfl
  | cons a rest =>
    obtain ⟨run', hnext, hleft'⟩ := hsources.cons hleft
    obtain ⟨hvalid', hperm⟩ := hH.push (a := ⟨a, runIdx⟩) hvalid (hrest a mem_cons_self)
    refine ⟨_, run', ?_, hvalid', hleft', hperm⟩
    rw [refill, hnext]
    rfl

def headEntries (runIdx : ℕ) : List (List α) → List (MergeEntry α)
  | [] => []
  | rest :: rests => headEntry runIdx rest ++ headEntries (runIdx + 1) rests

lemma mem_headEntries {runIdx : ℕ} {e : MergeEntry α} : e ∈ headEntries runIdx rests ↔
      ∃ i rest, rests[i]? = some rest ∧ rest.head? = some e.doc ∧ e.runIdx = runIdx + i := by
  induction rests generalizing runIdx with
  | nil => simp [headEntries]
  | cons rest rests ih =>
    rw [headEntries, mem_append, mem_headEntry, ih]
    constructor
    · rintro (⟨hhead, hidx⟩ | ⟨i, rest', hget, hhead, hidx⟩)
      · exact ⟨0, rest, rfl, hhead, hidx⟩
      · exact ⟨i + 1, rest', hget, hhead, by omega⟩
    · rintro ⟨_ | i, rest', hget, hhead, hidx⟩
      · cases hget
        exact .inl ⟨hhead, hidx⟩
      · exact .inr ⟨i, rest', hget, hhead, by omega⟩

lemma headEntries_perm (runIdx : ℕ) (rests : List (List α)) :
    ((headEntries runIdx rests).map MergeEntry.doc ++ (rests.map tail).flatten).Perm
      rests.flatten := by
  induction rests generalizing runIdx with
  | nil => exact .refl _
  | cons rest rests ih =>
    rw [headEntries, map_append, map_doc_headEntry, map_cons, flatten_cons,
      flatten_cons, append_assoc]
    calc rest.head?.toList ++ ((headEntries (runIdx + 1) rests).map MergeEntry.doc ++
            (rest.tail ++ (rests.map tail).flatten))
      _ |>.Perm (rest.head?.toList ++ (rest.tail ++
          ((headEntries (runIdx + 1) rests).map MergeEntry.doc ++
            (rests.map tail).flatten))) := .append_left _ (perm_append_comm_assoc ..)
      _ |>.Perm (rest ++ rests.flatten) := by
          rw [← append_assoc, head?_append_tail]
          exact .append_left _ (ih (runIdx + 1))

lemma fillHeap_of_left (hsources : Sources next Left)
    (hH : H.Contract (MergeEntry.cmp cmp) {e | e.doc ∈ s} Valid) (hvalid : Valid h)
    (hleft : List.Forall₂ Left runs rests)
    (hrests : ∀ rest ∈ rests, ∀ a ∈ rest, a ∈ s) (runIdx : ℕ) :
    ∃ h' runs', fillHeap H next h runIdx runs = .ok (h', runs') ∧ Valid h' ∧
      List.Forall₂ Left runs' (rests.map tail) ∧
      (H.intoIter h').Perm (headEntries runIdx rests ++ H.intoIter h) := by
  induction hleft generalizing h runIdx with
  | nil => exact ⟨h, [], rfl, hvalid, .nil, .refl _⟩
  | @cons run rest runs rests hrun hleft ih =>
    obtain ⟨h₁, run', hrefill, hvalid₁, hrun', hperm₁⟩ :=
      refill_of_left hsources hH hvalid hrun (hrests rest mem_cons_self) runIdx
    obtain ⟨h₂, runs', hfill, hvalid₂, hruns', hperm₂⟩ :=
      ih hvalid₁ (fun r hr => hrests r (mem_cons_of_mem rest hr)) (runIdx + 1)
    refine ⟨h₂, run' :: runs', ?_, hvalid₂, .cons hrun' hruns', ?_⟩
    · rw [fillHeap, hrefill, Outcome.ok_bind]
      dsimp only
      rw [hfill]
      rfl
    · calc (H.intoIter h₂).Perm (headEntries (runIdx + 1) rests ++ H.intoIter h₁) := hperm₂
        _ |>.Perm (headEntries (runIdx + 1) rests ++
            (headEntry runIdx rest ++ H.intoIter h)) := .append_left _ hperm₁
        _ |>.Perm (headEntries runIdx (rest :: rests) ++ H.intoIter h) := by
            rw [headEntries, ← append_assoc]
            exact .append_right _ perm_append_comm

/-- The state of the merge: `rests` is what is left to read of the runs. -/
structure Merging (H : BinaryHeap (MergeEntry α)) (key : α → κ) (h : H.Heap)
    (rests : List (List α)) (merged : List α) : Prop where
  sorted : ∀ rest ∈ rests, rest.Pairwise fun a b => key a ≤ key b
  merged_sorted : merged.Pairwise fun a b => key a ≤ key b
  merged_le : ∀ a ∈ merged, ∀ e ∈ H.intoIter h, key a ≤ key e.doc
  /-- An element of the heap comes before the rest of its run. -/
  head_le : ∀ e ∈ H.intoIter h, ∃ rest, rests[e.runIdx]? = some rest ∧ ∀ a ∈ rest, key e.doc ≤ key a
  /-- A run that is not used up has an element in the heap. -/
  has_head : ∀ i rest, rests[i]? = some rest → rest ≠ [] → ∃ e ∈ H.intoIter h, e.runIdx = i

lemma Merging.start (hsorted : ∀ rest ∈ rests, rest.Pairwise fun a b => key a ≤ key b)
    (hperm : (H.intoIter h).Perm (headEntries 0 rests)) :
    Merging H key h (rests.map tail) [] where
  sorted rest hrest := by
    obtain ⟨rest', hmem, rfl⟩ := mem_map.mp hrest
    exact (hsorted rest' hmem).sublist (tail_sublist rest')
  merged_sorted := .nil
  merged_le a ha := absurd ha not_mem_nil
  head_le e he := by
    obtain ⟨i, rest, hget, hhead, hidx⟩ := mem_headEntries.mp (hperm.mem_iff.mp he)
    refine ⟨rest.tail, ?_, ?_⟩
    · rw [hidx, Nat.zero_add, getElem?_map, hget]
      rfl
    · have hrest := hsorted rest (mem_of_getElem? hget)
      rw [eq_cons_of_mem_head? hhead, pairwise_cons] at hrest
      exact hrest.1
  has_head i tail hget hne := by
    rw [getElem?_map, Option.map_eq_some_iff] at hget
    obtain ⟨rest, hget, rfl⟩ := hget
    obtain ⟨a, rest, rfl⟩ : ∃ a l, rest = a :: l := exists_cons_of_ne_nil (by
      rintro rfl
      exact hne rfl)
    refine ⟨⟨a, i⟩, hperm.mem_iff.mpr (mem_headEntries.mpr ⟨i, _, hget, rfl, ?_⟩), rfl⟩
    exact (Nat.zero_add i).symm

lemma Merging.turn {h' h'' : H.Heap} {entry : MergeEntry α} (hm : Merging H key h rests merged)
    (hperm : (H.intoIter h).Perm (entry :: H.intoIter h'))
    (hleast : ∀ e ∈ H.intoIter h, key entry.doc ≤ key e.doc)
    (hrest : rests[entry.runIdx]? = some rest)
    (hperm' : (H.intoIter h'').Perm (headEntry entry.runIdx rest ++ H.intoIter h')) :
    Merging H key h'' (rests.set entry.runIdx rest.tail) (merged ++ [entry.doc]) := by
  have hentry : entry ∈ H.intoIter h := hperm.mem_iff.mpr mem_cons_self
  have hkept : ∀ e ∈ H.intoIter h', e ∈ H.intoIter h := fun e he =>
    hperm.mem_iff.mpr (mem_cons_of_mem entry he)
  have hlt : entry.runIdx < rests.length := (List.getElem?_eq_some_iff.mp hrest).1
  have hset : (rests.set entry.runIdx rest.tail)[entry.runIdx]? = some rest.tail :=
    getElem?_set_self hlt
  have hrestSorted := hm.sorted rest (mem_of_getElem? hrest)
  -- the entry comes before the rest of its run
  have hbefore : ∀ a ∈ rest, key entry.doc ≤ key a := by
    obtain ⟨rest', hrest', hle⟩ := hm.head_le entry hentry
    rw [hrest, Option.some.injEq] at hrest'
    exact hrest' ▸ hle
  have hcases : ∀ e ∈ H.intoIter h'', (rest.head? = some e.doc ∧ e.runIdx = entry.runIdx) ∨
      e ∈ H.intoIter h' := by
    intro e he
    rw [hperm'.mem_iff, mem_append, mem_headEntry] at he
    exact he
  refine ⟨?_, ?_, ?_, ?_, ?_⟩
  · intro r hr
    rcases mem_or_eq_of_mem_set hr with hr | rfl
    · exact hm.sorted r hr
    · exact hrestSorted.sublist (tail_sublist rest)
  · rw [pairwise_append]
    refine ⟨hm.merged_sorted, pairwise_singleton _ _, fun a ha b hb => ?_⟩
    rw [mem_singleton.mp hb]
    exact hm.merged_le a ha entry hentry
  · intro a ha e he
    have hae : key a ≤ key entry.doc := by
      rcases mem_append.mp ha with ha | ha
      · exact hm.merged_le a ha entry hentry
      · rw [mem_singleton.mp ha]
    apply hae.trans
    rcases hcases e he with ⟨hhead, -⟩ | he'
    · exact hbefore e.doc (mem_of_mem_head? hhead)
    · exact hleast e (hkept e he')
  · intro e he
    rcases hcases e he with ⟨hhead, hidx⟩ | he'
    · refine ⟨rest.tail, by rw [hidx, hset], ?_⟩
      rw [eq_cons_of_mem_head? hhead, pairwise_cons] at hrestSorted
      exact hrestSorted.1
    · obtain ⟨rest', hrest', hle⟩ := hm.head_le e (hkept e he')
      by_cases hidx : e.runIdx = entry.runIdx
      · rw [hidx, hrest, Option.some.injEq] at hrest'
        refine ⟨rest.tail, by rw [hidx, hset], fun a ha => ?_⟩
        exact hle a (hrest' ▸ mem_of_mem_tail ha)
      · refine ⟨rest', ?_, hle⟩
        rw [getElem?_set_ne (Ne.symm hidx), hrest']
  · intro i r hr hne
    by_cases hidx : i = entry.runIdx
    · subst hidx
      rw [hset, Option.some.injEq] at hr
      obtain ⟨a, l, rfl⟩ : ∃ a l, rest = a :: l := exists_cons_of_ne_nil (by
        rintro rfl
        exact hne hr.symm)
      exact ⟨⟨a, entry.runIdx⟩, hperm'.mem_iff.mpr
        (mem_append_left _ (mem_headEntry.mpr ⟨rfl, rfl⟩)), rfl⟩
    · rw [getElem?_set_ne (Ne.symm hidx)] at hr
      obtain ⟨e, he, rfl⟩ := hm.has_head i r hr hne
      rcases mem_cons.mp (hperm.mem_iff.mp he) with rfl | he'
      · exact absurd rfl hidx
      · exact ⟨e, hperm'.mem_iff.mpr (mem_append_right _ he'), rfl⟩

lemma Merging.flatten_eq_nil
    (hm : Merging H key h rests merged) (hempty : H.intoIter h = []) : rests.flatten = [] := by
  rw [flatten_eq_nil_iff]
  intro rest hrest
  by_contra hne
  obtain ⟨i, hi⟩ := mem_iff_getElem?.mp hrest
  obtain ⟨e, he, -⟩ := hm.has_head i rest hi hne
  rw [hempty] at he
  exact not_mem_nil he

lemma flatten_set_perm {i : ℕ} (hrest : rests[i]? = some rest) :
    (rest.head?.toList ++ (rests.set i rest.tail).flatten).Perm rests.flatten := by
  induction rests generalizing i with
  | nil => cases hrest
  | cons r rests ih =>
    cases i with
    | zero =>
      cases hrest
      rw [set_cons_zero, flatten_cons, flatten_cons, ← append_assoc, head?_append_tail]
    | succ i => exact (perm_append_comm_assoc ..).trans (.append_left r (ih hrest))

lemma forall₂_set {β γ : Type} {P : β → γ → Prop} {xs : List β} {ys : List γ} {x : β} {y : γ}
    (h : List.Forall₂ P xs ys) (hxy : P x y) (i : ℕ) :
    List.Forall₂ P (xs.set i x) (ys.set i y) := by
  induction h generalizing i with
  | nil => exact .nil
  | cons hhead htail ih =>
    cases i with
    | zero => exact .cons hxy htail
    | succ i => exact .cons hhead (ih i)

lemma mergeLoop_of_merging (hcmp : MeasuredOn s cmp key) (hsources : Sources next Left)
    (hH : H.Contract (MergeEntry.cmp cmp) {e | e.doc ∈ s} Valid) {fuel : ℕ} (hvalid : Valid h)
    (hleft : List.Forall₂ Left runs rests) (hrests : ∀ rest ∈ rests, ∀ a ∈ rest, a ∈ s)
    (hm : Merging H key h rests merged)
    (hfuel : (H.intoIter h).length + rests.flatten.length < fuel) :
    ∃ out, mergeLoop H next fuel h runs merged = some (.ok out) ∧
      out.Pairwise (fun a b => key a ≤ key b) ∧
      out.Perm (merged ++ ((H.intoIter h).map MergeEntry.doc ++ rests.flatten)) := by
  induction fuel generalizing h runs rests merged with
  | zero => omega
  | succ fuel ih =>
    rw [mergeLoop]
    cases hpop : H.pop h with
    | none =>
      have hempty := hH.pop_none hvalid hpop
      refine ⟨merged, rfl, hm.merged_sorted, ?_⟩
      rw [hempty, hm.flatten_eq_nil hempty, map_nil, append_nil, append_nil]
    | some popped =>
      obtain ⟨entry, h'⟩ := popped
      obtain ⟨hvalid', hperm, -⟩ := hH.pop_some hvalid hpop
      obtain ⟨rest, hrest, -⟩ := hm.head_le entry (hperm.mem_iff.mpr mem_cons_self)
      have hrestMem := hrests rest (mem_of_getElem? hrest)
      obtain ⟨run, hrun, hrunLeft⟩ : ∃ run, runs[entry.runIdx]? = some run ∧ Left run rest := by
        obtain ⟨hlt, hget⟩ := List.getElem?_eq_some_iff.mp hrest
        have hlt' : entry.runIdx < runs.length := hleft.length_eq ▸ hlt
        refine ⟨_, getElem?_eq_getElem hlt', ?_⟩
        exact hget ▸ hleft.get hlt' hlt
      obtain ⟨h'', run', hrefill, hvalid'', hrunLeft', hperm'⟩ :=
        refill_of_left hsources hH hvalid' hrunLeft hrestMem entry.runIdx
      have hflatten := flatten_set_perm hrest
      have hperm'' := hperm'.map MergeEntry.doc
      rw [map_append, map_doc_headEntry] at hperm''
      have hrests' : ∀ r ∈ rests.set entry.runIdx rest.tail, ∀ a ∈ r, a ∈ s := by
        intro r hr a ha
        rcases mem_or_eq_of_mem_set hr with hr | rfl
        · exact hrests r hr a ha
        · exact hrestMem a (mem_of_mem_tail ha)
      -- the entry has gone to the output, and everything else is still there
      have hkept : ((H.intoIter h'').map MergeEntry.doc ++
          (rests.set entry.runIdx rest.tail).flatten).Perm
            ((H.intoIter h').map MergeEntry.doc ++ rests.flatten) := by
        refine (hperm''.append_right _).trans ?_
        refine (List.Perm.append_right _ perm_append_comm).trans ?_
        rw [append_assoc]
        exact .append_left _ hflatten
      have hcount : (H.intoIter h'').length +
          (rests.set entry.runIdx rest.tail).flatten.length < fuel := by
        have h₁ := hperm.length_eq
        have h₂ := hkept.length_eq
        simp only [length_append, length_map, length_cons] at h₁ h₂
        omega
      obtain ⟨out, hout, hsorted, houtPerm⟩ := ih hvalid''
        (forall₂_set hleft hrunLeft' entry.runIdx) hrests'
        (hm.turn hperm (le_of_pop hcmp hH hvalid hpop) hrest hperm') hcount
      refine ⟨out, ?_, hsorted, houtPerm.trans ?_⟩
      · simp only [hrun, hrefill]
        exact hout
      · rw [append_assoc, singleton_append]
        refine .append_left merged ?_
        refine (hkept.cons entry.doc).trans ?_
        exact (hperm.map MergeEntry.doc).symm.append_right _

lemma merge_sorts (hcmp : MeasuredOn s cmp key) (hsources : Sources next Left)
    (hH : H.Lawful (MergeEntry.cmp cmp))
    (hleft : List.Forall₂ Left runs rests) (hrests : ∀ rest ∈ rests, ∀ a ∈ rest, a ∈ s)
    (hsorted : ∀ rest ∈ rests, rest.Pairwise fun a b => key a ≤ key b) :
    ∃ h runs', fillHeap H next H.new 0 runs = .ok (h, runs') ∧ ∀ fuel, rests.flatten.length < fuel →
        ∃ out, mergeLoop H next fuel h runs' [] = some (.ok out) ∧
          out.Pairwise (fun a b => key a ≤ key b) ∧ out.Perm rests.flatten := by
  obtain ⟨Valid, hcontract⟩ := hH {e | e.doc ∈ s} (hcmp.swap.comap MergeEntry.doc).totalOn
  obtain ⟨h, runs', hfill, hvalid, hleft', hperm⟩ :=
    fillHeap_of_left hsources hcontract hcontract.new.1 hleft hrests 0
  rw [hcontract.new.2, append_nil] at hperm
  have hheads := headEntries_perm 0 rests
  have htails : ∀ rest ∈ rests.map tail, ∀ a ∈ rest, a ∈ s := by
    intro rest hrest a ha
    obtain ⟨rest', hmem, rfl⟩ := mem_map.mp hrest
    exact hrests rest' hmem a (mem_of_mem_tail ha)
  refine ⟨h, runs', hfill, fun fuel hfuel => ?_⟩
  have hcount : (H.intoIter h).length + (rests.map tail).flatten.length < fuel := by
    have h₁ := hperm.length_eq
    have h₂ := hheads.length_eq
    simp only [length_append, length_map] at h₂
    omega
  obtain ⟨out, hout, houtSorted, houtPerm⟩ := mergeLoop_of_merging hcmp hsources hcontract hvalid
    hleft' htails (Merging.start hsorted hperm) hcount
  refine ⟨out, hout, houtSorted, houtPerm.trans ?_⟩
  exact ((hperm.map MergeEntry.doc).append_right _).trans hheads

end

end Smongo

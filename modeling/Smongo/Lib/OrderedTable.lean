import Mathlib.Data.List.Sort
import Mathlib.Data.List.Perm.Basic
import Mathlib.Data.List.Perm.Lattice
import Mathlib.Tactic.Common

/-!
# Ordered tables and change lists

A finite map listed in increasing key order, and changes of it.
-/

namespace Smongo

open List

variable {κ ν : Type*} [LinearOrder κ]

@[ext] structure OrderedTable (κ ν : Type*) [LinearOrder κ] where
  rows : List (κ × ν)
  sorted : rows.Pairwise fun a b => a.1 < b.1

namespace OrderedTable

instance [DecidableEq ν] : DecidableEq (OrderedTable κ ν) := fun t u =>
  decidable_of_iff (t.rows = u.rows) OrderedTable.ext_iff.symm

def empty : OrderedTable κ ν := ⟨[], List.Pairwise.nil⟩

instance : Inhabited (OrderedTable κ ν) := ⟨empty⟩

def get (t : OrderedTable κ ν) (k : κ) : Option ν := t.rows.lookup k

lemma lookup_cons_ite (r : κ × ν) (rows : List (κ × ν)) (k : κ) :
    (r :: rows).lookup k = if k = r.1 then some r.2 else rows.lookup k := by
  obtain ⟨k', v⟩ := r
  rw [lookup_cons]
  by_cases h : k = k'
  · simp [h]
  · simp [h, beq_eq_false_iff_ne.mpr h]

variable {rows : List (κ × ν)} {k : κ} {v : ν} {t : OrderedTable κ ν}

lemma lookup_eq_some_iff (hrows : rows.Pairwise fun a b => a.1 ≠ b.1)
    : rows.lookup k = some v ↔ (k, v) ∈ rows := by
  induction rows with
  | nil => simp
  | cons r rows ih =>
    obtain ⟨hhead, htail⟩ := pairwise_cons.mp hrows
    rw [lookup_cons_ite, mem_cons]
    split_ifs with hk
    · subst hk
      have hnot : (r.1, v) ∉ rows := fun h => hhead _ h rfl
      simp [hnot, Prod.ext_iff, eq_comm]
    · have hne : (k, v) ≠ r := fun h => hk (congrArg Prod.fst h)
      simpa [hne] using ih htail

lemma ne_of_sorted (h : rows.Pairwise fun a b => a.1 < b.1) :
    rows.Pairwise fun a b => a.1 ≠ b.1 :=
  h.imp fun hlt => hlt.ne

omit [LinearOrder κ] in
lemma nodup_of_ne (h : rows.Pairwise fun a b => a.1 ≠ b.1) : rows.Nodup :=
  h.imp fun hne heq => hne (congrArg Prod.fst heq)

lemma get_eq_some_iff : t.get k = some v ↔ (k, v) ∈ t.rows :=
  lookup_eq_some_iff (ne_of_sorted t.sorted)

lemma nodup_rows (t : OrderedTable κ ν) : t.rows.Nodup := nodup_of_ne (ne_of_sorted t.sorted)

@[simp] lemma get_empty (k : κ) : (empty : OrderedTable κ ν).get k = none := rfl

lemma rows_eq_of_mem_iff {rows' : List (κ × ν)}
    (h : rows.Pairwise fun a b => a.1 < b.1) (h' : rows'.Pairwise fun a b => a.1 < b.1)
    (hmem : ∀ r, r ∈ rows ↔ r ∈ rows') : rows = rows' := by
  have hperm : rows.Perm rows' :=
    (perm_ext_iff_of_nodup (nodup_of_ne (ne_of_sorted h)) (nodup_of_ne (ne_of_sorted h'))).mpr hmem
  exact hperm.eq_of_pairwise (fun a b _ _ hab hba => absurd hba hab.not_gt) h h'

lemma ext_get {u : OrderedTable κ ν} (h : ∀ k, t.get k = u.get k) : t = u := by
  apply OrderedTable.ext
  apply rows_eq_of_mem_iff t.sorted u.sorted
  rintro ⟨k, v⟩
  rw [← get_eq_some_iff, ← get_eq_some_iff, h]

/-! ### Insertion and deletion -/

def insertRow (k : κ) (v : ν) : List (κ × ν) → List (κ × ν)
  | [] => [(k, v)]
  | r :: rows =>
    if k < r.1 then (k, v) :: r :: rows
    else if k = r.1 then (k, v) :: rows
    else r :: insertRow k v rows

lemma mem_insertRow_fst {r : κ × ν} (h : r ∈ insertRow k v rows) : r.1 = k ∨ r ∈ rows := by
  induction rows with
  | nil => simp_all [insertRow]
  | cons q rows ih =>
    unfold insertRow at h
    split_ifs at h with hlt heq
    · rcases mem_cons.mp h with rfl | h
      · exact .inl rfl
      · exact .inr h
    · rcases mem_cons.mp h with rfl | h
      · exact .inl rfl
      · exact .inr (mem_cons_of_mem q h)
    · rcases mem_cons.mp h with rfl | h
      · exact .inr mem_cons_self
      · exact (ih h).imp_right (mem_cons_of_mem q)

lemma sorted_insertRow (k : κ) (v : ν) (h : rows.Pairwise fun a b => a.1 < b.1) :
    (insertRow k v rows).Pairwise fun a b => a.1 < b.1 := by
  induction rows with
  | nil => simp [insertRow]
  | cons q rows ih =>
    obtain ⟨hhead, htail⟩ := pairwise_cons.mp h
    unfold insertRow
    split_ifs with hlt heq
    · refine pairwise_cons.mpr ⟨fun r hr => ?_, h⟩
      rcases mem_cons.mp hr with rfl | hr
      · exact hlt
      · exact hlt.trans (hhead r hr)
    · exact pairwise_cons.mpr ⟨fun r hr => heq ▸ hhead r hr, htail⟩
    · refine pairwise_cons.mpr ⟨fun r hr => ?_, ih htail⟩
      rcases mem_insertRow_fst hr with hr | hr
      · exact hr ▸ lt_of_le_of_ne (not_lt.mp hlt) (Ne.symm heq)
      · exact hhead r hr

def insert (t : OrderedTable κ ν) (k : κ) (v : ν) : OrderedTable κ ν :=
  ⟨insertRow k v t.rows, sorted_insertRow k v t.sorted⟩

def erase (t : OrderedTable κ ν) (k : κ) : OrderedTable κ ν :=
  ⟨t.rows.filter fun r => r.1 ≠ k, t.sorted.filter _⟩

lemma lookup_insertRow (k : κ) (v : ν) (rows : List (κ × ν)) (k' : κ) :
    (insertRow k v rows).lookup k' = if k' = k then some v else rows.lookup k' := by
  induction rows with
  | nil => rw [insertRow, lookup_cons_ite]
  | cons q rows ih =>
    unfold insertRow
    split
    · rw [lookup_cons_ite]
    · split
      · next heq => simp only [lookup_cons_ite, heq]; split_ifs <;> rfl
      · next heq =>
        simp only [lookup_cons_ite, ih]
        by_cases hk : k' = k
        · simp [hk, heq]
        · simp [hk]

lemma get_insert (t : OrderedTable κ ν) (k : κ) (v : ν) (k' : κ) :
    (t.insert k v).get k' = if k' = k then some v else t.get k' :=
  lookup_insertRow k v t.rows k'

lemma lookup_filter_ne (rows : List (κ × ν)) (k k' : κ) :
    (rows.filter fun r => r.1 ≠ k).lookup k' = if k' = k then none else rows.lookup k' := by
  induction rows with
  | nil => simp
  | cons q rows ih =>
    by_cases hq : q.1 = k
    · rw [filter_cons_of_neg (by simpa using hq), ih, lookup_cons_ite, hq]
      split_ifs <;> rfl
    · rw [filter_cons_of_pos (by simpa using hq), lookup_cons_ite, lookup_cons_ite, ih]
      by_cases hk : k' = q.1
      · simp [hk, hq]
      · simp [hk]

lemma get_erase (t : OrderedTable κ ν) (k k' : κ) :
    (t.erase k).get k' = if k' = k then none else t.get k' :=
  lookup_filter_ne t.rows k k'

lemma erase_of_get_eq_none (h : t.get k = none) : t.erase k = t := by
  refine ext_get fun k' => ?_
  rw [get_erase]
  split
  · next hk => rw [hk, h]
  · rfl

/-- The rows before the first that fails a test are those with no failing row up to them. -/
lemma mem_takeWhile_iff (h : rows.Pairwise fun a b => a.1 < b.1) {p : κ × ν → Bool} {r : κ × ν} :
    r ∈ rows.takeWhile p ↔ r ∈ rows ∧ ∀ r' ∈ rows, r'.1 ≤ r.1 → p r' := by
  induction rows with
  | nil => simp
  | cons x rows ih =>
    obtain ⟨hx, hrows⟩ := pairwise_cons.mp h
    rw [takeWhile_cons]
    split
    · next hpx =>
      rw [mem_cons, ih hrows]
      constructor
      · rintro (rfl | ⟨hmem, hall⟩)
        · refine ⟨mem_cons_self, fun r' hr' hle => ?_⟩
          rcases mem_cons.mp hr' with rfl | hr'
          · exact hpx
          · exact absurd (hx r' hr') (not_lt.mpr hle)
        · refine ⟨mem_cons_of_mem _ hmem, fun r' hr' hle => ?_⟩
          rcases mem_cons.mp hr' with rfl | hr'
          · exact hpx
          · exact hall r' hr' hle
      · rintro ⟨hmem, hall⟩
        rcases mem_cons.mp hmem with rfl | hmem
        · exact .inl rfl
        · exact .inr ⟨hmem, fun r' hr' => hall r' (mem_cons_of_mem _ hr')⟩
    · next hpx =>
      refine iff_of_false not_mem_nil fun ⟨hmem, hall⟩ => hpx ?_
      rcases mem_cons.mp hmem with rfl | hmem
      · exact hall r mem_cons_self le_rfl
      · exact hall x mem_cons_self (le_of_lt (hx r hmem))

end OrderedTable

inductive Change (κ ν : Type*)
  | put (key : κ) (value : ν)
  | del (key : κ)
deriving DecidableEq

namespace Change

variable (t : OrderedTable κ ν)

def apply : Change κ ν → OrderedTable κ ν
  | put k v => t.insert k v
  | del k => t.erase k

def applyAll (cs : List (Change κ ν)) : OrderedTable κ ν := cs.foldl apply t

@[simp] lemma applyAll_nil : applyAll t [] = t := rfl

@[simp] lemma applyAll_cons (c : Change κ ν) (cs : List (Change κ ν)) :
    applyAll t (c :: cs) = applyAll (c.apply t) cs := rfl

lemma applyAll_append (cs ds : List (Change κ ν)) :
    applyAll t (cs ++ ds) = applyAll (applyAll t cs) ds :=
  foldl_append

variable {rows : List (κ × ν)}

lemma get_applyAll_put_rows (hrows : rows.Pairwise fun a b => a.1 ≠ b.1)
    (t : OrderedTable κ ν) (k : κ) :
    (applyAll t (rows.map fun r => put r.1 r.2)).get k = (rows.lookup k).or (t.get k) := by
  induction rows generalizing t with
  | nil => rfl
  | cons r rows ih =>
    obtain ⟨hhead, htail⟩ := pairwise_cons.mp hrows
    rw [map_cons, applyAll_cons, ih htail, OrderedTable.lookup_cons_ite, apply,
      OrderedTable.get_insert]
    by_cases hk : k = r.1
    · have hnone : rows.lookup k = none := by
        rw [Option.eq_none_iff_forall_not_mem]
        intro v hv
        exact hhead _ ((OrderedTable.lookup_eq_some_iff htail).mp hv) hk.symm
      rw [hnone, if_pos hk, if_pos hk]
      rfl
    · rw [if_neg hk, if_neg hk]

lemma get_applyAll_put (t u : OrderedTable κ ν) (k : κ) :
    (applyAll t (u.rows.map fun r => put r.1 r.2)).get k = (u.get k).or (t.get k) :=
  get_applyAll_put_rows (OrderedTable.ne_of_sorted u.sorted) t k

lemma get_applyAll_of_puts {cs : List (Change κ ν)} (hcs : ∀ c ∈ cs, ∃ k v, c = put k v)
    (t : OrderedTable κ ν) (k : κ) :
    (applyAll t cs).get k = ((applyAll .empty cs).get k).or (t.get k) := by
  induction cs generalizing t with
  | nil => simp
  | cons c cs ih =>
    obtain ⟨k', v, rfl⟩ := hcs _ mem_cons_self
    have hrest := ih fun c hc => hcs c (mem_cons_of_mem _ hc)
    rw [applyAll_cons, applyAll_cons, hrest, hrest (apply .empty (put k' v)), apply, apply,
      OrderedTable.get_insert, OrderedTable.get_insert, Option.or_assoc]
    split <;> rfl

/-- One change on an unordered row list: the old row goes, the new one is appended. -/
def overlayStep (rows : List (κ × ν)) : Change κ ν → List (κ × ν)
  | put k v => (rows.filter fun r => r.1 ≠ k) ++ [(k, v)]
  | del k => rows.filter fun r => r.1 ≠ k

def overlay (rows : List (κ × ν)) (cs : List (Change κ ν)) : List (κ × ν) :=
  (cs.foldl overlayStep rows).insertionSort fun a b => a.1 ≤ b.1

lemma overlayStep_ne (c : Change κ ν) (h : rows.Pairwise fun a b => a.1 ≠ b.1) :
    (overlayStep rows c).Pairwise fun a b => a.1 ≠ b.1 := by
  cases c with
  | put k v =>
    refine pairwise_append.mpr ⟨h.filter _, pairwise_singleton _ _, ?_⟩
    intro a ha b hb
    obtain rfl := mem_singleton.mp hb
    simpa using (mem_filter.mp ha).2
  | del k => exact h.filter _

lemma mem_overlayStep (c : Change κ ν) {t : OrderedTable κ ν}
    (h : ∀ r, r ∈ rows ↔ r ∈ t.rows) (r : κ × ν) :
    r ∈ overlayStep rows c ↔ r ∈ (c.apply t).rows := by
  obtain ⟨k', v'⟩ := r
  rw [← OrderedTable.get_eq_some_iff]
  cases c with
  | put k v =>
    rw [apply, OrderedTable.get_insert, overlayStep, mem_append, mem_filter, h,
      ← OrderedTable.get_eq_some_iff]
    split_ifs with hk <;> simp [hk, eq_comm]
  | del k =>
    rw [apply, OrderedTable.get_erase, overlayStep, mem_filter, h, ← OrderedTable.get_eq_some_iff]
    split_ifs with hk <;> simp [hk]

lemma foldl_overlayStep (cs : List (Change κ ν)) {t : OrderedTable κ ν}
    (hne : rows.Pairwise fun a b => a.1 ≠ b.1) (h : ∀ r, r ∈ rows ↔ r ∈ t.rows) :
    (cs.foldl overlayStep rows).Pairwise (fun a b => a.1 ≠ b.1) ∧
      ∀ r, r ∈ cs.foldl overlayStep rows ↔ r ∈ (applyAll t cs).rows := by
  induction cs generalizing rows t with
  | nil => exact ⟨hne, h⟩
  | cons c cs ih => exact ih (overlayStep_ne c hne) (mem_overlayStep c h)

lemma overlay_rows (cs : List (Change κ ν)) :
    overlay t.rows cs = (applyAll t cs).rows := by
  obtain ⟨hne, hmem⟩ := foldl_overlayStep cs (OrderedTable.ne_of_sorted t.sorted) fun _ => Iff.rfl
  have hperm := perm_insertionSort (fun a b : κ × ν => a.1 ≤ b.1) (cs.foldl overlayStep t.rows)
  have hne' : (overlay t.rows cs).Pairwise fun a b => a.1 ≠ b.1 :=
    hperm.symm.pairwise hne fun hab => hab.symm
  have hle : (overlay t.rows cs).Pairwise fun a b => a.1 ≤ b.1 := pairwise_insertionSort _ _
  refine OrderedTable.rows_eq_of_mem_iff ?_ (applyAll t cs).sorted fun r => ?_
  · exact (hle.and hne').imp fun h => lt_of_le_of_ne h.1 h.2
  · exact hperm.mem_iff.trans (hmem r)

end Change

end Smongo

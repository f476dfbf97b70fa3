import Smongo.Lib.OrderedTable

/-!
# Tailing an ordered log

Entries are published in any order; a reader asks for those above the last key it has received.
-/

namespace Smongo

open List OrderedTable

variable {κ ν : Type*} [LinearOrder κ]

structure Tail (κ ν : Type*) [LinearOrder κ] where
  log : OrderedTable κ ν
  received : List (κ × ν)

namespace Tail

def mark (t : Tail κ ν) : Option κ := t.received.getLast?.map Prod.fst

def Above (mark : Option κ) (k : κ) : Prop := ∀ m ∈ mark, m < k

instance (mark : Option κ) (k : κ) : Decidable (Above mark k) :=
  inferInstanceAs (Decidable (∀ m ∈ mark, m < k))

def publish (t : Tail κ ν) (items : List (κ × ν)) : Tail κ ν :=
  { t with log := Change.applyAll t.log (items.map fun r => .put r.1 r.2) }

def read (taken : ν → Bool) (t : Tail κ ν) : Tail κ ν :=
  { t with
    received := t.received ++ t.log.rows.filter fun r => Above t.mark r.1 ∧ taken r.2 = true }

/-- The keys are new and different from each other. -/
structure Fresh (t : Tail κ ν) (items : List (κ × ν)) : Prop where
  distinct : items.Pairwise fun a b => a.1 ≠ b.1
  new : ∀ r ∈ items, t.log.get r.1 = none

variable {t : Tail κ ν} {items : List (κ × ν)} {r : κ × ν}

lemma mem_publish (h : t.Fresh items) :
    r ∈ (t.publish items).log.rows ↔ r ∈ t.log.rows ∨ r ∈ items := by
  obtain ⟨k, v⟩ := r
  rw [← get_eq_some_iff, publish, Change.get_applyAll_put_rows h.distinct, ← get_eq_some_iff]
  cases hlookup : items.lookup k with
  | none =>
    have hnot : (k, v) ∉ items := fun hmem => by
      rw [(lookup_eq_some_iff h.distinct).mpr hmem] at hlookup
      cases hlookup
    simp [hnot]
  | some v' =>
    have hmem := (lookup_eq_some_iff h.distinct).mp hlookup
    rw [h.new _ hmem, Option.some_or]
    constructor
    · intro heq
      cases heq
      exact .inr hmem
    · rintro (hnone | hmem')
      · cases hnone
      · rw [← hlookup]
        exact (lookup_eq_some_iff h.distinct).mpr hmem'

variable {taken wanted : ν → Bool}

/-- What the reader has is in the log, and in the order of its keys. -/
structure Tracks (t : Tail κ ν) : Prop where
  sorted : t.received.Pairwise fun a b => a.1 < b.1
  sub : ∀ r ∈ t.received, r ∈ t.log.rows

lemma Tracks.publish (h : t.Tracks) (hfresh : t.Fresh items) : (t.publish items).Tracks :=
  ⟨h.sorted, fun r hr => (mem_publish hfresh).mpr (.inl (h.sub r hr))⟩

lemma Tracks.not_above (h : t.Tracks) (hr : r ∈ t.received) : ¬Above t.mark r.1 := by
  intro habove
  have hne := ne_nil_of_mem hr
  have hlast : t.mark = some (t.received.getLast hne).1 := by
    rw [mark, getLast?_eq_some_getLast hne, Option.map_some]
  have hlt := habove _ hlast
  have hsplit := dropLast_append_getLast hne
  rw [← hsplit] at hr
  rcases mem_append.mp hr with hbefore | hlast
  · have hsorted := h.sorted
    rw [← hsplit] at hsorted
    have hle := (pairwise_append.mp hsorted).2.2 r hbefore _ (mem_singleton_self _)
    exact absurd hlt hle.not_gt
  · rw [mem_singleton.mp hlast] at hlt
    exact lt_irrefl _ hlt

lemma Tracks.above_of_above (h : t.Tracks) {k : κ} (hk : Above t.mark k)
    (hr : r ∈ t.received) : r.1 < k := by
  by_contra hle
  refine h.not_above hr fun m hm => ?_
  exact (hk m hm).trans_le (not_lt.mp hle)

lemma Tracks.read (h : t.Tracks) : (t.read taken).Tracks := by
  refine ⟨pairwise_append.mpr ⟨h.sorted, t.log.sorted.filter _, fun a ha b hb => ?_⟩,
    fun r hr => ?_⟩
  · have hb := mem_filter.mp hb
    exact h.above_of_above (of_decide_eq_true hb.2).1 ha
  · rcases mem_append.mp hr with hr | hr
    · exact h.sub r hr
    · exact (mem_filter.mp hr).1

lemma Tracks.mark_read (h : t.Tracks) {k : κ} (hk : Above (t.read taken).mark k) :
    Above t.mark k := by
  intro m hm
  obtain ⟨r, hr, rfl⟩ := Option.map_eq_some_iff.mp hm
  exact h.read.above_of_above hk (mem_append_left _ (mem_of_getLast? hr))

def Caught (wanted : ν → Bool) (t : Tail κ ν) : Prop :=
  ∀ r ∈ t.log.rows, wanted r.2 = true → r ∈ t.received ∨ Above t.mark r.1

def InOrder (wanted : ν → Bool) (t : Tail κ ν) (items : List (κ × ν)) : Prop :=
  ∀ r ∈ items, wanted r.2 = true → Above t.mark r.1

instance (t : Tail κ ν) (items : List (κ × ν)) : Decidable (t.InOrder wanted items) :=
  inferInstanceAs (Decidable (∀ r ∈ items, _))

lemma Caught.publish (h : t.Caught wanted)
    (hfresh : t.Fresh items) (horder : t.InOrder wanted items) :
    (t.publish items).Caught wanted := by
  intro r hr hwanted
  rcases (mem_publish hfresh).mp hr with hr | hr
  · exact h r hr hwanted
  · exact .inr (horder r hr hwanted)

section

variable (h : t.Caught wanted) (htaken : ∀ v, wanted v = true → taken v = true)
include h htaken

lemma Caught.mem_read (hr : r ∈ t.log.rows) (hwanted : wanted r.2 = true) :
    r ∈ (t.read taken).received := by
  rcases h r hr hwanted with hreceived | habove
  · exact mem_append_left _ hreceived
  · refine mem_append_right _ (mem_filter.mpr ⟨hr, decide_eq_true ?_⟩)
    exact ⟨habove, htaken r.2 hwanted⟩

lemma Caught.read : (t.read taken).Caught wanted :=
  fun _ hr hwanted => .inl (h.mem_read htaken hr hwanted)

lemma Caught.received_eq (htracks : t.Tracks) :
    (t.read taken).received.filter (fun r => wanted r.2) =
      (t.read taken).log.rows.filter fun r => wanted r.2 := by
  refine rows_eq_of_mem_iff (htracks.read.sorted.filter _) (t.log.sorted.filter _) fun r => ?_
  rw [mem_filter, mem_filter]
  constructor
  · rintro ⟨hr, hwanted⟩
    exact ⟨htracks.read.sub r hr, hwanted⟩
  · rintro ⟨hr, hwanted⟩
    exact ⟨h.mem_read htaken hr hwanted, hwanted⟩

end

def Missed (wanted : ν → Bool) (t : Tail κ ν) : Prop :=
  ∃ r ∈ t.log.rows, wanted r.2 = true ∧ r ∉ t.received ∧ ¬Above t.mark r.1

lemma missed_publish (htracks : t.Tracks)
    (hfresh : t.Fresh items) (h : ¬t.InOrder wanted items) : (t.publish items).Missed wanted := by
  obtain ⟨r, hr⟩ := not_forall.mp h
  obtain ⟨hr, hrest⟩ := Classical.not_imp.mp hr
  obtain ⟨hwanted, habove⟩ := Classical.not_imp.mp hrest
  refine ⟨r, (mem_publish hfresh).mpr (.inr hr), hwanted, fun hreceived => ?_, habove⟩
  have hget := get_eq_some_iff.mpr (htracks.sub r hreceived)
  rw [hfresh.new r hr] at hget
  cases hget

lemma Missed.publish (h : t.Missed wanted)
    (hfresh : t.Fresh items) : (t.publish items).Missed wanted := by
  obtain ⟨r, hr, hrest⟩ := h
  exact ⟨r, (mem_publish hfresh).mpr (.inl hr), hrest⟩

lemma Missed.read (h : t.Missed wanted) (htracks : t.Tracks) : (t.read taken).Missed wanted := by
  obtain ⟨r, hr, hwanted, hreceived, habove⟩ := h
  refine ⟨r, hr, hwanted, fun hmem => ?_, fun h => habove (htracks.mark_read h)⟩
  rcases mem_append.mp hmem with hmem | hmem
  · exact hreceived hmem
  · exact habove (of_decide_eq_true (mem_filter.mp hmem).2).1

end Tail

end Smongo

import Mathlib.Logic.Function.Basic

/-!
# Indexes derived from a map

An index holds one row for each selected entry of a map, and no other row.
-/

namespace Smongo

variable {κ δ ρ : Type}

/-- `index` points from the row of each selected entry of `data` to its key, and has no other row.
-/
def Derived (p : δ → Bool) (row : δ → κ → ρ) (data : κ → Option δ) (index : ρ → Option κ) : Prop :=
  ∀ r k, index r = some k ↔ ∃ d, data k = some d ∧ p d ∧ row d k = r

namespace Derived

variable {p : δ → Bool} {row : δ → κ → ρ} {data : κ → Option δ} {index : ρ → Option κ} {k : κ}
  {d d' : δ}

lemma empty : Derived p row (fun _ => none) (fun _ => none) := by
  intro r k
  simp

variable [DecidableEq κ]

lemma update (h : Derived p row data index) {e : Option δ} {index' : ρ → Option κ}
    (hself : ∀ r, index' r = some k ↔ ∃ d, e = some d ∧ p d ∧ row d k = r)
    (hother : ∀ r k', k' ≠ k → (index' r = some k' ↔ index r = some k')) :
    Derived p row (Function.update data k e) index' := by
  intro r k'
  rw [Function.update_apply]
  by_cases hk : k' = k
  · subst hk
    rw [if_pos rfl]
    exact hself r
  · rw [if_neg hk, hother r k' hk]
    exact h r k'

lemma keep (h : Derived p row data index) {e : Option δ}
    (hrow : ∀ r, (∃ d, e = some d ∧ p d ∧ row d k = r) ↔ ∃ d, data k = some d ∧ p d ∧ row d k = r) :
    Derived p row (Function.update data k e) index :=
  h.update (fun r => (h r k).trans (hrow r).symm) fun _ _ _ => Iff.rfl

variable [DecidableEq ρ]

lemma insert (h : Derived p row data index) (hk : data k = none) (hd : p d)
    (hapart : ∀ k' d', data k' = some d' → row d' k' ≠ row d k) :
    Derived p row (Function.update data k (some d)) (Function.update index (row d k) (some k)) := by
  refine h.update (fun r => ?_) fun r k' hk' => ?_
  · rw [Function.update_apply]
    by_cases hr : r = row d k
    · rw [if_pos hr]
      exact iff_of_true rfl ⟨d, rfl, hd, hr.symm⟩
    · rw [if_neg hr, h r k, hk]
      constructor
      · rintro ⟨d', hd', -⟩
        cases hd'
      · rintro ⟨d', hd', -, hrow⟩
        cases hd'
        exact absurd hrow.symm hr
  · rw [Function.update_apply]
    split
    · next hr =>
      refine iff_of_false (fun heq => hk' (Option.some.inj heq).symm) fun heq => ?_
      obtain ⟨d', hd', -, hrow⟩ := (h r k').mp heq
      exact hapart k' d' hd' (hrow.trans hr)
    · exact Iff.rfl

lemma erase (h : Derived p row data index) (hk : data k = some d)
    (hapart : ∀ k' d', k' ≠ k → data k' = some d' → row d' k' ≠ row d k) :
    Derived p row (Function.update data k none) (Function.update index (row d k) none) := by
  refine h.update (fun r => ?_) fun r k' hk' => ?_
  · rw [Function.update_apply]
    refine iff_of_false (fun heq => ?_) fun ⟨d', hd', _⟩ => by cases hd'
    split at heq
    · cases heq
    · next hr =>
      obtain ⟨d', hd', -, hrow⟩ := (h r k).mp heq
      rw [hk] at hd'
      cases hd'
      exact hr hrow.symm
  · rw [Function.update_apply]
    split
    · next hr =>
      refine iff_of_false nofun fun heq => ?_
      obtain ⟨d', hd', -, hrow⟩ := (h r k').mp heq
      exact hapart k' d' hk' hd' (hrow.trans hr)
    · exact Iff.rfl

end Derived

end Smongo

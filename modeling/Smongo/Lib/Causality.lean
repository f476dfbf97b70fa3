import Mathlib.Logic.Relation
import Mathlib.Order.Lattice
import Mathlib.Tactic.Common

/-!
# Stamps that tell causality

Events happen at nodes and precede others there and through messages.
-/

namespace Smongo

open Relation

structure Stamping (E N T : Type*) [LinearOrder T] [Zero T] where
  node : E → N
  before : E → E → Prop
  rank : E → ℕ
  rank_lt : ∀ {e f}, before e f → rank e < rank f
  before_of_node : ∀ {e f}, node e = node f → e = f ∨ before e f ∨ before f e
  stamp : E → N → T
  stamp_pos : ∀ e, 0 < stamp e (node e)
  stamp_le : ∀ {e f}, before e f → ∀ n, stamp e n ≤ stamp f n
  stamp_lt : ∀ {e f}, before e f → stamp e (node f) < stamp f (node f)
  source : ∀ {f n}, n ≠ node f → 0 < stamp f n → ∃ e, before e f ∧ stamp f n ≤ stamp e n

namespace Stamping

variable {E N T : Type*} [LinearOrder T] [Zero T] (s : Stamping E N T) {e f : E}

lemma stamp_le_of_reflTransGen (h : ReflTransGen s.before e f) (n : N) :
    s.stamp e n ≤ s.stamp f n := by
  induction h with
  | refl => exact le_rfl
  | tail _ hstep ih => exact ih.trans (s.stamp_le hstep n)

lemma reflTransGen_of_stamp_le (h : s.stamp e (s.node e) ≤ s.stamp f (s.node e)) :
    ReflTransGen s.before e f := by
  induction hrank : s.rank f using Nat.strongRecOn generalizing f with
  | _ r ih =>
    by_cases hnode : s.node e = s.node f
    · rcases s.before_of_node hnode with rfl | hef | hfe
      · exact .refl
      · exact .single hef
      · exact absurd (s.stamp_lt hfe) (not_lt.mpr h)
    · obtain ⟨g, hgf, hle⟩ := s.source hnode ((s.stamp_pos e).trans_le h)
      have hlt : s.rank g < r := hrank ▸ s.rank_lt hgf
      exact (ih (s.rank g) hlt (h.trans hle) rfl).tail hgf

lemma transGen_iff : TransGen s.before e f ↔
    (∀ n, s.stamp e n ≤ s.stamp f n) ∧ ∃ n, s.stamp e n < s.stamp f n := by
  constructor
  · intro h
    obtain ⟨g, heg, hgf⟩ := TransGen.tail'_iff.mp h
    have hlt := (s.stamp_le_of_reflTransGen heg _).trans_lt (s.stamp_lt hgf)
    exact ⟨fun n => s.stamp_le_of_reflTransGen h.to_reflTransGen n, s.node f, hlt⟩
  · rintro ⟨hle, n, hlt⟩
    rcases reflTransGen_iff_eq_or_transGen.mp (s.reflTransGen_of_stamp_le (hle _)) with rfl | h
    · exact absurd hlt (lt_irrefl _)
    · exact h

end Stamping

end Smongo

import Mathlib.Data.List.Perm.Basic
import Mathlib.Tactic.Common

/-!
# Resolving several versions two at a time

A resolver takes two versions and returns one of them; a bracket resolves several.
-/

namespace Smongo

open List

inductive Bracket (α : Type*)
  | leaf (a : α)
  | node (left right : Bracket α)

namespace Bracket

variable {α ε : Type*}

def leaves : Bracket α → List α
  | leaf a => [a]
  | node l r => l.leaves ++ r.leaves

def winner (f : α → α → Except ε α) : Bracket α → Except ε α
  | leaf a => .ok a
  | node l r =>
    match l.winner f, r.winner f with
    | .ok a, .ok b => f a b
    | .error e, _ => .error e
    | .ok _, .error e => .error e

end Bracket

namespace Knockout

variable {α ε : Type*} (f : α → α → Except ε α)

def Selects : Prop := ∀ {a b w}, f a b = .ok w → w = a ∨ w = b

def Beats (a b : α) : Prop := f a b = .ok a ∧ f b a = .ok a

def Decides (a b : α) : Prop := ∃ w, f a b = .ok w ∧ f b a = .ok w

def Circle (a b c : α) : Prop := a ≠ b ∧ Beats f a b ∧ Beats f b c ∧ Beats f c a

variable {f} {x y z : α}

lemma Decides.beats (hf : Selects f) (h : Decides f x y) : Beats f x y ∨ Beats f y x := by
  obtain ⟨w, hxy, hyx⟩ := h
  rcases hf hxy with rfl | rfl
  · exact .inl ⟨hxy, hyx⟩
  · exact .inr ⟨hyx, hxy⟩

lemma Beats.eq_of_beats (h : Beats f x y) (h' : Beats f y x) : x = y := by
  have heq := h.1.symm.trans h'.2
  cases heq
  rfl

lemma winner_eq_of_beats (hf : Selects f) {d : α} (t : Bracket α)
    (hpairs : ∀ a ∈ t.leaves, ∀ b ∈ t.leaves, Decides f a b) (hd : ∀ a ∈ t.leaves, Beats f d a) :
    ∃ w ∈ t.leaves, t.winner f = .ok w ∧ (d ∈ t.leaves → w = d) := by
  induction t with
  | leaf a => exact ⟨a, mem_singleton_self a, rfl, fun h => (mem_singleton.mp h).symm⟩
  | node l r ihl ihr =>
    have hl : ∀ a ∈ l.leaves, a ∈ (Bracket.node l r).leaves := fun a => mem_append_left _
    have hr : ∀ a ∈ r.leaves, a ∈ (Bracket.node l r).leaves := fun a => mem_append_right _
    obtain ⟨u, hu, hlu, hlast⟩ := ihl (fun a ha b hb => hpairs a (hl a ha) b (hl b hb))
      fun a ha => hd a (hl a ha)
    obtain ⟨v, hv, hrv, hrast⟩ := ihr (fun a ha b hb => hpairs a (hr a ha) b (hr b hb))
      fun a ha => hd a (hr a ha)
    obtain ⟨w, huv, -⟩ := hpairs u (hl u hu) v (hr v hv)
    have hwinner : (Bracket.node l r).winner f = .ok w := by
      rw [Bracket.winner, hlu, hrv]
      exact huv
    have hmem : w ∈ (Bracket.node l r).leaves := by
      rcases hf huv with rfl | rfl
      · exact hl _ hu
      · exact hr _ hv
    refine ⟨w, hmem, hwinner, fun hdmem => ?_⟩
    rcases mem_append.mp hdmem with h | h
    · have hbeats := hd v (hr v hv)
      rw [hlast h, hbeats.1] at huv
      cases huv
      rfl
    · have hbeats := hd u (hl u hu)
      rw [hrast h, hbeats.2] at huv
      cases huv
      rfl

lemma exists_winner_of_beats (hf : Selects f) {docs : List α} {d : α}
    (hpairs : ∀ a ∈ docs, ∀ b ∈ docs, Decides f a b) (hmem : d ∈ docs)
    (hd : ∀ a ∈ docs, Beats f d a) :
    ∃ d, ∀ t : Bracket α, t.leaves.Perm docs → t.winner f = .ok d := by
  refine ⟨d, fun t ht => ?_⟩
  obtain ⟨w, -, hw, hwd⟩ := winner_eq_of_beats hf t
    (fun a ha b hb => hpairs a (ht.subset ha) b (ht.subset hb)) fun a ha => hd a (ht.subset ha)
  rw [hw, hwd (ht.symm.subset hmem)]

lemma Circle.not_exists_winner (h : Circle f x y z) :
    ¬ ∃ d, ∀ t : Bracket α, t.leaves.Perm [x, y, z] → t.winner f = .ok d := by
  rintro ⟨d, hd⟩
  obtain ⟨hne, hxy, hyz, hzx⟩ := h
  have hlast : f x z = .ok d := by
    have hwinner := hd (.node (.node (.leaf x) (.leaf y)) (.leaf z)) (List.Perm.refl _)
    simp only [Bracket.winner, hxy.1] at hwinner
    exact hwinner
  have hfirst : f x y = .ok d := by
    have hwinner := hd (.node (.leaf x) (.node (.leaf y) (.leaf z))) (List.Perm.refl _)
    simp only [Bracket.winner, hyz.1] at hwinner
    exact hwinner
  have hdz := hzx.2.symm.trans hlast
  have hdx := hxy.1.symm.trans hfirst
  cases hdz
  cases hdx
  exact hne (hxy.eq_of_beats ⟨hyz.1, hyz.2⟩)

lemma exists_winner_three_iff (hf : Selects f)
    (hpairs : ∀ a ∈ [x, y, z], ∀ b ∈ [x, y, z], Decides f a b) :
    (∃ d, ∀ t : Bracket α, t.leaves.Perm [x, y, z] → t.winner f = .ok d) ↔
      ∀ a b c, [a, b, c].Perm [x, y, z] → ¬ Circle f a b c := by
  constructor
  · intro hd a b c hperm hcircle
    apply hcircle.not_exists_winner
    obtain ⟨d, hd⟩ := hd
    exact ⟨d, fun t ht => hd t (ht.trans hperm)⟩
  · intro hcircle
    have hx : x ∈ [x, y, z] := by simp
    have hy : y ∈ [x, y, z] := by simp
    have hz : z ∈ [x, y, z] := by simp
    have hself : ∀ a ∈ [x, y, z], Beats f a a := fun a ha => by
      rcases (hpairs a ha a ha).beats hf with h | h <;> exact h
    have champion : ∀ d ∈ [x, y, z], Beats f d x → Beats f d y → Beats f d z →
        ∃ d, ∀ t : Bracket α, t.leaves.Perm [x, y, z] → t.winner f = .ok d := by
      intro d hd hdx hdy hdz
      apply exists_winner_of_beats hf hpairs hd
      intro a ha
      simp only [mem_cons, not_mem_nil, or_false] at ha
      rcases ha with rfl | rfl | rfl <;> assumption
    -- the winner of `x` and `y` meets `z`; if `z` wins, it still has to meet the loser
    rcases (hpairs x hx y hy).beats hf with hxy | hyx
    · rcases (hpairs x hx z hz).beats hf with hxz | hzx
      · exact champion x hx (hself x hx) hxy hxz
      · rcases (hpairs y hy z hz).beats hf with hyz | hzy
        · by_cases hne : x = y
          · subst hne
            obtain rfl := hzx.eq_of_beats hyz
            exact champion z hz hzx hzx hzx
          · exact absurd ⟨hne, hxy, hyz, hzx⟩ (hcircle x y z (List.Perm.refl _))
        · exact champion z hz hzx hzy (hself z hz)
    · rcases (hpairs y hy z hz).beats hf with hyz | hzy
      · exact champion y hy hyx (hself y hy) hyz
      · rcases (hpairs x hx z hz).beats hf with hxz | hzx
        · by_cases hne : y = x
          · subst hne
            obtain rfl := hzy.eq_of_beats hxz
            exact champion z hz hzy hzy hzy
          · exact absurd ⟨hne, hyx, hxz, hzy⟩ (hcircle y x z (List.Perm.swap _ _ _))
        · exact champion z hz hzx hzy (hself z hz)

end Knockout

end Smongo

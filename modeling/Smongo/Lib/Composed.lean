import Smongo.Lib.Effect

/-!
# Computations composed of given ones

They are put together by sequencing and by inspecting or renaming errors.
-/

namespace Smongo

open List Eff Outcome

namespace Eff

variable {σ ε α β : Type}

/-- From related states `m` has equal outcomes and leaves related states, with `Q` of the result. -/
def Respects (R : σ → σ → Prop) (m : Eff σ ε α) (Q : α → Prop := fun _ => True) : Prop :=
  ∀ s t, R s t → (m s).1 = (m t).1 ∧ R (m s).2 (m t).2 ∧ ∀ a, (m s).1 = .ok a → Q a

namespace Respects

variable {R : σ → σ → Prop} {m : Eff σ ε α} {f : α → Eff σ ε β} {Q : α → Prop} {Q' : β → Prop}

lemma ofOutcome {r : Outcome ε α} (h : ∀ a, r = .ok a → Q a) : Respects R (ofOutcome r) Q :=
  fun _ _ hst => ⟨rfl, hst, h⟩

lemma modify {g : σ → σ} (h : ∀ s t, R s t → R (g s) (g t)) :
    Respects R (modify g : Eff σ ε Unit) :=
  fun s t hst => ⟨rfl, h s t hst, fun _ _ => trivial⟩

lemma read {g : σ → α} (h : ∀ s t, R s t → g s = g t) : Respects R (read g : Eff σ ε α) :=
  fun s t hst => ⟨congrArg ok (h s t hst), hst, fun _ _ => trivial⟩

lemma bind (hm : Respects R m Q) (hf : ∀ a, Q a → Respects R (f a) Q') :
    Respects R (m >>= f) Q' := by
  intro s t hst
  obtain ⟨houtcome, hrel, hq⟩ := hm s t hst
  rw [bind_apply, bind_apply]
  rcases hs : m s with ⟨a | e | _, s'⟩ <;> rcases ht : m t with ⟨b | e' | _, t'⟩ <;>
    rw [hs, ht] at houtcome hrel <;> rw [hs] at hq <;> cases houtcome
  · exact hf a (hq a rfl) s' t' hrel
  · exact ⟨rfl, hrel, nofun⟩
  · exact ⟨rfl, hrel, nofun⟩

lemma attempt (hm : Respects R m Q) : Respects R (attempt m : Eff σ ε _) := by
  intro s t hst
  obtain ⟨houtcome, hrel, -⟩ := hm s t hst
  unfold Eff.attempt
  rcases hs : m s with ⟨a | e | _, s'⟩ <;> rcases ht : m t with ⟨b | e' | _, t'⟩ <;>
    rw [hs, ht] at houtcome hrel <;> cases houtcome <;>
    exact ⟨rfl, hrel, fun _ _ => trivial⟩

lemma mapError {ε' : Type} (g : ε → ε') (hm : Respects R m Q) : Respects R (mapError g m) Q := by
  intro s t hst
  obtain ⟨houtcome, hrel, hq⟩ := hm s t hst
  exact ⟨congrArg (Outcome.mapError g) houtcome, hrel, fun a ha => hq a (mapError_eq_ok.mp ha)⟩

lemma pure {a : α} (h : Q a) : Respects R (pure a : Eff σ ε α) Q := by
  refine ofOutcome (r := .ok a) fun b hb => ?_
  cases hb
  exact h

lemma map {g : α → β} (hm : Respects R m Q) : Respects R (m >>= fun a => Pure.pure (g a)) :=
  hm.bind fun _ _ => pure trivial

lemma fail (e : ε) : Respects R (fail e : Eff σ ε α) Q :=
  ofOutcome (r := .error e) nofun

lemma ite {c : Prop} [Decidable c] {m' : Eff σ ε α} (hm : Respects R m Q)
    (hm' : Respects R m' Q) : Respects R (if c then m else m') Q := by
  split <;> assumption

lemma forM {γ : Type} {body : γ → Eff σ ε PUnit} (xs : List γ)
    (h : ∀ x ∈ xs, Respects R (body x)) : Respects R (xs.forM body) := by
  induction xs with
  | nil => exact pure trivial
  | cons x xs ih =>
    exact bind (h x mem_cons_self) fun _ _ => ih fun y hy => h y (mem_cons_of_mem x hy)

lemma of_map {g : α → β} (hg : Function.Injective g)
    (h : Respects R (m >>= fun a => Pure.pure (g a))) : Respects R m := by
  intro s t hst
  obtain ⟨houtcome, hrel, -⟩ := h s t hst
  rw [snd_bind_pure, snd_bind_pure] at hrel
  refine ⟨?_, hrel, fun _ _ => trivial⟩
  rw [bind_apply, bind_apply] at houtcome
  rcases hs : m s with ⟨a | e | _, s'⟩ <;> rcases ht : m t with ⟨b | e' | _, t'⟩ <;>
    rw [hs, ht] at houtcome <;>
    simp only [pure_apply, ok.injEq, error.injEq, reduceCtorEq] at houtcome ⊢
  · exact hg houtcome
  · exact houtcome

lemma weaken {Q₀ : α → Prop} (hm : Respects R m Q) (h : ∀ a, Q a → Q₀ a) : Respects R m Q₀ := by
  intro s t hst
  obtain ⟨houtcome, hrel, hq⟩ := hm s t hst
  exact ⟨houtcome, hrel, fun a ha => h a (hq a ha)⟩

end Respects

/-- The computations composed of those in `prim`; each is listed with a property of what it
returns. -/
inductive Composed (prim : ∀ α : Type, Eff σ ε α → (α → Prop) → Prop) :
    ∀ {α : Type}, Eff σ ε α → (α → Prop) → Prop
  | prim {α : Type} {m : Eff σ ε α} {Q : α → Prop} (h : prim α m Q) : Composed prim m Q
  | outcome {α : Type} {r : Outcome ε α} {Q : α → Prop} (h : ∀ a, r = .ok a → Q a) :
      Composed prim (ofOutcome r) Q
  | bind {α β : Type} {m : Eff σ ε α} {f : α → Eff σ ε β} {Q : α → Prop} {Q' : β → Prop}
      (hm : Composed prim m Q) (hf : ∀ a, Q a → Composed prim (f a) Q') :
      Composed prim (m >>= f) Q'
  | attempt {α : Type} {m : Eff σ ε α} {Q : α → Prop} (hm : Composed prim m Q) :
      Composed prim (attempt m) fun _ => True
  | mapError {α : Type} {m : Eff σ ε α} {Q : α → Prop} (g : ε → ε) (hm : Composed prim m Q) :
      Composed prim (mapError g m) Q
  | weaken {α : Type} {m : Eff σ ε α} {Q Q₀ : α → Prop} (hm : Composed prim m Q)
      (h : ∀ a, Q a → Q₀ a) : Composed prim m Q₀

namespace Composed

variable {prim : ∀ α : Type, Eff σ ε α → (α → Prop) → Prop} {m : Eff σ ε α} {Q : α → Prop}

lemma pure {a : α} (h : Q a) : Composed prim (pure a : Eff σ ε α) Q := by
  refine outcome (r := .ok a) fun b hb => ?_
  cases hb
  exact h

lemma map {g : α → β} (hm : Composed prim m Q) :
    Composed prim (m >>= fun a => Pure.pure (g a)) fun _ => True :=
  hm.bind fun _ _ => pure trivial

lemma fail (e : ε) : Composed prim (fail e : Eff σ ε α) Q :=
  outcome (r := .error e) nofun

lemma ofOutcome (r : Outcome ε α) : Composed prim (ofOutcome r) fun _ => True :=
  outcome fun _ _ => trivial

lemma ite {c : Prop} [Decidable c] {m' : Eff σ ε α} (hm : Composed prim m Q)
    (hm' : Composed prim m' Q) : Composed prim (if c then m else m') Q := by
  split <;> assumption

lemma forM {γ : Type} {body : γ → Eff σ ε PUnit} (xs : List γ)
    (h : ∀ x ∈ xs, Composed prim (body x) fun _ => True) :
    Composed prim (xs.forM body) fun _ => True := by
  induction xs with
  | nil => exact pure trivial
  | cons x xs ih =>
    exact bind (h x mem_cons_self) fun _ _ => ih fun y hy => h y (mem_cons_of_mem x hy)

lemma foldlM {γ : Type} {body : β → γ → Eff σ ε β} (xs : List γ) (acc : β)
    (h : ∀ acc x, Composed prim (body acc x) fun _ => True) :
    Composed prim (xs.foldlM body acc) fun _ => True := by
  induction xs generalizing acc with
  | nil => exact pure trivial
  | cons x xs ih => exact bind (h acc x) fun acc' _ => ih acc'

lemma moves {F : Frame σ} (hprim : ∀ {α : Type} {m : Eff σ ε α} {Q : α → Prop},
    prim α m Q → Moves F m Q) (h : Composed prim m Q) : Moves F m Q := by
  induction h with
  | prim h => exact hprim h
  | outcome h => exact fun s => ⟨F.refl s, h⟩
  | bind _ _ hm hf => exact hm.bind hf
  | attempt _ hm => exact hm.attempt
  | mapError g _ hm => exact hm.mapError g
  | weaken _ h hm => exact hm.weaken h

lemma respects {R : σ → σ → Prop} (hprim : ∀ {α : Type} {m : Eff σ ε α} {Q : α → Prop},
    prim α m Q → Respects R m Q) (h : Composed prim m Q) : Respects R m Q := by
  induction h with
  | prim h => exact hprim h
  | outcome h => exact .ofOutcome h
  | bind _ _ hm hf => exact hm.bind hf
  | attempt _ hm => exact hm.attempt
  | mapError g _ hm => exact hm.mapError g
  | weaken _ h hm => exact hm.weaken h

end Composed

end Eff

end Smongo

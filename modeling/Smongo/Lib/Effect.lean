import Mathlib.Data.List.Forall2
import Mathlib.Logic.Function.Iterate
import Mathlib.Tactic.Common

/-!
# Computations with state, errors and panics

`Eff σ ε α` reads and writes a state and ends with a value, an error or a panic.
-/

namespace Smongo

open List

inductive Outcome (ε α : Type)
  | ok (value : α)
  | error (err : ε)
  | panic
deriving DecidableEq

namespace Outcome

variable {ε ε' α β : Type}

def bind : Outcome ε α → (α → Outcome ε β) → Outcome ε β
  | ok a, f => f a
  | error e, _ => error e
  | panic, _ => panic

instance : Monad (Outcome ε) where
  pure := ok
  bind := bind

@[simp] lemma pure_eq (a : α) : (pure a : Outcome ε α) = ok a := rfl
@[simp] lemma ok_bind (a : α) (f : α → Outcome ε β) : (ok a >>= f) = f a := rfl
@[simp] lemma error_bind (e : ε) (f : α → Outcome ε β) : (error e >>= f) = error e := rfl
@[simp] lemma panic_bind (f : α → Outcome ε β) : (panic >>= f) = panic := rfl

lemma bind_eq_ok {m : Outcome ε α} {f : α → Outcome ε β} {b : β} :
    (m >>= f) = ok b ↔ ∃ a, m = ok a ∧ f a = ok b := by
  cases m <;> simp

instance : LawfulMonad (Outcome ε) :=
  LawfulMonad.mk' (Outcome ε) (fun m => by cases m <;> rfl) (fun _ _ => rfl)
    (fun m _ _ => by cases m <;> rfl)

lemma mapM_eq_ok {f : α → Outcome ε β} {l : List α} {out : List β} :
    l.mapM f = ok out ↔ List.Forall₂ (fun a b => f a = ok b) l out := by
  induction l generalizing out with
  | nil => simp [eq_comm]
  | cons a l ih =>
    simp only [mapM_cons, bind_eq_ok, pure_eq, ok.injEq, ih, forall₂_cons_left_iff]
    constructor
    · rintro ⟨b, hb, rest, hrest, rfl⟩
      exact ⟨b, rest, hb, hrest, rfl⟩
    · rintro ⟨b, rest, hb, hrest, rfl⟩
      exact ⟨b, hb, rest, hrest, rfl⟩

/-- A loop that asks first and then moves on: ask for all the elements, then loop. -/
lemma foldlM_eq_mapM {γ : Type} (f : α → Outcome ε β) (g : γ → β → γ) (l : List α) (c : γ) :
    l.foldlM (fun c a => do let b ← f a; ok (g c b)) c =
      l.mapM f >>= fun bs => ok (bs.foldl g c) := by
  induction l generalizing c with
  | nil => rfl
  | cons a l ih =>
    rw [foldlM_cons, mapM_cons]
    cases f a with
    | ok b =>
      simp only [ok_bind, ih, pure_eq]
      cases l.mapM f <;> rfl
    | error e | panic => rfl

variable (g : ε → ε')

def mapError : Outcome ε α → Outcome ε' α
  | ok a => ok a
  | error e => error (g e)
  | panic => panic

@[simp] lemma mapError_ok (a : α) : (ok a : Outcome ε α).mapError g = ok a := rfl
@[simp] lemma mapError_error (e : ε) : (error e : Outcome ε α).mapError g = error (g e) := rfl
@[simp] lemma mapError_panic : (panic : Outcome ε α).mapError g = panic := rfl

lemma mapError_eq_ok {g : ε → ε'} {m : Outcome ε α} {a : α} : m.mapError g = ok a ↔ m = ok a := by
  cases m <;> simp

def ofExcept : Except ε α → Outcome ε α
  | .ok a => ok a
  | .error e => error e

@[simp] lemma ofExcept_ok (a : α) : ofExcept (.ok a : Except ε α) = ok a := rfl
@[simp] lemma ofExcept_error (e : ε) : ofExcept (.error e : Except ε α) = error e := rfl

lemma ofExcept_eq_ok {r : Except ε α} {a : α} : ofExcept r = ok a ↔ r = .ok a := by
  cases r <;> simp

/-- An error is replaced by a default value; a panic is not. -/
def unwrapOr (default : α) : Outcome ε α → Outcome ε' α
  | ok a => ok a
  | error _ => ok default
  | panic => panic

end Outcome

def Eff (σ ε α : Type) : Type := σ → Outcome ε α × σ

namespace Eff

variable {σ τ ε ε' α β : Type}

def bind (m : Eff σ ε α) (f : α → Eff σ ε β) : Eff σ ε β := fun s =>
  match m s with
  | (.ok a, s') => f a s'
  | (.error e, s') => (.error e, s')
  | (.panic, s') => (.panic, s')

instance : Monad (Eff σ ε) where
  pure a := fun s => (.ok a, s)
  bind := bind

def ofOutcome (r : Outcome ε α) : Eff σ ε α := fun s => (r, s)

def fail (e : ε) : Eff σ ε α := fun s => (.error e, s)

def read (f : σ → α) : Eff σ ε α := fun s => (.ok (f s), s)

def modify (f : σ → σ) : Eff σ ε Unit := fun s => (.ok (), f s)

def attempt (m : Eff σ ε α) : Eff σ ε' (Except ε α) := fun s =>
  match m s with
  | (.ok a, s') => (.ok (.ok a), s')
  | (.error e, s') => (.ok (.error e), s')
  | (.panic, s') => (.panic, s')

def mapError (g : ε → ε') (m : Eff σ ε α) : Eff σ ε' α := fun s => ((m s).1.mapError g, (m s).2)

def zoom (get : σ → τ) (put : τ → σ → σ) (m : Eff τ ε α) : Eff σ ε α := fun s =>
  ((m (get s)).1, put (m (get s)).2 s)

section

variable (s : σ)

@[simp] lemma pure_apply (a : α) : (pure a : Eff σ ε α) s = (.ok a, s) := rfl

lemma bind_apply (m : Eff σ ε α) (f : α → Eff σ ε β) : (m >>= f) s = match m s with
      | (.ok a, s') => f a s'
      | (.error e, s') => (.error e, s')
      | (.panic, s') => (.panic, s') := rfl

lemma fst_bind_ofOutcome (m : Eff σ ε α) (f : α → Outcome ε β) :
    ((m >>= fun a => ofOutcome (f a)) s).1 = (m s).1 >>= f := by
  rw [bind_apply]
  rcases m s with ⟨_ | _ | _, s'⟩ <;> rfl

@[simp] lemma ofOutcome_apply (r : Outcome ε α) : (ofOutcome r : Eff σ ε α) s = (r, s) := rfl
@[simp] lemma fail_apply (e : ε) : (fail e : Eff σ ε α) s = (.error e, s) := rfl
@[simp] lemma read_apply (f : σ → α) : (read f : Eff σ ε α) s = (.ok (f s), s) := rfl
@[simp] lemma modify_apply (f : σ → σ) : (modify f : Eff σ ε Unit) s = (.ok (), f s) := rfl

@[simp] lemma mapError_apply (g : ε → ε') (m : Eff σ ε α) :
    mapError g m s = ((m s).1.mapError g, (m s).2) := rfl

@[simp] lemma zoom_apply (get : σ → τ) (put : τ → σ → σ) (m : Eff τ ε α) :
    zoom get put m s = ((m (get s)).1, put (m (get s)).2 s) := rfl

end

variable {s s' : σ} {m : Eff σ ε α} {f : α → Eff σ ε β}

lemma bind_of_ok {a : α} (h : m s = (.ok a, s')) : (m >>= f) s = f a s' := by rw [bind_apply, h]

lemma bind_of_error {e : ε} (h : m s = (.error e, s')) : (m >>= f) s = (.error e, s') := by
  rw [bind_apply, h]

lemma bind_of_panic (h : m s = (.panic, s')) : (m >>= f) s = (.panic, s') := by rw [bind_apply, h]

lemma bind_eq_ok {b : β} : (m >>= f) s = (.ok b, s') ↔
    ∃ a t, m s = (.ok a, t) ∧ f a t = (.ok b, s') := by
  rw [bind_apply]
  rcases h : m s with ⟨_ | _ | _, t⟩ <;> simp

lemma bind_bind {γ : Type} (g : β → Eff σ ε γ) : (m >>= f) >>= g = m >>= fun a => f a >>= g := by
  funext s
  simp only [bind_apply]
  rcases m s with ⟨_ | _ | _, t⟩ <;> rfl

lemma snd_bind_pure (m : Eff σ ε α) (g : α → β) :
    ((m >>= fun a => pure (g a)) s).2 = (m s).2 := by
  rw [bind_apply]
  rcases m s with ⟨_ | _ | _, t⟩ <;> rfl

lemma ofOutcome_bind_eq_ok {r : Outcome ε α} {b : β} :
    (ofOutcome r >>= f) s = (.ok b, s') ↔ ∃ a, r = .ok a ∧ f a s = (.ok b, s') := by
  rw [bind_apply, ofOutcome_apply]
  cases r <;> simp

lemma attempt_of_ok {a : α} (h : m s = (.ok a, s')) :
    (attempt m : Eff σ ε' _) s = (.ok (.ok a), s') := by
  rw [attempt, h]

lemma attempt_of_error {e : ε} (h : m s = (.error e, s')) :
    (attempt m : Eff σ ε' _) s = (.ok (.error e), s') := by
  rw [attempt, h]

structure Frame (σ : Type) where
  rel : σ → σ → Prop
  refl : ∀ s, rel s s
  trans : ∀ {s t u}, rel s t → rel t u → rel s u

/-- A composite moves along the frame if its parts do. -/
lemma Frame.rel_bind {R : Frame σ} (hm : R.rel s (m s).2)
    (hf : ∀ a t, m s = (.ok a, t) → R.rel t (f a t).2) : R.rel s ((m >>= f) s).2 := by
  rw [bind_apply]
  rcases h : m s with ⟨a | e | _, t⟩ <;> rw [h] at hm
  · exact R.trans hm (hf a t h)
  · exact hm
  · exact hm

/-- The state moves along the frame whatever the outcome, and what is returned has the property `Q`.
-/
def Moves (R : Frame σ) (m : Eff σ ε α) (Q : α → Prop := fun _ => True) : Prop :=
  ∀ s, R.rel s (m s).2 ∧ ∀ a, (m s).1 = .ok a → Q a

namespace Moves

variable {R : Frame σ} {Q : α → Prop} {Q' : β → Prop}

lemma of_still (h : ∀ s, (m s).2 = s) : Moves R m := fun s => by
  rw [h]
  exact ⟨R.refl s, fun _ _ => trivial⟩

lemma pure {a : α} (h : Q a) : Moves R (pure a : Eff σ ε α) Q := by
  refine fun s => ⟨R.refl s, fun b hb => ?_⟩
  cases hb
  exact h

lemma ofOutcome (r : Outcome ε α) : Moves R (Eff.ofOutcome r : Eff σ ε α) := of_still fun _ => rfl

lemma fail (e : ε) : Moves R (Eff.fail e : Eff σ ε α) Q :=
  fun s => ⟨R.refl s, nofun⟩

lemma read (g : σ → α) : Moves R (Eff.read g : Eff σ ε α) := of_still fun _ => rfl

lemma bind (hm : Moves R m Q) (hf : ∀ a, Q a → Moves R (f a) Q') : Moves R (m >>= f) Q' := by
  intro s
  obtain ⟨hs, hq⟩ := hm s
  rw [bind_apply]
  rcases h : m s with ⟨a | e | _, t⟩ <;> rw [h] at hs hq
  · obtain ⟨ht, hb⟩ := hf a (hq a rfl) t
    exact ⟨R.trans hs ht, hb⟩
  · exact ⟨hs, nofun⟩
  · exact ⟨hs, nofun⟩

lemma map {g : α → β} (hm : Moves R m Q) : Moves R (m >>= fun a => Pure.pure (g a)) :=
  hm.bind fun _ _ => pure trivial

lemma weaken {Q₀ : α → Prop} (hm : Moves R m Q) (h : ∀ a, Q a → Q₀ a) : Moves R m Q₀ :=
  fun s => ⟨(hm s).1, fun a ha => h a ((hm s).2 a ha)⟩

lemma attempt (hm : Moves R m Q) : Moves R (m.attempt : Eff σ ε' _) := by
  intro s
  obtain ⟨hs, -⟩ := hm s
  refine ⟨?_, fun _ _ => trivial⟩
  unfold Eff.attempt
  rcases h : m s with ⟨_ | _ | _, t⟩ <;> rw [h] at hs <;> exact hs

lemma mapError (g : ε → ε') (hm : Moves R m Q) : Moves R (Eff.mapError g m) Q :=
  fun s => ⟨(hm s).1, fun a ha => (hm s).2 a (Outcome.mapError_eq_ok.mp ha)⟩

lemma forM {γ : Type} {body : γ → Eff σ ε PUnit} (xs : List γ)
    (h : ∀ x ∈ xs, Moves R (body x)) : Moves R (xs.forM body) := by
  induction xs with
  | nil => exact pure trivial
  | cons x xs ih =>
    exact bind (h x mem_cons_self) fun _ _ => ih fun y hy => h y (mem_cons_of_mem x hy)

lemma ite {c : Prop} [Decidable c] {m' : Eff σ ε α} (hm : Moves R m Q) (hm' : Moves R m' Q) :
    Moves R (if c then m else m') Q := by
  split <;> assumption

end Moves

end Eff

section

variable {σ τ : Type}

/-- Every step of the run from `s` meets the guard in the state where it is taken. -/
def Along (step : σ → τ → σ) (guard : σ → τ → Prop) : σ → List τ → Prop
  | _, [] => True
  | s, c :: cs => guard s c ∧ Along step guard (step s c) cs

instance Along.decidable (step : σ → τ → σ) (guard : σ → τ → Prop)
    [∀ s c, Decidable (guard s c)] : ∀ s cs, Decidable (Along step guard s cs)
  | _, [] => .isTrue trivial
  | s, c :: cs => @instDecidableAnd _ _ _ (Along.decidable step guard (step s c) cs)

variable {step : σ → τ → σ} {guard : σ → τ → Prop} {s : σ} {cs : List τ}

lemma Along.mono {guard' : σ → τ → Prop}
    (h : ∀ s c, guard s c → guard' s c) (hcs : Along step guard s cs) :
    Along step guard' s cs := by
  induction cs generalizing s with
  | nil => trivial
  | cons c cs ih => exact ⟨h s c hcs.1, ih hcs.2⟩

lemma Along.history {I : List τ → σ → Prop}
    (hstep : ∀ done s c, I done s → guard s c → I (done ++ [c]) (step s c))
    (done : List τ) (hs : I done s) (hcs : Along step guard s cs) :
    I (done ++ cs) (cs.foldl step s) := by
  induction cs generalizing s done with
  | nil => rwa [append_nil]
  | cons c cs ih =>
    rw [append_cons]
    exact ih (done ++ [c]) (hstep done s c hs hcs.1) hcs.2

lemma Along.invariant {I : σ → Prop} (hstep : ∀ s c, I s → guard s c → I (step s c)) (hs : I s)
    (hcs : Along step guard s cs) : I (cs.foldl step s) :=
  Along.history (I := fun _ => I) (fun _ => hstep) [] hs hcs

section

variable {f : σ → σ} {I P : σ → Prop} {s : σ}

section

variable (rank : σ → ℕ) (hI : ∀ s, I s → I (f s))
  (hrank : ∀ s, I s → ¬ P s → P (f s) ∨ rank (f s) < rank s) (hs : I s)
include rank hI hrank hs

lemma exists_iterate_of_rank :
    ∃ n, P (f^[n] s) := by
  induction hr : rank s using Nat.strongRecOn generalizing s with
  | ind r ih =>
    by_cases hP : P s
    · exact ⟨0, hP⟩
    · rcases hrank s hs hP with hnext | hlt
      · exact ⟨1, hnext⟩
      · obtain ⟨n, hn⟩ := ih _ (hr ▸ hlt) (hI s hs) rfl
        exact ⟨n + 1, hn⟩

lemma eventually_of_rank (hP : ∀ s, P s → P (f s)) :
    ∃ n, ∀ m, n ≤ m → P (f^[m] s) := by
  obtain ⟨n, hn⟩ := exists_iterate_of_rank rank hI hrank hs
  refine ⟨n, fun m hm => ?_⟩
  obtain ⟨k, rfl⟩ := Nat.exists_eq_add_of_le hm
  clear hm
  induction k with
  | zero => exact hn
  | succ k ih =>
    rw [← Nat.add_assoc, Function.iterate_succ_apply']
    exact hP _ ih

end

end

end

end Smongo

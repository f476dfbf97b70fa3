import Smongo.Lib.Composed

/-!
# Client programs

A script calls operations of an interface one at a time.
-/

namespace Smongo

/-- `ι` are the calls, `ρ` what a successful one returns. -/
inductive Script (ι ρ ε α : Type)
  | done (value : α)
  | raise (err : ε)
  | call (i : ι) (next : Except ε ρ → Script ι ρ ε α)

namespace Script

variable {ι ρ ε α σ : Type}

def run (exec : ι → Eff σ ε ρ) : Script ι ρ ε α → Eff σ ε α
  | done a => pure a
  | raise e => Eff.fail e
  | call i next => (exec i).attempt >>= fun r => run exec (next r)

def Guarded (exec : ι → Eff σ ε ρ) (guard : σ → ι → Prop) : Script ι ρ ε α → σ → Prop
  | done _, _ => True
  | raise _, _ => True
  | call i next, s =>
    guard s i ∧ match exec i s with
      | (.ok r, s') => Guarded exec guard (next (.ok r)) s'
      | (.error e, s') => Guarded exec guard (next (.error e)) s'
      | (.panic, _) => True

/-- The script stops at the first call that fails, as with Rust's `?`. -/
def Propagates : Script ι ρ ε α → Prop
  | done _ => True
  | raise _ => True
  | call _ next => (∀ e, ∃ e', next (.error e) = .raise e') ∧ ∀ r, Propagates (next (.ok r))

variable {exec : ι → Eff σ ε ρ} {guard : σ → ι → Prop} {s : σ}

lemma run_moves {R : Eff.Frame σ} (hcall : ∀ s i, guard s i → R.rel s (exec i s).2)
    (script : Script ι ρ ε α) (h : script.Guarded exec guard s) :
    R.rel s (script.run exec s).2 := by
  induction script generalizing s with
  | done a | raise e => exact R.refl s
  | call i next ih =>
    rw [Guarded] at h
    obtain ⟨hguard, hrest⟩ := h
    have hstep := hcall s i hguard
    rw [run]
    rcases hexec : exec i s with ⟨r | e | _, s'⟩ <;> rw [hexec] at hstep hrest
    · rw [Eff.bind_of_ok (Eff.attempt_of_ok hexec)]
      exact R.trans hstep (ih _ hrest)
    · rw [Eff.bind_of_ok (Eff.attempt_of_error hexec)]
      exact R.trans hstep (ih _ hrest)
    · have hpanic : (Eff.attempt (exec i) : Eff σ ε _) s = (.panic, s') := by
        rw [Eff.attempt, hexec]
      rw [Eff.bind_of_panic hpanic]
      exact hstep

lemma guarded_true (script : Script ι ρ ε α) (s : σ) :
    script.Guarded exec (fun _ _ => True) s := by
  induction script generalizing s with
  | done a | raise e => trivial
  | call i next ih =>
    rw [Guarded]
    refine ⟨trivial, ?_⟩
    rcases exec i s with ⟨r | e | _, s'⟩
    · exact ih _ s'
    · exact ih _ s'
    · trivial

lemma run_respects {R : σ → σ → Prop} (hcall : ∀ i, Eff.Respects R (exec i))
    (script : Script ι ρ ε α) : Eff.Respects R (script.run exec) := by
  induction script with
  | done a => exact .pure trivial
  | raise e => exact .fail e
  | call i next ih => exact (hcall i).attempt.bind fun r _ => ih r

/-- What successful guarded calls preserve holds after every successful guarded script that
propagates errors. -/
lemma run_invariant {I : σ → Prop}
    (hcall : ∀ s i r s', I s → guard s i → exec i s = (.ok r, s') → I s')
    (script : Script ι ρ ε α) (hprop : script.Propagates) (hs : I s)
    (h : script.Guarded exec guard s) {a : α} {s' : σ} (hrun : script.run exec s = (.ok a, s')) :
    I s' := by
  induction script generalizing s with
  | done b =>
    cases hrun
    exact hs
  | raise e => cases hrun
  | call i next ih =>
    rw [Guarded] at h
    obtain ⟨hguard, hrest⟩ := h
    obtain ⟨hraise, hnext⟩ := hprop
    obtain ⟨r, t, hr, hcont⟩ := Eff.bind_eq_ok.mp hrun
    rcases hexec : exec i s with ⟨v | e | _, _⟩ <;> rw [hexec] at hrest <;>
      rw [Eff.attempt, hexec] at hr <;> cases hr
    · exact ih _ (hnext v) (hcall s i v _ hs hguard hexec) hrest hcont
    · obtain ⟨e', he'⟩ := hraise e
      rw [he'] at hcont
      cases hcont

/-- Make the calls one after another, stop at the first that fails, and end as told. -/
def inOrder (calls : List ι) (result : Except ε α) : Script ι ρ ε α :=
  match calls with
  | [] =>
    match result with
    | .ok a => done a
    | .error e => raise e
  | i :: rest => call i fun
      | .ok _ => inOrder rest result
      | .error e => raise e

lemma propagates_inOrder (calls : List ι) (result : Except ε α) :
    (inOrder calls result : Script ι ρ ε α).Propagates := by
  induction calls with
  | nil => cases result <;> trivial
  | cons i rest ih => exact ⟨fun e => ⟨e, rfl⟩, fun _ => ih⟩

lemma guarded_inOrder {calls : List ι} {result : Except ε α}
    (h : Along (fun s i => (exec i s).2) guard s calls) :
    (inOrder calls result).Guarded exec guard s := by
  induction calls generalizing s with
  | nil => cases result <;> trivial
  | cons i rest ih =>
    obtain ⟨hguard, hrest⟩ := h
    have hnext := ih hrest
    rw [inOrder, Guarded]
    refine ⟨hguard, ?_⟩
    rcases hexec : exec i s with ⟨r | e | _, s'⟩
    · have hs' : (exec i s).2 = s' := congrArg Prod.snd hexec
      exact hs' ▸ hnext
    · trivial
    · trivial

end Script

end Smongo

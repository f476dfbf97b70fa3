import Mathlib.Tactic.Common

/-!
# Processes on shared state

A process reaches shared state only through calls; between two of its calls other processes may
run.
-/

namespace Smongo

open List

/-- `ρ i` is what a successful call `i` returns. -/
inductive Process (ι : Type) (ρ : ι → Type) (ε α : Type)
  | done (result : Except ε α)
  | call (i : ι) (next : Except ε (ρ i) → Process ι ρ ε α)

namespace Process

variable {ι : Type} {ρ : ι → Type} {ε α β : Type}

protected def bind (f : α → Process ι ρ ε β) : Process ι ρ ε α → Process ι ρ ε β
  | done (.ok a) => f a
  | done (.error e) => done (.error e)
  | call i next => call i fun r => (next r).bind f

instance : Monad (Process ι ρ ε) where
  pure a := done (.ok a)
  bind p f := p.bind f

def raise (e : ε) : Process ι ρ ε α := done (.error e)

def perform (i : ι) : Process ι ρ ε (ρ i) := call i done

/-- `try … except`: the handler takes the errors for which it has a process. -/
def rescue (handler : ε → Option (Process ι ρ ε α)) : Process ι ρ ε α → Process ι ρ ε α
  | done (.ok a) => done (.ok a)
  | done (.error e) => (handler e).getD (done (.error e))
  | call i next => call i fun r => (next r).rescue handler

def isDone : Process ι ρ ε α → Bool
  | done _ => true
  | call _ _ => false

def next : Process ι ρ ε α → Option ι
  | done _ => none
  | call i _ => some i

/-- The error with which the process has ended. -/
def failure : Process ι ρ ε α → Option ε
  | done (.error e) => some e
  | _ => none

section

variable {σ χ : Type} (answer : (i : ι) → χ → σ → Except ε (ρ i) × σ)

def turn (x : χ) (s : σ) : Process ι ρ ε α → Process ι ρ ε α × σ
  | done r => (done r, s)
  | call i next => (next (answer i x s).1, (answer i x s).2)

end

end Process

/-- What every party relies on and guarantees.  `admits` says which answers are possible. -/
structure Terms (ι χ σ : Type) where
  inv : σ → Prop
  rely : σ → σ → Prop
  admits : σ → ι → χ → Prop
  refl : ∀ s, rely s s
  trans : ∀ {s₁ s₂ s₃}, rely s₁ s₂ → rely s₂ s₃ → rely s₁ s₃

namespace Process

variable {ι : Type} {ρ : ι → Type} {ε α β χ σ : Type}

section

variable (answer : (i : ι) → χ → σ → Except ε (ρ i) × σ) (T : Terms ι χ σ)

def Safe (Q : Except ε α → σ → Prop) : Process ι ρ ε α → σ → Prop
  | done r, s => ∀ s', T.rely s s' → Q r s'
  | call i next, s => ∀ s' x, T.rely s s' → T.inv s' → T.admits s' i x →
      T.inv (answer i x s').2 ∧ T.rely s' (answer i x s').2 ∧
        Safe Q (next (answer i x s').1) (answer i x s').2

/-- The answer to the next call is a possible one. -/
def Admits (s : σ) (x : χ) : Process ι ρ ε α → Prop
  | done _ => True
  | call i _ => T.admits s i x

end

variable {answer : (i : ι) → χ → σ → Except ε (ρ i) × σ} {T : Terms ι χ σ}
  {Q : Except ε α → σ → Prop} {p : Process ι ρ ε α} {s s' : σ}

lemma Safe.later (h : p.Safe answer T Q s) (hrely : T.rely s s') : p.Safe answer T Q s' := by
  cases p with
  | done r => exact fun s'' h' => h s'' (T.trans hrely h')
  | call i next => exact fun s'' x h' => h s'' x (T.trans hrely h')

lemma Safe.turn (h : p.Safe answer T Q s) (hinv : T.inv s) {x : χ} (hx : p.Admits T s x) :
    T.inv (p.turn answer x s).2 ∧ T.rely s (p.turn answer x s).2 ∧
      (p.turn answer x s).1.Safe answer T Q (p.turn answer x s).2 := by
  cases p with
  | done r => exact ⟨hinv, T.refl s, h⟩
  | call i next => exact h s x (T.refl s) hinv hx

lemma Safe.frame {A : σ → Prop} (hA : ∀ s s', T.rely s s' → A s → A s')
    {Q' : Except ε α → σ → Prop} (hQ : ∀ r s', Q r s' → A s' → Q' r s')
    (h : p.Safe answer T Q s) (hs : A s) : p.Safe answer T Q' s := by
  induction p generalizing s with
  | done r => exact fun s' hrely => hQ r s' (h s' hrely) (hA s s' hrely hs)
  | call i next ih =>
    intro s' x hrely hinv hx
    obtain ⟨hinv', hrely', hnext⟩ := h s' x hrely hinv hx
    exact ⟨hinv', hrely', ih _ hnext (hA _ _ (T.trans hrely hrely') hs)⟩

lemma Safe.perform {i : ι} {Q : Except ε (ρ i) → σ → Prop}
    (h : ∀ s' x, T.rely s s' → T.inv s' → T.admits s' i x →
      T.inv (answer i x s').2 ∧ T.rely s' (answer i x s').2 ∧
        ∀ s'', T.rely (answer i x s').2 s'' → Q (answer i x s').1 s'') :
    (perform i : Process ι ρ ε (ρ i)).Safe answer T Q s :=
  h

lemma Safe.bind {f : α → Process ι ρ ε β} {Q' : Except ε β → σ → Prop}
    (h : p.Safe answer T Q s) (hok : ∀ a s', Q (.ok a) s' → (f a).Safe answer T Q' s')
    (herror : ∀ e s', Q (.error e) s' → Q' (.error e) s') :
    (p >>= f).Safe answer T Q' s := by
  induction p generalizing s with
  | done r =>
    cases r with
    | ok a => exact hok a s (h s (T.refl s))
    | error e => exact fun s' hrely => herror e s' (h s' hrely)
  | call i next ih =>
    intro s' x hrely hinv hx
    obtain ⟨hinv', hrely', hnext⟩ := h s' x hrely hinv hx
    exact ⟨hinv', hrely', ih _ hnext⟩

lemma Safe.rescue {handler : ε → Option (Process ι ρ ε α)} {Q' : Except ε α → σ → Prop}
    (h : p.Safe answer T Q s) (hok : ∀ a s', Q (.ok a) s' → Q' (.ok a) s')
    (herror : ∀ e s', Q (.error e) s' → ∀ q ∈ handler e, q.Safe answer T Q' s')
    (hother : ∀ e s', Q (.error e) s' → handler e = none → Q' (.error e) s') :
    (p.rescue handler).Safe answer T Q' s := by
  induction p generalizing s with
  | done r =>
    cases r with
    | ok a => exact fun s' hrely => hok a s' (h s' hrely)
    | error e =>
      rw [Process.rescue]
      cases hhandler : handler e with
      | none => exact fun s' hrely => hother e s' (h s' hrely) hhandler
      | some q => exact herror e s (h s (T.refl s)) q hhandler
  | call i next ih =>
    intro s' x hrely hinv hx
    obtain ⟨hinv', hrely', hnext⟩ := h s' x hrely hinv hx
    exact ⟨hinv', hrely', ih _ hnext⟩

section

variable (answer T) in
/-- The process is safe, and promises something only if it returns. -/
def Keeps (Q : α → σ → Prop) (p : Process ι ρ ε α) (s : σ) : Prop :=
  p.Safe answer T (fun r s' => ∀ a, r = .ok a → Q a s') s

variable {Q : α → σ → Prop} {f : α → Process ι ρ ε β} {Q' : β → σ → Prop}

lemma Keeps.weaken {R : α → σ → Prop} (h : p.Keeps answer T Q s)
    (hQ : ∀ a s', Q a s' → R a s') : p.Keeps answer T R s :=
  Safe.frame (A := fun _ => True) (fun _ _ _ => id) (fun _ s' hr _ a ha => hQ a s' (hr a ha)) h
    trivial

lemma Keeps.pure {a : α} (h : ∀ s', T.rely s s' → Q a s') :
    (pure a : Process ι ρ ε α).Keeps answer T Q s :=
  fun s' hrely _ ha => Except.ok.inj ha ▸ h s' hrely

lemma Keeps.raise (e : ε) : (raise e : Process ι ρ ε α).Keeps answer T Q s :=
  nofun

lemma Keeps.ofExcept {r : Except ε α} (h : ∀ a s', r = .ok a → T.rely s s' → Q a s') :
    (done r : Process ι ρ ε α).Keeps answer T Q s :=
  fun s' hrely a ha => h a s' ha hrely

lemma Keeps.bind (h : p.Keeps answer T Q s)
    (hf : ∀ a s', Q a s' → (f a).Keeps answer T Q' s') : (p >>= f).Keeps answer T Q' s :=
  Safe.bind h (fun a s' ha => hf a s' (ha a rfl)) nofun

lemma Keeps.rescue {handler : ε → Option (Process ι ρ ε α)} (h : p.Keeps answer T Q s)
    (hhandler : ∀ e s', T.rely s s' → ∀ q ∈ handler e, q.Keeps answer T Q s') :
    (p.rescue handler).Keeps answer T Q s := by
  have hlater : p.Safe answer T (fun r s' => (∀ a, r = .ok a → Q a s') ∧ T.rely s s') s :=
    Safe.frame (fun _ _ hrely hs => T.trans hs hrely) (fun _ _ => And.intro) h (T.refl s)
  refine Safe.rescue hlater (fun a s' h => h.1) (fun e s' h => hhandler e s' h.2) ?_
  exact nofun

lemma Keeps.frame {A : σ → Prop} (hA : ∀ s s', T.rely s s' → A s → A s')
    (h : p.Keeps answer T Q s) (hs : A s) : p.Keeps answer T (fun a s' => Q a s' ∧ A s') s :=
  Safe.frame hA (fun _ _ hr hA a ha => ⟨hr a ha, hA⟩) h hs

lemma Keeps.forM {γ : Type} {body : γ → Process ι ρ ε PUnit} {A : γ → σ → Prop}
    (hA : ∀ c s s', T.rely s s' → A c s → A c s') {xs : List γ}
    (hbody : ∀ c ∈ xs, ∀ s', T.rely s s' → (body c).Keeps answer T (fun _ => A c) s') :
    (xs.forM body).Keeps answer T (fun _ s' => ∀ c ∈ xs, A c s') s := by
  induction xs generalizing s with
  | nil => exact Keeps.pure fun _ _ _ hc => (not_mem_nil hc).elim
  | cons x xs ih =>
    have hhead : (body x).Keeps answer T (fun _ s' => A x s' ∧ T.rely s s') s :=
      Keeps.frame (fun _ _ hrely hs => T.trans hs hrely)
        (hbody x mem_cons_self s (T.refl s)) (T.refl s)
    refine Keeps.bind hhead fun _ s' hx => ?_
    have htail := ih (s := s') fun c hc s'' hrely =>
      hbody c (mem_cons_of_mem _ hc) s'' (T.trans hx.2 hrely)
    refine (Keeps.frame (hA x) htail hx.1).weaken fun _ s'' hboth c hc => ?_
    rcases mem_cons.mp hc with rfl | hc
    · exact hboth.2
    · exact hboth.1 c hc

lemma Keeps.foldlM {γ : Type} {body : β → γ → Process ι ρ ε β} {I : List γ → β → σ → Prop}
    (hI : ∀ xs b s s', T.rely s s' → I xs b s → I xs b s')
    (hbody : ∀ b x xs s, I (x :: xs) b s → (body b x).Keeps answer T (I xs) s)
    (xs : List γ) {b : β} (hs : I xs b s) : (xs.foldlM body b).Keeps answer T (I []) s := by
  induction xs generalizing b s with
  | nil => exact Keeps.pure fun s' hrely => hI [] b s s' hrely hs
  | cons x xs ih => exact Keeps.bind (hbody b x xs s hs) fun _ _ h => ih h

end

end Process

end Smongo

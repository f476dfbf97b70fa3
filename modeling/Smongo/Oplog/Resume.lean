import Mathlib.Algebra.Ring.Nat
import Mathlib.Data.List.Basic
import Mathlib.Order.Lattice
import Mathlib.Order.Nat
import Mathlib.Tactic.Common

/-!
# Resuming a change stream

The wrapper gives each event that it returns a token: the time of the event and a running number.
-/

namespace Smongo

open List

structure WatchEvent (τ β : Type) where
  ts : Option τ
  clusterTime : Option τ
  body : β
deriving DecidableEq

structure ResumeToken (τ : Type) where
  ts : Option τ
  seq : ℕ
deriving DecidableEq

section

variable {τ β : Type} [LinearOrder τ] [Zero τ]

/-- `ev.get("_ts") or ev.get("clusterTime")`: a time of zero counts as none. -/
def WatchEvent.time (ev : WatchEvent τ β) : Option τ := (ev.ts.filter (· ≠ 0)).or ev.clusterTime

structure ChangeStreamWrapper (τ β : Type) where
  /-- What the inner stream has not yet returned. -/
  inner : List (WatchEvent τ β)
  resumeToken : Option (ResumeToken τ)
  seq : ℕ
  skipping : Bool
  resumeTs : Option τ
  resumeSeq : ℕ

namespace ChangeStreamWrapper

def new (inner : List (WatchEvent τ β)) (resumeAfter : Option (ResumeToken τ)) :
    ChangeStreamWrapper τ β where
  inner := inner
  resumeToken := resumeAfter
  seq := 0
  skipping := resumeAfter.isSome
  resumeTs := resumeAfter.bind ResumeToken.ts
  resumeSeq := (resumeAfter.map ResumeToken.seq).getD 0

inductive Skip
  | before
  | counted
  | stop

def skip (w : ChangeStreamWrapper τ β) (ev : WatchEvent τ β) : Skip :=
  if w.skipping then
    match ev.time, w.resumeTs with
    | some evTs, some resumeTs =>
      if evTs < resumeTs then .before
      else if evTs = resumeTs ∧ w.seq ≤ w.resumeSeq then .counted
      else .stop
    | _, _ => .stop
  else .stop

def deliver (w : ChangeStreamWrapper τ β) (ev : WatchEvent τ β) (rest : List (WatchEvent τ β)) :
    (WatchEvent τ β × ResumeToken τ) × ChangeStreamWrapper τ β :=
  let token := ⟨ev.time, w.seq + 1⟩
  ((ev, token), { w with
    inner := rest, skipping := false, seq := w.seq + 1, resumeToken := some token })

def tryNextFrom (w : ChangeStreamWrapper τ β) : List (WatchEvent τ β) →
    Option (WatchEvent τ β × ResumeToken τ) × ChangeStreamWrapper τ β
  | [] => (none, { w with inner := [] })
  | ev :: rest =>
    match w.skip ev with
    | .before => tryNextFrom w rest
    | .counted => tryNextFrom { w with seq := w.seq + 1 } rest
    | .stop => ((w.deliver ev rest).1, (w.deliver ev rest).2)

def tryNext (w : ChangeStreamWrapper τ β) :
    Option (WatchEvent τ β × ResumeToken τ) × ChangeStreamWrapper τ β :=
  tryNextFrom w w.inner

def returns : ℕ → ChangeStreamWrapper τ β → List (WatchEvent τ β × ResumeToken τ)
  | 0, _ => []
  | fuel + 1, w =>
    match w.tryNext with
    | (none, _) => []
    | (some r, w) => r :: returns fuel w

def readAll (w : ChangeStreamWrapper τ β) : List (WatchEvent τ β × ResumeToken τ) :=
  returns w.inner.length w

def delivered (w : ChangeStreamWrapper τ β) :
    List (WatchEvent τ β) → List (WatchEvent τ β × ResumeToken τ)
  | [] => []
  | ev :: rest =>
    match w.skip ev with
    | .before => delivered w rest
    | .counted => delivered { w with seq := w.seq + 1 } rest
    | .stop => (w.deliver ev rest).1 :: delivered (w.deliver ev rest).2 rest

variable {w w' : ChangeStreamWrapper τ β} {ev : WatchEvent τ β}
  {events pre rest : List (WatchEvent τ β)}

lemma delivered_of_tryNextFrom (w : ChangeStreamWrapper τ β) (events : List (WatchEvent τ β)) :
    match tryNextFrom w events with
    | (none, _) => delivered w events = []
    | (some r, w') => delivered w events = r :: delivered w' w'.inner ∧
        w'.inner.length < events.length := by
  induction events generalizing w with
  | nil => rfl
  | cons ev rest ih =>
    rw [tryNextFrom, delivered]
    cases w.skip ev with
    | before =>
      have hrest := ih w
      cases hnext : tryNextFrom w rest with
      | mk r w' =>
        rw [hnext] at hrest
        cases r with
        | none => exact hrest
        | some r => exact ⟨hrest.1, Nat.lt_succ_of_lt hrest.2⟩
    | counted =>
      have hrest := ih { w with seq := w.seq + 1 }
      cases hnext : tryNextFrom { w with seq := w.seq + 1 } rest with
      | mk r w' =>
        rw [hnext] at hrest
        cases r with
        | none => exact hrest
        | some r => exact ⟨hrest.1, Nat.lt_succ_of_lt hrest.2⟩
    | stop => exact ⟨rfl, Nat.lt_succ_self _⟩

lemma returns_eq_delivered (fuel : ℕ) (w : ChangeStreamWrapper τ β)
    (hfuel : w.inner.length ≤ fuel) : returns fuel w = delivered w w.inner := by
  induction fuel generalizing w with
  | zero =>
    have hnil : w.inner = [] := eq_nil_of_length_eq_zero (Nat.le_zero.mp hfuel)
    rw [hnil]
    rfl
  | succ fuel ih =>
    have hnext := delivered_of_tryNextFrom w w.inner
    rw [returns, tryNext]
    cases hcase : tryNextFrom w w.inner with
    | mk r w' =>
      rw [hcase] at hnext
      cases r with
      | none => exact hnext.symm
      | some r =>
        rw [hnext.1]
        exact congrArg (r :: ·) (ih w' (by omega))

lemma readAll_eq_delivered (w : ChangeStreamWrapper τ β) : readAll w = delivered w w.inner :=
  returns_eq_delivered _ w (Nat.le_refl _)

lemma delivered_of_not_skipping (h : w.skipping = false) (events : List (WatchEvent τ β)) :
    delivered w events = events.mapIdx fun i ev => (ev, ⟨ev.time, w.seq + i + 1⟩) := by
  induction events generalizing w with
  | nil => rfl
  | cons ev rest ih =>
    have hstop : w.skip ev = .stop := by
      rw [skip, h]
      rfl
    rw [delivered, hstop, mapIdx_cons]
    rw [ih (w := (w.deliver ev rest).2) rfl]
    refine congrArg₂ cons rfl (mapIdx_eq_mapIdx_iff.mpr fun i hi => ?_)
    have hseq : w.seq + 1 + i + 1 = w.seq + (i + 1) + 1 := by omega
    exact congrArg (fun n => (rest[i], (⟨rest[i].time, n⟩ : ResumeToken τ))) hseq

lemma map_fst_delivered_of_stop (h : w.skip ev = .stop) (rest : List (WatchEvent τ β)) :
    (delivered w (ev :: rest)).map Prod.fst = ev :: rest := by
  rw [delivered, h]
  dsimp only
  rw [delivered_of_not_skipping rfl, map_cons]
  refine congrArg (ev :: ·) (ext_getElem (by simp) fun i _ _ => ?_)
  rw [getElem_map, getElem_mapIdx]

lemma length_delivered_le (w : ChangeStreamWrapper τ β) (events : List (WatchEvent τ β)) :
    (delivered w events).length ≤ events.length := by
  induction events generalizing w with
  | nil => exact Nat.le_refl _
  | cons ev rest ih =>
    rw [delivered]
    cases w.skip ev with
    | before => exact Nat.le_succ_of_le (ih w)
    | counted => exact Nat.le_succ_of_le (ih _)
    | stop => exact Nat.succ_le_succ (ih _)

/-! ### The resumed stream -/

/-- The wrapper still looks for the events behind a token. -/
structure Seeks (w : ChangeStreamWrapper τ β) (t : τ) (n : ℕ) : Prop where
  skipping : w.skipping = true
  resumeTs : w.resumeTs = some t
  resumeSeq : w.resumeSeq = n

variable {t : τ} {n : ℕ}

lemma Seeks.skip_of_time (h : Seeks w t n) {s : τ} (hs : ev.time = some s) :
    w.skip ev = if s < t then .before else if s = t ∧ w.seq ≤ n then .counted else .stop := by
  rw [skip, h.skipping, if_pos rfl, hs, h.resumeTs, h.resumeSeq]

lemma Seeks.skip_of_no_time (h : Seeks w t n) (hev : ev.time = none) : w.skip ev = .stop := by
  rw [skip, h.skipping, if_pos rfl, hev]

lemma Seeks.delivered_cons (h : Seeks w t n) {s : τ} (hs : ev.time = some s)
    (hle : s ≤ t) (hseq : w.seq ≤ n) (rest : List (WatchEvent τ β)) :
    ∃ w', Seeks w' t n ∧ w'.seq ≤ w.seq + 1 ∧ delivered w (ev :: rest) = delivered w' rest := by
  rw [delivered, h.skip_of_time hs]
  by_cases hlt : s < t
  · rw [if_pos hlt]
    exact ⟨w, h, Nat.le_succ _, rfl⟩
  · rw [if_neg hlt, if_pos ⟨le_antisymm hle (not_lt.mp hlt), hseq⟩]
    exact ⟨{ w with seq := w.seq + 1 }, ⟨h.skipping, h.resumeTs, h.resumeSeq⟩, Nat.le_refl _, rfl⟩

lemma Seeks.delivered_append (h : Seeks w t n) (hpre : ∀ ev ∈ pre, ∃ s, ev.time = some s ∧ s ≤ t)
    (hseq : w.seq + pre.length ≤ n + 1) (rest : List (WatchEvent τ β)) :
    ∃ w', Seeks w' t n ∧ w'.seq ≤ w.seq + pre.length ∧
      delivered w (pre ++ rest) = delivered w' rest := by
  induction pre generalizing w with
  | nil => exact ⟨w, h, Nat.le_refl _, rfl⟩
  | cons ev pre ih =>
    obtain ⟨s, hs, hle⟩ := hpre ev mem_cons_self
    rw [length_cons] at hseq ⊢
    obtain ⟨w₁, h₁, hseq₁, heq₁⟩ := h.delivered_cons hs hle (by omega) (pre ++ rest)
    obtain ⟨w₂, h₂, hseq₂, heq₂⟩ := ih h₁ (fun e he => hpre e (mem_cons_of_mem _ he)) (by omega)
    exact ⟨w₂, h₂, by omega, heq₁.trans heq₂⟩

lemma Seeks.length_lt_of_no_time (h : Seeks w t n)
    (hpre : ∀ ev ∈ pre, ∀ s ∈ ev.time, s ≤ t) (hseq : w.seq + pre.length ≤ n + 1)
    (hnone : ∃ ev ∈ pre, ev.time = none) (rest : List (WatchEvent τ β)) :
    rest.length < (delivered w (pre ++ rest)).length := by
  induction pre generalizing w with
  | nil =>
    obtain ⟨ev, hev, -⟩ := hnone
    cases hev
  | cons ev pre ih =>
    cases htime : ev.time with
    | none =>
      have hall := map_fst_delivered_of_stop (h.skip_of_no_time htime) (pre ++ rest)
      have hlength := congrArg length hall
      rw [length_map, length_cons, length_append] at hlength
      rw [cons_append]
      omega
    | some s =>
      rw [length_cons] at hseq
      have hle := hpre ev mem_cons_self s htime
      obtain ⟨w₁, h₁, hseq₁, heq₁⟩ := h.delivered_cons htime hle (by omega) (pre ++ rest)
      rw [cons_append, heq₁]
      refine ih h₁ (fun e he => hpre e (mem_cons_of_mem _ he)) (by omega) ?_
      obtain ⟨e, he, hnone⟩ := hnone
      rcases mem_cons.mp he with rfl | he
      · rw [htime] at hnone
        cases hnone
      · exact ⟨e, he, hnone⟩

lemma token_of_readAll_new {before after : List (WatchEvent τ β)} {token : ResumeToken τ}
    (h : (readAll (new (before ++ ev :: after) none))[before.length]? = some (ev, token)) :
    token = ⟨ev.time, before.length + 1⟩ := by
  have hget : (new (before ++ ev :: after) none).inner[before.length]? = some ev := by simp [new]
  rw [readAll_eq_delivered, delivered_of_not_skipping rfl, getElem?_mapIdx, hget] at h
  have htoken := congrArg Prod.snd (Option.some.inj h)
  simpa [new] using htoken.symm

lemma length_delivered_of_no_resumeTs (h : w.resumeTs = none) (events : List (WatchEvent τ β)) :
    (delivered w events).length = events.length := by
  cases events with
  | nil => rfl
  | cons ev rest =>
    have hstop : w.skip ev = .stop := by
      rw [skip, h]
      cases w.skipping <;> cases ev.time <;> rfl
    rw [← length_map Prod.fst, map_fst_delivered_of_stop hstop]

lemma Seeks.map_fst_eq_iff (h : Seeks w t n) (hseq : w.seq ≤ n)
    (hlater : ∀ ev ∈ rest, ∀ s ∈ ev.time, t ≤ s) :
    (delivered w rest).map Prod.fst = rest ↔ ∀ next ∈ rest.head?, next.time ≠ some t := by
  cases rest with
  | nil =>
    refine ⟨fun _ next hnext => ?_, fun _ => rfl⟩
    cases hnext
  | cons next rest =>
    constructor
    · intro hall next' hnext htime
      obtain rfl := Option.some.inj hnext
      have hcounted : w.skip next = .counted := by
        rw [h.skip_of_time htime, if_neg (lt_irrefl t), if_pos ⟨rfl, hseq⟩]
      have hlength := congrArg length hall
      rw [length_map, delivered, hcounted, length_cons] at hlength
      have hle := length_delivered_le { w with seq := w.seq + 1 } rest
      dsimp only at hlength
      omega
    · intro hnext
      apply map_fst_delivered_of_stop
      cases htime : next.time with
      | none => exact h.skip_of_no_time htime
      | some s =>
        have hle : t ≤ s := hlater next mem_cons_self s htime
        have hne : s ≠ t := by
          rintro rfl
          exact hnext next rfl htime
        rw [h.skip_of_time htime, if_neg (not_lt.mpr hle), if_neg fun hs => hne hs.1]

end ChangeStreamWrapper

def Ordered (events : List (WatchEvent τ β)) : Prop :=
  events.Pairwise fun a b => ∀ s ∈ a.time, ∀ t ∈ b.time, s ≤ t

instance (events : List (WatchEvent τ β)) : Decidable (Ordered events) :=
  inferInstanceAs (Decidable (List.Pairwise _ _))

open ChangeStreamWrapper

/-- A stream resumed behind `ev` is exact iff all events up to `ev` have a time and the next one
does not share its time. -/
theorem resume_exact_iff (before after : List (WatchEvent τ β)) (ev : WatchEvent τ β)
    (hordered : Ordered (before ++ ev :: after)) {token : ResumeToken τ}
    (htoken : (readAll (new (before ++ ev :: after) none))[before.length]? = some (ev, token)) :
    (readAll (new (before ++ ev :: after) (some token))).map Prod.fst = after ↔
      (∀ e ∈ before ++ [ev], e.time ≠ none) ∧ ∀ next ∈ after.head?, next.time ≠ ev.time := by
  obtain rfl := token_of_readAll_new htoken
  have hsplit : before ++ ev :: after = (before ++ [ev]) ++ after := by
    rw [append_assoc, singleton_append]
  rw [readAll_eq_delivered, show (new _ _).inner = before ++ ev :: after from rfl, hsplit]
  cases htime : ev.time with
  | none =>
    -- the whole sequence is replayed, and it is longer
    refine ⟨fun hall => absurd (congrArg length hall) ?_, fun h => absurd htime (h.1 ev (by simp))⟩
    rw [length_map, length_delivered_of_no_resumeTs rfl, length_append,
      length_append, length_singleton]
    omega
  | some t =>
    have hseeks : Seeks (new ((before ++ [ev]) ++ after)
        (some ⟨some t, before.length + 1⟩)) t (before.length + 1) := ⟨rfl, rfl, rfl⟩
    rw [Ordered, pairwise_append, pairwise_cons] at hordered
    have hpre : ∀ e ∈ before ++ [ev], ∀ s ∈ e.time, s ≤ t := by
      intro e he s hs
      rcases mem_append.mp he with he | he
      · exact hordered.2.2 e he ev mem_cons_self s hs t htime
      · obtain rfl := mem_singleton.mp he
        rw [htime] at hs
        exact le_of_eq (Option.some.inj hs).symm
    have hcount : 0 + (before ++ [ev]).length ≤ before.length + 1 + 1 := by
      rw [length_append, length_singleton]
      omega
    by_cases hnone : ∃ e ∈ before ++ [ev], e.time = none
    · have hlt := hseeks.length_lt_of_no_time hpre hcount hnone after
      refine ⟨fun hall => ?_, fun h => ?_⟩
      · rw [← length_map Prod.fst, hall] at hlt
        exact absurd hlt (Nat.lt_irrefl _)
      · obtain ⟨e, he, hnone⟩ := hnone
        exact absurd hnone (h.1 e he)
    · have htimes : ∀ e ∈ before ++ [ev], e.time ≠ none := fun e he h => hnone ⟨e, he, h⟩
      have hskipped : ∀ e ∈ before ++ [ev], ∃ s, e.time = some s ∧ s ≤ t := by
        intro e he
        obtain ⟨s, hs⟩ := Option.ne_none_iff_exists'.mp (htimes e he)
        exact ⟨s, hs, hpre e he s hs⟩
      obtain ⟨w, hw, hseq, hrest⟩ := hseeks.delivered_append hskipped hcount after
      have hseq' : w.seq ≤ before.length + 1 := by
        rw [show (new _ _).seq = 0 from rfl, length_append, length_singleton] at hseq
        omega
      rw [hrest, hw.map_fst_eq_iff hseq' fun e he s hs => hordered.2.1.1 e he t htime s hs]
      exact ⟨fun h => ⟨htimes, h⟩, fun h => h.2⟩

end

section

open ChangeStreamWrapper

def Sample.events : List (WatchEvent ℕ String) :=
  [⟨some 5, none, "insert"⟩, ⟨some 5, none, "update"⟩, ⟨none, some 7, "delete"⟩]

/-- Resumed behind the last of the events with one time, the stream goes on with the next one. -/
theorem resume_exact_between_times :
    (readAll (new Sample.events (some ⟨some 5, 2⟩))).map Prod.fst = [⟨none, some 7, "delete"⟩] := by
  refine (resume_exact_iff [⟨some 5, none, "insert"⟩] [⟨none, some 7, "delete"⟩]
    ⟨some 5, none, "update"⟩ ?_ rfl).mpr ?_
  · decide
  · decide

/-- Resumed behind the first of two events with one time, the stream never returns the second. -/
theorem resume_loses_equal_time : Ordered Sample.events ∧
      (readAll (new Sample.events none)).map Prod.snd = [⟨some 5, 1⟩, ⟨some 5, 2⟩, ⟨some 7, 3⟩] ∧
      (readAll (new Sample.events (some ⟨some 5, 1⟩))).map (·.1.body) = ["delete"] := by
  refine ⟨?_, ?_, ?_⟩
  · decide
  · decide
  · decide

end

end Smongo

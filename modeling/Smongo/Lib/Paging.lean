import Mathlib.Data.List.Basic
import Mathlib.Order.Lattice
import Mathlib.Tactic.Common

/-!
# Reading a sorted list page by page

A reader asks for rows behind a cursor, page by page.
-/

namespace Paging

open List

variable {α κ ε : Type}

structure Reader (α κ ε : Type) where
  key : α → κ
  /-- Whether the row has a mark, which then is its key. -/
  marked : α → Bool
  accept : α → Except ε Bool
  size : ℕ

structure State (α κ : Type) where
  cursor : Option κ
  handed : List α

namespace Reader

variable (r : Reader α κ ε)

def mark (a : α) : Option κ := if r.marked a then some (r.key a) else none

def behind [LinearOrder κ] (cursor : Option κ) (rows : List α) : List α :=
  rows.filter fun a => cursor.all fun k => decide (k < r.key a)

def work : List α → State α κ → Except ε (State α κ)
  | [], s => .ok s
  | a :: page, s =>
    match r.accept a with
    | .error e => .error e
    | .ok false => work page s
    | .ok true => work page ⟨r.mark a, s.handed ++ [a]⟩

/-- The reader stops at an error and at a page that is not full; without an answer it was still
reading. -/
def run [LinearOrder κ] (rows : List α) : ℕ → State α κ → Option (Except ε (List α))
  | 0, _ => none
  | fuel + 1, s =>
    let page := (r.behind s.cursor rows).take r.size
    match r.work page s with
    | .error e => some (.error e)
    | .ok s => if page.length < r.size then some (.ok s.handed) else run rows fuel s

def accepted (a : α) : Bool :=
  match r.accept a with
  | .ok b => b
  | .error _ => false

def Moves (page : List α) : Prop :=
  ∃ a, (page.filter r.accepted).getLast? = some a ∧ r.marked a = true

def Windows (rows : List α) (P : List α → Prop) : Prop :=
  ∀ before window after, rows = before ++ window ++ after → window.length = r.size → P window

variable {r} {rows page : List α} {s s' : State α κ} {a : α}

lemma accepted_eq {b : Bool} (h : r.accept a = .ok b) : r.accepted a = b := by rw [accepted, h]

def moved (r : Reader α κ ε) (cursor : Option κ) (page : List α) : Option κ :=
  match (page.filter r.accepted).getLast? with
  | some a => r.mark a
  | none => cursor

lemma moved_cons_of_accepted (h : r.accepted a = true) (cursor : Option κ) (page : List α) :
    r.moved cursor (a :: page) = r.moved (r.mark a) page := by
  rw [moved, moved, filter_cons_of_pos h]
  cases hfilter : page.filter r.accepted with
  | nil => rfl
  | cons b bs => rw [getLast?_cons_cons]; rfl

lemma moved_cons_of_rejected (h : r.accepted a = false) (cursor : Option κ) (page : List α) :
    r.moved cursor (a :: page) = r.moved cursor page := by
  rw [moved, moved, filter_cons_of_neg (by rw [h]; exact Bool.false_ne_true)]

lemma moved_cases (r : Reader α κ ε) (cursor : Option κ) (page : List α) :
    r.moved cursor page = cursor ∨
      ∃ a ∈ page, r.accepted a = true ∧ r.moved cursor page = r.mark a := by
  cases hlast : (page.filter r.accepted).getLast? with
  | none =>
    left
    rw [moved, hlast]
  | some a =>
    have hmem := mem_filter.mp (mem_of_getLast? hlast)
    refine .inr ⟨a, hmem.1, hmem.2, ?_⟩
    rw [moved, hlast]

lemma work_of_ok (hok : ∀ a ∈ page, ∃ b, r.accept a = .ok b) (s : State α κ) : r.work page s =
      .ok ⟨r.moved s.cursor page, s.handed ++ page.filter r.accepted⟩ := by
  induction page generalizing s with
  | nil => simp [work, moved]
  | cons a page ih =>
    have hrest : ∀ a ∈ page, ∃ b, r.accept a = .ok b := fun a ha => hok a (mem_cons_of_mem _ ha)
    obtain ⟨b, hb⟩ := hok a mem_cons_self
    rw [work, hb]
    have hacc := accepted_eq hb
    cases b with
    | false => rw [ih hrest, moved_cons_of_rejected hacc, filter_cons_of_neg (by simp [hacc])]
    | true =>
      dsimp only
      rw [ih hrest, moved_cons_of_accepted hacc, filter_cons_of_pos hacc,
        append_assoc, singleton_append]

lemma ok_of_work (h : r.work page s = .ok s') : ∀ a ∈ page, ∃ b, r.accept a = .ok b := by
  induction page generalizing s with
  | nil => intro a ha; cases ha
  | cons c page ih =>
    rw [work] at h
    intro a ha
    cases hc : r.accept c with
    | error e => rw [hc] at h; cases h
    | ok b =>
      rw [hc] at h
      rcases mem_cons.mp ha with rfl | ha
      · exact ⟨b, hc⟩
      · cases b with
        | false | true => exact ih h a ha

section

variable [LinearOrder κ]

def Sorted (r : Reader α κ ε) (rows : List α) : Prop := rows.Pairwise fun a b => r.key a < r.key b

lemma behind_none (r : Reader α κ ε) (rows : List α) : r.behind none rows = rows := by
  simp [behind]

lemma behind_key {before after : List α} (h : r.Sorted (before ++ a :: after)) :
    r.behind (some (r.key a)) (before ++ a :: after) = after := by
  rw [Sorted, pairwise_append, pairwise_cons] at h
  have hbefore : before.filter (fun b => decide (r.key a < r.key b)) = [] := by
    rw [filter_eq_nil_iff]
    intro b hb hlt
    have hba := h.2.2 b hb a mem_cons_self
    exact lt_asymm hba (of_decide_eq_true hlt)
  have hafter : after.filter (fun b => decide (r.key a < r.key b)) = after := by
    rw [filter_eq_self]
    intro b hb
    exact decide_eq_true (h.2.1.1 b hb)
  rw [behind, filter_append]
  simp only [Option.all_some]
  rw [hbefore, filter_cons_of_neg (by simp), hafter, nil_append]

lemma getLast?_filter_split {p : α → Bool} (h : (page.filter p).getLast? = some a) :
    ∃ x y, page = x ++ a :: y ∧ p a = true ∧ ∀ b ∈ y, ¬ p b = true := by
  obtain ⟨front, hfront⟩ := getLast?_eq_some_iff.mp h
  obtain ⟨x₁, rest, rfl, -, hrest⟩ := filter_eq_append_iff.mp hfront
  obtain ⟨x₂, y, rfl, -, ha, hy⟩ := filter_eq_cons_iff.mp hrest
  exact ⟨x₁ ++ x₂, y, (append_assoc ..).symm, ha, filter_eq_nil_iff.mp hy⟩

lemma run_succ_of_ok {cursor : Option κ} {handed rest : List α}
    (hcursor : r.behind cursor rows = rest)
    (hok : ∀ a ∈ rest.take r.size, ∃ b, r.accept a = .ok b) (fuel : ℕ) :
    r.run rows (fuel + 1) ⟨cursor, handed⟩ = if (rest.take r.size).length < r.size then
        some (.ok (handed ++ (rest.take r.size).filter r.accepted))
      else r.run rows fuel
        ⟨r.moved cursor (rest.take r.size), handed ++ (rest.take r.size).filter r.accepted⟩ := by
  rw [run]
  rw [hcursor, work_of_ok hok]

lemma run_of_moves (hsorted : r.Sorted rows) (hok : ∀ a ∈ rows, ∃ b, r.accept a = .ok b)
    (hmoves : r.Windows rows r.Moves) (fuel : ℕ) {cursor : Option κ} {done rest : List α}
    (hrows : rows = done ++ rest) (hcursor : r.behind cursor rows = rest)
    (hfuel : rest.length < fuel) :
    r.run rows fuel ⟨cursor, done.filter r.accepted⟩ = some (.ok (rows.filter r.accepted)) := by
  induction fuel generalizing cursor done rest with
  | zero => exact absurd hfuel (Nat.not_lt_zero _)
  | succ fuel ih =>
    have hpage : ∀ a ∈ rest.take r.size, ∃ b, r.accept a = .ok b := by
      intro a ha
      apply hok
      rw [hrows]
      exact mem_append_right _ (mem_of_mem_take ha)
    rw [run_succ_of_ok hcursor hpage, ← filter_append]
    by_cases hfull : (rest.take r.size).length < r.size
    · rw [if_pos hfull]
      have htake : rest.take r.size = rest := by
        rw [length_take] at hfull
        exact take_of_length_le (by omega)
      rw [htake, hrows]
    · rw [if_neg hfull]
      have hwindow : rows = done ++ rest.take r.size ++ rest.drop r.size := by
        rw [append_assoc, take_append_drop, hrows]
      have hlength : (rest.take r.size).length = r.size := by
        have hle := length_take_le r.size rest
        omega
      obtain ⟨a, hlast, hmarked⟩ := hmoves done _ _ hwindow hlength
      have hmoved : r.moved cursor (rest.take r.size) = some (r.key a) := by
        rw [moved, hlast]
        exact if_pos hmarked
      -- behind the last accepted row of the page nothing was worked off
      obtain ⟨x, y, hsplit, -, hy⟩ := getLast?_filter_split hlast
      have hworked : (done ++ rest.take r.size).filter r.accepted =
          (done ++ x ++ [a]).filter r.accepted := by
        rw [hsplit, append_cons, ← append_assoc, ← append_assoc,
          filter_append, filter_eq_nil_iff.mpr hy, append_nil]
      have hnext : rows = (done ++ x) ++ a :: (y ++ rest.drop r.size) := by
        rw [hwindow, hsplit]
        simp only [append_assoc, cons_append]
      have hbehind : r.behind (some (r.key a)) rows = y ++ rest.drop r.size := by
        rw [hnext] at hsorted ⊢
        exact behind_key hsorted
      rw [hmoved, hworked]
      apply ih _ hbehind
      · have hrest : rest.length = (x ++ a :: y).length + (rest.drop r.size).length := by
          rw [← hsplit, ← length_append, take_append_drop]
        simp only [length_append, length_cons] at hrest ⊢
        omega
      · rw [hnext]
        simp only [append_assoc, cons_append, nil_append]

/-! ### Readers that do not end -/

lemma run_ne_ok (stuck : Option κ → Prop)
    (hstuck : ∀ cursor, stuck cursor →
      (∀ a ∈ (r.behind cursor rows).take r.size, ∃ b, r.accept a = .ok b) →
      r.size ≤ (r.behind cursor rows).length ∧
        stuck (r.moved cursor ((r.behind cursor rows).take r.size)))
    (fuel : ℕ) (hs : stuck s.cursor) (handed : List α) :
    r.run rows fuel s ≠ some (.ok handed) := by
  induction fuel generalizing s with
  | zero => intro h; cases h
  | succ fuel ih =>
    intro h
    by_cases hok : ∀ a ∈ (r.behind s.cursor rows).take r.size, ∃ b, r.accept a = .ok b
    · obtain ⟨hfull, hnext⟩ := hstuck s.cursor hs hok
      rw [run_succ_of_ok rfl hok, if_neg (by rw [length_take]; omega)] at h
      exact ih hnext h
    · rw [run] at h
      cases hwork : r.work ((r.behind s.cursor rows).take r.size) s with
      | error e =>
        rw [hwork] at h
        cases h
      | ok s' => exact hok (ok_of_work hwork)

def Before (r : Reader α κ ε) (before wall : List α) (cursor : Option κ) : Prop :=
  ∃ passed near, before = passed ++ near ∧ r.behind cursor (before ++ wall) = near ++ wall

variable {before wall : List α}

lemma Before.none (r : Reader α κ ε) (before wall : List α) : r.Before before wall none :=
  ⟨[], before, rfl, behind_none r _⟩

lemma Before.mark (hsorted : r.Sorted (before ++ wall)) (ha : a ∈ before) :
    r.Before before wall (r.mark a) := by
  rw [Reader.mark]
  split_ifs with hmarked
  · obtain ⟨x, y, rfl⟩ := append_of_mem ha
    refine ⟨x ++ [a], y, by simp, ?_⟩
    rw [append_assoc, cons_append] at hsorted ⊢
    exact behind_key hsorted
  · exact Before.none r _ _

lemma run_ne_ok_of_error {after : List α} (hsorted : r.Sorted (before ++ a :: after))
    (ha : ∀ b, r.accept a ≠ .ok b) (fuel : ℕ) (handed : List α) :
    r.run (before ++ a :: after) fuel ⟨none, []⟩ ≠ some (.ok handed) := by
  apply run_ne_ok (r.Before before (a :: after)) _ fuel (Before.none r _ _)
  rintro cursor ⟨passed, near, rfl, hbehind⟩ hok
  rw [hbehind] at hok ⊢
  have hfar : r.size ≤ near.length := by
    by_contra hlt
    have hmem : a ∈ (near ++ a :: after).take r.size := by
      rw [take_append, mem_append]
      right
      obtain ⟨k, hk⟩ : ∃ k, r.size - near.length = k + 1 := ⟨r.size - near.length - 1, by omega⟩
      rw [hk, take_succ_cons]
      exact mem_cons_self
    obtain ⟨b, hb⟩ := hok a hmem
    exact ha b hb
  refine ⟨by rw [length_append]; omega, ?_⟩
  rw [take_append_of_le_length hfar]
  rcases moved_cases r cursor (near.take r.size) with heq | ⟨c, hc, -, heq⟩
  · rw [heq]
    exact ⟨passed, near, rfl, hbehind⟩
  · rw [heq]
    exact Before.mark hsorted (mem_append_right _ (mem_of_mem_take hc))

def MarkedBehindSecond (r : Reader α κ ε) (rows : List α) : Prop :=
  ∀ before a after, rows = before ++ a :: after → r.marked a = false → before.length ≤ 1

lemma run_ne_ok_of_window {window after : List α}
    (hsorted : r.Sorted (before ++ (window ++ after)))
    (hmarked : r.MarkedBehindSecond (before ++ (window ++ after)))
    (hlength : window.length = r.size) (hwindow : ¬ r.Moves window) (fuel : ℕ) (handed : List α) :
    r.run (before ++ (window ++ after)) fuel ⟨none, []⟩ ≠ some (.ok handed) := by
  apply run_ne_ok (r.Before before (window ++ after)) _ fuel (Before.none r _ _)
  rintro cursor hcursor -
  obtain ⟨passed, near, hbefore, hbehind⟩ := hcursor
  rw [hbehind]
  refine ⟨by simp only [length_append]; omega, ?_⟩
  rw [← append_assoc, take_append_of_le_length (by rw [length_append]; omega)]
  have hnear : ∀ a ∈ near, a ∈ before := fun a ha => hbefore ▸ mem_append_right _ ha
  have hstay : r.Before before (window ++ after) cursor := ⟨passed, near, hbefore, hbehind⟩
  cases hlast : (window.filter r.accepted).getLast? with
  | none =>
    -- no row of the window is accepted
    rcases moved_cases r cursor ((near ++ window).take r.size) with heq | ⟨a, ha, hacc, heq⟩
    · rw [heq]
      exact hstay
    · rw [heq]
      have hnil := filter_eq_nil_iff.mp (getLast?_eq_none_iff.mp hlast)
      rcases mem_append.mp (mem_of_mem_take ha) with ha | ha
      · exact Before.mark hsorted (hnear a ha)
      · exact absurd hacc (hnil a ha)
  | some u =>
    -- the last accepted row of the window has no mark
    have hunmarked : r.marked u = false := by
      by_contra hu
      exact hwindow ⟨u, hlast, by simpa using hu⟩
    have hmark : r.mark u = none := by
      rw [Reader.mark, hunmarked]
      rfl
    obtain ⟨x, y, rfl, hu, hy⟩ := getLast?_filter_split hlast
    have hfew := hmarked (before ++ x) u (y ++ after) (by simp) hunmarked
    cases x with
    | nil =>
      rcases moved_cases r cursor ((near ++ ([] ++ u :: y)).take r.size) with
        heq | ⟨a, ha, hacc, heq⟩
      · rw [heq]
        exact hstay
      · rw [heq]
        rcases mem_append.mp (mem_of_mem_take ha) with ha | ha
        · exact Before.mark hsorted (hnear a ha)
        · rcases mem_cons.mp ha with rfl | ha
          · rw [hmark]
            exact Before.none r _ _
          · exact absurd hacc (hy a ha)
    | cons c x =>
      -- then the window is the whole page
      have hnil : near = [] := by
        rw [hbefore] at hfew
        apply eq_nil_of_length_eq_zero
        simp only [length_append, length_cons] at hfew
        omega
      rw [hnil, nil_append, ← hlength, take_length, moved, hlast]
      dsimp only
      rw [hmark]
      exact Before.none r _ _

/-- Every accepted row is read once, in order, iff no filter fails and the cursor always moves. -/
lemma run_eq_iff (hsorted : r.Sorted rows) (hmarked : r.MarkedBehindSecond rows) :
    (∃ fuel, r.run rows fuel ⟨none, []⟩ = some (.ok (rows.filter r.accepted))) ↔
      (∀ a ∈ rows, ∃ b, r.accept a = .ok b) ∧ r.Windows rows r.Moves := by
  constructor
  · rintro ⟨fuel, hrun⟩
    constructor
    · intro a ha
      by_contra hne
      obtain ⟨before, after, rfl⟩ := append_of_mem ha
      exact run_ne_ok_of_error hsorted (fun b hb => hne ⟨b, hb⟩) fuel _ hrun
    · rintro before window after rfl hlength
      by_contra hwindow
      rw [append_assoc] at hsorted hmarked hrun
      exact run_ne_ok_of_window hsorted hmarked hlength hwindow fuel _ hrun
  · rintro ⟨hok, hmoves⟩
    exact ⟨rows.length + 1, run_of_moves hsorted hok hmoves _ (nil_append _).symm
      (behind_none r rows) (Nat.lt_succ_self _)⟩

end

end Reader

end Paging

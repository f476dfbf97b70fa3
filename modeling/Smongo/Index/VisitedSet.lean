import Mathlib.Data.List.Induction
import Mathlib.Tactic.Common

/-!
# Visited nodes of a graph search

A search marks its nodes with a generation, so that the marks of earlier searches need not be
cleared.
-/

namespace Smongo

open List

structure VisitedSet where
  generations : List UInt32
  currentGen : UInt32

inductive VisitedCall
  | reset
  | insert (id : ℕ)
  | contains (id : ℕ)

namespace VisitedSet

def new : VisitedSet := ⟨[], 1⟩

variable (v : VisitedSet) (id : ℕ)

def reset : VisitedSet :=
  if v.currentGen + 1 = 0 then ⟨v.generations.map fun _ => 0, 1⟩
  else { v with currentGen := v.currentGen + 1 }

def insert : VisitedSet :=
  let resized := v.generations ++ replicate (id + 1 - v.generations.length) 0
  { v with generations := resized.set id v.currentGen }

def contains : Bool :=
  match v.generations[id]? with
  | some g => g = v.currentGen
  | none => false

def step : VisitedCall → VisitedSet
  | .reset => v.reset
  | .insert id => v.insert id
  | .contains _ => v

/-- No mark is of a later generation than the current one, which is not that of unmarked nodes. -/
structure Current : Prop where
  pos : 0 < v.currentGen.toNat
  le : ∀ g ∈ v.generations, g.toNat ≤ v.currentGen.toNat

variable {v id}

lemma contains_iff : v.contains id = true ↔ v.generations[id]? = some v.currentGen := by
  unfold contains
  cases v.generations[id]? <;> simp

lemma toNat_succ {g : UInt32} (h : g + 1 ≠ 0) : (g + 1).toNat = g.toNat + 1 := by
  have hne : (g + 1).toNat ≠ 0 := fun hzero => h (UInt32.toNat_inj.mp hzero)
  have hlt := g.toNat_lt
  rw [UInt32.toNat_add, UInt32.toNat_one] at hne ⊢
  omega

lemma Current.reset (h : v.Current) (id : ℕ) : v.reset.Current ∧ v.reset.contains id = false := by
  rw [← Bool.not_eq_true, contains_iff, VisitedSet.reset]
  split_ifs with hwrap
  · refine ⟨⟨Nat.one_pos, fun g hg => ?_⟩, fun hmark => ?_⟩
    · obtain ⟨_, _, rfl⟩ := mem_map.mp hg
      exact Nat.zero_le _
    · obtain ⟨_, _, hzero⟩ := mem_map.mp (mem_of_getElem? hmark)
      cases hzero
  · have hsucc := toNat_succ hwrap
    refine ⟨⟨hsucc.symm ▸ Nat.succ_pos _, fun g hg => ?_⟩, fun hmark => ?_⟩
    · exact hsucc.symm ▸ Nat.le_succ_of_le (h.le g hg)
    · exact absurd (hsucc ▸ h.le _ (mem_of_getElem? hmark)) (Nat.not_succ_le_self _)

lemma Current.insert (h : v.Current) (id' : ℕ) : (v.insert id).Current ∧
    ((v.insert id).contains id' = true ↔ id' = id ∨ v.contains id' = true) := by
  have hzero : (0 : UInt32) ≠ v.currentGen := fun hzero => absurd h.pos (by simp [← hzero])
  constructor
  · refine ⟨h.pos, fun g hg => ?_⟩
    rcases mem_or_eq_of_mem_set hg with hg | rfl
    · rcases mem_append.mp hg with hg | hg
      · exact h.le g hg
      · rw [eq_of_mem_replicate hg]
        exact Nat.zero_le _
    · exact Nat.le_refl _
  · simp only [contains_iff, VisitedSet.insert, getElem?_set]
    split_ifs with hid hlt
    · simp [hid]
    · simp at hlt
      omega
    · rw [or_iff_right (Ne.symm hid), getElem?_append]
      split_ifs with hold
      · rfl
      · rw [getElem?_eq_none (Nat.le_of_not_lt hold), getElem?_replicate]
        split_ifs <;> simp [hzero]

end VisitedSet

variable {calls : List VisitedCall} {c : VisitedCall} {id : ℕ}

def InsertedSinceReset (calls : List VisitedCall) (id : ℕ) : Prop :=
  ∃ before after, calls = before ++ .insert id :: after ∧ .reset ∉ after

lemma insertedSinceReset_concat : InsertedSinceReset (calls ++ [c]) id ↔
    c = .insert id ∨ c ≠ .reset ∧ InsertedSinceReset calls id := by
  constructor
  · rintro ⟨before, after, hcalls, hreset⟩
    rcases eq_nil_or_concat after with rfl | ⟨after, d, rfl⟩
    · exact .inl (singleton_inj.mp (append_inj' hcalls rfl).2)
    · rw [concat_eq_append, ← cons_append, ← append_assoc] at hcalls
      obtain ⟨rfl, hlast⟩ := append_inj' hcalls rfl
      obtain rfl := singleton_inj.mp hlast
      rw [concat_eq_append, mem_append, not_or] at hreset
      exact .inr ⟨fun h => hreset.2 (h ▸ mem_singleton_self _), before, after, rfl, hreset.1⟩
  · rintro (rfl | ⟨hne, before, after, rfl, hreset⟩)
    · exact ⟨calls, [], rfl, not_mem_nil⟩
    · refine ⟨before, after ++ [c], by simp, ?_⟩
      simp [hreset, Ne.symm hne]

/-- A node is found marked iff it was marked since the latest reset, however often the counter has
wrapped around. -/
theorem visitedSet_exact (calls : List VisitedCall) (id : ℕ) :
    (calls.foldl VisitedSet.step .new).contains id = true ↔ InsertedSinceReset calls id := by
  suffices hcalls : (calls.foldl VisitedSet.step .new).Current ∧ ∀ id,
      (calls.foldl VisitedSet.step .new).contains id = true ↔ InsertedSinceReset calls id from
    hcalls.2 id
  induction calls using reverseRecOn with
  | nil =>
    refine ⟨⟨by decide, nofun⟩, fun id => iff_of_false Bool.false_ne_true ?_⟩
    rintro ⟨before, after, hcalls, -⟩
    simp at hcalls
  | append_singleton calls c ih =>
    obtain ⟨hcurrent, hmarks⟩ := ih
    simp only [foldl_append, foldl_cons, foldl_nil, insertedSinceReset_concat]
    cases c with
    | reset =>
      refine ⟨(hcurrent.reset id).1, fun id => ?_⟩
      simp [VisitedSet.step, hcurrent.reset]
    | insert id' =>
      refine ⟨(hcurrent.insert id').1, fun id => ?_⟩
      rw [VisitedSet.step, (hcurrent.insert id).2, hmarks, VisitedCall.insert.injEq, eq_comm]
      simp
    | contains id' => simp [VisitedSet.step, hcurrent, hmarks]

end Smongo

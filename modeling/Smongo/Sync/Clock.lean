import Mathlib.Algebra.Order.Ring.Int
import Mathlib.Data.List.Induction
import Mathlib.Data.String.Basic
import Smongo.Lib.Causality
import Smongo.Lib.OrderedTable

/-!
# Vector clocks

The vector clock of the sync manager is a map from node ids to counters in which an absent
counter counts as zero.
-/

namespace Smongo

open Relation List OrderedTable

structure VectorClock where
  clock : OrderedTable String ℤ
deriving DecidableEq

namespace VectorClock

def new : VectorClock := ⟨.empty⟩

def get (vc : VectorClock) (nodeId : String) : ℤ := (vc.clock.get nodeId).getD 0

def tick (vc : VectorClock) (nodeId : String) : VectorClock :=
  ⟨vc.clock.insert nodeId (vc.get nodeId + 1)⟩

def raise (vc : VectorClock) (entry : String × ℤ) : VectorClock :=
  ⟨vc.clock.insert entry.1 (max (vc.get entry.1) entry.2)⟩

def merge (vc other : VectorClock) : VectorClock := other.clock.rows.foldl raise vc

def keys (vc : VectorClock) : List String := vc.clock.rows.map Prod.fst

def dominates (vc other : VectorClock) : Bool :=
  if other.clock.rows.isEmpty then !vc.clock.rows.isEmpty
  else
    (other.clock.rows.all fun entry => !(vc.get entry.1 < entry.2)) &&
      (vc.keys ++ other.keys).any fun nid => other.get nid < vc.get nid

def concurrentWith (vc other : VectorClock) : Bool := !vc.dominates other && !other.dominates vc

variable {vc other : VectorClock} {n : String}

@[simp] lemma get_new (n : String) : new.get n = 0 := rfl

lemma get_tick (vc : VectorClock) (nodeId n : String) :
    (vc.tick nodeId).get n = if n = nodeId then vc.get nodeId + 1 else vc.get n := by
  rw [tick, get, get_insert]
  split <;> rfl

lemma get_raise (vc : VectorClock) (entry : String × ℤ) (n : String) :
    (vc.raise entry).get n = if n = entry.1 then max (vc.get entry.1) entry.2 else vc.get n := by
  rw [raise, get, get_insert]
  split <;> rfl

lemma get_of_mem {entry : String × ℤ} (h : entry ∈ vc.clock.rows) : vc.get entry.1 = entry.2 := by
  rw [get, get_eq_some_iff.mpr h]
  rfl

lemma get_of_not_mem (h : n ∉ vc.keys) : vc.get n = 0 := by
  have hnone : vc.clock.get n = none := by
    rw [Option.eq_none_iff_forall_not_mem]
    intro v hv
    exact h (mem_map_of_mem (get_eq_some_iff.mp hv))
  rw [get, hnone]
  rfl

def Counts (vc : VectorClock) : Prop := ∀ n, 0 ≤ vc.get n

lemma counts_new : new.Counts := fun _ => le_rfl

lemma Counts.tick (h : vc.Counts) (nodeId : String) : (vc.tick nodeId).Counts := by
  intro n
  rw [get_tick]
  split
  · have := h nodeId
    omega
  · exact h n

lemma get_foldl_raise (rows : List (String × ℤ)) (hrows : rows.Pairwise fun a b => a.1 ≠ b.1)
    (vc : VectorClock) (n : String) :
    (rows.foldl raise vc).get n = ((rows.lookup n).map (max (vc.get n))).getD (vc.get n) := by
  induction rows generalizing vc with
  | nil => rfl
  | cons r rows ih =>
    obtain ⟨hhead, htail⟩ := pairwise_cons.mp hrows
    rw [foldl_cons, ih htail, lookup_cons_ite, get_raise]
    by_cases hn : n = r.1
    · have hnone : rows.lookup n = none := by
        rw [Option.eq_none_iff_forall_not_mem]
        intro v hv
        exact hhead _ ((lookup_eq_some_iff htail).mp hv) hn.symm
      rw [hnone, if_pos hn, if_pos hn, hn]
      rfl
    · rw [if_neg hn, if_neg hn]

lemma get_merge (vc other : VectorClock) (n : String) :
    (vc.merge other).get n = ((other.clock.get n).map (max (vc.get n))).getD (vc.get n) :=
  get_foldl_raise _ (ne_of_sorted other.clock.sorted) vc n

lemma get_merge_of_counts (h : vc.Counts) (n : String) :
    (vc.merge other).get n = max (vc.get n) (other.get n) := by
  have hother : other.get n = (other.clock.get n).getD 0 := rfl
  rw [get_merge, hother]
  cases other.clock.get n with
  | some v => rfl
  | none => exact (max_eq_left (h n)).symm

lemma Counts.merge (h : vc.Counts) : (vc.merge other).Counts := by
  intro n
  rw [get_merge_of_counts h]
  exact (h n).trans (le_max_left _ _)

lemma dominates_iff (h : vc.Counts) (hother : other.clock.rows ≠ []) : vc.dominates other = true ↔
      (∀ n, other.get n ≤ vc.get n) ∧ ∃ n, other.get n < vc.get n := by
  have hempty : other.clock.rows.isEmpty = false := by simpa using hother
  rw [dominates, hempty, if_neg Bool.false_ne_true, Bool.and_eq_true, all_eq_true, any_eq_true]
  constructor
  · rintro ⟨hall, n, -, hn⟩
    refine ⟨fun n => ?_, n, by simpa using hn⟩
    by_cases hmem : n ∈ other.keys
    · obtain ⟨entry, hentry, rfl⟩ := mem_map.mp hmem
      have hle := hall entry hentry
      rw [get_of_mem hentry]
      simpa using hle
    · rw [get_of_not_mem hmem]
      exact h n
  · rintro ⟨hle, n, hn⟩
    constructor
    · intro entry hentry
      have hentryLe := hle entry.1
      rw [get_of_mem hentry] at hentryLe
      simpa using hentryLe
    · refine ⟨n, ?_, by simpa using hn⟩
      by_contra hmem
      rw [mem_append, not_or] at hmem
      rw [get_of_not_mem hmem.1, get_of_not_mem hmem.2] at hn
      exact lt_irrefl _ hn

def mergeAll (vc : VectorClock) (others : List VectorClock) : VectorClock := others.foldl merge vc

lemma Counts.mergeAll (h : vc.Counts) (others : List VectorClock) :
    (vc.mergeAll others).Counts := by
  induction others generalizing vc with
  | nil => exact h
  | cons o others ih => exact ih h.merge

lemma le_get_mergeAll (h : vc.Counts) (others : List VectorClock) (n : String) :
    vc.get n ≤ (vc.mergeAll others).get n := by
  induction others generalizing vc with
  | nil => exact le_rfl
  | cons o others ih =>
    have hle : (vc.merge o).get n ≤ ((vc.merge o).mergeAll others).get n := ih h.merge
    rw [get_merge_of_counts h] at hle
    exact (le_max_left _ _).trans hle

lemma get_le_mergeAll_of_mem (h : vc.Counts) {others : List VectorClock} (hmem : other ∈ others)
    (n : String) : other.get n ≤ (vc.mergeAll others).get n := by
  induction others generalizing vc with
  | nil => cases hmem
  | cons o others ih =>
    rcases mem_cons.mp hmem with rfl | hmem
    · have hle : (vc.merge other).get n ≤ ((vc.merge other).mergeAll others).get n :=
        le_get_mergeAll h.merge others n
      rw [get_merge_of_counts h] at hle
      exact (le_max_right _ _).trans hle
    · exact ih h.merge hmem

lemma mergeAll_source (h : vc.Counts) (others : List VectorClock) (n : String) :
    (vc.mergeAll others).get n = vc.get n ∨
      ∃ other ∈ others, (vc.mergeAll others).get n = other.get n := by
  induction others generalizing vc with
  | nil => exact .inl rfl
  | cons o others ih =>
    have hrest : ((vc.merge o).mergeAll others).get n = (vc.merge o).get n ∨
        ∃ other ∈ others, ((vc.merge o).mergeAll others).get n = other.get n := ih h.merge
    rcases hrest with heq | ⟨other, hmem, heq⟩
    · rw [get_merge_of_counts h] at heq
      rcases max_choice (vc.get n) (o.get n) with hmax | hmax
      · exact .inl (heq.trans hmax)
      · exact .inr ⟨o, mem_cons_self, heq.trans hmax⟩
    · exact .inr ⟨other, mem_cons_of_mem _ hmem, heq⟩

/-- Nodes that merged the same clocks agree, in whatever order and however often they did. -/
theorem mergeAll_converges (h : vc.Counts) {xs ys : List VectorClock}
    (hxy : ∀ clock, clock ∈ xs ↔ clock ∈ ys) (n : String) :
    (vc.mergeAll xs).get n = (vc.mergeAll ys).get n := by
  have hle : ∀ {xs ys : List VectorClock}, xs ⊆ ys →
      (vc.mergeAll xs).get n ≤ (vc.mergeAll ys).get n := by
    intro xs ys hsub
    rcases mergeAll_source h xs n with hsame | ⟨x, hx, hsame⟩
    · exact hsame ▸ le_get_mergeAll h ys n
    · exact hsame ▸ get_le_mergeAll_of_mem h (hsub hx) n
  exact le_antisymm (hle fun _ => (hxy _).mp) (hle fun _ => (hxy _).mpr)

theorem mergeAll_converges_two : let a := new.tick "a"
    (new.mergeAll [a, a.tick "b"]).get "b" = (new.mergeAll [a.tick "b", a, a]).get "b" :=
  mergeAll_converges counts_new (by simp [or_comm]) "b"

end VectorClock

structure CausalEvent where
  node : String
  received : List ℕ

structure StampedEvent where
  node : String
  clock : VectorClock

namespace CausalEvent

variable (past : List StampedEvent)

def lastClock (node : String) : VectorClock :=
  (((past.filter fun e => e.node = node).getLast?).map StampedEvent.clock).getD .new

def messages (e : CausalEvent) : List VectorClock :=
  e.received.filterMap fun i => past[i]?.map StampedEvent.clock

def happen (e : CausalEvent) : StampedEvent :=
  ⟨e.node, ((lastClock past e.node).mergeAll (messages past e)).tick e.node⟩

def run (events : List CausalEvent) : List StampedEvent :=
  events.foldl (fun past e => past ++ [happen past e]) []

variable (events : List CausalEvent)

def clockOf (i : Fin events.length) : VectorClock :=
  (((run events)[(i : ℕ)]?).map StampedEvent.clock).getD .new

def Before (i j : Fin events.length) : Prop :=
  i < j ∧ (events[i].node = events[j].node ∨ (i : ℕ) ∈ events[j].received)

def HappenedBefore : Fin events.length → Fin events.length → Prop := TransGen (Before events)

section

variable {events} {past : List StampedEvent} {e : CausalEvent}

lemma run_append_single (e : CausalEvent) :
    run (events ++ [e]) = run events ++ [happen (run events) e] := by
  rw [run, foldl_append]
  rfl

@[simp] lemma length_run : (run events).length = events.length := by
  induction events using reverseRecOn with
  | nil => rfl
  | append_singleton events e ih => simp [run_append_single, ih]

lemma run_take (events : List CausalEvent) (j : ℕ) :
    run (events.take j) = (run events).take j := by
  induction events using reverseRecOn with
  | nil => simp [run]
  | append_singleton events e ih =>
    rcases Nat.lt_or_ge events.length j with hj | hj
    · have hlength : (events ++ [e]).length ≤ j := by
        rw [length_append]
        exact hj
      rw [take_of_length_le hlength, take_of_length_le (by rwa [length_run])]
    · rw [take_append_of_le_length hj, ih, run_append_single,
        take_append_of_le_length (by simpa using hj)]

lemma getElem?_run (i : Fin events.length) :
    (run events)[(i : ℕ)]? = some (happen ((run events).take i) events[i]) := by
  have htake : events.take (i + 1) = events.take i ++ [events[i]] :=
    (take_append_getElem i.isLt).symm
  have hrun := run_take events (i + 1)
  rw [htake, run_append_single, run_take] at hrun
  have hlength : ((run events).take i).length = i := by
    rw [length_take, length_run]
    omega
  have hget := congrArg (fun l => l[(i : ℕ)]?) hrun
  simp only [getElem?_take_of_succ] at hget
  rw [← hget, getElem?_append_right hlength.le, hlength, Nat.sub_self]
  rfl

lemma clockOf_eq (i : Fin events.length) :
    clockOf events i = (happen ((run events).take i) events[i]).clock := by
  rw [clockOf, getElem?_run]
  rfl

lemma exists_of_mem_take {j : Fin events.length} {s : StampedEvent}
    (h : s ∈ (run events).take j) :
    ∃ i : Fin events.length, i < j ∧ s.node = events[i].node ∧ s.clock = clockOf events i := by
  obtain ⟨i, hi, rfl⟩ := mem_take_iff_getElem.mp h
  rw [length_run] at hi
  have hlt : i < events.length := hi.trans_le (min_le_right _ _)
  refine ⟨⟨i, hlt⟩, hi.trans_le (min_le_left _ _), ?_⟩
  have hget := getElem?_run (⟨i, hlt⟩ : Fin events.length)
  rw [getElem?_eq_getElem (by simpa using hlt), Option.some.injEq] at hget
  rw [clockOf_eq, ← hget]
  exact ⟨congrArg StampedEvent.node hget, rfl⟩

lemma mem_take (i j : Fin events.length) (h : i < j) :
    happen ((run events).take i) events[i] ∈ (run events).take j := by
  apply mem_of_getElem? (i := i)
  rw [getElem?_take_of_lt h, getElem?_run]

/-! ### The clock of a node grows -/

lemma lastClock_append (past : List StampedEvent) (s : StampedEvent) (node : String) :
    lastClock (past ++ [s]) node = if s.node = node then s.clock else lastClock past node := by
  rw [lastClock, filter_append]
  split
  · next h =>
    rw [filter_singleton, decide_eq_true h, cond_true, getLast?_append]
    rfl
  · next h =>
    rw [filter_singleton, decide_eq_false h, cond_false, append_nil]
    rfl

lemma lastClock_cases (past : List StampedEvent) (node : String) :
    lastClock past node = .new ∨ ∃ s ∈ past, s.node = node ∧ lastClock past node = s.clock := by
  rw [lastClock]
  cases hlast : (past.filter fun e => e.node = node).getLast? with
  | none => exact .inl rfl
  | some s =>
    obtain ⟨hmem, hnode⟩ := mem_filter.mp (mem_of_getLast? hlast)
    exact .inr ⟨s, hmem, of_decide_eq_true hnode, rfl⟩

lemma counts_lastClock (h : ∀ s ∈ past, s.clock.Counts) (node : String) :
    (lastClock past node).Counts := by
  rcases lastClock_cases past node with hnew | ⟨s, hs, -, hclock⟩
  · exact hnew ▸ VectorClock.counts_new
  · exact hclock ▸ h s hs

lemma counts_happen (h : ∀ s ∈ past, s.clock.Counts) (e : CausalEvent) :
    (happen past e).clock.Counts :=
  ((counts_lastClock h e.node).mergeAll _).tick e.node

lemma counts_run (events : List CausalEvent) : ∀ s ∈ run events, s.clock.Counts := by
  induction events using reverseRecOn with
  | nil => exact fun s hs => absurd hs not_mem_nil
  | append_singleton events e ih =>
    intro s hs
    rw [run_append_single] at hs
    rcases mem_append.mp hs with hs | hs
    · exact ih s hs
    · exact mem_singleton.mp hs ▸ counts_happen ih e

lemma counts_take {j : Fin events.length} : ∀ s ∈ (run events).take j, s.clock.Counts :=
  fun s hs => counts_run events s (mem_of_mem_take hs)

/-- An event's clock is that of its node and of every message it receives, and more by one at
its own node. -/
lemma get_happen (past : List StampedEvent) (e : CausalEvent) (n : String) :
    (happen past e).clock.get n =
      ((lastClock past e.node).mergeAll (messages past e)).get n + if n = e.node then 1 else 0 := by
  rw [happen, VectorClock.get_tick]
  split
  · next h => rw [h]
  · rw [add_zero]

lemma get_mergeAll_le (past : List StampedEvent) (e : CausalEvent) (n : String) :
    ((lastClock past e.node).mergeAll (messages past e)).get n ≤ (happen past e).clock.get n := by
  rw [get_happen]
  split <;> omega

lemma get_lastClock_le (h : ∀ s ∈ past, s.clock.Counts) (e : CausalEvent) (n : String) :
    (lastClock past e.node).get n ≤ (happen past e).clock.get n :=
  (VectorClock.le_get_mergeAll (counts_lastClock h e.node) _ n).trans (get_mergeAll_le past e n)

lemma get_le_lastClock (events : List CausalEvent) :
    ∀ s ∈ run events, ∀ n, s.clock.get n ≤ (lastClock (run events) s.node).get n := by
  induction events using reverseRecOn with
  | nil => exact fun s hs => absurd hs not_mem_nil
  | append_singleton events e ih =>
    intro s hs n
    rw [run_append_single] at hs ⊢
    rw [lastClock_append]
    rcases mem_append.mp hs with hs | hs
    · split
      · next hnode =>
        have hle := get_lastClock_le (counts_run events) e n
        rw [show e.node = s.node from hnode] at hle
        exact (ih s hs n).trans hle
      · exact ih s hs n
    · obtain rfl := mem_singleton.mp hs
      rw [if_pos rfl]

def mergedAt (events : List CausalEvent) (j : Fin events.length) : VectorClock :=
  (lastClock ((run events).take j) events[j].node).mergeAll
    (messages ((run events).take j) events[j])

lemma get_clockOf (j : Fin events.length) (n : String) :
    (clockOf events j).get n = (mergedAt events j).get n + if n = events[j].node then 1 else 0 := by
  rw [clockOf_eq, get_happen]
  rfl

lemma counts_mergedAt (j : Fin events.length) : (mergedAt events j).Counts :=
  (counts_lastClock counts_take _).mergeAll _

lemma get_le_mergedAt {i j : Fin events.length} (h : Before events i j) (n : String) :
    (clockOf events i).get n ≤ (mergedAt events j).get n := by
  have hcounts : (lastClock ((run events).take j) events[j].node).Counts :=
    counts_lastClock counts_take _
  rw [clockOf_eq]
  rcases h with ⟨hlt, hnode | hreceived⟩
  · have hmem : happen ((run events).take i) events[i] ∈ run (events.take j) := by
      rw [run_take]
      exact mem_take i j hlt
    have hle := get_le_lastClock (events.take j) _ hmem n
    have hhappen : (happen ((run events).take i) events[i]).node = events[j].node := hnode
    rw [run_take, hhappen] at hle
    exact hle.trans (VectorClock.le_get_mergeAll hcounts _ n)
  · apply VectorClock.get_le_mergeAll_of_mem hcounts
    refine mem_filterMap.mpr ⟨i, hreceived, ?_⟩
    rw [getElem?_take_of_lt hlt, getElem?_run]
    rfl

lemma exists_before {j : Fin events.length} {n : String} (h : 0 < (mergedAt events j).get n) :
    ∃ i, Before events i j ∧ (mergedAt events j).get n = (clockOf events i).get n := by
  have hcounts : (lastClock ((run events).take j) events[j].node).Counts :=
    counts_lastClock counts_take _
  rcases VectorClock.mergeAll_source hcounts (messages ((run events).take j) events[j]) n with
    heq | ⟨other, hother, heq⟩
  · rcases lastClock_cases ((run events).take j) events[j].node with hnew | ⟨s, hs, hnode, hclock⟩
    · rw [mergedAt, heq, hnew, VectorClock.get_new] at h
      exact absurd h (lt_irrefl 0)
    · obtain ⟨i, hlt, hi, hget⟩ := exists_of_mem_take hs
      refine ⟨i, ⟨hlt, .inl (hi.symm.trans hnode)⟩, ?_⟩
      rw [mergedAt, heq, hclock, hget]
  · obtain ⟨i, hi, hget⟩ := mem_filterMap.mp hother
    obtain ⟨s, hs, rfl⟩ := Option.map_eq_some_iff.mp hget
    have hlt : i < j := by
      by_contra hge
      rw [getElem?_eq_none (by rw [length_take]; omega)] at hs
      cases hs
    refine ⟨⟨i, hlt.trans j.isLt⟩, ⟨hlt, .inr hi⟩, ?_⟩
    rw [getElem?_take_of_lt hlt, getElem?_run ⟨i, hlt.trans j.isLt⟩, Option.some.injEq] at hs
    rw [mergedAt, heq, clockOf_eq, hs]

end

def stamping : Stamping (Fin events.length) String ℤ where
  node i := events[i].node
  before := Before events
  rank i := i
  rank_lt h := h.1
  before_of_node {i j} hnode := by
    rcases lt_trichotomy i j with h | h | h
    · exact .inr (.inl ⟨h, .inl hnode⟩)
    · exact .inl h
    · exact .inr (.inr ⟨h, .inl hnode.symm⟩)
  stamp i := (clockOf events i).get
  stamp_pos i := by
    rw [get_clockOf, if_pos rfl]
    have := counts_mergedAt i events[i].node
    omega
  stamp_le {i j} h n := by
    have hle := get_le_mergedAt h n
    rw [get_clockOf j]
    split <;> omega
  stamp_lt {i j} h := by
    have hle := get_le_mergedAt h events[j].node
    rw [get_clockOf j, if_pos rfl]
    omega
  source {j n} hne hpos := by
    rw [get_clockOf, if_neg hne, add_zero] at hpos
    obtain ⟨i, hbefore, heq⟩ := exists_before hpos
    refine ⟨i, hbefore, ?_⟩
    rw [get_clockOf j, if_neg hne, add_zero, heq]

lemma clockOf_ne_empty (i : Fin events.length) : (clockOf events i).clock.rows ≠ [] := by
  intro h
  have hpos : 0 < (clockOf events i).get events[i].node := (stamping events).stamp_pos i
  have hzero : (clockOf events i).get events[i].node = 0 := by
    apply VectorClock.get_of_not_mem
    rw [VectorClock.keys, h]
    exact not_mem_nil
  omega

lemma dominates_clockOf_iff (i j : Fin events.length) :
    (clockOf events j).dominates (clockOf events i) = true ↔ HappenedBefore events i j := by
  have hcounts : (clockOf events j).Counts := by
    rw [clockOf_eq]
    exact counts_happen counts_take _
  rw [VectorClock.dominates_iff hcounts (clockOf_ne_empty events i)]
  exact ((stamping events).transGen_iff).symm

/-- One event happened before another iff its clock is dominated. -/
theorem clocks_tell_causality (i j : Fin events.length) :
    (HappenedBefore events i j ↔ (clockOf events j).dominates (clockOf events i) = true) ∧
      ((clockOf events i).concurrentWith (clockOf events j) = true ↔
        ¬ HappenedBefore events i j ∧ ¬ HappenedBefore events j i) := by
  refine ⟨(dominates_clockOf_iff events i j).symm, ?_⟩
  rw [← dominates_clockOf_iff, ← dominates_clockOf_iff, VectorClock.concurrentWith,
    Bool.and_eq_true, Bool.not_eq_true', Bool.not_eq_true', Bool.not_eq_true, Bool.not_eq_true]
  exact and_comm

end CausalEvent

end Smongo

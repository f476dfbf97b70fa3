import Smongo.Lib.Knockout
import Smongo.Sync.Store

/-!
# The last-write-wins resolver

Versions compare by the greatest node id of their clocks, then by `_lastModified`, then by `_id`.
-/

namespace Smongo

def Bson.truthy : Bson → Bool
  | .double x => !x.eq .zero
  | .string s | .symbol s | .javaScriptCode s => s ≠ ""
  | .array items => !items.isEmpty
  | .document fields => !fields.isEmpty
  | .boolean b => b
  | .null | .undefined => false
  | .int32 n => n ≠ 0
  | .int64 n => n ≠ 0
  | .binary _ bytes => !bytes.isEmpty
  | _ => true

/-- Comparison of Python values. -/
structure PyOrder where
  /-- No result where `<` and `>` raise a `TypeError`, `some none` where neither holds nor `==`. -/
  order : Bson → Bson → Option (Option Ordering)
  same : Bson → Bson → Bool
  order_swap : ∀ a b, order b a = (order a b).map (Option.map Ordering.swap)
  order_trans : ∀ {a b c}, order a b = some (some .gt) → order b c = some (some .gt) →
    order a c = some (some .gt)
  same_comm : ∀ a b, same a b = same b a
  not_same_of_gt : ∀ {a b}, order a b = some (some .gt) → same a b = false

namespace PyOrder

variable (py : PyOrder)

def ordering (a b : Bson) : Except PyError (Option Ordering) :=
  match py.order a b with
  | some r => .ok r
  | none => .error (.typeError "'>' not supported between these instances")

def gt (a b : Bson) : Except PyError Bool := (py.ordering a b).map (· = some .gt)

def ge (a b : Bson) : Except PyError Bool :=
  (py.ordering a b).map fun r => r = some .gt || r = some .eq

lemma ordering_eq_ok {a b : Bson} {r : Option Ordering} :
    py.ordering a b = .ok r ↔ py.order a b = some r := by
  unfold ordering
  cases py.order a b <;> simp

lemma order_swap_gt {a b : Bson} (h : py.order a b = some (some .gt)) :
    py.order b a = some (some .lt) := by
  rw [py.order_swap, h]
  rfl

end PyOrder

variable (doc : Document)

def lastModified : Bson := (doc.get "_lastModified").getD (.int32 0)

def vclockOf : Bson := (doc.get "_vclock").getD .null

/-- `max(vc.keys()) if vc else ""`. -/
def latestWriter : Except PyError String :=
  if (vclockOf doc).truthy then
    match vclockOf doc with
    | .document fields => .ok ((Document.keys fields).foldl max "")
    | _ => .error (.attributeError "object has no attribute 'keys'")
  else .ok ""

section

variable (py : PyOrder) (str : Bson → String)

def idText (doc : Document) : String := ((doc.get "_id").map str).getD ""

def deterministicLww (localDoc remoteDoc : Document) : Except PyError Document := do
  let localMaxNode ← latestWriter localDoc
  let remoteMaxNode ← latestWriter remoteDoc
  if localMaxNode ≠ remoteMaxNode then
    .ok (if remoteMaxNode < localMaxNode then localDoc else remoteDoc)
  else if py.same (lastModified remoteDoc) (lastModified localDoc) then
    .ok (if idText str localDoc ≤ idText str remoteDoc then remoteDoc else localDoc)
  else do
    let later ← py.gt (lastModified remoteDoc) (lastModified localDoc)
    .ok (if later then remoteDoc else localDoc)

def lww (localDoc remoteDoc : Document) : Except PyError Document :=
  if (vclockOf localDoc).truthy && (vclockOf remoteDoc).truthy then
    deterministicLww py str localDoc remoteDoc
  else do
    let notEarlier ← py.ge (lastModified remoteDoc) (lastModified localDoc)
    .ok (if notEarlier then remoteDoc else localDoc)

/-! ### The order behind it -/

variable (a b : Document)

def Clocked : Prop := (vclockOf a).truthy = true ∧ (vclockOf b).truthy = true

instance (a b : Document) : Decidable (Clocked a b) := inferInstanceAs (Decidable (_ ∧ _))

def Newer : Prop := py.order (lastModified a) (lastModified b) = some (some .gt)

instance (a b : Document) : Decidable (Newer py a b) := inferInstanceAs (Decidable (_ = _))

/-- The first version wins on both sides: by the greatest node id, or by time. -/
def Outranks : Prop :=
  if Clocked a b then
    ∃ m n, latestWriter a = .ok m ∧ latestWriter b = .ok n ∧ (n < m ∨ m = n ∧ Newer py a b)
  else Newer py a b

def Comparable (a : Document) : Prop :=
  if (vclockOf a).truthy then
    (∃ m, latestWriter a = .ok m) ∧ (py.same (lastModified a) (lastModified a) = true ∨
      py.order (lastModified a) (lastModified a) ≠ none)
  else py.order (lastModified a) (lastModified a) ≠ none

def verdict : Except PyError (Option Ordering) :=
  if Clocked a b then
    match latestWriter a, latestWriter b with
    | .ok m, .ok n =>
      if n < m then .ok (some .gt)
      else if m < n then .ok (some .lt)
      else if py.same (lastModified a) (lastModified b) then .ok (some .eq)
      else (py.ordering (lastModified a) (lastModified b)).map (·.filter (· ≠ .eq))
    | _, _ => .error (.attributeError "object has no attribute 'keys'")
  else py.ordering (lastModified a) (lastModified b)

end

section

variable {py : PyOrder} {str : Bson → String} {a b c x y : Document}

lemma Clocked.symm (h : Clocked a b) : Clocked b a := ⟨h.2, h.1⟩

lemma latestWriter_error {e : PyError} (h : latestWriter a = .error e) :
    e = .attributeError "object has no attribute 'keys'" := by
  unfold latestWriter at h
  split at h
  · split at h
    · cases h
    · cases h
      rfl
  · cases h

lemma ordering_swap (a b : Bson) :
    py.ordering b a = (py.ordering a b).map (Option.map .swap) := by
  unfold PyOrder.ordering
  rw [py.order_swap]
  cases py.order a b <;> rfl

lemma verdict_swap (a b : Document) :
    verdict py b a = (verdict py a b).map (Option.map Ordering.swap) := by
  unfold verdict
  by_cases hclocked : Clocked a b
  · rw [if_pos hclocked, if_pos hclocked.symm]
    cases ha : latestWriter a with
    | error e => cases latestWriter b <;> rfl
    | ok m =>
      cases hb : latestWriter b with
      | error e => rfl
      | ok n =>
        dsimp only
        rcases lt_trichotomy m n with h | h | h
        · rw [if_pos h, if_neg h.not_gt, if_pos h]
          rfl
        · rw [if_neg h.not_lt, if_neg h.not_gt, if_neg h.not_gt, if_neg h.not_lt, py.same_comm]
          split
          · rfl
          · rw [ordering_swap]
            rcases py.ordering (lastModified a) (lastModified b) with e | _ | (_ | _ | _) <;> rfl
        · rw [if_neg h.not_gt, if_pos h, if_pos h]
          rfl
  · rw [if_neg hclocked, if_neg fun h => hclocked h.symm]
    exact ordering_swap _ _

lemma lww_eq (hid : a.get "_id" = b.get "_id") : lww py str a b =
      (verdict py a b).map fun r => if r = some .gt ∨ r = none then a else b := by
  unfold lww verdict
  by_cases hclocked : Clocked a b
  · rw [if_pos hclocked, if_pos (by rw [hclocked.1, hclocked.2]; rfl), deterministicLww]
    cases ha : latestWriter a with
    | error e =>
      rw [latestWriter_error ha]
      cases hb : latestWriter b <;> rfl
    | ok m =>
      cases hb : latestWriter b with
      | error e =>
        rw [latestWriter_error hb]
        rfl
      | ok n =>
        change (if m ≠ n then _ else _) = _
        dsimp only
        rcases lt_trichotomy m n with h | h | h
        · rw [if_pos h.ne, if_neg h.not_gt, if_neg h.not_gt, if_pos h]
          rfl
        · rw [if_neg (not_not.mpr h), if_neg h.not_gt, if_neg h.not_lt, py.same_comm]
          split
          · have htext : idText str a = idText str b := by rw [idText, hid, idText]
            rw [htext, if_pos le_rfl]
            rfl
          · rw [PyOrder.gt, ordering_swap]
            rcases py.ordering (lastModified a) (lastModified b) with e | _ | (_ | _ | _) <;> rfl
        · rw [if_pos h.ne', if_pos h, if_pos h]
          rfl
  · have hfalse : ((vclockOf a).truthy && (vclockOf b).truthy) = false := by
      rw [Bool.and_eq_false_iff]
      by_contra hboth
      rw [not_or, Bool.not_eq_false, Bool.not_eq_false] at hboth
      exact hclocked hboth
    rw [if_neg hclocked, hfalse, if_neg Bool.false_ne_true, PyOrder.ge, ordering_swap]
    rcases py.ordering (lastModified a) (lastModified b) with e | _ | (_ | _ | _) <;> rfl

lemma of_choice {r : Except PyError Bool} {w : Document}
    (h : (do let b ← r; .ok (if b then x else y) : Except PyError Document) = .ok w) :
    w = x ∨ w = y := by
  cases r with
  | error e => cases h
  | ok b =>
    cases h
    cases b
    · exact .inr rfl
    · exact .inl rfl

lemma lww_selects : Knockout.Selects (lww py str) := by
  intro a b w h
  unfold lww deterministicLww at h
  split at h
  · cases ha : latestWriter a with
    | error e =>
      rw [ha] at h
      cases h
    | ok m =>
      cases hb : latestWriter b with
      | error e =>
        rw [ha, hb] at h
        cases h
      | ok n =>
        rw [ha, hb] at h
        change (if m ≠ n then _ else _) = _ at h
        split at h
        · cases h
          exact ite_eq_or_eq _ _ _
        · split at h
          · cases h
            exact (ite_eq_or_eq _ _ _).symm
          · exact (of_choice h).symm
  · exact (of_choice h).symm

lemma verdict_eq_gt_iff : verdict py a b = .ok (some .gt) ↔ Outranks py a b := by
  unfold verdict Outranks
  split
  · cases ha : latestWriter a with
    | error e => simp
    | ok m =>
      cases hb : latestWriter b with
      | error e => simp
      | ok n =>
        dsimp only
        have hnewer : (∃ m' n', (Except.ok m : Except PyError String) = .ok m' ∧
            (Except.ok n : Except PyError String) = .ok n' ∧
              (n' < m' ∨ m' = n' ∧ Newer py a b)) ↔ n < m ∨ m = n ∧ Newer py a b := by
          simp
        rw [hnewer]
        rcases lt_trichotomy m n with h | h | h
        · simp [h, h.not_gt, h.ne]
        · rw [if_neg h.not_gt, if_neg h.not_lt]
          have hiff : (n < m ∨ m = n ∧ Newer py a b) ↔ Newer py a b := by simp [h]
          rw [hiff, Newer, ← PyOrder.ordering_eq_ok]
          split
          · next hsame =>
            refine iff_of_false nofun fun hgt => ?_
            rw [py.not_same_of_gt (py.ordering_eq_ok.mp hgt)] at hsame
            cases hsame
          · rcases py.ordering (lastModified a) (lastModified b) with e | _ | (_ | _ | _) <;>
              simp [Except.map]
        · simp [h]
  · exact py.ordering_eq_ok

lemma verdict_self_iff : (∃ r, verdict py a a = .ok r) ↔ Comparable py a := by
  unfold verdict Comparable
  by_cases hclock : (vclockOf a).truthy
  · rw [if_pos ⟨hclock, hclock⟩, if_pos hclock]
    cases ha : latestWriter a with
    | error e => simp
    | ok m =>
      dsimp only
      rw [if_neg (lt_irrefl m), if_neg (lt_irrefl m)]
      split
      · next hsame => simp [hsame]
      · next hsame =>
        unfold PyOrder.ordering
        cases py.order (lastModified a) (lastModified a) <;> simp [Except.map, hsame]
  · rw [if_neg fun h => hclock h.1, if_neg hclock]
    unfold PyOrder.ordering
    cases py.order (lastModified a) (lastModified a) <;> simp

lemma verdict_eq_lt_iff : verdict py a b = .ok (some .lt) ↔ Outranks py b a := by
  rw [← verdict_eq_gt_iff, verdict_swap a b]
  rcases verdict py a b with e | _ | (_ | _ | _) <;> simp [Except.map]

variable (py) in
/-- What is needed for both sides to choose the same version. -/
def Separated (a b : Document) : Prop := Outranks py a b ∨ Outranks py b a ∨ a = b ∧ Comparable py a

instance (a b : Document) : Decidable (Outranks py a b) :=
  decidable_of_iff ((verdict py a b).toOption = some (some .gt)) <| by
    rw [← verdict_eq_gt_iff]
    cases verdict py a b <;> simp [Except.toOption]

instance (a : Document) : Decidable (Comparable py a) :=
  decidable_of_iff ((verdict py a a).toOption.isSome = true) <| by
    rw [← verdict_self_iff]
    cases verdict py a a <;> simp [Except.toOption]

instance (a b : Document) : Decidable (Separated py a b) := inferInstanceAs (Decidable (_ ∨ _))

lemma decides_iff (hid : a.get "_id" = b.get "_id") :
    Knockout.Decides (lww py str) a b ↔ Separated py a b := by
  rw [Knockout.Decides, lww_eq hid, lww_eq hid.symm, verdict_swap a b, Separated,
    ← verdict_eq_gt_iff (a := a) (b := b), ← verdict_eq_lt_iff]
  by_cases heq : a = b
  · subst heq
    rw [← verdict_self_iff]
    rcases verdict py a a with e | _ | (_ | _ | _) <;> simp [Except.map]
  · rcases verdict py a b with e | _ | (_ | _ | _) <;> simp [Except.map, heq, Ne.symm heq]

lemma beats_iff (hid : a.get "_id" = b.get "_id") (hne : a ≠ b) :
    Knockout.Beats (lww py str) a b ↔ Outranks py a b := by
  rw [Knockout.Beats, lww_eq hid, lww_eq hid.symm, verdict_swap a b, ← verdict_eq_gt_iff]
  rcases verdict py a b with e | _ | (_ | _ | _) <;> simp [Except.map, Ne.symm hne]

lemma Newer.trans (h : Newer py a b) (h' : Newer py b c) : Newer py a c := py.order_trans h h'

lemma Newer.asymm (h : Newer py a b) (h' : Newer py b a) : False := by
  have heq := (py.order_swap_gt h).symm.trans h'
  cases heq

variable (py) in
/-- Node ids and times order two versions differently, with the time of a third between them. -/
def Crossed (a b c : Document) : Prop :=
  Clocked a b ∧ (vclockOf c).truthy = false ∧
    (∃ m n, latestWriter a = .ok m ∧ latestWriter b = .ok n ∧ n < m) ∧ Newer py b c ∧ Newer py c a

lemma outranks_iff_newer (h : ¬ Clocked a b) : Outranks py a b ↔ Newer py a b := by
  rw [Outranks, if_neg h]

lemma Crossed.outranks (h : Crossed py a b c) :
    a ≠ b ∧ Outranks py a b ∧ Outranks py b c ∧ Outranks py c a := by
  obtain ⟨hab, hc, ⟨m, n, hm, hn, hlt⟩, hbc, hca⟩ := h
  have hnot : ∀ d, ¬ Clocked d c := fun d hd => by
    rw [hd.2] at hc
    cases hc
  refine ⟨?_, ?_, (outranks_iff_newer (hnot b)).mpr hbc,
    (outranks_iff_newer fun h => hnot a h.symm).mpr hca⟩
  · rintro rfl
    have heq := hm.symm.trans hn
    cases heq
    exact lt_irrefl _ hlt
  · rw [Outranks, if_pos hab]
    exact ⟨m, n, hm, hn, .inl hlt⟩

lemma crossed_of_outranks (hab : Clocked a b) (hc : (vclockOf c).truthy = false)
    (h₁ : Outranks py a b) (h₂ : Outranks py b c) (h₃ : Outranks py c a) : Crossed py a b c := by
  have hnot : ∀ d, ¬ Clocked d c := fun d hd => by
    rw [hd.2] at hc
    cases hc
  have hbc := (outranks_iff_newer (hnot b)).mp h₂
  have hca := (outranks_iff_newer fun h => hnot a h.symm).mp h₃
  rw [Outranks, if_pos hab] at h₁
  obtain ⟨m, n, hm, hn, hlt | ⟨-, hnewer⟩⟩ := h₁
  · exact ⟨hab, hc, ⟨m, n, hm, hn, hlt⟩, hbc, hca⟩
  · exact (hnewer.asymm (hbc.trans hca)).elim

lemma not_outranks_of_clocked (hab : Clocked a b) (hbc : Clocked b c)
    (h₁ : Outranks py a b) (h₂ : Outranks py b c) : ¬ Outranks py c a := by
  intro h₃
  rw [Outranks, if_pos hab] at h₁
  rw [Outranks, if_pos hbc] at h₂
  rw [Outranks, if_pos ⟨hbc.2, hab.1⟩] at h₃
  obtain ⟨m, n, hm, hn, h₁⟩ := h₁
  obtain ⟨n', k, hn', hk, h₂⟩ := h₂
  obtain ⟨k', m', hk', hm', h₃⟩ := h₃
  cases hn.symm.trans hn'
  cases hk.symm.trans hk'
  cases hm.symm.trans hm'
  rcases h₁ with hlt₁ | ⟨rfl, hnewer₁⟩
  · have hle₂ : k ≤ n := h₂.elim le_of_lt fun h => h.1.ge
    have hle₃ : m ≤ k := h₃.elim le_of_lt fun h => h.1.ge
    exact absurd (hle₃.trans hle₂) (not_le.mpr hlt₁)
  · rcases h₂ with hlt₂ | ⟨rfl, hnewer₂⟩
    · have hle₃ : m ≤ k := h₃.elim le_of_lt fun h => h.1.ge
      exact absurd hle₃ (not_le.mpr hlt₂)
    · rcases h₃ with hlt₃ | ⟨-, hnewer₃⟩
      · exact lt_irrefl _ hlt₃
      · exact hnewer₃.asymm (hnewer₁.trans hnewer₂)

/-- Three versions can outrank each other in a circle only where two have a clock and one has
not. -/
lemma crossed_of_circle (h₁ : Outranks py a b) (h₂ : Outranks py b c) (h₃ : Outranks py c a) :
    Crossed py a b c ∨ Crossed py b c a ∨ Crossed py c a b := by
  have hnewer : ¬ Clocked a b → ¬ Clocked b c → ¬ Clocked c a → False := by
    intro hab hbc hca
    have h := ((outranks_iff_newer hab).mp h₁).trans ((outranks_iff_newer hbc).mp h₂)
    exact h.asymm ((outranks_iff_newer hca).mp h₃)
  unfold Clocked at hnewer
  cases ha : (vclockOf a).truthy <;> cases hb : (vclockOf b).truthy <;>
    cases hc : (vclockOf c).truthy
  case true.true.true => exact (not_outranks_of_clocked ⟨ha, hb⟩ ⟨hb, hc⟩ h₁ h₂ h₃).elim
  case true.true.false => exact .inl (crossed_of_outranks ⟨ha, hb⟩ hc h₁ h₂ h₃)
  case false.true.true => exact .inr (.inl (crossed_of_outranks ⟨hb, hc⟩ ha h₂ h₃ h₁))
  case true.false.true => exact .inr (.inr (crossed_of_outranks ⟨hc, ha⟩ hb h₃ h₁ h₂))
  all_goals exact (hnewer (by simp [ha, hb]) (by simp [hb, hc]) (by simp [ha, hc])).elim

lemma circle_iff (hb : b.get "_id" = a.get "_id") (hc : c.get "_id" = a.get "_id") :
    Knockout.Circle (lww py str) a b c ↔
      a ≠ b ∧ Outranks py a b ∧ Outranks py b c ∧ Outranks py c a := by
  constructor
  · rintro ⟨hne, h₁, h₂, h₃⟩
    have hbc : b ≠ c := by
      rintro rfl
      exact hne (h₁.eq_of_beats h₃)
    have hca : c ≠ a := by
      rintro rfl
      exact hne (h₁.eq_of_beats h₂)
    exact ⟨hne, (beats_iff hb.symm hne).mp h₁, (beats_iff (hb.trans hc.symm) hbc).mp h₂,
      (beats_iff hc hca).mp h₃⟩
  · rintro ⟨hne, h₁, h₂, h₃⟩
    have hbeats : ∀ d e, Outranks py d e → d.get "_id" = e.get "_id" →
        Knockout.Beats (lww py str) d e := by
      intro d e hde hid
      by_cases heq : d = e
      · subst heq
        have hdecides : Knockout.Decides (lww py str) d d := (decides_iff hid).mpr (.inl hde)
        obtain ⟨w, hw, -⟩ := hdecides
        rcases lww_selects hw with rfl | rfl <;> exact ⟨hw, hw⟩
      · exact (beats_iff hid heq).mpr hde
    exact ⟨hne, hbeats a b h₁ hb.symm, hbeats b c h₂ (hb.trans hc.symm), hbeats c a h₃ hc⟩

end

/-- All choices between three versions, two at a time, in any order and on any side. -/
structure NodeIndependent (py : PyOrder) (str : Bson → String) (x y z : Document) : Prop where
  pairs : ∀ a ∈ [x, y, z], ∀ b ∈ [x, y, z], ∃ d, lww py str a b = .ok d ∧ lww py str b a = .ok d
  brackets : ∃ d, ∀ t : Bracket Document, t.leaves.Perm [x, y, z] → t.winner (lww py str) = .ok d

/-- The resolver is independent of sides and order iff node id or time separates any two versions,
and none crosses two with clocks. -/
theorem lww_node_independent_iff (py : PyOrder) (str : Bson → String) {x y z : Document}
    (hy : y.get "_id" = x.get "_id") (hz : z.get "_id" = x.get "_id") :
    NodeIndependent py str x y z ↔ (∀ a ∈ [x, y, z], ∀ b ∈ [x, y, z], Separated py a b) ∧
        ∀ a b c, [a, b, c].Perm [x, y, z] → ¬ Crossed py a b c := by
  have hid : ∀ a ∈ [x, y, z], a.get "_id" = x.get "_id" := by
    intro a ha
    simp only [List.mem_cons, List.not_mem_nil, or_false] at ha
    rcases ha with rfl | rfl | rfl
    · rfl
    · exact hy
    · exact hz
  have hpairs : (∀ a ∈ [x, y, z], ∀ b ∈ [x, y, z], Knockout.Decides (lww py str) a b) ↔
      ∀ a ∈ [x, y, z], ∀ b ∈ [x, y, z], Separated py a b := by
    refine forall₂_congr fun a ha => forall₂_congr fun b hb => ?_
    exact decides_iff ((hid a ha).trans (hid b hb).symm)
  have hcircles : (∀ a b c, [a, b, c].Perm [x, y, z] → ¬ Knockout.Circle (lww py str) a b c) ↔
      ∀ a b c, [a, b, c].Perm [x, y, z] → ¬ Crossed py a b c := by
    have hcircle : ∀ a b c, [a, b, c].Perm [x, y, z] → (Knockout.Circle (lww py str) a b c ↔
        a ≠ b ∧ Outranks py a b ∧ Outranks py b c ∧ Outranks py c a) := by
      intro a b c hperm
      have ha := hid a (hperm.subset (by simp))
      exact circle_iff ((hid b (hperm.subset (by simp))).trans ha.symm)
        ((hid c (hperm.subset (by simp))).trans ha.symm)
    constructor
    · intro h a b c hperm hcrossed
      exact h a b c hperm ((hcircle a b c hperm).mpr hcrossed.outranks)
    · intro h a b c hperm hc
      obtain ⟨-, h₁, h₂, h₃⟩ := (hcircle a b c hperm).mp hc
      have hrotate : ∀ a b c : Document, [b, c, a].Perm [a, b, c] := fun a b c =>
        List.perm_append_singleton a [b, c]
      rcases crossed_of_circle h₁ h₂ h₃ with hcrossed | hcrossed | hcrossed
      · exact h a b c hperm hcrossed
      · exact h b c a ((hrotate a b c).trans hperm) hcrossed
      · exact h c a b ((hrotate b c a).trans ((hrotate a b c).trans hperm)) hcrossed
  constructor
  · rintro ⟨hdecides, hwinner⟩
    refine ⟨hpairs.mp hdecides, hcircles.mp ?_⟩
    exact (Knockout.exists_winner_three_iff lww_selects hdecides).mp hwinner
  · rintro ⟨hseparated, hcrossed⟩
    have hdecides := hpairs.mpr hseparated
    refine ⟨hdecides, ?_⟩
    exact (Knockout.exists_winner_three_iff lww_selects hdecides).mpr (hcircles.mpr hcrossed)

/-- The value of a Python number in units of `2^-1074`, `some none` for `nan`. -/
def numberKey : Bson → Option (Option ℤ)
  | .boolean b => some (some (if b then 2 ^ 1074 else 0))
  | .int32 n => some (some (n.toInt * 2 ^ 1074))
  | .int64 n => some (some (n.toInt * 2 ^ 1074))
  | .double x =>
    some (if x.isNaN then none
      -- beyond every finite value
      else if x.isInf then some (if x.isNeg then -2 ^ 2200 else 2 ^ 2200)
      else some x.signedUnits)
  | _ => none

def numberOrder (a b : Bson) : Option (Option Ordering) :=
  match numberKey a, numberKey b with
  | some (some k), some (some l) => some (some (compare k l))
  | some _, some _ => some none
  | _, _ => none

lemma numberOrder_eq_gt {a b : Bson} : numberOrder a b = some (some .gt) ↔
      ∃ k l, numberKey a = some (some k) ∧ numberKey b = some (some l) ∧ l < k := by
  unfold numberOrder
  rcases numberKey a with _ | _ | k <;> rcases numberKey b with _ | _ | l <;>
    simp [compare_gt_iff_gt]

lemma numberOrder_eq_eq {a b : Bson} : numberOrder a b = some (some .eq) ↔
      ∃ k, numberKey a = some (some k) ∧ numberKey b = some (some k) := by
  unfold numberOrder
  rcases numberKey a with _ | _ | k <;> rcases numberKey b with _ | _ | l <;> simp
  exact eq_comm

def PyOrder.ofNumbers : PyOrder where
  order := numberOrder
  same a b := a = b || numberOrder a b = some (some .eq)
  order_swap a b := by
    unfold numberOrder
    rcases numberKey a with _ | _ | k <;> rcases numberKey b with _ | _ | l <;> try rfl
    have hswap : compare l k = (compare k l).swap := Std.OrientedCmp.eq_swap
    simp [hswap]
  order_trans {a b c} hab hbc := by
    obtain ⟨k, l, hk, hl, hlt⟩ := numberOrder_eq_gt.mp hab
    obtain ⟨l', m, hl', hm, hlt'⟩ := numberOrder_eq_gt.mp hbc
    cases hl.symm.trans hl'
    exact numberOrder_eq_gt.mpr ⟨k, m, hk, hm, hlt'.trans hlt⟩
  same_comm a b := by
    have hcomm : numberOrder a b = some (some .eq) ↔ numberOrder b a = some (some .eq) := by
      rw [numberOrder_eq_eq, numberOrder_eq_eq]
      exact exists_congr fun k => and_comm
    simp [hcomm, eq_comm]
  not_same_of_gt {a b} hgt := by
    obtain ⟨k, l, hk, hl, hlt⟩ := numberOrder_eq_gt.mp hgt
    have hne : a ≠ b := by
      rintro rfl
      cases hk.symm.trans hl
      exact lt_irrefl _ hlt
    simp [hne, hgt]

namespace Sample

def version (a : String) (time : Int32) (writer : Option String) : Document :=
  [("_id", .int32 1), ("a", .string a), ("_lastModified", .int32 time)] ++
    writer.toList.map fun node => ("_vclock", .document [(node, .int32 1)])

end Sample

section

open Sample

theorem lww_node_independent_ordered :
    NodeIndependent .ofNumbers (fun _ => "1") (version "x" 1 (some "a")) (version "y" 2 (some "b"))
      (version "z" 3 none) := by
  refine (lww_node_independent_iff .ofNumbers _ (by decide +kernel) (by decide +kernel)).mpr
    ⟨?_, ?_⟩
  · decide +kernel
  · intro a b c hperm hcrossed
    have hnewest : ∀ d ∈ [version "x" 1 (some "a"), version "y" 2 (some "b"), version "z" 3 none],
        (vclockOf d).truthy = false → ∀ b ∈ [version "x" 1 (some "a"), version "y" 2 (some "b"),
          version "z" 3 none], ¬ Newer .ofNumbers b d := by decide +kernel
    exact hnewest c (hperm.subset (by simp)) hcrossed.2.1 b (hperm.subset (by simp))
      hcrossed.2.2.2.1

/-- Two versions without clocks and with the same time: each side keeps the other's. -/
theorem lww_tie_depends_on_side :
    (lww .ofNumbers (fun _ => "1") (version "x" 1 none) (version "y" 1 none)).toOption =
        some (version "y" 1 none) ∧
      (lww .ofNumbers (fun _ => "1") (version "y" 1 none) (version "x" 1 none)).toOption =
        some (version "x" 1 none) ∧
      ¬ NodeIndependent .ofNumbers (fun _ => "1") (version "x" 1 none) (version "y" 1 none)
        (version "y" 1 none) := by
  refine ⟨by decide +kernel, by decide +kernel, fun h => ?_⟩
  obtain ⟨d, hxy, hyx⟩ := h.pairs (version "x" 1 none) (by simp) (version "y" 1 none) (by simp)
  have heq := congrArg Except.toOption (hxy.trans hyx.symm)
  exact absurd heq (by decide +kernel)

/-- Three versions of which each is preferred to the next in turn. -/
example :
    Crossed .ofNumbers (version "x" 1 (some "b")) (version "y" 3 (some "a")) (version "z" 2 none) :=
  ⟨by decide +kernel, by decide +kernel, ⟨"b", "a", by rfl, by rfl, by decide +kernel⟩,
    by decide +kernel, by decide +kernel⟩

end

end Smongo

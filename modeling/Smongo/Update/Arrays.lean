import Smongo.Lib.Selection
import Smongo.Query.Membership

/-!
# Array operators

`$push` inserts a block, sorts and slices; `$pull` keeps what its condition does not match.
-/

namespace Smongo

open List Outcome

/-- The result is ordered, and elements that compare equal keep their order. -/
structure StablySorted {α : Type} (cmp : α → α → Ordering) (l l' : List α) : Prop where
  perm : l'.Perm l
  ordered : l'.Pairwise fun a b => cmp a b ≠ .gt
  stable : ∀ a ∈ l, l'.filter (cmp a · = .eq) = l.filter (cmp a · = .eq)

lemma stablySorted_insertionSort {α : Type} {cmp : α → α → Ordering} {l : List α}
    (h : TotalOn {a | a ∈ l} cmp) :
    StablySorted cmp l (l.insertionSort fun a b => cmp a b ≠ .gt) := by
  have hperm := perm_insertionSort (fun a b => cmp a b ≠ .gt) l
  refine ⟨hperm, pairwise_insertionSort_of_totalOn h, fun a ha => ?_⟩
  have htied : (l.filter (cmp a · = .eq)).Pairwise fun b c => cmp b c ≠ .gt := by
    refine pairwise_of_forall_mem_list fun b hb c hc => ?_
    simp only [mem_filter, decide_eq_true_iff] at hb hc
    refine h.trans b hb.1 a ha c hc.1 ?_ (by simp [hc.2])
    simp [h.swap a ha b hb.1, hb.2]
  -- what is tied stays in order, and no more elements are tied than before
  have hsub := (sublist_insertionSort htied filter_sublist).filter (cmp a · = .eq)
  simp only [filter_filter, Bool.and_self] at hsub
  exact (hsub.eq_of_length (hperm.filter _).length_eq.symm).symm

/-- `$position` counts from the end when it is negative. -/
def insertBlock (arr elements : List Bson) (position : Option Int64) : List Bson :=
  let i := match position with
    | none => arr.length
    | some pos => if pos < 0 then arr.length - pos.toInt.natAbs else min pos.toInt.natAbs arr.length
  arr.take i ++ elements ++ arr.drop i

def keepSlice (arr : List Bson) : Option Int64 → List Bson
  | none => arr
  | some n => if n < 0 then arr.drop (arr.length - n.toInt.natAbs) else arr.take n.toInt.natAbs

def pushOrder : Bson → Option (Bson → Bson → Ordering)
  | .document sortDoc => some fun a b => compareBySortDoc a b sortDoc
  | spec => (integerOf spec).map fun dir a b => directed dir (compareBson (some a) (some b))

def valueIn (field : String) : Bson → Option Bson
  | .document d => getValue d field
  | _ => none

/-- No `NaN` is among the values that sorting compares. -/
def Bson.NoNaN (v : Bson) : Prop := v.isNaN = false ∧ ∀ field, (valueIn field v).any isNaN = false

section

variable {arr elements : List Bson} {position slice : Option Int64} {v : Option Bson} {n : Int64}
  {order : Option (Bson → Bson → Ordering)}

lemma asUsize_toInt (h : ¬ n < 0) : asUsize n.toInt = n.toInt.natAbs := by
  rw [Int64.lt_iff_toInt_lt, Int64.toInt_zero] at h
  have hlt := n.toInt_lt
  rw [asUsize]
  omega

lemma asUsize_neg (h : n < 0) : asUsize (-n).toInt = n.toInt.natAbs := by
  rw [Int64.lt_iff_toInt_lt, Int64.toInt_zero] at h
  have hle := n.le_toInt
  have hmod : (-n.toInt).bmod (2 ^ 64) % 2 ^ 64 = -n.toInt % 2 ^ 64 := Int.bmod_emod
  rw [asUsize, Int64.toInt_neg, hmod]
  omega

lemma foldl_insertIdx {idx k : ℕ} {front back : List Bson} (h : front.length = idx + k) :
    (elements.zipIdx k).foldl (fun arr p => arr.insertIdx (idx + p.2) p.1) (front ++ back) =
      front ++ elements ++ back := by
  induction elements generalizing front k with
  | nil => simp
  | cons e elements ih =>
    have hinsert : (front ++ back).insertIdx (idx + k) e = (front ++ [e]) ++ back := by
      rw [← h, append_assoc]
      exact modifyTailIdx_add (cons e) 0 front back
    rw [zipIdx_cons, foldl_cons, hinsert, ih (by simp [h, Nat.add_assoc])]
    simp

lemma insertAtPosition_eq (h : Option.Rel (integerOf · = some ·) v position) :
    insertAtPosition arr elements (v.bind integerOf) = insertBlock arr elements position := by
  cases h with
  | none => simp [insertAtPosition, insertBlock]
  | @some v pos h =>
    have hidx : (if pos < 0 then arr.length - asUsize (-pos).toInt
        else min (asUsize pos.toInt) arr.length) =
        if pos < 0 then arr.length - pos.toInt.natAbs else min pos.toInt.natAbs arr.length := by
      split
      · next hpos => rw [asUsize_neg hpos]
      · next hpos => rw [asUsize_toInt hpos]
    rw [Option.bind_some, h, insertAtPosition, hidx, insertBlock]
    generalize hi : (if pos < 0 then _ else _) = i
    have htake : (arr.take i).length = i + 0 := by
      rw [length_take, ← hi]
      split <;> omega
    rw [← foldl_insertIdx htake, take_append_drop]

lemma slicePushed_eq (h : Option.Rel (integerOf · = some ·) v slice) :
    slicePushed arr v = .ok (keepSlice arr slice) := by
  cases h with
  | none => rfl
  | @some v n h =>
    rw [slicePushed, h, keepSlice]
    dsimp only
    by_cases hzero : n = 0
    · subst hzero
      rfl
    · rw [if_neg hzero]
      by_cases hneg : n < 0
      · rw [if_neg (Int64.lt_asymm hneg), if_pos hneg, asUsize_neg hneg]
      · have hpos : 0 < n := Int64.lt_of_le_of_ne (Int64.not_lt.mp hneg) (Ne.symm hzero)
        rw [if_pos hpos, if_neg hneg, asUsize_toInt hneg]

lemma compareBySortDoc_eq (a b : Bson) (sortDoc : Document) :
    compareBySortDoc a b sortDoc = sortDoc.foldr (fun f rest =>
      let cmp := compareBson (valueIn f.1 a) (valueIn f.1 b)
      (if decide ((integerOf f.2).getD 1 < 0) then cmp.swap else cmp).then rest) .eq := by
  induction sortDoc with
  | nil => rfl
  | cons f sortDoc ih =>
    rw [foldr_cons, ← ih]
    simp only [decide_eq_true_eq]
    rfl

lemma totalOn_pushOrder {spec : Bson} {cmp : Bson → Bson → Ordering}
    (h : pushOrder spec = some cmp) (hnan : ∀ v ∈ arr, v.NoNaN) : TotalOn {v | v ∈ arr} cmp := by
  unfold pushOrder at h
  split at h
  · next sortDoc =>
    obtain rfl := Option.some.inj h
    have h := measured_fields sortDoc (fun f => decide ((integerOf f.2).getD 1 < 0))
      fun f => valueIn f.1
    simp only [← compareBySortDoc_eq] at h
    exact (h.mono fun v hv f _ => (hnan v hv).2 f.1).totalOn
  · obtain ⟨dir, -, rfl⟩ := Option.map_eq_some_iff.mp h
    have h : MeasuredOn {v | v ∈ arr} _ _ :=
      (compareBson_measured.comap some).mono fun v hv => (hnan v hv).1
    by_cases hdir : dir < 0
    · simpa only [directed, if_pos hdir] using h.swap.totalOn
    · simpa only [directed, if_neg hdir] using h.totalOn

lemma sortPushed_eq (h : Option.Rel (pushOrder · = some ·) v order) :
    sortPushed arr v =
      .ok (order.elim arr fun cmp => arr.insertionSort fun a b => cmp a b ≠ .gt) := by
  cases h with
  | none => rfl
  | @some spec cmp h => cases spec <;> cases h <;> rfl

/-- `$push` with modifiers inserts the list as one block, sorts stably and slices. -/
theorem push_meets_reference (env : Env) (doc : Document) (key : String) (modifiers : Document)
    (harr : arrayToExtend env "$push" doc key = .ok arr)
    (heach : modifiers.get "$each" = some (.array elements))
    (hposition : Option.Rel (integerOf · = some ·) (modifiers.get "$position") position)
    (hsort : Option.Rel (pushOrder · = some ·) (modifiers.get "$sort") order)
    (hslice : Option.Rel (integerOf · = some ·) (modifiers.get "$slice") slice)
    (hnan : ∀ v ∈ arr ++ elements, v.NoNaN) :
    let block := insertBlock arr elements position
    let sorted := order.elim block fun cmp => block.insertionSort fun a b => cmp a b ≠ .gt
    applyPush env [(key, .document modifiers)] doc =
        .ok (setValue doc key (.array (keepSlice sorted slice))) ∧
      ∀ cmp ∈ order, StablySorted cmp block sorted := by
  intro block sorted
  constructor
  · simp only [applyPush, applyEach, harr, pushOnto, eachElements, heach, ok_bind,
      insertAtPosition_eq hposition]
    rw [sortPushed_eq hsort, ok_bind, slicePushed_eq hslice]
    rfl
  · have hblock : ∀ v ∈ block, v.NoNaN := by
      intro v hv
      simp only [block, insertBlock, mem_append] at hv
      refine hnan v (mem_append.mpr ?_)
      exact hv.elim (·.imp_left mem_of_mem_take) fun hv => .inl (mem_of_mem_drop hv)
    rintro cmp rfl
    generalize modifiers.get "$sort" = v at hsort
    cases hsort with
    | some hspec => exact stablySorted_insertionSort (totalOn_pushOrder hspec hblock)

theorem push_meets_reference_sliced : let doc : Document := [("a", .array [.int32 3, .int32 1])]
    let modifiers : Document := [("$each", .array [.int32 2]), ("$position", .int64 (-1)),
      ("$sort", .int32 1), ("$slice", .int64 2)]
    let order : Option (Bson → Bson → Ordering) :=
      some fun a b => directed 1 (compareBson (some a) (some b))
    let block := insertBlock [.int32 3, .int32 1] [.int32 2] (some (-1))
    let sorted := order.elim block fun cmp => block.insertionSort fun a b => cmp a b ≠ .gt
    applyPush (.ofLists [] []) [("a", .document modifiers)] doc =
      .ok (setValue doc "a" (.array (keepSlice sorted (some 2)))) := by
  intro doc modifiers order
  have hsort : Option.Rel (pushOrder · = some ·) (modifiers.get "$sort") order := .some rfl
  exact (push_meets_reference _ doc "a" modifiers rfl rfl (.some rfl) hsort (.some rfl)
    (by simp [Bson.NoNaN, Bson.isNaN, valueIn])).1

end

section

variable {x y : F64}

lemma F64.integral_of_eq (h : x.eq y = true) :
    x.integer = y.integer ∧ x.isIntegral = y.isIntegral := by
  obtain ⟨hx, hy, -⟩ := eq_iff.mp h
  obtain ⟨hunits, hsign⟩ := units_of_eq h
  refine ⟨congrArg (· / 2 ^ 1074) ?_,
    by simp only [isIntegral, isInf, hx, hy, hunits, (magnitude_of_eq h).1]⟩
  unfold signedUnits
  rcases hsign with hsign | hzero
  · rw [hsign, hunits]
  · simp [hunits, hzero]

lemma F64.eq_of_integral (hx : x.isIntegral = true) (hy : y.isIntegral = true)
    (h : x.integer = y.integer) : x.eq y = true := by
  have hnan : ∀ z : F64, z.isIntegral = true → z.isNaN = false := fun z hz => by
    simp only [isIntegral, Bool.and_eq_true, Bool.not_eq_true'] at hz
    exact hz.1.1
  refine eq_iff.mpr ⟨hnan x hx, hnan y hy, ?_⟩
  rw [← orderKey_ofInt_of_isIntegral hx, h, orderKey_ofInt_of_isIntegral hy]

lemma keyValue_double_eq : (keyValue (.double x)).eq (keyValue (.double y)) = x.eq y := by
  have hnan : ∀ {z w : F64}, z.isNaN = true ∨ w.isNaN = true → z.eq w = false := fun h => by
    rw [Bool.eq_false_iff, ne_eq, F64.eq_iff]
    rintro ⟨hz, hw, -⟩
    rcases h with h | h <;> simp [h] at hz hw
  rw [keyValue, keyValue]
  by_cases hx : x.isNaN = true
  · rw [if_pos hx, hnan (.inl hx)]
    split_ifs <;> simp [Bson.eq, hnan (.inl (show F64.nan.isNaN = true from rfl))]
  by_cases hy : y.isNaN = true
  · rw [if_pos hy, hnan (.inr hy)]
    split_ifs <;> simp [Bson.eq, hnan (.inr (show F64.nan.isNaN = true from rfl))]
  rw [if_neg hx, if_neg hy]
  have hfits : x.eq y = true → (x.isIntegral ∧ -2 ^ 63 ≤ x.integer ∧ x.integer < 2 ^ 63 ↔
      y.isIntegral ∧ -2 ^ 63 ≤ y.integer ∧ y.integer < 2 ^ 63) := fun h => by
    rw [(F64.integral_of_eq h).1, (F64.integral_of_eq h).2]
  split_ifs with hfx hfy hfy
  · rw [Bson.eq, Bool.eq_iff_iff, decide_eq_true_iff]
    constructor
    · intro h
      have h := congrArg Int64.toInt h
      rw [Int64.toInt_ofInt_of_le hfx.2.1 hfx.2.2, Int64.toInt_ofInt_of_le hfy.2.1 hfy.2.2] at h
      exact F64.eq_of_integral hfx.1 hfy.1 h
    · exact fun h => congrArg Int64.ofInt (F64.integral_of_eq h).1
  · exact (Bool.eq_false_iff.mpr fun h => hfy ((hfits h).mp hfx)).symm
  · exact (Bool.eq_false_iff.mpr fun h => hfx ((hfits h).mpr hfy)).symm
  · rfl

end

mutual

/-- The numbers at each place have one type; decimals have the same bytes. -/
def sameTypes : Bson → Bson → Bool
  | .double _, .double _ | .int32 _, .int32 _ | .int64 _, .int64 _ => true
  | .decimal128 b, .decimal128 c => b = c
  | .array xs, .array ys => sameTypesItems xs ys
  | .document d, .document e => sameTypesFields d e
  | a, b => bsonTypeOrder a ≠ 1 && bsonTypeOrder b ≠ 1

def sameTypesItems : List Bson → List Bson → Bool
  | x :: xs, y :: ys => sameTypes x y && sameTypesItems xs ys
  | _, _ => true

def sameTypesFields : List (String × Bson) → List (String × Bson) → Bool
  | [], _ => true
  | (k, v) :: d, e => (Document.get e k).all (sameTypes v) && sameTypesFields d e

end

section

variable {decimal : Bytes → Bson}

lemma get_fieldsOf (d : Document) (k : String) :
    Document.get (fieldsOf decimal d) k = (d.get k).map (valueOf decimal) := by
  induction d with
  | nil => rfl
  | cons f d ih =>
    obtain ⟨k', v⟩ := f
    rw [fieldsOf, Document.get_cons, Document.get_cons, ih]
    split_ifs <;> rfl

lemma length_fieldsOf (d : Document) : (fieldsOf decimal d).length = d.length := by
  induction d with
  | nil => rfl
  | cons f d ih => simp [fieldsOf, ih]

mutual

theorem Bson.eq_iff_value (hdecimal : ∀ b, (keyValue (decimal b)).eq (keyValue (decimal b)) = true)
    (a b : Bson) : a.eq b = true ↔
      (valueOf decimal a).eq (valueOf decimal b) = true ∧ sameTypes a b = true := by
  cases a <;> cases b <;> first
    | exact (and_iff_left rfl).symm
    | exact iff_of_false Bool.false_ne_true fun h => Bool.false_ne_true h.2
    | skip
  case array.array xs ys =>
    simpa [Bson.eq, valueOf, sameTypes] using eqItems_iff_value hdecimal xs ys
  case document.document d e =>
    simpa [Bson.eq, valueOf, sameTypes, length_fieldsOf, and_assoc] using
      fun _ => eqFields_iff_value hdecimal d e
  case double.double x y => simp only [Bson.eq, valueOf, sameTypes, keyValue_double_eq, and_true]
  case int32.int32 m n =>
    simp [Bson.eq, valueOf, sameTypes, keyValue, ← Int64.toInt_inj, ← Int32.toInt_inj]
  case decimal128.decimal128 b c =>
    simp only [Bson.eq, valueOf, sameTypes, decide_eq_true_iff]
    refine ⟨?_, And.right⟩
    rintro rfl
    exact ⟨hdecimal b, rfl⟩
termination_by structural a

theorem eqItems_iff_value (hdecimal : ∀ b, (keyValue (decimal b)).eq (keyValue (decimal b)) = true)
    (xs ys : List Bson) : Bson.eqItems xs ys = true ↔
      Bson.eqItems (itemsOf decimal xs) (itemsOf decimal ys) = true ∧
        sameTypesItems xs ys = true := by
  cases xs <;> cases ys
  case cons.cons x xs y ys =>
    simp only [Bson.eqItems, itemsOf, sameTypesItems, Bool.and_eq_true,
      Bson.eq_iff_value hdecimal x y, eqItems_iff_value hdecimal xs ys]
    tauto
  all_goals simp [Bson.eqItems, itemsOf, sameTypesItems]
termination_by structural xs

theorem eqFields_iff_value (hdecimal : ∀ b, (keyValue (decimal b)).eq (keyValue (decimal b)) = true)
    (d e : List (String × Bson)) : Bson.eqFields d e = true ↔
      Bson.eqFields (fieldsOf decimal d) (fieldsOf decimal e) = true ∧
        sameTypesFields d e = true := by
  cases d
  case nil => simp [Bson.eqFields, fieldsOf, sameTypesFields]
  case cons f d =>
    obtain ⟨k, v⟩ := f
    have ih := eqFields_iff_value hdecimal d e
    simp only [Bson.eqFields, fieldsOf, sameTypesFields, Bool.and_eq_true, ih, get_fieldsOf]
    cases Document.get e k with
    | none => simp
    | some w =>
      have hv := Bson.eq_iff_value hdecimal v w
      simp only [Option.map_some, Option.all_some, hv]
      tauto
termination_by structural d

end

end

section

variable (env : Env) (decimal : Bytes → Bson)

/-- Every key names an operator on the value itself. -/
def onValue (cond : Document) : Bool :=
  !cond.isEmpty && cond.all fun f => startsWithDollar f.1 && f.1 ∉ topLevelOperators

def satisfies (elem : Bson) (cond : Document) : Bool :=
  evalQuery env [("value", elem)] [("value", .document cond)] = .ok true

def queried (cond : Document) : Bson → Bool
  | .document d => evalQuery env d cond = .ok true
  | _ => false

/-- The matching relation of queries; a plain value matches what equals it up to the type of
numbers. -/
def pullMatches (elem : Bson) : Bson → Bool
  | .document cond => if onValue cond then satisfies env elem cond else queried env cond elem
  | value => (valueOf decimal elem).eq (valueOf decimal value)

/-- A document satisfies the operators iff its fields that have the operators' names match their
operands, and another value does not satisfy them. -/
def OperatorsMisread (cond : Document) : Bson → Prop
  | .document d => satisfies env (.document d) cond ↔
      ∀ f ∈ cond, evalFieldCondition env d f.1 f.2 = .ok true
  | elem => ¬ satisfies env elem cond

/-- What equals a plain value has its types of numbers. -/
def PullExact (arr : List Bson) : Bson → Prop
  | .document cond => (∀ d, .document d ∈ arr → evalQuery env d cond ≠ .panic) ∧
    (onValue cond → ∀ elem ∈ arr, OperatorsMisread env cond elem)
  | value => ∀ elem ∈ arr, (valueOf decimal elem).eq (valueOf decimal value) → sameTypes elem value

variable {env} {decimal} {arr : List Bson}

lemma satisfies_eq_queried {cond : Document} (h : onValue cond) (elem : Bson) :
    satisfies env elem cond = queried env cond elem ↔ OperatorsMisread env cond elem := by
  cases elem
  case document d =>
    simp only [onValue, Bool.and_eq_true, all_eq_true, decide_eq_true_iff] at h
    rw [Bool.eq_iff_iff, queried, decide_eq_true_iff, evalQuery_eq_true_iff, OperatorsMisread]
    refine iff_congr Iff.rfl (forall₂_congr fun f hf => ?_)
    rw [← evalQuery_field (h.2 f hf).2]
  all_goals simp [queried, OperatorsMisread]

lemma filter_not_inj {p q : Bson → Bool} :
    (arr.filter fun elem => !p elem) = (arr.filter fun elem => !q elem) ↔
      ∀ elem ∈ arr, p elem = q elem := by
  refine ⟨fun h elem hmem => ?_, fun h => filter_congr fun elem hmem => by rw [h elem hmem]⟩
  have hiff := congrArg (elem ∈ ·) h
  simpa [hmem, ← Bool.eq_iff_iff] using hiff

lemma pullMatching_eq_ok {cond : Document} {out : List Bson} :
    pullMatching env cond arr = .ok out ↔ (∀ d, .document d ∈ arr → evalQuery env d cond ≠ .panic) ∧
        arr.filter (fun elem => !queried env cond elem) = out := by
  induction arr generalizing out with
  | nil => simp [pullMatching]
  | cons elem arr ih =>
    cases elem with
    | document d =>
      rw [pullMatching]
      cases hq : evalQuery env d cond with
      | ok hit => cases hit <;> simp [unwrapOr, bind_eq_ok, ih, queried, hq]
      | error e => simp [unwrapOr, bind_eq_ok, ih, queried, hq]
      | panic => simp [unwrapOr, hq]
    | _ => simp [pullMatching, bind_eq_ok, ih, queried]

section

variable (hdecimal : ∀ b, (keyValue (decimal b)).eq (keyValue (decimal b)) = true)
include hdecimal

lemma pullFrom_eq_ok_iff (condition : Bson) : pullFrom env arr condition =
    .ok (arr.filter fun elem => !pullMatches env decimal elem condition) ↔
      PullExact env decimal arr condition := by
  cases condition with
  | document cond =>
    rw [pullFrom, pullMatching_eq_ok, filter_not_inj, PullExact]
    refine and_congr_right fun _ => ?_
    cases hop : onValue cond with
    | false => simp [pullMatches, hop]
    | true =>
      simp only [pullMatches, hop, if_true, forall_const]
      exact forall₂_congr fun elem _ => eq_comm.trans (satisfies_eq_queried hop elem)
  | _ =>
    refine ((Iff.of_eq (ok.injEq _ _)).trans filter_not_inj).trans ?_
    refine forall₂_congr fun elem _ => ?_
    rw [Bool.eq_iff_iff, Bson.eq_iff_value hdecimal]
    exact and_iff_left_iff_imp

/-- `$pull` removes exactly what matches iff the condition and the elements are of the given
shapes. -/
theorem pull_exact_iff (doc : Document) (key : String) (condition : Bson) :
    (∃ doc', applyPull env [(key, condition)] (setValue doc key (.array arr)) = .ok doc' ∧
      getValue doc' key =
        some (.array (arr.filter fun elem => !pullMatches env decimal elem condition))) ↔
      PullExact env decimal arr condition := by
  rw [← pullFrom_eq_ok_iff hdecimal]
  simp only [applyPull, applyEach, getValue_setValue, bind_eq_ok]
  constructor
  · rintro ⟨_, ⟨_, ⟨kept, hkept, ⟨⟩⟩, ⟨⟩⟩, hget⟩
    rw [getValue_setValue] at hget
    rw [hkept, Bson.array.inj (Option.some.inj hget)]
  · intro h
    exact ⟨_, ⟨_, ⟨_, h, rfl⟩, rfl⟩, getValue_setValue _ key _⟩

end

theorem pull_exact_same_width : ∃ doc', applyPull (.ofLists [] []) [("a", .int64 1)]
      (setValue [] "a" (.array [.int64 1, .string "x", .int32 2])) = .ok doc' ∧
    getValue doc' "a" = some (.array [.string "x", .int32 2]) := by
  have hdecimal : ∀ b, (keyValue (Bson.decimal128 b)).eq (keyValue (.decimal128 b)) = true :=
    fun b => by simp [keyValue, Bson.eq]
  refine (pull_exact_iff hdecimal [] "a" (.int64 1)).mpr ?_
  change ∀ elem ∈ [Bson.int64 1, .string "x", .int32 2],
    (valueOf .decimal128 elem).eq (.int64 1) → sameTypes elem (.int64 1)
  decide

theorem pull_keeps_scalar :
    applyPull (.ofLists [] []) [("a", .document [("$gte", .int32 5)]), ("b", .int64 1)]
        [("a", .array [.int32 1, .int32 7]), ("b", .array [.int32 1])] =
      .ok [("a", .array [.int32 1, .int32 7]), ("b", .array [.int32 1])] ∧
    pullMatches (.ofLists [] []) .decimal128 (.int32 7) (.document [("$gte", .int32 5)]) = true ∧
    pullMatches (.ofLists [] []) .decimal128 (.int32 1) (.int64 1) = true := by
  decide +kernel

end

end Smongo

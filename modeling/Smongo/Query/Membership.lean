import Smongo.Aggregation.Group
import Smongo.Aggregation.SortKeys
import Smongo.Query.Conditions

/-!
# Membership and equality of values

The comparator compares values by codes, as long as floats and numbers without a rule do not come
between numbers that differ: then sorting and searching finds members.
-/

namespace Smongo

open List Bytes Bool

abbrev Token := ℤ ×ₗ ℤ ×ₗ ℤ ×ₗ Bytes

def Token.mk (place float tie : ℤ) (bytes : Bytes) : Token :=
  toLex (place, toLex (float, toLex (tie, bytes)))

lemma compare_token (p q x y m n : ℤ) (a b : Bytes) :
    (LinearOrder.toOrd : Ord Token).compare (.mk p x m a) (.mk q y n b) =
      (compare p q).then ((compare x y).then ((compare m n).then (a.cmp b))) := by
  rw [Bytes.cmp_eq_compare]
  rfl

section

variable (decimal : Bytes → Bson)

mutual

/-- One value for all that are equal up to the type of numbers. -/
def valueOf : Bson → Bson
  | .decimal128 bytes => keyValue (decimal bytes)
  | .array items => .array (itemsOf items)
  | .document fields => .document (fieldsOf fields)
  | v => keyValue v

def itemsOf : List Bson → List Bson
  | [] => []
  | v :: items => valueOf v :: itemsOf items

def fieldsOf : List (String × Bson) → List (String × Bson)
  | [] => []
  | (k, v) :: fields => (k, valueOf v) :: fieldsOf fields

end

def floatKey (v : Bson) : ℤ :=
  match bsonToF64 v with
  | some x => if x.isNaN then 0 else x.orderKey
  | none => 0

def tieKey : Bson → ℤ
  | .int64 n => n.toInt
  | .boolean b => if b then 1 else 0
  | .dateTime millis => millis.toInt
  | _ => 0

def token (v : Bson) : Token :=
  .mk (bsonTypeOrder v) (floatKey (valueOf decimal v)) (tieKey (valueOf decimal v)) (sortBytes v)

mutual

def codes : Bson → List Token
  | .array items => token decimal (.array []) :: itemCodes items
  | v => [token decimal v]

def itemCodes : List Bson → List Token
  | [] => [.mk (-200) 0 0 []]
  | v :: items => codes v ++ itemCodes items

end

def codeTail : Bson → List Token
  | .array items => itemCodes decimal items
  | _ => []

/-- The pairs whose values the comparator compares exactly. -/
def ruled : Bson → Bson → Bool
  | .int32 _, .int32 _ | .int32 _, .int64 _ | .int64 _, .int32 _ | .int64 _, .int64 _ => true
  | .string _, .string _ | .boolean _, .boolean _ | .dateTime _, .dateTime _ => true
  | .objectId _, .objectId _ | .array _, .array _ => true
  | _, _ => false

def bothArrays : Bson → Bson → Bool
  | .array _, .array _ => true
  | _, _ => false

/-- Values of one type order, without a rule of their own or with floats that compare as equal. -/
def Indistinct (a b : Bson) : Prop :=
  ruled a b = false ∧ bsonTypeOrder a = bsonTypeOrder b ∧
    ∀ x ∈ bsonToF64 a, ∀ y ∈ bsonToF64 b, floatCmp x y = .eq

def HasItems (S : Set Bson) : Prop := ∀ xs, .array xs ∈ S → ∀ x ∈ xs, x ∈ S

/-- Sets with the elements of their arrays on which the comparator is an order. -/
structure Coherent (S : Set Bson) : Prop where
  items : HasItems S
  numbers : ∀ a ∈ S, ∀ b ∈ S, bsonTypeOrder a = 1 → Indistinct a b →
    valueOf decimal a = valueOf decimal b
  symbols : ∀ s t, .string s ∈ S → .symbol t ∉ S

def tokenCmp (a b : Bson) : Ordering :=
  (LinearOrder.toOrd : Ord Token).compare (token decimal a) (token decimal b)

def codesCmp (l m : List Token) : Ordering := (LinearOrder.toOrd : Ord (List Token)).compare l m

variable {decimal} {S : Set Bson} {a b : Bson}

lemma compare_ofInt (m n : ℤ) :
    compare m n = (compare (F64.ofInt m).orderKey (F64.ofInt n).orderKey).then (compare m n) := by
  cases h : compare (F64.ofInt m).orderKey (F64.ofInt n).orderKey with
  | eq => rfl
  | lt =>
    rw [compare_lt_iff_lt] at h
    exact compare_lt_iff_lt.mpr (lt_of_not_ge fun hle => (F64.orderKey_ofInt_mono hle).not_gt h)
  | gt =>
    rw [compare_gt_iff_gt] at h
    exact compare_gt_iff_gt.mpr (lt_of_not_ge fun hle => (F64.orderKey_ofInt_mono hle).not_gt h)

lemma floatKey_int64 (n : Int64) : floatKey (.int64 n) = (F64.ofInt n.toInt).orderKey := by
  rw [floatKey, bsonToF64]
  dsimp only
  rw [F64.isNaN_ofInt]
  rfl

lemma floatKey_double (x : F64) :
    floatKey (keyValue (.double x)) = if x.isNaN then 0 else x.orderKey := by
  simp only [keyValue]
  split_ifs with hnan hint
  · rfl
  · rw [floatKey_int64, Int64.toInt_ofInt_of_le hint.2.1 hint.2.2]
    exact F64.orderKey_ofInt_of_isIntegral hint.1
  · rw [floatKey, bsonToF64]
    dsimp only
    rw [if_neg hnan]

lemma stop_lt_token (v : Bson) :
    (LinearOrder.toOrd : Ord Token).compare (.mk (-200) 0 0 []) (token decimal v) = .lt := by
  rw [token, compare_token]
  cases v <;> rfl

lemma codes_eq (v : Bson) : codes decimal v = token decimal v :: codeTail decimal v := by
  cases v <;> rfl

lemma floatKey_valueOf {x : F64} (h : bsonToF64 a = some x) :
    floatKey (valueOf decimal a) = (if x.isNaN then 0 else x.orderKey) ∧ bsonTypeOrder a = 1 ∧
      sortBytes a = [] := by
  cases a <;> cases h <;> refine ⟨?_, rfl, rfl⟩
  · exact floatKey_double x
  · next n =>
    change floatKey (.int64 n.toInt64) = _
    rw [floatKey_int64, Int32.toInt_toInt64, F64.isNaN_ofInt]
    rfl
  · next n =>
    change floatKey (.int64 n) = _
    rw [floatKey_int64, F64.isNaN_ofInt]
    rfl

lemma bsonCmp_of_order_ne (h : bsonTypeOrder a ≠ bsonTypeOrder b) :
    bsonCmp a b = compare (bsonTypeOrder a) (bsonTypeOrder b) := by
  cases a <;> cases b <;> first | rfl | exact absurd rfl h

lemma order_of_cmp (h : bsonCmp a b = .eq) : bsonTypeOrder a = bsonTypeOrder b := by
  by_contra hne
  rw [bsonCmp_of_order_ne hne] at h
  exact hne (compare_eq_iff_eq.mp h)

lemma tokenCmp_of_value (hvalue : valueOf decimal a = valueOf decimal b)
    (horder : bsonTypeOrder a = bsonTypeOrder b) (hbytes : sortBytes a = sortBytes b) :
    tokenCmp decimal a b = .eq := by
  rw [tokenCmp, compare_eq_iff_eq, token, token, hvalue, horder, hbytes]

lemma codeTail_of_leaf (horder : bsonTypeOrder a = bsonTypeOrder b)
    (hleaf : bothArrays a b = false) : codeTail decimal a = [] ∧ codeTail decimal b = [] := by
  cases a <;> cases b <;> first
    | exact ⟨rfl, rfl⟩
    | exact absurd hleaf.symm false_ne_true
    | exact absurd horder (ne_of_beq_false rfl)

section

variable (h : Coherent decimal S) (ha : a ∈ S) (hb : b ∈ S)
include h ha hb

lemma Coherent.leaf_float {x y : F64} (hx : bsonToF64 a = some x) (hy : bsonToF64 b = some y)
    (hdouble : (∃ x, a = .double x) ∨ ∃ y, b = .double y) :
    bsonCmp a b = tokenCmp decimal a b := by
  obtain ⟨hcmp, hruled⟩ : bsonCmp a b = floatCmp x y ∧ ruled a b = false := by
    rcases hdouble with ⟨_, rfl⟩ | ⟨_, rfl⟩
    · cases hx
      cases b <;> cases hy <;> exact ⟨rfl, rfl⟩
    · cases hy
      cases a <;> cases hx <;> exact ⟨rfl, rfl⟩
  obtain ⟨hxkey, hxorder, hxbytes⟩ := @floatKey_valueOf decimal a x hx
  obtain ⟨hykey, hyorder, hybytes⟩ := @floatKey_valueOf decimal b y hy
  rw [hcmp]
  by_cases heq : floatCmp x y = .eq
  · have hindistinct : Indistinct a b := by
      refine ⟨hruled, hxorder.trans hyorder.symm, fun x' hx' y' hy' => ?_⟩
      rwa [Option.some.inj (hx'.symm.trans hx), Option.some.inj (hy'.symm.trans hy)]
    rw [heq, tokenCmp_of_value (h.numbers a ha b hb hxorder hindistinct)
      (hxorder.trans hyorder.symm) (hxbytes.trans hybytes.symm)]
  · obtain ⟨hxnan, hynan⟩ : x.isNaN = false ∧ y.isNaN = false := by
      unfold floatCmp F64.partialCmp at heq
      cases hx : x.isNaN <;> cases hy : y.isNaN <;> simp_all
    rw [tokenCmp, token, token, compare_token, hxkey, hykey, hxorder, hyorder, hxnan, hynan]
    rw [floatCmp_of_not_nan hxnan hynan] at heq ⊢
    simp only [false_eq_true, if_false]
    cases hkeys : compare x.orderKey y.orderKey with
    | eq => exact absurd hkeys heq
    | lt | gt => rfl

lemma Coherent.leaf_number (hoa : bsonTypeOrder a = 1) (hob : bsonTypeOrder b = 1) :
    bsonCmp a b = tokenCmp decimal a b := by
  have hint : ∀ m n : Int64, compare m.toInt n.toInt = tokenCmp decimal (.int64 m) (.int64 n) := by
    intro m n
    change _ = (compare (floatKey (.int64 m)) (floatKey (.int64 n))).then
      ((compare m.toInt n.toInt).then .eq)
    rw [floatKey_int64, floatKey_int64, Ordering.then_eq]
    exact compare_ofInt _ _
  have hdecimal : Indistinct a b → sortBytes a = [] → sortBytes b = [] → bsonCmp a b = .eq →
      bsonCmp a b = tokenCmp decimal a b := by
    intro hindistinct hba hbb heq
    rw [heq, tokenCmp_of_value (h.numbers a ha b hb hoa hindistinct) (hoa.trans hob.symm)
      (hba.trans hbb.symm)]
  cases a <;> try (exact absurd hoa (ne_of_beq_false rfl))
  all_goals cases b <;> try (exact absurd hob (ne_of_beq_false rfl))
  case int32.int32 m n =>
    have hmn := hint m.toInt64 n.toInt64
    rw [Int32.toInt_toInt64, Int32.toInt_toInt64] at hmn
    exact hmn
  case int32.int64 m n =>
    have hmn := hint m.toInt64 n
    rw [Int32.toInt_toInt64] at hmn
    exact hmn
  case int64.int32 m n =>
    have hmn := hint m n.toInt64
    rw [Int32.toInt_toInt64] at hmn
    exact hmn
  case int64.int64 m n => exact hint m n
  all_goals first
    | exact h.leaf_float ha hb rfl rfl (.inl ⟨_, rfl⟩)
    | exact h.leaf_float ha hb rfl rfl (.inr ⟨_, rfl⟩)
    | exact hdecimal ⟨rfl, rfl, fun _ _ _ hy => absurd hy (Option.not_mem_none _)⟩ rfl rfl rfl
    | exact hdecimal ⟨rfl, rfl, fun _ hx => absurd hx (Option.not_mem_none _)⟩ rfl rfl rfl

variable (hleaf : bothArrays a b = false)
include hleaf

/-- The comparator compares tokens, except those of two arrays. -/
lemma Coherent.leaf : bsonCmp a b = tokenCmp decimal a b := by
  by_cases horder : bsonTypeOrder a = bsonTypeOrder b
  · by_cases hone : bsonTypeOrder a = 1
    · exact h.leaf_number ha hb hone (horder.symm.trans hone)
    · unfold tokenCmp token
      rw [compare_token, horder, compare_eq_iff_eq.mpr rfl, Ordering.eq_then]
      cases a <;> cases b <;> try (exact absurd horder (ne_of_beq_false rfl))
      case array.array => cases hleaf
      case string.symbol s t => exact absurd hb (h.symbols s t ha)
      case symbol.string s t => exact absurd ha (h.symbols t s hb)
      case boolean.boolean x y => cases x <;> cases y <;> rfl
      case dateTime.dateTime => exact Ordering.then_eq.symm
      all_goals first | rfl | exact absurd rfl hone
  · rw [bsonCmp_of_order_ne horder, tokenCmp, token, token, compare_token]
    cases hcmp : compare (bsonTypeOrder a) (bsonTypeOrder b) with
    | eq => exact absurd (compare_eq_iff_eq.mp hcmp) horder
    | lt | gt => rfl

lemma Coherent.compare_codes_of_leaf (r r' : List Token) :
    codesCmp (codes decimal a ++ r) (codes decimal b ++ r') =
      (bsonCmp a b).then (codesCmp r r') := by
  rw [codes_eq, codes_eq, cons_append, cons_append, codesCmp, compare_cons]
  change (tokenCmp decimal a b).then _ = _
  rw [← h.leaf ha hb hleaf]
  cases hcmp : bsonCmp a b with
  | eq =>
    obtain ⟨htail, htail'⟩ := @codeTail_of_leaf decimal a b (order_of_cmp hcmp) hleaf
    rw [htail, htail']
    rfl
  | lt | gt => rfl

end

mutual

theorem Coherent.compare_codes (h : Coherent decimal S) (a b : Bson) (ha : a ∈ S) (hb : b ∈ S)
    (r r' : List Token) :
    codesCmp (codes decimal a ++ r) (codes decimal b ++ r') =
      (bsonCmp a b).then (codesCmp r r') := by
  cases a
  case array as =>
    cases b
    case array bs =>
      rw [codes, codes, cons_append, cons_append, codesCmp, compare_cons,
        compare_eq_iff_eq.mpr rfl, Ordering.eq_then]
      exact h.compare_itemCodes as bs (h.items as ha) (h.items bs hb) r r'
    all_goals exact h.compare_codes_of_leaf ha hb rfl r r'
  all_goals exact h.compare_codes_of_leaf ha hb rfl r r'
termination_by structural a

theorem Coherent.compare_itemCodes (h : Coherent decimal S) (as bs : List Bson)
    (has : ∀ x ∈ as, x ∈ S) (hbs : ∀ x ∈ bs, x ∈ S) (r r' : List Token) :
    codesCmp (itemCodes decimal as ++ r) (itemCodes decimal bs ++ r') =
      (bsonCmpItems as bs).then (codesCmp r r') := by
  cases as <;> cases bs
  case nil.nil =>
    rw [itemCodes, singleton_append, singleton_append, codesCmp, compare_cons,
      compare_eq_iff_eq.mpr rfl]
    rfl
  case nil.cons b bs =>
    rw [itemCodes, itemCodes, codes_eq, singleton_append, append_assoc, cons_append,
      codesCmp, compare_cons, stop_lt_token]
    rfl
  case cons.nil a as =>
    rw [itemCodes, itemCodes, codes_eq, singleton_append, append_assoc, cons_append,
      codesCmp, compare_cons, compare_gt_iff_gt.mpr (compare_lt_iff_lt.mp (stop_lt_token a))]
    rfl
  case cons.cons a as b bs =>
    rw [forall_mem_cons] at has hbs
    rw [itemCodes, itemCodes, append_assoc, append_assoc,
      h.compare_codes a b has.1 hbs.1, h.compare_itemCodes as bs has.2 hbs.2, bsonCmpItems]
    cases bsonCmp a b <;> rfl
termination_by structural as

end

lemma Coherent.measured (h : Coherent decimal S) : MeasuredOn S bsonCmp (codes decimal) := by
  intro a ha b hb
  have hcodes := h.compare_codes a b ha hb [] []
  rw [append_nil, append_nil, show codesCmp [] [] = .eq from rfl, Ordering.then_eq] at hcodes
  exact hcodes.symm

/-- What `$in` looks up: the elements of an array, or the value. -/
def probes : Option Bson → List Bson
  | some (.array vals) => vals
  | some v => [v]
  | none => []

lemma Coherent.evalIn_eq (h : Coherent decimal S) {value : Option Bson} {conds : List Bson}
    (hprobes : ∀ v ∈ probes value, v ∈ S) (hconds : ∀ c ∈ conds, c ∈ S) :
    evalIn value (.array conds) =
      .ok ((probes value).any fun v => conds.any fun c => bsonEq (some v) (some c)) := by
  have hsearch : ∀ v ∈ probes value, (binarySearchBy (bsonCmp · v)
      (conds.insertionSort fun a b => bsonCmp a b ≠ .gt)).toBool =
        conds.any fun c => bsonEq (some v) (some c) := by
    intro v hv
    have hmeasured : MeasuredOn {a | a ∈ conds ∨ a = v} bsonCmp (codes decimal) := by
      refine h.measured.mono ?_
      rintro a (ha | rfl)
      · exact hconds a ha
      · exact hprobes a hv
    rw [Bool.eq_iff_iff, search_insertionSort_iff hmeasured, any_eq_true]
    refine exists_congr fun c => and_congr_right fun _ => ?_
    rw [bsonEq, bsonCmp_swap c v, decide_eq_true_eq]
    cases bsonCmp c v <;> decide
  have hany : ((probes value).any fun v => (binarySearchBy (bsonCmp · v)
      (conds.insertionSort fun a b => bsonCmp a b ≠ .gt)).toBool) =
        (probes value).any fun v => conds.any fun c => bsonEq (some v) (some c) := by
    rw [Bool.eq_iff_iff, any_eq_true, any_eq_true]
    exact exists_congr fun v => and_congr_right fun hv => by rw [hsearch v hv]
  rw [← hany, evalIn, asArray, Outcome.ok_bind]
  split
  · rfl
  · next v hv => cases v <;> first | exact absurd rfl (hv _) | simp [probes]
  · rfl

end

mutual

/-- No doubles, decimals or symbols, in arrays of any depth. -/
def Bson.isPlain : Bson → Bool
  | .double _ | .decimal128 _ | .symbol _ => false
  | .array items => arePlain items
  | _ => true

def Bson.arePlain : List Bson → Bool
  | [] => true
  | v :: items => v.isPlain && arePlain items

end

lemma Bson.arePlain_iff {items : List Bson} :
    Bson.arePlain items = true ↔ ∀ v ∈ items, v.isPlain = true := by
  induction items with
  | nil => simp [Bson.arePlain]
  | cons v items ih => simp [Bson.arePlain, ih]

lemma coherent_plain (decimal : Bytes → Bson) : Coherent decimal {v | v.isPlain = true} where
  items _ hxs := Bson.arePlain_iff.mp hxs
  numbers a ha b hb hone hindistinct := by
    obtain ⟨hruled, horder, -⟩ := hindistinct
    rw [hone] at horder
    cases a <;> try (exact absurd hone (ne_of_beq_false rfl))
    all_goals first
      | exact absurd ha false_ne_true
      | (cases b <;> first
          | exact absurd horder (ne_of_beq_false rfl)
          | exact absurd hb false_ne_true
          | exact absurd hruled.symm false_ne_true)
  symbols _ _ _ ht := absurd ht false_ne_true

/-- `$in` answers whether the value or an element of it is listed, unless an array is listed of
which no element is. `$nin` negates it. -/
theorem in_is_membership {value : Option Bson} {conds : List Bson}
    (hvalue : ∀ v ∈ value, v.isPlain = true) (hconds : ∀ c ∈ conds, c.isPlain = true) :
    let found := fun v => conds.any fun c => bsonEq (some v) (some c)
    (evalIn value (.array conds) = .ok (value.any found || (probes value).any found) ↔
      ∀ vals, value = some (.array vals) → found (.array vals) → ∃ v ∈ vals, found v) ∧
    ∀ env doc key value condVal b, evalIn value condVal = .ok b →
      evalPlainOperator env doc key value "$nin" condVal = .ok !b := by
  intro found
  have hprobes : ∀ v ∈ probes value, v.isPlain = true := by
    intro v hv
    cases value with
    | none => cases hv
    | some x =>
      have hx := hvalue x rfl
      cases x
      case array vals => exact Bson.arePlain_iff.mp hx v hv
      all_goals
        rw [mem_singleton.mp hv]
        exact hx
  have heval := (coherent_plain fun _ => .null).evalIn_eq hprobes hconds
  refine ⟨?_, fun env doc key value condVal b h => ?_⟩
  · rw [heval, Outcome.ok.injEq, eq_comm, Bool.or_eq_right_iff_imp]
    cases value with
    | none => simp
    | some x => cases x <;> simp [probes, found]
  · simp only [evalPlainOperator, h, Outcome.ok_bind]

theorem in_is_membership_nested : evalIn (some (.array [.array [.int32 1], .null]))
      (.array [.string "a", .array [.int64 1], .boolean true]) = .ok true :=
  (in_is_membership (by decide) (by decide)).1.mpr fun vals hvals _ => by
    obtain rfl := Bson.array.inj (Option.some.inj hvals)
    decide

/-- An array that is listed is not found when none of its elements is. -/
theorem in_misses_array : let value : Bson := .array [.int32 1, .int32 2]
    evalIn (some value) (.array [value]) = .ok false ∧
      bsonEq (some value) (some value) = true := by
  decide

section

variable {decimal : Bytes → Bson} {S : Set Bson} {a b : Bson}

lemma value_of_ruled (hruled : ruled a b = true) (hleaf : bothArrays a b = false)
    (h : bsonCmp a b = .eq) : valueOf decimal a = valueOf decimal b := by
  have hint : ∀ {m n : Int64}, m.toInt = n.toInt →
      valueOf decimal (.int64 m) = valueOf decimal (.int64 n) :=
    fun hmn => by rw [Int64.toInt_inj.mp hmn]
  cases a <;> cases b <;> try (exact absurd hruled false_ne_true)
  case array.array => cases hleaf
  case string.string s t => rw [utf8_injective (cmp_eq_eq.mp h)]
  case boolean.boolean x y => cases x <;> cases y <;> first | rfl | cases h
  case dateTime.dateTime m n => rw [Int64.toInt_inj.mp (compare_eq_iff_eq.mp h)]
  case objectId.objectId x y =>
    cases x
    cases y
    obtain rfl := cmp_eq_eq.mp h
    rfl
  case int32.int32 m n => rw [Int32.toInt_inj.mp (compare_eq_iff_eq.mp h)]
  case int32.int64 m n =>
    exact @hint m.toInt64 n ((Int32.toInt_toInt64 m).trans (compare_eq_iff_eq.mp h))
  case int64.int32 m n =>
    exact @hint m n.toInt64 ((compare_eq_iff_eq.mp h).trans (Int32.toInt_toInt64 n).symm)
  case int64.int64 m n => exact hint (compare_eq_iff_eq.mp h)

lemma indistinct_of_cmp (hruled : ruled a b = false) (h : bsonCmp a b = .eq) :
    Indistinct a b := by
  refine ⟨hruled, order_of_cmp h, fun x hx y hy => ?_⟩
  cases a <;> cases hx <;> cases b <;> cases hy <;> first
    | exact h
    | exact absurd hruled.symm false_ne_true

/-- Indistinct values are the same. -/
def Distinguishes (decimal : Bytes → Bson) (S : Set Bson) : Prop :=
  ∀ a ∈ S, ∀ b ∈ S, Indistinct a b → valueOf decimal a = valueOf decimal b

lemma Distinguishes.coherent (h : Distinguishes decimal S) (hitems : HasItems S) :
    Coherent decimal S where
  items := hitems
  numbers a ha b hb _ := h a ha b hb
  symbols s t hs ht := by
    have hsame := h _ hs _ ht ⟨rfl, rfl, fun _ hx => absurd hx (Option.not_mem_none _)⟩
    cases hsame

lemma order_keyValue (v : Bson) : bsonTypeOrder (keyValue v) = bsonTypeOrder v := by
  cases v
  case double x =>
    simp only [keyValue]
    split_ifs <;> rfl
  all_goals rfl

lemma sortBytes_of_number (h : bsonTypeOrder a = 1) : sortBytes a = [] := by
  cases a <;> first | rfl | exact absurd h (ne_of_beq_false rfl)

section

variable (hdecimal : ∀ bytes, bsonTypeOrder (decimal bytes) = 1)
include hdecimal

lemma order_valueOf (v : Bson) : bsonTypeOrder (valueOf decimal v) = bsonTypeOrder v := by
  cases v
  case decimal128 bytes => exact (order_keyValue _).trans (hdecimal bytes)
  case array => rfl
  case document => rfl
  all_goals exact order_keyValue _

lemma sortBytes_valueOf (v : Bson) : sortBytes (valueOf decimal v) = sortBytes v := by
  by_cases hone : bsonTypeOrder v = 1
  · rw [sortBytes_of_number hone, sortBytes_of_number ((order_valueOf hdecimal v).trans hone)]
  · cases v <;> first | rfl | exact absurd rfl hone

lemma Distinguishes.cmp_eq_iff_of_leaf (h : Distinguishes decimal S) (hitems : HasItems S)
    (ha : a ∈ S) (hb : b ∈ S) (hleaf : bothArrays a b = false) :
    bsonCmp a b = .eq ↔ valueOf decimal a = valueOf decimal b := by
  constructor
  · intro hcmp
    cases hruled : ruled a b with
    | true => exact value_of_ruled hruled hleaf hcmp
    | false => exact h a ha b hb (indistinct_of_cmp hruled hcmp)
  · intro hvalue
    rw [(h.coherent hitems).leaf ha hb hleaf]
    apply tokenCmp_of_value hvalue
    · rw [← order_valueOf hdecimal a, hvalue, order_valueOf hdecimal b]
    · rw [← sortBytes_valueOf hdecimal a, hvalue, sortBytes_valueOf hdecimal b]

end

mutual

theorem Distinguishes.cmp_eq_iff (h : Distinguishes decimal S)
    (hdecimal : ∀ bytes, bsonTypeOrder (decimal bytes) = 1) (hitems : HasItems S) (a b : Bson)
    (ha : a ∈ S) (hb : b ∈ S) : bsonCmp a b = .eq ↔ valueOf decimal a = valueOf decimal b := by
  cases a
  case array xs =>
    cases b
    case array ys =>
      have hiff := h.cmpItems_eq_iff hdecimal hitems xs ys (hitems xs ha) (hitems ys hb)
      exact hiff.trans ⟨congrArg Bson.array, Bson.array.inj⟩
    all_goals exact h.cmp_eq_iff_of_leaf hdecimal hitems ha hb rfl
  all_goals exact h.cmp_eq_iff_of_leaf hdecimal hitems ha hb rfl
termination_by structural a

theorem Distinguishes.cmpItems_eq_iff (h : Distinguishes decimal S)
    (hdecimal : ∀ bytes, bsonTypeOrder (decimal bytes) = 1) (hitems : HasItems S)
    (as bs : List Bson) (has : ∀ x ∈ as, x ∈ S) (hbs : ∀ x ∈ bs, x ∈ S) :
    bsonCmpItems as bs = .eq ↔ itemsOf decimal as = itemsOf decimal bs := by
  cases as <;> cases bs
  case cons.cons a as b bs =>
    rw [forall_mem_cons] at has hbs
    rw [bsonCmpItems, itemsOf, itemsOf, cons.injEq, ← h.cmp_eq_iff hdecimal hitems a b has.1 hbs.1,
      ← h.cmpItems_eq_iff hdecimal hitems as bs has.2 hbs.2]
    cases bsonCmp a b <;> simp
  all_goals simp [bsonCmpItems, itemsOf]
termination_by structural as

end

lemma cmp_of_indistinct (h : Indistinct a b) : bsonCmp a b = .eq := by
  obtain ⟨hruled, horder, hfloats⟩ := h
  cases a <;> cases b <;> first
    | exact absurd horder (ne_of_beq_false rfl)
    | rfl
    | exact hfloats _ rfl _ rfl
    | exact absurd hruled.symm false_ne_true

/-- For fields with values in `S`, equality and membership are decided by the values. -/
def DecidedByValue (decimal : Bytes → Bson) (S : Set Bson) : Prop :=
  let same := fun v y => decide (valueOf decimal v = valueOf decimal y)
  ∀ env doc key x, key ∉ topLevelOperators → getValue doc key = some x → x ∈ S →
    let verdict := fun op y => evalQuery env doc [(key, .document [(op, y)])]
    (∀ y ∈ S, verdict "$eq" y = .ok (same x y) ∧ verdict "$ne" y = .ok !same x y) ∧
    ∀ ys, (∀ y ∈ ys, y ∈ S) →
      verdict "$in" (.array ys) = .ok ((probes (some x)).any fun v => ys.any (same v)) ∧
      verdict "$nin" (.array ys) = .ok !((probes (some x)).any fun v => ys.any (same v))

/-- The equality and membership operators decide by value on a set of values iff the comparator
tells its different values apart. -/
theorem query_equality_iff (hdecimal : ∀ bytes, bsonTypeOrder (decimal bytes) = 1)
    (hitems : HasItems S) : DecidedByValue decimal S ↔ Distinguishes decimal S := by
  constructor
  · intro h a ha b hb hindistinct
    have heq := ((h (.ofLists [] []) [("f", a)] "f" a (by decide) rfl ha).1 b hb).1
    beta_reduce at heq
    rw [evalQuery_operator (by decide) (by decide), evalOperator_plain (by decide) (by decide)]
      at heq
    have hcmp : bsonEq (some a) (some b) = true := decide_eq_true (cmp_of_indistinct hindistinct)
    exact of_decide_eq_true ((Outcome.ok.inj heq).symm.trans hcmp)
  · intro h env doc key x hkey hx hmem
    have hsame : ∀ v ∈ S, ∀ y ∈ S, bsonEq (some v) (some y) =
        decide (valueOf decimal v = valueOf decimal y) := fun v hv y hy =>
      decide_eq_decide.mpr (h.cmp_eq_iff hdecimal hitems v y hv hy)
    have hprobes : ∀ v ∈ probes (some x), v ∈ S := by
      intro v hv
      cases x
      case array xs => exact hitems xs hmem v hv
      all_goals
        rw [mem_singleton.mp hv]
        exact hmem
    refine ⟨fun y hy => ?_, fun ys hys => ?_⟩
    · simp only [evalQuery_operator hkey (show "$eq" ∉ geoOperators by decide),
        evalQuery_operator hkey (show "$ne" ∉ geoOperators by decide),
        evalOperator_plain (show "$eq" ≠ "$not" by decide) (show "$eq" ≠ "$elemMatch" by decide),
        evalOperator_plain (show "$ne" ≠ "$not" by decide) (show "$ne" ≠ "$elemMatch" by decide),
        hx, ← hsame x hmem y hy]
      exact ⟨rfl, rfl⟩
    · have hin : evalIn (some x) (.array ys) = .ok ((probes (some x)).any fun v =>
          ys.any fun y => decide (valueOf decimal v = valueOf decimal y)) := by
        rw [(h.coherent hitems).evalIn_eq hprobes hys]
        congr 1
        rw [Bool.eq_iff_iff]
        simp only [any_eq_true]
        refine exists_congr fun v => and_congr_right fun hv => exists_congr fun y =>
          and_congr_right fun hy => ?_
        rw [hsame v (hprobes v hv) y (hys y hy)]
      simp only [evalQuery_operator hkey (show "$in" ∉ geoOperators by decide),
        evalQuery_operator hkey (show "$nin" ∉ geoOperators by decide), hx]
      refine ⟨hin, ?_⟩
      change (do .ok !(← evalIn (some x) (.array ys))) = _
      rw [hin]
      rfl

theorem query_equality_widths : evalQuery (.ofLists [] []) [("a", .int32 1)]
      [("a", .document [("$nin", .array [.string "b", .int64 1])])] = .ok false := by
  have hcases : ∀ v ∈ ({.int32 1, .int64 1, .string "b"} : Set Bson),
      v = .int32 1 ∨ v = .int64 1 ∨ v = .string "b" := fun v hv => by simpa using hv
  have hdistinguishes : Distinguishes .decimal128 {.int32 1, .int64 1, .string "b"} := by
    intro a ha b hb ⟨hruled, horder, _⟩
    rcases hcases a ha with rfl | rfl | rfl <;> rcases hcases b hb with rfl | rfl | rfl <;>
      first | exact absurd horder (by decide) | cases hruled
  have hdecided := (query_equality_iff (fun _ => rfl) (by simp [HasItems])).mpr hdistinguishes
  exact ((hdecided (.ofLists [] []) [("a", .int32 1)] "a" (.int32 1) (by decide) rfl
    (by simp)).2 [.string "b", .int64 1] (by simp)).2

/-- Embedded documents are all equal, and so are timestamps. -/
theorem eq_confuses_documents :
    evalQuery (.ofLists [] []) [("a", .document [("x", .int32 1)]), ("t", .timestamp 1 1)]
      [("a", .document [("$eq", .document [("x", .int32 2)])]),
        ("t", .document [("$in", .array [.timestamp 2 1])])] = .ok true ∧
    valueOf .decimal128 (.document [("x", .int32 1)]) ≠
      valueOf .decimal128 (.document [("x", .int32 2)]) ∧
    valueOf .decimal128 (.timestamp 1 1) ≠ valueOf .decimal128 (.timestamp 2 1) := by
  refine ⟨rfl, ?_, ?_⟩ <;> decide

end

end Smongo

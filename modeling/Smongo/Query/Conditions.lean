import Smongo.Query.Eval

/-!
# Conditions of a query

A query holds if each of its conditions does, and a document of operators if each operator
does.
-/

namespace Smongo

open List Outcome Bytes

section

variable {env : Env} {doc : Document}

lemma Outcome.bind_holds (condition rest : Outcome String Bool) :
    (do if ← condition then rest else .ok false) =
      (do if ← (do if ← condition then .ok true else .ok false) then rest else .ok false) := by
  cases condition with
  | ok holds => cases holds <;> rfl
  | error e | panic => rfl

lemma evalQuery_cons (f : String × Bson) (rest : Document) : evalQuery env doc (f :: rest) =
      (do if ← evalQuery env doc [f] then evalQuery env doc rest else .ok false) := by
  conv_lhs => unfold evalQuery
  conv_rhs =>
    arg 1
    unfold evalQuery
  split
  all_goals exact bind_holds _ _

lemma Outcome.bind_self (condition : Outcome String Bool) :
    (do if ← condition then .ok true else .ok false) = condition := by
  cases condition with
  | ok holds => cases holds <;> rfl
  | error e | panic => rfl

def topLevelOperators : List String := ["$or", "$and", "$nor", "$expr", "$text", "$comment"]

variable {key : String} {value : Option Bson} {as bs : List Bson} {a b : Bson}

lemma evalQuery_field (h : key ∉ topLevelOperators) (condition : Bson) :
    evalQuery env doc [(key, condition)] = evalFieldCondition env doc key condition := by
  unfold evalQuery
  split
  case h_7 => exact bind_self _
  all_goals exact absurd (by decide) h

lemma evalFieldCondition_value {condition : Bson} (h : ∀ d, condition ≠ .document d) :
    evalFieldCondition env doc key condition =
      .ok (bsonEq (getValue doc key) (some condition)) := by
  cases condition
  case document d => exact absurd rfl (h d)
  all_goals rfl

lemma evalQuery_eq_true_iff {q : Document} :
    evalQuery env doc q = .ok true ↔ ∀ f ∈ q, evalQuery env doc [f] = .ok true := by
  induction q with
  | nil => simp [evalQuery]
  | cons f q ih =>
    rw [evalQuery_cons, forall_mem_cons, ← ih, bind_eq_ok]
    constructor
    · rintro ⟨holds, hf, hrest⟩
      cases holds
      · cases hrest
      · exact ⟨hf, hrest⟩
    · rintro ⟨hf, hrest⟩
      exact ⟨true, hf, hrest⟩

lemma evalOperators_eq_true_iff {cond : Document} :
    evalOperators env doc key value cond = .ok true ↔
      ∀ f ∈ cond, evalOperator env doc key value f.1 f.2 = .ok true := by
  induction cond with
  | nil => simp [evalOperators]
  | cons f cond ih =>
    rw [forall_mem_cons, ← ih, evalOperators, bind_eq_ok]
    constructor
    · rintro ⟨holds, hf, hrest⟩
      cases holds
      · cases hrest
      · exact ⟨hf, hrest⟩
    · rintro ⟨hf, hrest⟩
      exact ⟨true, hf, hrest⟩

/-! ### Equal operands -/

def Alike (a b : Bson) : Prop := ∀ x, bsonCmp a x = bsonCmp b x ∧ bsonCmp x a = bsonCmp x b

lemma Alike.refl (a : Bson) : Alike a a := fun _ => ⟨rfl, rfl⟩

lemma alike_double {x y : F64} (h : x.eq y = true) : Alike (.double x) (.double y) := by
  intro z
  have hcmp : ∀ t : F64, floatCmp x t = floatCmp y t ∧ floatCmp t x = floatCmp t y := by
    intro t
    simp only [floatCmp, F64.partialCmp_congr h t, and_self]
  cases z
  case double t => simpa only [bsonCmp] using hcmp t
  case int32 n => simpa only [bsonCmp] using hcmp (.ofInt n.toInt)
  case int64 n => simpa only [bsonCmp] using hcmp (.ofInt n.toInt)
  all_goals exact ⟨rfl, rfl⟩

lemma alike_document (d e : Document) : Alike (.document d) (.document e) := by
  intro z
  cases z <;> exact ⟨rfl, rfl⟩

lemma alike_javaScriptCodeWithScope (s t : String) (d e : Document) :
    Alike (.javaScriptCodeWithScope s d) (.javaScriptCodeWithScope t e) := by
  intro z
  cases z <;> exact ⟨rfl, rfl⟩

lemma bsonCmpItems_congr (h : List.Forall₂ Alike as bs) (xs : List Bson) :
    bsonCmpItems as xs = bsonCmpItems bs xs ∧ bsonCmpItems xs as = bsonCmpItems xs bs := by
  induction h generalizing xs with
  | nil => exact ⟨rfl, rfl⟩
  | cons hab _ ih =>
    cases xs with
    | nil => exact ⟨rfl, rfl⟩
    | cons x xs => simp only [bsonCmpItems, (hab x).1, (hab x).2, (ih xs).1, (ih xs).2, and_self]

lemma alike_array (h : List.Forall₂ Alike as bs) : Alike (.array as) (.array bs) := by
  intro z
  cases z
  case array xs => simpa only [bsonCmp] using bsonCmpItems_congr h xs
  all_goals exact ⟨rfl, rfl⟩

mutual

theorem Bson.alike_of_eq (a b : Bson) (h : a.eq b = true) : Alike a b := by
  cases a <;> cases b <;> simp only [Bson.eq, Bool.false_eq_true, Bool.and_eq_true,
    decide_eq_true_iff] at h
  case array.array xs ys => exact alike_array (forall₂_alike_of_eqItems xs ys h)
  case document.document d e => exact alike_document d e
  case javaScriptCodeWithScope.javaScriptCodeWithScope s d t e =>
    exact alike_javaScriptCodeWithScope s t d e
  case double.double x y => exact alike_double h
  all_goals
    first
    | rw [h]
      exact .refl _
    | rw [h.1, h.2]
      exact .refl _
    | exact .refl _
termination_by structural a

theorem forall₂_alike_of_eqItems (xs ys : List Bson) (h : Bson.eqItems xs ys = true) :
    List.Forall₂ Alike xs ys := by
  cases xs <;> cases ys <;> simp only [Bson.eqItems, Bool.false_eq_true, Bool.and_eq_true] at h
  case nil.nil => exact .nil
  case cons.cons x xs y ys =>
    exact .cons (Bson.alike_of_eq x y h.1) (forall₂_alike_of_eqItems xs ys h.2)
termination_by structural xs

end

lemma Bson.cases_of_eq (h : a.eq b = true) : a = b ∨
    (∃ x y, a = .double x ∧ b = .double y ∧ x.eq y = true) ∨
    (∃ xs ys, a = .array xs ∧ b = .array ys ∧ Bson.eqItems xs ys = true) ∨
    (∃ d e, a = .document d ∧ b = .document e) ∨
    ∃ s d t e, a = .javaScriptCodeWithScope s d ∧ b = .javaScriptCodeWithScope t e := by
  cases a <;> cases b <;> simp only [Bson.eq, Bool.false_eq_true, Bool.and_eq_true,
    decide_eq_true_iff] at h
  case array.array xs ys => exact .inr (.inr (.inl ⟨xs, ys, rfl, rfl, h⟩))
  case document.document d e => exact .inr (.inr (.inr (.inl ⟨d, e, rfl, rfl⟩)))
  case javaScriptCodeWithScope.javaScriptCodeWithScope s d t e =>
    exact .inr (.inr (.inr (.inr ⟨s, d, t, e, rfl, rfl⟩)))
  case double.double x y => exact .inr (.inl ⟨x, y, rfl, rfl, h⟩)
  all_goals
    left
    first
    | rw [h]
    | rw [h.1, h.2]
    | rfl

lemma forall₂_orderedInsert (hab : Alike a b) (h : List.Forall₂ Alike as bs) :
    List.Forall₂ Alike (as.orderedInsert (fun x y => bsonCmp x y ≠ .gt) a)
      (bs.orderedInsert (fun x y => bsonCmp x y ≠ .gt) b) := by
  induction h with
  | nil => exact .cons hab .nil
  | @cons a' b' as bs hab' htail ih =>
    have hcmp : bsonCmp a a' = bsonCmp b b' := (hab a').1.trans (hab' b).2
    rw [orderedInsert_cons, orderedInsert_cons, hcmp]
    split
    · exact .cons hab (.cons hab' htail)
    · exact .cons hab' ih

lemma forall₂_insertionSort (h : List.Forall₂ Alike as bs) :
    List.Forall₂ Alike (as.insertionSort fun x y => bsonCmp x y ≠ .gt)
      (bs.insertionSort fun x y => bsonCmp x y ≠ .gt) := by
  induction h with
  | nil => exact .nil
  | cons hab _ ih => exact forall₂_orderedInsert hab ih

lemma evalIn_congr (value : Option Bson) (h : a.eq b = true) :
    evalIn value a = evalIn value b := by
  rcases Bson.cases_of_eq h with rfl | ⟨x, y, rfl, rfl, -⟩ | ⟨as, bs, rfl, rfl, hitems⟩ |
    ⟨d, e, rfl, rfl⟩ | ⟨s, d, t, e, rfl, rfl⟩ <;> try rfl
  · have hsorted := forall₂_insertionSort (forall₂_alike_of_eqItems as bs hitems)
    have hsearch : ∀ v, binarySearchBy (fun probe => bsonCmp probe v)
          (as.insertionSort fun x y => bsonCmp x y ≠ .gt) =
        binarySearchBy (fun probe => bsonCmp probe v)
          (bs.insertionSort fun x y => bsonCmp x y ≠ .gt) := by
      intro v
      refine binarySearchBy_congr ?_
      rw [← forall₂_eq_eq_eq, forall₂_map_left_iff, forall₂_map_right_iff]
      exact hsorted.imp fun x y hxy => (hxy v).1
    simp only [evalIn, asArray, ok_bind, hsearch]

lemma numberAsI64_congr (h : a.eq b = true) : numberAsI64 a = numberAsI64 b := by
  rcases Bson.cases_of_eq h with rfl | ⟨x, y, rfl, rfl, h⟩ | ⟨as, bs, rfl, rfl, -⟩ |
    ⟨d, e, rfl, rfl⟩ | ⟨s, d, t, e, rfl, rfl⟩ <;> try rfl
  rw [numberAsI64, numberAsI64, F64.toIntSat_congr h]

lemma evalMod_congr (value : Option Bson) (h : a.eq b = true) :
    evalMod value a = evalMod value b := by
  rcases Bson.cases_of_eq h with rfl | ⟨x, y, rfl, rfl, -⟩ | ⟨as, bs, rfl, rfl, hitems⟩ |
    ⟨d, e, rfl, rfl⟩ | ⟨s, d, t, e, rfl, rfl⟩ <;> try rfl
  rcases as with _ | ⟨d, _ | ⟨r, _ | ⟨s, as⟩⟩⟩ <;>
    rcases bs with _ | ⟨d', _ | ⟨r', _ | ⟨s', bs⟩⟩⟩ <;>
    simp only [Bson.eqItems, Bool.and_false, Bool.false_eq_true, Bool.and_true,
      Bool.and_eq_true] at hitems <;> try rfl
  simp only [evalMod, numberAsI64_congr hitems.1, numberAsI64_congr hitems.2]

lemma bitMask_congr (as bs : List Bson) (h : Bson.eqItems as bs = true) :
    bitMask as = bitMask bs := by
  induction as generalizing bs with
  | nil =>
    cases bs with
    | nil => rfl
    | cons b bs => cases h
  | cons a as ih =>
    cases bs with
    | nil => cases h
    | cons b bs =>
      obtain ⟨hab, htail⟩ := Bool.and_eq_true_iff.mp h
      rcases Bson.cases_of_eq hab with rfl | ⟨x, y, rfl, rfl, -⟩ | ⟨xs, ys, rfl, rfl, -⟩ |
        ⟨d, e, rfl, rfl⟩ | ⟨s, d, t, e, rfl, rfl⟩ <;> try rfl
      unfold bitMask
      rw [ih bs htail]

lemma evalBits_congr (value : Option Bson) (h : a.eq b = true) (mode : BitsMode) :
    evalBits value a mode = evalBits value b mode := by
  have hnumber := numberAsI64_congr h
  rcases Bson.cases_of_eq h with rfl | ⟨x, y, rfl, rfl, -⟩ | ⟨as, bs, rfl, rfl, hitems⟩ |
    ⟨d, e, rfl, rfl⟩ | ⟨s, d, t, e, rfl, rfl⟩ <;> try rfl
  · simp only [evalBits, hnumber]
  · simp only [evalBits, bitMask_congr as bs hitems]

lemma evalPlainOperator_congr {op : String} (h : a.eq b = true) (hop : op ≠ "$all") :
    evalPlainOperator env doc key value op a = evalPlainOperator env doc key value op b := by
  have halike := a.alike_of_eq b h
  have hordered : ∀ accepts, bsonOrdered accepts value a = bsonOrdered accepts value b := by
    intro accepts
    cases value with
    | none => rfl
    | some v => rw [bsonOrdered, bsonOrdered, (halike v).2]
  have heq : bsonEq value (some a) = bsonEq value (some b) := by
    cases value with
    | none => rfl
    | some v => rw [bsonEq, bsonEq, (halike v).2]
  have hrest : evalExists doc key a = evalExists doc key b ∧ evalType value a = evalType value b ∧
      evalRegex env value a = evalRegex env value b ∧ evalSize value a = evalSize value b := by
    rcases Bson.cases_of_eq h with rfl | ⟨x, y, rfl, rfl, -⟩ | ⟨as, bs, rfl, rfl, -⟩ |
      ⟨d, e, rfl, rfl⟩ | ⟨s, d, t, e, rfl, rfl⟩ <;> exact ⟨rfl, rfl, rfl, rfl⟩
  obtain ⟨hexists, htype, hregex, hsize⟩ := hrest
  unfold evalPlainOperator
  split
  case h_13 => exact absurd rfl hop
  all_goals simp only [hordered, heq, hexists, htype, hregex, hsize, evalIn_congr value h,
    evalMod_congr value h, evalBits_congr value h]

lemma evalOperator_plain {op : String} (hnot : op ≠ "$not")
    (helem : op ≠ "$elemMatch") (operand : Bson) :
    evalOperator env doc key value op operand = evalPlainOperator env doc key value op operand := by
  cases operand
  case document cond =>
    unfold evalOperator
    split
    · exact absurd rfl hnot
    · exact absurd rfl helem
    · rfl
  all_goals rfl

/-! ### `$not` -/

lemma evalNot_eq_true_iff {cond : Document} : evalNot env doc key value cond = .ok true ↔
      ∀ f ∈ cond, evalOperator env doc key value f.1 f.2 = .ok false := by
  induction cond with
  | nil => simp [evalNot]
  | cons f cond ih =>
    rw [forall_mem_cons, ← ih, evalNot, bind_eq_ok]
    constructor
    · rintro ⟨holds, hf, hrest⟩
      cases holds
      · exact ⟨hf, hrest⟩
      · cases hrest
    · rintro ⟨hf, hrest⟩
      exact ⟨false, hf, hrest⟩

lemma evalNot_eq_false_iff {cond : Document} : evalNot env doc key value cond = .ok false ↔
      ∃ pre f post, cond = pre ++ f :: post ∧ evalOperator env doc key value f.1 f.2 = .ok true ∧
        ∀ g ∈ pre, evalOperator env doc key value g.1 g.2 = .ok false := by
  constructor
  · intro h
    induction cond with
    | nil => cases h
    | cons f cond ih =>
      rw [evalNot, bind_eq_ok] at h
      obtain ⟨holds, hf, hrest⟩ := h
      cases holds
      · obtain ⟨pre, g, post, rfl, hg, hpre⟩ := ih hrest
        exact ⟨f :: pre, g, post, rfl, hg, forall_mem_cons.mpr ⟨hf, hpre⟩⟩
      · exact ⟨[], f, cond, rfl, hf, by simp⟩
  · rintro ⟨pre, f, post, rfl, hf, hpre⟩
    induction pre with
    | nil => rw [nil_append, evalNot, hf]; rfl
    | cons g pre ih =>
      rw [forall_mem_cons] at hpre
      rw [cons_append, evalNot, hpre.1]
      exact ih hpre.2

def geoOperators : List String := ["$near", "$nearSphere", "$geoWithin", "$geoIntersects"]

lemma evalFieldCondition_of_not_geo {cond : Document}
    (h : (geoOperators.any fun op => cond.containsKey op) = false) :
    evalFieldCondition env doc key (.document cond) =
      evalOperators env doc key (getValue doc key) cond := by
  simp only [geoOperators, any_cons, any_nil, Bool.or_false, Bool.or_eq_false_iff] at h
  obtain ⟨hnear, hsphere, hwithin, hintersects⟩ := h
  rw [evalFieldCondition, hnear, hsphere, hwithin, hintersects]
  rfl

/-- Where `$not` gives the opposite.  A geo operator decides a condition alone, but inside `$not` it
always holds. -/
def NotInverts (env : Env) (doc : Document) (key : String) (cond : Document) (verdict : Bool) :
    Prop :=
  let holds := fun f : String × Bson => evalOperator env doc key (getValue doc key) f.1 f.2
  if geoOperators.any fun op => cond.containsKey op then
    verdict = true ∧ ∃ pre f post, cond = pre ++ f :: post ∧ holds f = .ok true ∧
      ∀ g ∈ pre, holds g = .ok false
  else cond ≠ [] ∧ ∀ f ∈ cond, holds f = .ok verdict

lemma evalQuery_operator (h : key ∉ topLevelOperators) {op : String} (hop : op ∉ geoOperators)
    (v : Bson) : evalQuery env doc [(key, .document [(op, v)])] =
      evalOperator env doc key (getValue doc key) op v := by
  have hplain : (geoOperators.any fun geo => Document.containsKey [(op, v)] geo) = false := by
    rw [any_eq_false]
    intro geo hgeo
    rw [Document.containsKey, Document.get_cons, if_neg fun heq : geo = op => hop (heq ▸ hgeo)]
    exact Bool.false_ne_true
  rw [evalQuery_field h, evalFieldCondition_of_not_geo hplain, evalOperators]
  exact bind_self _

lemma evalNot_ne_true_of_geo {cond : Document} {op : String} (hop : op ∈ geoOperators)
    (h : cond.containsKey op = true) : evalNot env doc key value cond ≠ .ok true := by
  obtain ⟨⟨name, v⟩, hf, hname⟩ := Document.containsKey_iff.mp h
  obtain rfl : name = op := hname
  have htrue : evalOperator env doc key value name v = .ok true := by
    simp only [geoOperators, mem_cons, not_mem_nil, or_false] at hop
    rcases hop with rfl | rfl | rfl | rfl <;> cases v <;> rfl
  intro hnot
  cases htrue.symm.trans (evalNot_eq_true_iff.mp hnot _ hf)

/-- `$not` gives the opposite of its condition iff all operators of the condition agree. -/
theorem not_negates_iff {cond : Document} {verdict : Bool} (hkey : key ∉ topLevelOperators)
    (h : evalQuery env doc [(key, .document cond)] = .ok verdict) :
    evalQuery env doc [(key, .document [("$not", .document cond)])] = .ok (!verdict) ↔
      NotInverts env doc key cond verdict := by
  rw [evalQuery_operator hkey (by decide), NotInverts]
  change evalNot env doc key (getValue doc key) cond = _ ↔ _
  split
  · next hgeo =>
    obtain ⟨op, hop, hcontains⟩ := any_eq_true.mp hgeo
    rw [← evalNot_eq_false_iff]
    cases verdict
    · exact iff_of_false (evalNot_ne_true_of_geo hop hcontains) (by simp)
    · simp
  · next hgeo =>
    rw [evalQuery_field hkey, evalFieldCondition_of_not_geo (Bool.eq_false_iff.mpr hgeo)] at h
    cases verdict
    · rw [Bool.not_false, evalNot_eq_true_iff]
      refine ⟨fun hall => ⟨?_, hall⟩, fun hall => hall.2⟩
      rintro rfl
      cases h
    · rw [evalOperators_eq_true_iff] at h
      cases cond with
      | nil => exact iff_of_false (by simp [evalNot]) (by simp)
      | cons f cond =>
        refine iff_of_true ?_ ⟨cons_ne_nil _ _, h⟩
        exact evalNot_eq_false_iff.mpr ⟨[], f, cond, rfl, h f mem_cons_self, by simp⟩

theorem not_negates_single :
    evalQuery (.ofLists [] []) [("a", .int32 3)]
      [("a", .document [("$not", .document [("$gt", .int32 5)])])] = .ok true := by
  apply (@not_negates_iff _ _ "a" [("$gt", .int32 5)] false (by decide) rfl).mpr
  exact ⟨cons_ne_nil _ _, by simp only [mem_singleton, forall_eq]; rfl⟩

/-- Of two operators one holds of 3: neither the condition nor its negation does. -/
theorem not_denies_both : evalQuery (.ofLists [] []) [("a", .int32 3)]
      [("a", .document [("$gt", .int32 5), ("$lt", .int32 10)])] = .ok false ∧
    evalQuery (.ofLists [] []) [("a", .int32 3)]
      [("a", .document [("$not", .document [("$gt", .int32 5), ("$lt", .int32 10)])])] =
        .ok false :=
  ⟨rfl, rfl⟩

lemma floatCmp_swap (x y : F64) : floatCmp y x = (floatCmp x y).swap := by
  have hkeys : compare y.orderKey x.orderKey = (compare x.orderKey y.orderKey).swap :=
    Std.OrientedCmp.eq_swap
  unfold floatCmp F64.partialCmp
  cases x.isNaN <;> cases y.isNaN <;> first | rfl | exact hkeys

lemma Bytes.cmp_swap (a b : Bytes) : cmp b a = (cmp a b).swap := by
  cases h : cmp a b with
  | lt => exact cmp_eq_gt.mpr (cmp_eq_lt.mp h)
  | eq => exact cmp_eq_eq.mpr (cmp_eq_eq.mp h).symm
  | gt => exact cmp_eq_lt.mpr (cmp_eq_gt.mp h)

mutual

theorem bsonCmp_swap (a b : Bson) : bsonCmp b a = (bsonCmp a b).swap := by
  have hints : ∀ m n : ℤ, compare n m = (compare m n).swap := fun _ _ => Std.OrientedCmp.eq_swap
  cases a <;> cases b <;> first
    | rfl
    | exact hints _ _
    | exact floatCmp_swap _ _
    | exact cmp_swap _ _
    | skip
  case boolean.boolean x y => cases x <;> cases y <;> rfl
  case array.array as bs => exact bsonCmpItems_swap as bs
termination_by structural a

theorem bsonCmpItems_swap (as bs : List Bson) : bsonCmpItems bs as = (bsonCmpItems as bs).swap := by
  cases as <;> cases bs <;> try rfl
  case cons.cons a as b bs =>
    rw [bsonCmpItems, bsonCmpItems, bsonCmp_swap a b, bsonCmpItems_swap as bs]
    cases bsonCmp a b <;> rfl
termination_by structural as

end

lemma binarySearchBy_singleton (v : Bson) :
    (binarySearchBy (fun probe => bsonCmp probe v) [a]).toBool = bsonEq (some v) (some a) := by
  rw [bsonEq, bsonCmp_swap a v]
  simp only [binarySearchBy, binarySearchLoop, length_singleton, le_refl, if_true,
    getElem?_cons_zero, Option.map_some]
  cases bsonCmp a v <;> rfl

/-- For a scalar, `$eq`, `$in` with one item and the bare value select alike iff no element of an
array field equals it: only `$in` looks into arrays. -/
theorem eq_in_coincide_iff {x : Bson} (hkey : key ∉ topLevelOperators)
    (hdocument : ∀ d, x ≠ .document d) (harray : ∀ xs, x ≠ .array xs) :
    (evalQuery env doc [(key, .document [("$eq", x)])] = evalQuery env doc [(key, x)] ∧
      evalQuery env doc [(key, .document [("$in", .array [x])])] = evalQuery env doc [(key, x)]) ↔
    ∀ vals, getValue doc key = some (.array vals) → ∀ v ∈ vals, bsonCmp v x ≠ .eq := by
  have hplain : evalQuery env doc [(key, x)] = .ok (bsonEq (getValue doc key) (some x)) := by
    rw [evalQuery_field hkey, evalFieldCondition_value hdocument]
  have heq : evalQuery env doc [(key, .document [("$eq", x)])] = evalQuery env doc [(key, x)] := by
    rw [hplain, evalQuery_operator hkey (by decide), evalOperator_plain (by decide) (by decide)]
    rfl
  have hin : evalQuery env doc [(key, .document [("$in", .array [x])])] =
      evalIn (getValue doc key) (.array [x]) := by
    rw [evalQuery_operator hkey (by decide)]
    rfl
  rw [hin, heq, hplain, evalIn, asArray, ok_bind]
  simp only [true_and, insertionSort_cons, insertionSort_nil, orderedInsert_nil,
    binarySearchBy_singleton]
  split
  · next vals hvalue =>
    have hnone : bsonEq (some (.array vals)) (some x) = false := by
      cases x <;> first | rfl | exact absurd rfl (harray _)
    rw [hvalue, hnone]
    simp [bsonEq]
  · next v hnot hvalue =>
    refine iff_of_true (by rw [hvalue]) fun vals hvals => ?_
    exact (hnot vals (Option.some.inj (hvalue.symm.trans hvals))).elim
  · next hvalue => simp [hvalue, bsonEq]

theorem eq_in_coincide_null :
    evalQuery (.ofLists [] []) [("a", .null)] [("a", .document [("$in", .array [.null])])] =
      evalQuery (.ofLists [] []) [("a", .null)] [("a", .null)] :=
  ((@eq_in_coincide_iff (.ofLists [] []) [("a", .null)] "a" .null (by decide) nofun nofun).mpr
    nofun).2

theorem eq_misses_element :
    evalQuery (.ofLists [] []) [("a", .array [.int32 1])] [("a", .int32 1)] = .ok false ∧
    evalQuery (.ofLists [] []) [("a", .array [.int32 1])]
      [("a", .document [("$in", .array [.int32 1])])] = .ok true :=
  ⟨rfl, rfl⟩

end

end Smongo

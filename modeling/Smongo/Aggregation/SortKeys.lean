import Smongo.Aggregation.Stages
import Smongo.Lib.SortedByKey

/-!
# Sort keys

Without `NaN`, values compare by a key, and documents by the list of keys at the sort fields.
-/

namespace Smongo

open List Bytes

abbrev ValueKey := ℕ ×ₗ ℤ ×ₗ Bytes

def ValueKey.mk (place : ℕ) (number : ℤ) (bytes : Bytes) : ValueKey :=
  toLex (place, toLex (number, bytes))

def sortNumber : Bson → ℤ
  | .boolean b => if b then 1 else 0
  | .dateTime millis => millis.toInt
  | v => ((bsonToF64 v).map F64.orderKey).getD 0

def sortBytes : Bson → Bytes
  | .string s => utf8 s
  | .objectId oid => oid.bytes
  | _ => []

def valueKey : Option Bson → ValueKey
  | none => .mk 0 0 []
  | some v => .mk (sortTypeOrder v) (sortNumber v) (sortBytes v)

def Bson.isNaN : Bson → Bool
  | .double x => x.isNaN
  | _ => false

lemma Bytes.cmp_eq_compare (a b : Bytes) :
    cmp a b = (LinearOrder.toOrd : Ord Bytes).compare a b := by
  cases h : cmp a b with
  | lt => exact (compare_lt_iff_lt.mpr (cmp_eq_lt.mp h)).symm
  | eq => exact (compare_eq_iff_eq.mpr (cmp_eq_eq.mp h)).symm
  | gt => exact (compare_gt_iff_gt.mpr (cmp_eq_gt.mp h)).symm

lemma compare_mk (p q : ℕ) (m n : ℤ) (a b : Bytes) :
    (LinearOrder.toOrd : Ord ValueKey).compare (.mk p m a) (.mk q n b) =
      (compare p q).then ((compare m n).then (a.cmp b)) := by
  rw [Bytes.cmp_eq_compare]
  rfl

lemma floatCmp_of_not_nan {x y : F64} (hx : x.isNaN = false) (hy : y.isNaN = false) :
    floatCmp x y = compare x.orderKey y.orderKey := by
  simp [floatCmp, F64.partialCmp, hx, hy]

lemma sortTypeOrder_pos (v : Bson) : 0 < sortTypeOrder v := by
  cases v <;> exact Nat.lt_of_sub_eq_succ rfl

lemma isNaN_of_bsonToF64 {v : Bson} {x : F64} (hx : bsonToF64 v = some x) :
    x.isNaN = v.isNaN := by
  cases v <;> cases hx
  · rfl
  · exact F64.isNaN_ofInt _
  · exact F64.isNaN_ofInt _

lemma compareBson_of_place {v w : Bson} (hv : v.isNaN = false) (hw : w.isNaN = false)
    (hplace : sortTypeOrder v = sortTypeOrder w) :
    compareBson (some v) (some w) =
      (compare (sortNumber v) (sortNumber w)).then ((sortBytes v).cmp (sortBytes w)) := by
  -- two numbers
  have hnumbers : ∀ {x y}, bsonToF64 v = some x → bsonToF64 w = some y →
      floatCmp x y = compare x.orderKey y.orderKey := fun hx hy =>
    floatCmp_of_not_nan (isNaN_of_bsonToF64 hx ▸ hv) (isNaN_of_bsonToF64 hy ▸ hw)
  cases v <;> cases w <;> first
    | exact absurd hplace (Nat.ne_of_beq_eq_false rfl)
    | rfl
    | exact (hnumbers rfl rfl).trans Ordering.then_eq.symm
    | skip
  case boolean.boolean x y => cases x <;> cases y <;> rfl
  case dateTime.dateTime => exact Ordering.then_eq.symm

lemma compareBson_measured :
    MeasuredOn {v : Option Bson | v.any Bson.isNaN = false} compareBson valueKey := by
  intro a ha b hb
  cases a with
  | none =>
    cases b with
    | none => rfl
    | some w =>
      rw [valueKey, valueKey, compare_mk, compare_lt_iff_lt.mpr (sortTypeOrder_pos w)]
      rfl
  | some v =>
    cases b with
    | none =>
      rw [valueKey, valueKey, compare_mk, compare_gt_iff_gt.mpr (sortTypeOrder_pos v)]
      rfl
    | some w =>
      rw [valueKey, valueKey, compare_mk]
      cases hplace : compare (sortTypeOrder v) (sortTypeOrder w) with
      | eq => exact compareBson_of_place ha hb (compare_eq_iff_eq.mp hplace)
      | lt | gt =>
        simp only [compareBson, hplace]
        rfl

abbrev FieldKey := ValueKey ×ₗ ValueKeyᵒᵈ

def fieldKey (descending : Bool) (key : ValueKey) : FieldKey :=
  if descending then toLex (valueKey none, .toDual key) else toLex (key, .toDual (valueKey none))

def sortKey (sortDoc doc : Document) : List FieldKey :=
  sortDoc.map fun f => fieldKey (sortDescending f.2) (valueKey (getValue doc f.1))

def NanFree (sortDoc doc : Document) : Prop :=
  ∀ f ∈ sortDoc, (getValue doc f.1).any Bson.isNaN = false

instance (sortDoc doc : Document) : Decidable (NanFree sortDoc doc) :=
  inferInstanceAs (Decidable (∀ f ∈ sortDoc, _))

lemma compare_fieldKey (descending : Bool) (a b : ValueKey) :
    (LinearOrder.toOrd : Ord FieldKey).compare (fieldKey descending a) (fieldKey descending b) =
      if descending then ((LinearOrder.toOrd : Ord ValueKey).compare a b).swap
      else (LinearOrder.toOrd : Ord ValueKey).compare a b := by
  cases descending with
  | false =>
    have hlex : (LinearOrder.toOrd : Ord FieldKey).compare (fieldKey false a) (fieldKey false b) =
        ((LinearOrder.toOrd : Ord ValueKey).compare a b).then .eq := rfl
    rw [hlex, Ordering.then_eq]
    rfl
  | true => exact Std.OrientedCmp.eq_swap

lemma measured_fields {α ι : Type} (fields : List ι) (descending : ι → Bool)
    (value : ι → α → Option Bson) :
    MeasuredOn {a | ∀ f ∈ fields, (value f a).any Bson.isNaN = false}
      (fun a b => fields.foldr (fun f rest =>
        let cmp := compareBson (value f a) (value f b)
        (if descending f then cmp.swap else cmp).then rest) .eq)
      fun a => fields.map fun f => fieldKey (descending f) (valueKey (value f a)) := by
  intro a ha b hb
  induction fields with
  | nil => rfl
  | cons f fields ih =>
    have hf : compareBson (value f a) (value f b) = _ :=
      compareBson_measured _ (ha f mem_cons_self) _ (hb f mem_cons_self)
    have hrest := ih (fun g hg => ha g (mem_cons_of_mem f hg))
      (fun g hg => hb g (mem_cons_of_mem f hg))
    beta_reduce
    rw [map_cons, map_cons, compare_cons, compare_fieldKey, ← hf]
    exact congrArg (Ordering.then _) hrest

lemma compareBySort_measured (sortDoc : Document) :
    MeasuredOn {doc | NanFree sortDoc doc} (compareBySort sortDoc) (sortKey sortDoc) :=
  measured_fields sortDoc (fun f => sortDescending f.2) fun f doc => getValue doc f.1

section

variable {sortDoc : Document} {docs : List Document} (h : ∀ doc ∈ docs, NanFree sortDoc doc)
include h

lemma measured_of_nanFree :
    MeasuredOn {doc | doc ∈ docs} (compareBySort sortDoc) (sortKey sortDoc) :=
  (compareBySort_measured sortDoc).mono h

lemma stageSort_sorted :
    (stageSort docs sortDoc).Pairwise fun a b => sortKey sortDoc a ≤ sortKey sortDoc b :=
  pairwise_key_insertionSort (measured_of_nanFree h)

end

lemma stageSort_perm (docs : List Document) (sortDoc : Document) :
    (stageSort docs sortDoc).Perm docs :=
  perm_insertionSort _ docs

end Smongo

import Smongo.Collection.Calls
import Smongo.Query.Conditions

/-!
# Eligibility of partial indexes

A partial index is taken if the query matches each condition of its filter.
-/

namespace Smongo

open List

def boundAccepts : String → Option (Ordering → Bool)
  | "$gt" => some (· = .gt)
  | "$gte" => some (· ≠ .lt)
  | "$lt" => some (· = .lt)
  | "$lte" => some (· ≠ .gt)
  | _ => none

def SameFloat (a b : Bson) : Prop :=
  ∃ x y, bsonToF64 a = some x ∧ bsonToF64 b = some y ∧ x.eq y = true

section

variable {a b v p q : Bson} {x y z : F64} {accepts : Ordering → Bool}

lemma bsonCmp_numbers (ha : bsonToF64 a = some x) (hb : bsonToF64 b = some y) :
    bsonCmp a b = floatCmp x y ∨
      ∃ m n, x = .ofInt m ∧ y = .ofInt n ∧ bsonCmp a b = compare m n := by
  cases a <;> simp only [bsonToF64, Option.some.injEq, reduceCtorEq] at ha <;> cases b <;>
    simp only [bsonToF64, Option.some.injEq, reduceCtorEq] at hb <;> subst ha <;> subst hb <;>
    rw [bsonCmp]
  all_goals first | exact .inl rfl | exact .inr ⟨_, _, rfl, rfl, rfl⟩

lemma bsonCmp_of_nan (hv : bsonToF64 v = some x) (hx : x.isNaN = true)
    (hp : bsonToF64 p = some y) : bsonCmp v p = .eq := by
  rcases bsonCmp_numbers hv hp with h | ⟨m, n, rfl, -, -⟩
  · rw [h, floatCmp, F64.partialCmp, hx]
    rfl
  · rw [F64.isNaN_ofInt] at hx
    cases hx

section

variable (ha : bsonToF64 a = some x) (hb : bsonToF64 b = some y) (hx : x.isNaN = false)
  (hy : y.isNaN = false)
include ha hb hx hy

lemma bsonCmp_of_orderKey_lt (h : x.orderKey < y.orderKey) :
    bsonCmp a b = .lt := by
  rcases bsonCmp_numbers ha hb with hcmp | ⟨m, n, rfl, rfl, hcmp⟩
  · rw [hcmp, floatCmp, F64.partialCmp, hx, hy]
    exact compare_lt_iff_lt.mpr h
  · rw [hcmp, compare_lt_iff_lt]
    by_contra hle
    exact absurd (F64.orderKey_ofInt_mono (not_lt.mp hle)) (not_le.mpr h)

lemma bsonCmp_of_lt_orderKey (h : y.orderKey < x.orderKey) :
    bsonCmp a b = .gt := by
  rw [bsonCmp_swap b a, bsonCmp_of_orderKey_lt hb ha hy hx h]
  rfl

end

lemma bsonCmp_of_not_number (hv : bsonToF64 v = none) (hp : bsonToF64 p = some x) :
    bsonCmp v p = compare (bsonTypeOrder v) 1 := by
  cases v <;> simp only [bsonToF64, reduceCtorEq] at hv <;> cases p <;>
    simp only [bsonToF64, reduceCtorEq] at hp <;> rfl

/-- What satisfies the query's bound satisfies the filter's, unless value and bounds are the same
float. -/
lemma accepts_bound (hp : bsonToF64 p = some x) (hq : bsonToF64 q = some y)
    (hup : accepts .gt = true ∧ accepts .lt = false ∧ x.le y = true ∨
      accepts .lt = true ∧ accepts .gt = false ∧ y.le x = true)
    (haccepts : accepts (bsonCmp v q) = true)
    (hsame : SameFloat v q → SameFloat q p → accepts (bsonCmp v p) = true) :
    accepts (bsonCmp v p) = true := by
  cases hv : bsonToF64 v with
  | none => rwa [bsonCmp_of_not_number hv hp, ← bsonCmp_of_not_number hv hq]
  | some z =>
    cases hz : z.isNaN with
    | true => rwa [bsonCmp_of_nan hv hz hp, ← bsonCmp_of_nan hv hz hq]
    | false =>
      rcases hup with ⟨hgt, hlt, hle⟩ | ⟨hlt, hgt, hle⟩
      · obtain ⟨hx, hy, hle⟩ := F64.le_iff.mp hle
        -- the query's bound holds, so the value is not below it as a float
        have hge : y.orderKey ≤ z.orderKey := by
          by_contra hnot
          rw [bsonCmp_of_orderKey_lt hv hq hz hy (not_le.mp hnot), hlt] at haccepts
          cases haccepts
        rcases (hle.trans hge).lt_or_eq with hxz | hxz
        · rw [bsonCmp_of_lt_orderKey hv hp hz hx hxz, hgt]
        · exact hsame ⟨z, y, hv, hq, F64.eq_iff.mpr ⟨hz, hy, by omega⟩⟩
            ⟨y, x, hq, hp, F64.eq_iff.mpr ⟨hy, hx, by omega⟩⟩
      · obtain ⟨hy, hx, hle⟩ := F64.le_iff.mp hle
        have hge : z.orderKey ≤ y.orderKey := by
          by_contra hnot
          rw [bsonCmp_of_lt_orderKey hv hq hz hy (not_le.mp hnot), hgt] at haccepts
          cases haccepts
        rcases (hge.trans hle).lt_or_eq with hzx | hzx
        · rw [bsonCmp_of_orderKey_lt hv hp hz hx hzx, hlt]
        · exact hsame ⟨z, y, hv, hq, F64.eq_iff.mpr ⟨hz, hy, by omega⟩⟩
            ⟨y, x, hq, hp, F64.eq_iff.mpr ⟨hy, hx, by omega⟩⟩

end

/-- No value of the field is the same float as a bound of the query and that of the filter but on
the other side of the latter. -/
def BoundsHold (doc : Document) (field : String) : Bson → Bson → Prop
  | .document pfDoc, .document qDoc => ∀ f ∈ pfDoc, ∀ accepts, boundAccepts f.1 = some accepts →
      ∀ qV, Document.get qDoc f.1 = some qV → ∀ v, getValue doc field = some v →
        SameFloat v qV → SameFloat qV f.2 → accepts (bsonCmp v f.2) = true
  | _, _ => True

/-- These see more of an operand than how it compares: its bytes, or the order of its fields. -/
def nestedOperators : List String := ["$all", "$not", "$elemMatch"]

/-- What is not evaluated operator by operator stands in the query as in the filter. -/
def Verbatim (field : String) (pfVal qVal : Bson) : Prop :=
  pfVal = qVal ∨ field = "$comment" ∨ field ∉ topLevelOperators ∧
    match pfVal, qVal with
    | .document pfDoc, .document qDoc =>
      (geoOperators.any fun op => Document.containsKey qDoc op) = false ∧
        ∀ f ∈ pfDoc, f.1 ∈ nestedOperators → Document.get qDoc f.1 = some f.2
    | _, _ => True

section

variable {env : Env} {doc : Document}

variable {op key : String} {pfV qV : Bson}

section

variable {accepts : Ordering → Bool} (h : boundAccepts op = some accepts)
include h

lemma evalOperator_bound {value : Option Bson} (operand : Bson) :
    evalOperator env doc key value op operand = .ok (bsonOrdered accepts value operand) := by
  unfold boundAccepts at h
  split at h <;> cases h <;> cases operand <;> rfl

lemma tighter_of_bound (htighter : isTighterBound op pfV qV = true) :
    ∃ x y, bsonToF64 pfV = some x ∧ bsonToF64 qV = some y ∧
      (accepts .gt = true ∧ accepts .lt = false ∧ x.le y = true ∨
        accepts .lt = true ∧ accepts .gt = false ∧ y.le x = true) := by
  unfold isTighterBound at htighter
  split at htighter
  · next x y hx hy =>
    refine ⟨x, y, hx, hy, ?_⟩
    unfold boundAccepts at h
    split at h <;> cases h
    · exact .inl ⟨rfl, rfl, htighter⟩
    · exact .inl ⟨rfl, rfl, htighter⟩
    · exact .inr ⟨rfl, rfl, htighter⟩
    · exact .inr ⟨rfl, rfl, htighter⟩
  · cases htighter

end

lemma not_tighter_of_not_bound (h : boundAccepts op = none) :
    isTighterBound op pfV qV = false := by
  have hne : op ≠ "$gt" ∧ op ≠ "$gte" ∧ op ≠ "$lt" ∧ op ≠ "$lte" := by
    refine ⟨?_, ?_, ?_, ?_⟩ <;> rintro rfl <;> cases h
  unfold isTighterBound
  split
  · simp [hne]
  · rfl

lemma operand_iff (hmatch : qV.eq pfV = true ∨ isTighterBound op pfV qV = true)
    (hnested : op ∈ nestedOperators → qV = pfV)
    (hquery : evalOperator env doc key (getValue doc key) op qV = .ok true) :
    evalOperator env doc key (getValue doc key) op pfV = .ok true ↔
      ∀ accepts, boundAccepts op = some accepts → ∀ v, getValue doc key = some v →
        SameFloat v qV → SameFloat qV pfV → accepts (bsonCmp v pfV) = true := by
  cases hbound : boundAccepts op with
  | some accepts =>
    rw [evalOperator_bound hbound] at hquery ⊢
    cases hvalue : getValue doc key with
    | none =>
      rw [hvalue] at hquery
      cases hquery
    | some v =>
      rw [hvalue] at hquery
      have haccepts : accepts (bsonCmp v qV) = true := Outcome.ok.inj hquery
      constructor
      · rintro h _ ⟨⟩ _ ⟨⟩ _ _
        exact Outcome.ok.inj h
      · intro h
        refine congrArg Outcome.ok ?_
        change accepts (bsonCmp v pfV) = true
        rcases hmatch with heq | htighter
        · rwa [← (qV.alike_of_eq pfV heq v).2]
        · obtain ⟨x, y, hx, hy, hside⟩ := tighter_of_bound hbound htighter
          exact accepts_bound hx hy hside haccepts (h accepts rfl v rfl)
  | none =>
    refine iff_of_true ?_ nofun
    rcases hmatch with heq | htighter
    · by_cases hop : op ∈ nestedOperators
      · rwa [← hnested hop]
      · simp only [nestedOperators, mem_cons, not_mem_nil, or_false, not_or] at hop
        rw [evalOperator_plain hop.2.1 hop.2.2] at hquery ⊢
        rwa [← evalPlainOperator_congr heq hop.1]
    · rw [not_tighter_of_not_bound hbound] at htighter
      cases htighter

def Matched (pfVal qVal : Bson) : Prop :=
  (∃ pfDoc qDoc, pfVal = .document pfDoc ∧ qVal = .document qDoc ∧
    ∀ f ∈ pfDoc, ∃ qV, Document.get qDoc f.1 = some qV ∧
      (qV.eq f.2 = true ∨ isTighterBound f.1 f.2 qV = true)) ∨
  (∀ d, pfVal ≠ .document d) ∧ qVal.eq pfVal = true

lemma matched_of_satisfies {query partialFilter : Document} {f : String × Bson}
    (h : querySatisfiesPartialFilter query partialFilter = true) (hf : f ∈ partialFilter) :
    ∃ qVal, Document.get query f.1 = some qVal ∧ Matched f.2 qVal := by
  have hfield := all_eq_true.mp h f hf
  obtain ⟨field, pfVal⟩ := f
  cases hget : Document.get query field with
  | none => simp only [hget, Bool.false_eq_true] at hfield
  | some qVal =>
    refine ⟨qVal, rfl, ?_⟩
    simp only [hget] at hfield
    split at hfield
    · next pfDoc qDoc =>
      refine .inl ⟨pfDoc, qDoc, rfl, rfl, fun g hg => ?_⟩
      have hoperand := all_eq_true.mp hfield g hg
      cases hgetop : Document.get qDoc g.1 with
      | none => simp only [hgetop, Bool.false_eq_true] at hoperand
      | some qV =>
        simp only [hgetop, Bool.or_eq_true] at hoperand
        exact ⟨qV, rfl, hoperand⟩
    · next hne =>
      refine .inr ⟨?_, hfield⟩
      rintro d rfl
      cases qVal <;> simp only [Bson.eq, Bool.false_eq_true] at hfield
      exact hne _ _ rfl rfl

lemma not_geo_of_ops {pfDoc qDoc : Document}
    (hgeo : (geoOperators.any fun op => qDoc.containsKey op) = false)
    (hops : ∀ f ∈ pfDoc, ∃ qV, qDoc.get f.1 = some qV) :
    (geoOperators.any fun op => pfDoc.containsKey op) = false := by
  rw [any_eq_false] at hgeo ⊢
  intro op hop hpf
  obtain ⟨f, hf, rfl⟩ := Document.containsKey_iff.mp hpf
  obtain ⟨qV, hget⟩ := hops f hf
  exact hgeo f.1 hop (by rw [Document.containsKey, hget]; rfl)

lemma condition_iff {field : String} {pfVal qVal : Bson} (hmatch : Matched pfVal qVal)
    (hverbatim : Verbatim field pfVal qVal)
    (hquery : evalQuery env doc [(field, qVal)] = .ok true) :
    evalQuery env doc [(field, pfVal)] = .ok true ↔
      pfVal = qVal ∨ field = "$comment" ∨ BoundsHold doc field pfVal qVal := by
  rcases hverbatim with rfl | rfl | ⟨htop, hread⟩
  · exact iff_of_true hquery (.inl rfl)
  · exact iff_of_true rfl (.inr (.inl rfl))
  by_cases hsame : pfVal = qVal
  · subst hsame
    exact iff_of_true hquery (.inl rfl)
  have hcomment : field ≠ "$comment" := by
    rintro rfl
    exact htop (by decide)
  rw [or_iff_right hsame, or_iff_right hcomment]
  rcases hmatch with ⟨pfDoc, qDoc, rfl, rfl, hops⟩ | ⟨hpf, heq⟩
  · obtain ⟨hgeo, hnested⟩ := hread
    have hpfgeo := not_geo_of_ops hgeo fun f hf => (hops f hf).imp fun _ h => h.1
    rw [evalQuery_field htop, evalFieldCondition_of_not_geo hgeo,
      evalOperators_eq_true_iff] at hquery
    rw [evalQuery_field htop, evalFieldCondition_of_not_geo hpfgeo, evalOperators_eq_true_iff]
    refine forall₂_congr fun f hf => ?_
    obtain ⟨qV, hget, hoperand⟩ := hops f hf
    have hsame : f.1 ∈ nestedOperators → qV = f.2 := fun hop =>
      Option.some.inj (hget.symm.trans (hnested f hf hop))
    rw [operand_iff hoperand hsame (hquery _ (Document.mem_of_get hget)), hget]
    exact ⟨fun h accepts haccepts _ hqV => Option.some.inj hqV ▸ h accepts haccepts,
      fun h accepts haccepts => h accepts haccepts qV rfl⟩
  · have hq : ∀ d, qVal ≠ .document d := by
      rintro d rfl
      rcases Bson.cases_of_eq heq with h | ⟨_, _, h, -⟩ | ⟨_, _, h, -⟩ | ⟨_, e, -, h⟩ |
        ⟨_, _, _, _, h, -⟩
      · exact hsame h.symm
      · cases h
      · cases h
      · exact hpf e h
      · cases h
    have hbounds : BoundsHold doc field pfVal qVal := by
      unfold BoundsHold
      split
      · exact absurd rfl (hpf _)
      · trivial
    refine iff_of_true ?_ hbounds
    rw [evalQuery_field htop, evalFieldCondition_value hq] at hquery
    rw [evalQuery_field htop, evalFieldCondition_value hpf]
    cases hv : getValue doc field with
    | none =>
      rw [hv] at hquery
      cases hquery
    | some v =>
      rw [hv, bsonEq, (qVal.alike_of_eq pfVal heq v).2] at hquery
      exact hquery

end

section

open Sample

-- the query stops at `$gt` before it reaches an unknown operator, the filter does not
example :
    let partialFilter : Document := [("$nor", .array [.document [("a",
      .document [("$unknown", .null), ("$gt", .int32 9)])]])]
    let query : Document := [("$nor", .array [.document [("a",
      .document [("$gt", .int32 9), ("$unknown", .null)])]])]
    querySatisfiesPartialFilter query partialFilter = true ∧
      evalQuery env (doc (.int32 1) (.int64 7)) query = .ok true ∧
      evalQuery env (doc (.int32 1) (.int64 7)) partialFilter ≠ .ok true := by
  decide +kernel

end

end Smongo

import Smongo.Planner.Plan

/-!
# Plans for queries with options

With a projection, a B-tree index that has all its fields can answer a query without the
documents.
-/

namespace Smongo

def isTruthyValue : Bson → Bool
  | .int32 n => n ≠ 0
  | .int64 n => n ≠ 0
  | .double x => !x.eq .zero
  | .boolean b => b
  | _ => true

def isCoveringIndex (indexKeys projection : Document) : Bool :=
  let hasInclusion := projection.any fun f => f.1 ≠ "_id" && isTruthyValue f.2
  hasInclusion && projection.all fun (field, value) =>
    !isTruthyValue value || indexKeys.containsKey field || field = "_id"

def evaluateIndexForQueryWithProjection (query : Document) (spec : IndexSpec)
    (projection : Option Document) : Option QueryPlan :=
  match projection with
  | none => evaluateIndexForQuery query spec
  | some proj =>
    match spec.keys with
    | [] => none
    | (first, _) :: _ =>
      match query.get first with
      | none => none
      | some queryValue =>
        if isCoveringIndex spec.keys proj && isEqualityQuery queryValue then
          some ⟨.coveringIndexScan spec.name spec.keys (some [(first, queryValue)]) proj, 5,
            "Covering index on '" ++ first ++ "' (no document fetch needed)"⟩
        else if isCoveringIndex spec.keys proj && isRangeQuery queryValue then
          some ⟨.coveringIndexScan spec.name spec.keys none proj, 50,
            "Covering index range scan on '" ++ first ++ "' (no document fetch needed)"⟩
        else evaluateIndexForQuery query spec

/-- Whether the sort fields come first in the index, and whether all directions are inverted. -/
def sortMatchesIndex (sort indexKeys : Document) : Option Bool :=
  let directions := fun d : Document =>
    d.filterMap fun f => (IndexDirection.fromBson f.2).map (f.1, ·)
  let sortFields := directions sort
  let indexFields := directions indexKeys
  if sortFields.isEmpty || indexFields.length < sortFields.length then none
  else
    let pairs := sortFields.zip indexFields
    if pairs.any fun p => p.1.1 ≠ p.2.1 then none
    else if pairs.all fun p => p.1.2 = p.2.2 then some false
    else if pairs.all fun p => p.1.2 ≠ p.2.2 then some true
    else none

def planSortedIndexScan (sort : Document) (indexes : List IndexSpec) (limit : ℕ)
    (query : Document) : Option QueryPlan :=
  indexes.findSome? fun spec =>
    if resolveIndexType spec.keys spec.options ≠ .bTree then none
    else if !indexEligibleForQuery spec query then none
    else (sortMatchesIndex sort spec.keys).map fun reverse =>
      ⟨.sortedIndexScan spec.name spec.keys limit reverse, min (2 * limit) (2 ^ 64 - 1),
        "Index '" ++ spec.name ++ "' provides sort order" ++ (if reverse then " (reverse)" else "")⟩

section

variable (geoPlan : Document → IndexSpec → Option QueryPlan) (query : Document)

def evaluateSpecWithProjection (projection : Option Document)
    (spec : IndexSpec) : Option QueryPlan :=
  if !indexEligibleForQuery spec query then none
  else if is2dsphereKeys spec.keys then geoPlan query spec
  else
    match resolveIndexType spec.keys spec.options with
    | .bTree | .twoDSphere => evaluateIndexForQueryWithProjection query spec projection
    | _ => evaluateSpec geoPlan query spec

variable (indexes : List IndexSpec)

def planSimpleQueryWithProjection (projection : Option Document) : QueryPlan :=
  (bestOf (evaluateSpecWithProjection geoPlan query projection) indexes none).getD
    (.scan "No suitable index found")

/-- The branches of a top-level `$or` array are planned without the projection. -/
def planQueryWithProjection (projection : Option Document) : QueryPlan :=
  if query.isEmpty then .scan "Empty query requires full collection scan"
  else
    match query.get "$or" with
    | some (.array branches) =>
      planOrBranches geoPlan indexes (query.filter fun f => f.1 ≠ "$or") branches []
    | _ => planSimpleQueryWithProjection geoPlan query indexes projection

def planQueryFull (projection sort : Option Document) (limit : Option Int64) : QueryPlan :=
  let basePlan := planQueryWithProjection geoPlan query indexes projection
  match sort, limit with
  | some sortDoc, some lim =>
    if 0 < lim.toInt then
      match planSortedIndexScan sortDoc indexes lim.toInt.toNat query with
      | some sortedPlan =>
        if sortedPlan.estimatedCost < basePlan.estimatedCost then sortedPlan else basePlan
      | none => basePlan
    else basePlan
  | _, _ => basePlan

lemma evaluateSpecWithProjection_none (spec : IndexSpec) :
    evaluateSpecWithProjection geoPlan query none spec = evaluateSpec geoPlan query spec := by
  unfold evaluateSpecWithProjection
  split
  · next h => rw [evaluateSpec, if_pos h]
  · next h =>
    split
    · next h' => rw [evaluateSpec, if_neg h, if_pos h']
    · next h' =>
      split
      · next htype =>
        rw [evaluateSpec, if_neg h, if_neg h', htype, evaluateIndexForQueryWithProjection]
      · next htype =>
        rw [evaluateSpec, if_neg h, if_neg h', htype, evaluateIndexForQueryWithProjection]
      · rfl

lemma planFields_eq (fields : Document) : planFields geoPlan indexes query fields =
      match fields.get "$or" with
      | some (.array branches) =>
        planOrBranches geoPlan indexes (query.filter fun f => f.1 ≠ "$or") branches []
      | _ => planSimpleQuery geoPlan query indexes := by
  induction fields with
  | nil => rfl
  | cons field fields ih =>
    rw [planFields, Document.get_cons]
    by_cases hor : field.1 = "$or"
    · rw [if_pos hor, if_pos hor.symm]
      cases field.2 <;> rfl
    · rw [if_neg hor, if_neg fun h => hor h.symm, ih]

def ExecutionPlan.IsGeo : ExecutionPlan → Prop
  | geoNear .. | geoCapWithin .. | geoCellCover .. => True
  | _ => False

lemma planQueryWithProjection_none :
    planQueryWithProjection geoPlan query indexes none = planQuery geoPlan query indexes := by
  have hsimple : planSimpleQueryWithProjection geoPlan query indexes none =
      planSimpleQuery geoPlan query indexes := by
    rw [planSimpleQueryWithProjection, planSimpleQuery, bestPlan,
      funext (evaluateSpecWithProjection_none geoPlan query)]
  rw [planQueryWithProjection, planQuery, planFields_eq, hsimple]

end

end Smongo

import Smongo.Index.Spec

/-!
# Query plans

The planner goes through the indexes in listing order and keeps the cheapest candidate,
the first one among equals.
-/

namespace Smongo

inductive ExecutionPlan
  | collectionScan
  | indexScan (indexName : String) (indexKeys : Document)
  | indexSeek (indexName : String) (indexKeys seekValues : Document)
  | coveringIndexScan (indexName : String) (indexKeys : Document)
      (seekValues : Option Document) (projection : Document)
  | sortedIndexScan (indexName : String) (indexKeys : Document) (limit : ℕ) (reverse : Bool)
  | vectorIndexSearch (indexName field : String) (dimensions : ℕ) (metric : String)
      (efConstruction m : Option ℕ) (indexingMethod : String)
  | bitmapScan (indexName field : String)
  | textIndexScan (indexName : String) (fields : List String)
  | prefixIndexScan (indexName : String) (indexKeys : Document) (prefixLength : ℕ)
  | geoNear (indexName field : String) (lon lat : F64) (maxDistanceM minDistanceM : Option F64)
  | geoCapWithin (indexName field : String) (lon lat radiusM : F64)
  | geoCellCover (indexName field : String) (cellIds : List UInt64)
  | orUnionPlans (subplans : List ExecutionPlan)

structure QueryPlan where
  executionPlan : ExecutionPlan
  estimatedCost : ℕ
  reason : String

/-- A collection scan is the most expensive plan, `u64::MAX`. -/
def QueryPlan.scan (reason : String) : QueryPlan := ⟨.collectionScan, 2 ^ 64 - 1, reason⟩

def bsonToF64 : Bson → Option F64
  | .int32 n => some (.ofInt n.toInt)
  | .int64 n => some (.ofInt n.toInt)
  | .double x => some x
  | _ => none

def isTighterBound (op : String) (partialVal queryVal : Bson) : Bool :=
  match bsonToF64 partialVal, bsonToF64 queryVal with
  | some pf, some qv =>
    if op = "$gt" || op = "$gte" then pf.le qv
    else if op = "$lt" || op = "$lte" then qv.le pf
    else false
  | _, _ => false

def querySatisfiesPartialFilter (query partialFilter : Document) : Bool :=
  partialFilter.all fun (field, pfVal) =>
    match Document.get query field with
    | none => false
    | some qVal =>
      match pfVal, qVal with
      | .document pfDoc, .document qDoc =>
        pfDoc.all fun (op, pfV) =>
          match Document.get qDoc op with
          | some qV => qV.eq pfV || isTighterBound op pfV qV
          | none => false
      | _, _ => qVal.eq pfVal

def indexEligibleForQuery (index : IndexSpec) (query : Document) : Bool :=
  match index.options.partialFilterExpression with
  | some pfe => pfe.isEmpty || querySatisfiesPartialFilter query pfe
  | none => true

def isEqualityQuery : Bson → Bool
  | .document doc => doc.length = 1 && Document.containsKey doc "$eq"
  | _ => true

def isRangeQuery : Bson → Bool
  | .document doc => doc.any fun f => f.1 = "$gt" || f.1 = "$gte" || f.1 = "$lt" || f.1 = "$lte"
  | _ => false

variable (query : Document) (spec : IndexSpec)

/-- A B-tree index serves a query on its first field.  Covering plans need a projection. -/
def evaluateIndexForQuery : Option QueryPlan :=
  match spec.keys with
  | [] => none
  | (first, _) :: _ =>
    match query.get first with
    | none => none
    | some queryValue =>
      if isEqualityQuery queryValue then
        some ⟨.indexSeek spec.name spec.keys [(first, queryValue)], 10,
          "Equality query on indexed field '" ++ first ++ "'"⟩
      else if isRangeQuery queryValue then
        some ⟨.indexScan spec.name spec.keys, 100, "Range query on indexed field '" ++ first ++ "'"⟩
      else none

def evaluateBitmap : Option QueryPlan :=
  match spec.keys with
  | [] => none
  | (field, _) :: _ =>
    if query.containsKey field then
      some ⟨.bitmapScan spec.name field, 15,
        "Bitmap index '" ++ spec.name ++ "' on field '" ++ field ++ "'"⟩
    else none

def evaluatePrefixed : Option QueryPlan :=
  let prefixLength := (spec.options.prefixOptions.map PrefixOptions.prefixLength).getD 16
  match spec.keys with
  | [] => none
  | (first, _) :: _ =>
    if query.containsKey first then
      some ⟨.prefixIndexScan spec.name spec.keys prefixLength, 80,
        "Prefix index '" ++ spec.name ++ "' (prefix_length=" ++ toString prefixLength ++ ")"⟩
    else none

def evaluateText : Option QueryPlan :=
  let fields := textFields spec.keys
  if query.containsKey "$text" && !fields.isEmpty then
    some ⟨.textIndexScan spec.name fields, 50, "Text index '" ++ spec.name ++ "'"⟩
  else none

def evaluateVector : Option QueryPlan :=
  match spec.keys with
  | [(field, _)] =>
    match spec.options.vectorOptions with
    | some v =>
      if query.containsKey field && 0 < v.dimensions then
        some ⟨.vectorIndexSearch spec.name field v.dimensions v.metric v.efConstruction v.m
            v.indexingMethod, 30,
          "Vector index '" ++ spec.name ++ "' on field '" ++ field ++ "'"⟩
      else none
    -- without options the number of dimensions is taken as zero
    | none => none
  | _ => none

section

variable (geoPlan : Document → IndexSpec → Option QueryPlan)

def evaluateSpec (query : Document) (spec : IndexSpec) : Option QueryPlan :=
  if !indexEligibleForQuery spec query then none
  else if is2dsphereKeys spec.keys then geoPlan query spec
  else
    match resolveIndexType spec.keys spec.options with
    | .bitmap => evaluateBitmap query spec
    | .prefixed => evaluatePrefixed query spec
    | .text => evaluateText query spec
    | .vectorSearch => evaluateVector query spec
    | .bTree | .twoDSphere => evaluateIndexForQuery query spec

def pickBetter : Option QueryPlan → QueryPlan → QueryPlan
  | none, candidate => candidate
  | some prev, candidate => if candidate.estimatedCost < prev.estimatedCost then candidate else prev

def bestOf (evaluate : IndexSpec → Option QueryPlan) (indexes : List IndexSpec)
    (best : Option QueryPlan) : Option QueryPlan :=
  indexes.foldl (fun best spec =>
    match evaluate spec with
    | some plan => some (pickBetter best plan)
    | none => best) best

def bestPlan (query : Document) (indexes : List IndexSpec) (best : Option QueryPlan) :
    Option QueryPlan :=
  bestOf (evaluateSpec geoPlan query) indexes best

def planSimpleQuery (query : Document) (indexes : List IndexSpec) : QueryPlan :=
  (bestPlan geoPlan query indexes none).getD (.scan "No suitable index found")

mutual

/-- Plan `query`, whose `$or` value is looked for among the given fields. -/
def planFields (indexes : List IndexSpec) (query : Document) : Document → QueryPlan
  | [] => planSimpleQuery geoPlan query indexes
  | (k, v) :: rest =>
    if k = "$or" then planOrValue indexes query v else planFields indexes query rest

def planOrValue (indexes : List IndexSpec) (query : Document) : Bson → QueryPlan
  | .array branches => planOrBranches indexes (query.filter fun f => f.1 ≠ "$or") branches []
  | _ => planSimpleQuery geoPlan query indexes

def planOrBranches (indexes : List IndexSpec) (base : Document) :
    List Bson → List ExecutionPlan → QueryPlan
  | [], subplans =>
    if subplans.isEmpty then .scan "Empty $or"
    else ⟨.orUnionPlans subplans, 200, "Union of indexed $or branches"⟩
  | .document branch :: rest, subplans =>
    let merged := branch.foldl (fun d f => d.insert f.1 f.2) base
    let sub :=
      if merged.isEmpty then .scan "Empty query requires full collection scan"
      else planFields indexes merged branch
    match sub.executionPlan with
    | .collectionScan => .scan "$or branch falls back to collection scan"
    | plan => planOrBranches indexes base rest (subplans ++ [plan])
  | _ :: _, _ => .scan "$or requires array of documents"

end

def planQuery (query : Document) (indexes : List IndexSpec) : QueryPlan :=
  if query.isEmpty then .scan "Empty query requires full collection scan"
  else planFields geoPlan indexes query query

end

/-! ### The index a plan reads -/

/-- The index whose rows a seek or a scan goes through, with its keys. -/
def ExecutionPlan.reads : ExecutionPlan → Option (String × Document)
  | indexSeek indexName indexKeys _ => some (indexName, indexKeys)
  | indexScan indexName indexKeys => some (indexName, indexKeys)
  | _ => none

def GeoOnly (geoPlan : Document → IndexSpec → Option QueryPlan) : Prop :=
  ∀ query spec plan, geoPlan query spec = some plan → plan.executionPlan.reads = none

/-- Whether the planner takes an index for a B-tree, also one with plain keys and a spherical type.
-/
def IndexSpec.PlannedAsBTree (spec : IndexSpec) : Prop :=
  is2dsphereKeys spec.keys = false ∧ (resolveIndexType spec.keys spec.options = .bTree ∨
    resolveIndexType spec.keys spec.options = .twoDSphere)

instance : DecidablePred IndexSpec.PlannedAsBTree := fun _ => inferInstanceAs (Decidable (_ ∧ _))

section

variable {geoPlan : Document → IndexSpec → Option QueryPlan} {query : Document}
  {indexes : List IndexSpec} {read : String × Document}

variable (geoPlan query) in
inductive Offered (spec : IndexSpec) : QueryPlan → Prop
  | geo {plan : QueryPlan} (hkeys : is2dsphereKeys spec.keys = true)
      (hplan : geoPlan query spec = some plan) : Offered spec plan
  | bitmap {plan : QueryPlan} (hkeys : is2dsphereKeys spec.keys = false)
      (htype : resolveIndexType spec.keys spec.options = .bitmap) {field : String}
      (hplan : plan.executionPlan = .bitmapScan spec.name field) : Offered spec plan
  | prefixed {plan : QueryPlan} (hkeys : is2dsphereKeys spec.keys = false)
      (htype : resolveIndexType spec.keys spec.options = .prefixed) {prefixLength : ℕ}
      (hplan : plan.executionPlan = .prefixIndexScan spec.name spec.keys prefixLength) :
      Offered spec plan
  | text {plan : QueryPlan} (htype : resolveIndexType spec.keys spec.options = .text)
      (hplan : plan.executionPlan = .textIndexScan spec.name (textFields spec.keys)) :
      Offered spec plan
  | vector {plan : QueryPlan} (htype : resolveIndexType spec.keys spec.options = .vectorSearch)
      {field metric indexingMethod : String} {dimensions : ℕ} {efConstruction m : Option ℕ}
      (hplan : plan.executionPlan = .vectorIndexSearch spec.name field dimensions metric
        efConstruction m indexingMethod) : Offered spec plan
  | seek {plan : QueryPlan} (hspec : spec.PlannedAsBTree) {seekValues : Document}
      (hplan : plan.executionPlan = .indexSeek spec.name spec.keys seekValues)
      (hcost : plan.estimatedCost = 10) : Offered spec plan
  | scan {plan : QueryPlan} (hspec : spec.PlannedAsBTree)
      (hplan : plan.executionPlan = .indexScan spec.name spec.keys)
      (hcost : plan.estimatedCost = 100) : Offered spec plan

variable {spec : IndexSpec} {plan : QueryPlan}

lemma evaluateIndexForQuery_offered (hspec : spec.PlannedAsBTree)
    (h : evaluateIndexForQuery query spec = some plan) :
    Offered geoPlan query spec plan := by
  unfold evaluateIndexForQuery at h
  split at h
  · cases h
  · split at h
    · cases h
    · split at h
      · cases h
        exact .seek hspec rfl rfl
      · split at h <;> cases h
        exact .scan hspec rfl rfl

lemma evaluateSpec_offered
    (h : evaluateSpec geoPlan query spec = some plan) : Offered geoPlan query spec plan := by
  unfold evaluateSpec at h
  split at h
  · cases h
  · split at h
    · next hkeys => exact .geo hkeys h
    · next hkeys =>
      rw [Bool.not_eq_true] at hkeys
      split at h
      · next htype =>
        unfold evaluateBitmap at h
        split at h
        · cases h
        · split at h <;> cases h
          exact .bitmap hkeys htype rfl
      · next htype =>
        unfold evaluatePrefixed at h
        split at h
        · cases h
        · split at h <;> cases h
          exact .prefixed hkeys htype rfl
      · next htype =>
        unfold evaluateText at h
        dsimp only at h
        split at h <;> cases h
        exact .text htype rfl
      · next htype =>
        unfold evaluateVector at h
        split at h
        · split at h
          · split at h <;> cases h
            exact .vector htype rfl
          · cases h
        · cases h
      · next htype => exact evaluateIndexForQuery_offered ⟨hkeys, .inl htype⟩ h
      · next htype => exact evaluateIndexForQuery_offered ⟨hkeys, .inr htype⟩ h

lemma Offered.reads (hgeo : GeoOnly geoPlan)
    (h : Offered geoPlan query spec plan) (hread : plan.executionPlan.reads = some read) :
    spec.PlannedAsBTree ∧ read = (spec.name, spec.keys) := by
  cases h with
  | geo hkeys hplan =>
    rw [hgeo query spec plan hplan] at hread
    cases hread
  | seek hspec hplan hcost | scan hspec hplan hcost =>
    rw [hplan] at hread
    exact ⟨hspec, (Option.some.inj hread).symm⟩
  | bitmap hkeys htype hplan | prefixed hkeys htype hplan | text htype hplan | vector htype hplan =>
    rw [hplan] at hread
    cases hread

lemma bestOf_mem {evaluate : IndexSpec → Option QueryPlan} {best : Option QueryPlan}
    (h : bestOf evaluate indexes best = some plan) :
    best = some plan ∨ ∃ spec ∈ indexes, evaluate spec = some plan := by
  induction indexes generalizing best with
  | nil => exact .inl h
  | cons spec indexes ih =>
    rw [bestOf, List.foldl_cons] at h
    rcases ih h with hbest | ⟨spec', hmem, hspec⟩
    · split at hbest
      · next candidate hcandidate =>
        have hpick : candidate = plan ∨ best = some plan := by
          cases best with
          | none => exact .inl (Option.some.inj hbest)
          | some prev =>
            simp only [pickBetter] at hbest
            split at hbest
            · exact .inl (Option.some.inj hbest)
            · exact .inr hbest
        rcases hpick with rfl | hold
        · exact .inr ⟨spec, List.mem_cons_self, hcandidate⟩
        · exact .inl hold
      · exact .inl hbest
    · exact .inr ⟨spec', List.mem_cons_of_mem _ hmem, hspec⟩

variable (geoPlan) in
lemma planSimpleQuery_mem (query : Document) (indexes : List IndexSpec) :
    planSimpleQuery geoPlan query indexes = .scan "No suitable index found" ∨
      ∃ spec ∈ indexes, evaluateSpec geoPlan query spec =
        some (planSimpleQuery geoPlan query indexes) := by
  unfold planSimpleQuery
  cases hbest : bestPlan geoPlan query indexes none with
  | none => exact .inl rfl
  | some plan => exact .inr ((bestOf_mem hbest).resolve_left (by simp))

variable (geoPlan indexes) in
lemma planOrBranches_shape (base : Document) (branches : List Bson)
    (subplans : List ExecutionPlan) :
    (planOrBranches geoPlan indexes base branches subplans).executionPlan = .collectionScan ∨
      ∃ subplans', (planOrBranches geoPlan indexes base branches subplans).executionPlan =
        .orUnionPlans subplans' := by
  induction branches generalizing subplans with
  | nil =>
    unfold planOrBranches
    split
    · exact .inl rfl
    · exact .inr ⟨_, rfl⟩
  | cons branch rest ih =>
    cases branch with
    | document branch =>
      unfold planOrBranches
      dsimp only
      split
      · exact .inl rfl
      · exact ih _
    | _ => exact .inl rfl

variable (geoPlan query indexes) in
lemma planQuery_cases : (planQuery geoPlan query indexes).executionPlan = .collectionScan ∨
      (∃ subplans, (planQuery geoPlan query indexes).executionPlan = .orUnionPlans subplans) ∨
      ∃ spec ∈ indexes, Offered geoPlan query spec (planQuery geoPlan query indexes) := by
  have hsimple : (planSimpleQuery geoPlan query indexes).executionPlan = .collectionScan ∨
      (∃ subplans, (planSimpleQuery geoPlan query indexes).executionPlan = .orUnionPlans subplans) ∨
      ∃ spec ∈ indexes, Offered geoPlan query spec (planSimpleQuery geoPlan query indexes) := by
    rcases planSimpleQuery_mem geoPlan query indexes with hscan | ⟨spec, hmem, hspec⟩
    · rw [hscan]
      exact .inl rfl
    · exact .inr (.inr ⟨spec, hmem, evaluateSpec_offered hspec⟩)
  have hfields : ∀ fields,
      (planFields geoPlan indexes query fields).executionPlan = .collectionScan ∨
        (∃ subplans, (planFields geoPlan indexes query fields).executionPlan =
          .orUnionPlans subplans) ∨
        ∃ spec ∈ indexes, Offered geoPlan query spec (planFields geoPlan indexes query fields) := by
    intro fields
    induction fields with
    | nil => exact hsimple
    | cons field fields ih =>
      rw [planFields]
      split
      · unfold planOrValue
        split
        · rcases planOrBranches_shape geoPlan indexes _ _ [] with hscan | hunion
          · exact .inl hscan
          · exact .inr (.inl hunion)
        · exact hsimple
      · exact ih
  unfold planQuery
  split
  · exact .inl rfl
  · exact hfields query

lemma planQuery_reads (hgeo : GeoOnly geoPlan)
    (hread : (planQuery geoPlan query indexes).executionPlan.reads = some read) :
    ∃ spec ∈ indexes, spec.PlannedAsBTree ∧ read = (spec.name, spec.keys) := by
  rcases planQuery_cases geoPlan query indexes with hscan | ⟨subplans, hunion⟩ | ⟨spec, hmem, hspec⟩
  · rw [hscan] at hread
    cases hread
  · rw [hunion] at hread
    cases hread
  · exact ⟨spec, hmem, hspec.reads hgeo hread⟩

end

end Smongo

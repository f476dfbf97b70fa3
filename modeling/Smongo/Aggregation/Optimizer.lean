import Smongo.Aggregation.Pipeline
import Smongo.Client.Transactions
import Smongo.Query.Conditions

/-!
# Leading `$match` stages

The leading `$match` stages of a pipeline are merged into one filter, which the planner can use.
-/

namespace Smongo

open List

def mergeMatchFilters (a b : Document) : Document :=
  if (b.keys).any (a.containsKey) then
    [("$and", .array [.document a, .document b])]
  else b.foldl (fun merged f => merged.insert f.1 f.2) a

def matchFilter (stage : Document) : Option Document :=
  match stage.head? with
  | some (name, _) =>
    if name = "$match" then
      match stage.get "$match" with
      | some (.document filter) => some filter
      | _ => none
    else none
  | none => none

def optimizeFrom (mergedFilter : Option Document) : List Document → Option Document × List Document
  | [] => (mergedFilter, [])
  | stage :: rest =>
    match matchFilter stage with
    | some filter =>
      optimizeFrom (some (mergedFilter.elim filter (mergeMatchFilters · filter))) rest
    | none => (mergedFilter, stage :: rest)

def optimizePipeline (pipeline : List Document) : Option Document × List Document :=
  optimizeFrom none pipeline

/-- `aggregate`: no index context.  Without a resolver, the stages that use one make no call. -/
def aggregate (env : Env) (geometry : Geometry) (d : Database) (stages : Stages)
    (docs : List Document) (pipeline : List Document) : AggregationOp (List Document) :=
  pipelineResults env geometry d stages {} none (docs.map .ok) pipeline

section

variable {env : Env}

lemma evalQuery_append (doc a b : Document) : evalQuery env doc (a ++ b) =
      (do if ← evalQuery env doc a then evalQuery env doc b else .ok false) := by
  induction a with
  | nil => rfl
  | cons f a ih =>
    rw [cons_append, evalQuery_cons, ih, evalQuery_cons f a]
    rcases evalQuery env doc [f] with (_ | _) | e | _ <;> rfl

lemma evalQuery_and_pair (doc a b : Document) :
    evalQuery env doc [("$and", .array [.document a, .document b])] =
      (do if ← evalQuery env doc a then evalQuery env doc b else .ok false) := by
  simp only [evalQuery, evalAnd, evalAndItems]
  rcases evalQuery env doc a with (_ | _) | e | _
  · rfl
  · rcases evalQuery env doc b with (_ | _) | e | _ <;> rfl
  · rfl
  · rfl

lemma evalQuery_mergeMatchFilters (doc a : Document) {b : Document}
    (hb : (b.keys).Nodup) :
    evalQuery env doc (mergeMatchFilters a b) =
      (do if ← evalQuery env doc a then evalQuery env doc b else .ok false) := by
  rw [mergeMatchFilters]
  split
  · exact evalQuery_and_pair doc a b
  · next hoverlap =>
    rw [a.foldl_insert_eq_append b hb, evalQuery_append]
    intro k hk hmem
    obtain ⟨f, hf, rfl⟩ := mem_map.mp hmem
    exact hoverlap (any_eq_true.mpr ⟨f.1, hk, Document.containsKey_iff.mpr ⟨f, hf, rfl⟩⟩)

lemma matchItem_bind (a : Document) {b : Document} (hb : (b.keys).Nodup)
    (item : Outcome AggregationError Document) :
    (matchItem env a item).bind (matchItem env b) = matchItem env (mergeMatchFilters a b) item := by
  cases item with
  | ok doc =>
    have hmerged : evalQuery env doc (mergeMatchFilters a b) = _ :=
      evalQuery_mergeMatchFilters doc a hb
    simp only [matchItem]
    rw [hmerged]
    rcases evalQuery env doc a with (_ | _) | e | _ <;> rfl
  | error e | panic => rfl

lemma filterMap_matchItem (a : Document) {b : Document} (hb : (b.keys).Nodup)
    (input : DocStream) :
    (input.filterMap (matchItem env a)).filterMap (matchItem env b) =
      input.filterMap (matchItem env (mergeMatchFilters a b)) := by
  rw [filterMap_filterMap]
  exact congrArg (filterMap · input) (funext (matchItem_bind a hb))

end

def DistinctFilters (pipeline : List Document) : Prop :=
  ∀ stage ∈ pipeline, ∀ filter ∈ matchFilter stage, (filter.keys).Nodup

instance (pipeline : List Document) : Decidable (DistinctFilters pipeline) :=
  inferInstanceAs (Decidable (∀ _ ∈ _, ∀ _ ∈ _, _))

lemma matchFilter_eq_some {stage filter : Document} (h : matchFilter stage = some filter) :
    stage.head? = some ("$match", .document filter) := by
  unfold matchFilter at h
  cases stage with
  | nil => cases h
  | cons f stage =>
    obtain ⟨name, value⟩ := f
    simp only [head?_cons] at h
    split at h
    · next hname =>
      rw [hname, Document.get_cons, if_pos rfl] at h
      split at h
      · next heq =>
        cases h
        cases heq
        rw [hname]
        rfl
      · cases h
    · cases h

section

variable {env : Env} {geometry : Geometry} {d : Database} {stages : Stages}
  {options : PipelineOptions} {source : Option String}

lemma runStages_match {stage filter : Document} (h : matchFilter stage = some filter)
    (rest : List Document) (input : DocStream) :
    runStages env geometry d stages options source (stage :: rest) input =
      runStages env geometry d stages options source rest
        (input.filterMap (matchItem env filter)) := by
  have hhead := matchFilter_eq_some h
  have hstage : executeStageStream env geometry d stages options source input stage =
      Eff.ofOutcome (.ok (input.filterMap (matchItem env filter))) := by
    rw [executeStageStream, hhead]
    rfl
  cases rest with
  | nil => exact hstage
  | cons next rest =>
    have hpair : sortLimitPair stage next = none := by
      rw [sortLimitPair, hhead]
      cases next.head? with
      | none => rfl
      | some field => exact if_neg fun hname => absurd hname.1 (by decide)
    rw [runStages, hpair, hstage]
    rfl

def mustBeFirst (stage : Document) : Option String :=
  stage.head?.bind fun field =>
    if field.1 = "$vectorSearch" ∨ field.1 = "$geoNear" then some field.1 else none

lemma misplacedStage_cons (stage : Document) (rest : List Document) :
    misplacedStage (stage :: rest) = rest.findSome? mustBeFirst := rfl

lemma mustBeFirst_match {stage filter : Document} (h : matchFilter stage = some filter) :
    mustBeFirst stage = none := by
  have hname : ¬ ("$match" = "$vectorSearch" ∨ "$match" = "$geoNear") := by decide
  rw [mustBeFirst, matchFilter_eq_some h, Option.bind_some, if_neg hname]

variable (env geometry d stages options source) in
/-- The merged stages act on the stream as the merged filter does, and none of them has to come
first. -/
lemma optimizeFrom_spec (pipeline : List Document) (hdistinct : DistinctFilters pipeline)
    (previous : Document) :
    ∃ filter rest, optimizeFrom (some previous) pipeline = (some filter, rest) ∧
      pipeline.findSome? mustBeFirst = rest.findSome? mustBeFirst ∧
      ∀ input : DocStream, runStages env geometry d stages options source pipeline
          (input.filterMap (matchItem env previous)) =
        runStages env geometry d stages options source rest
          (input.filterMap (matchItem env filter)) := by
  induction pipeline generalizing previous with
  | nil => exact ⟨previous, [], rfl, rfl, fun _ => rfl⟩
  | cons stage pipeline ih =>
    cases hfilter : matchFilter stage with
    | none =>
      refine ⟨previous, stage :: pipeline, ?_, rfl, fun _ => rfl⟩
      rw [optimizeFrom, hfilter]
    | some b =>
      have hb := hdistinct stage mem_cons_self b hfilter
      obtain ⟨filter, rest, hopt, hfirst, hrun⟩ :=
        ih (fun s hs => hdistinct s (mem_cons_of_mem _ hs)) (mergeMatchFilters previous b)
      refine ⟨filter, rest, ?_, ?_, fun input => ?_⟩
      · rw [optimizeFrom, hfilter]
        exact hopt
      · rw [findSome?_cons, mustBeFirst_match hfilter, hfirst]
      · rw [runStages_match hfilter, filterMap_matchItem previous hb, hrun]

end

/-- Merging the leading `$match` stages changes neither the documents nor the first error. -/
theorem optimizePipeline_preserves_meaning (env : Env) (geometry : Geometry) (d : Database)
    (stages : Stages) (docs pipeline : List Document) (hdistinct : DistinctFilters pipeline) :
    (∀ filter rest, optimizePipeline pipeline = (some filter, rest) →
      aggregate env geometry d stages docs pipeline =
        aggregate env geometry d stages docs ([("$match", .document filter)] :: rest)) ∧
      ∀ rest, optimizePipeline pipeline = (none, rest) → rest = pipeline := by
  cases pipeline with
  | nil =>
    refine ⟨fun filter rest h => ?_, fun rest h => (congrArg Prod.snd h).symm⟩
    cases h
  | cons stage pipeline =>
    cases hfilter : matchFilter stage with
    | none =>
      have hopt : optimizePipeline (stage :: pipeline) = (none, stage :: pipeline) := by
        rw [optimizePipeline, optimizeFrom, hfilter]
      rw [hopt]
      refine ⟨fun filter rest h => ?_, fun rest h => (congrArg Prod.snd h).symm⟩
      cases h
    | some a =>
      obtain ⟨filter, rest, hopt, hfirst, hrun⟩ := optimizeFrom_spec env geometry d stages {}
        none pipeline (fun s hs => hdistinct s (mem_cons_of_mem _ hs)) a
      have hopt : optimizePipeline (stage :: pipeline) = (some filter, rest) := by
        rw [optimizePipeline, optimizeFrom, hfilter]
        exact hopt
      rw [hopt]
      refine ⟨fun filter' rest' h => ?_, fun rest' h => ?_⟩
      · cases h
        have hmerged : matchFilter [("$match", .document filter)] = some filter := rfl
        have hstages : runPipelineStages env geometry d stages {} none (docs.map .ok)
            (stage :: pipeline) = runPipelineStages env geometry d stages {} none (docs.map .ok)
            ([("$match", .document filter)] :: rest) := by
          rw [runPipelineStages, runPipelineStages, misplacedStage_cons, misplacedStage_cons,
            hfirst, runStages_match hfilter, hrun, runStages_match hmerged]
        rw [aggregate, aggregate, pipelineResults, pipelineResults, hstages]
      · cases h

namespace Sample

def overlapping : List Document :=
  [[("$match", .document [("a", .string "x")])],
    [("$match", .document [("a", .string "y"), ("b", .null)])], [("$limit", .int32 1)]]

def joined : Document :=
  [("$and", .array [.document [("a", .string "x")], .document [("a", .string "y"), ("b", .null)]])]

end Sample

section

open Sample

theorem optimizePipeline_preserves_meaning_overlap :
    optimizePipeline overlapping = (some joined, [[("$limit", .int32 1)]]) ∧
      aggregate env flat ⟨none⟩ passingStages documents overlapping =
        aggregate env flat ⟨none⟩ passingStages documents
          [[("$match", .document joined)], [("$limit", .int32 1)]] := by
  have hopt : optimizePipeline overlapping = (some joined, [[("$limit", .int32 1)]]) := rfl
  refine ⟨hopt, ?_⟩
  exact (optimizePipeline_preserves_meaning env flat ⟨none⟩ passingStages documents overlapping
    (by decide)).1 joined _ hopt

end

end Smongo

import Smongo.Aggregation.Pipeline
import Smongo.Client.Transactions
import Smongo.Collection.Locality
import Smongo.Collection.Options
import Smongo.Collection.Unmaintained

/-!
# Pipelines with an index context

Without one a pipeline has a possible result for each way to order what its sorts leave open.
-/

namespace Smongo

open Eff List Outcome

/-- What `run_pipeline_stages` does in one turn of its loop. -/
inductive PipelineStep
  | sortLimit (sortSpec limitSpec : Bson)
  | stage (stage : Document)

def pipelineSteps : List Document → List PipelineStep
  | [] => []
  | [stage] => [.stage stage]
  | stage :: next :: rest =>
    match sortLimitPair stage next with
    | some (sortSpec, limitSpec) => .sortLimit sortSpec limitSpec :: pipelineSteps rest
    | none => .stage stage :: pipelineSteps (next :: rest)

section

variable (env : Env) (geometry : Geometry) (d : Database) (stages : Stages)
  (options : PipelineOptions) (source : Option String)

def PipelineStep.exec (input : DocStream) : PipelineStep → AggregationOp DocStream
  | sortLimit sortSpec limitSpec =>
    executeSortLimit env geometry d options source input sortSpec limitSpec
  | stage st => executeStageStream env geometry d stages options source input st

def runSteps : List PipelineStep → DocStream → AggregationOp DocStream
  | [], input => pure input
  | step :: steps, input => do
    let stream ← step.exec env geometry d stages options source input
    runSteps steps stream

def finishPipeline (writeStage : Option Document) (stream : DocStream) :
    AggregationOp (List Document) := do
  let results ← ofOutcome (collectStream stream)
  match writeStage with
  | none => pure ()
  | some stage => executeWriteStage env geometry d stage results
  pure results

lemma runStages_eq (pipeline : List Document) (input : DocStream) (s : DatabaseContext) :
    runStages env geometry d stages options source pipeline input s =
      runSteps env geometry d stages options source (pipelineSteps pipeline) input s := by
  fun_induction runStages env geometry d stages options source pipeline input generalizing s with
  | case1 input => rfl
  | case2 stage input =>
    rw [pipelineSteps, runSteps, PipelineStep.exec, bind_apply]
    rcases executeStageStream env geometry d stages options source input stage s
      with ⟨_ | _ | _, s'⟩ <;> rfl
  | case3 stage next rest input sortSpec limitSpec hpair ih =>
    rw [pipelineSteps, hpair, runSteps, PipelineStep.exec, bind_apply, bind_apply]
    rcases executeSortLimit env geometry d options source input sortSpec limitSpec s
      with ⟨stream | _ | _, s'⟩
    · exact ih stream s'
    · rfl
    · rfl
  | case4 stage next rest input hpair ih =>
    rw [pipelineSteps, hpair, runSteps, PipelineStep.exec, bind_apply, bind_apply]
    rcases executeStageStream env geometry d stages options source input stage s
      with ⟨stream | _ | _, s'⟩
    · exact ih stream s'
    · rfl
    · rfl

/-- A pipeline may be run in two parts, unless the cut is between a `$sort` and a `$limit`. -/
theorem pipeline_cut {before after : List Document} (input : DocStream)
    (hcut : ∀ stage ∈ before.getLast?, ∀ next ∈ after.head?, sortLimitPair stage next = none) :
    let run := runStages env geometry d stages options source
    run (before ++ after) input = run before input >>= run after := by
  dsimp only
  fun_induction runStages env geometry d stages options source before input with
  | case1 input => rfl
  | case2 stage input =>
    cases after with
    | nil =>
      funext s
      rw [append_nil, runStages, bind_apply]
      rcases executeStageStream env geometry d stages options source input stage s with
        ⟨_ | _ | _, t⟩ <;> rfl
    | cons next rest => simp only [cons_append, nil_append, runStages, hcut stage rfl next rfl]
  | case3 stage next rest input sortSpec limitSpec hpair ih =>
    have hrest := fun stream => ih stream fun stage h => hcut stage (by cases rest <;> simp_all)
    simp only [cons_append, runStages, hpair, hrest, bind_bind]
  | case4 stage next rest input hpair ih =>
    have hrest := fun stream => ih stream (getLast?_cons_cons ▸ hcut)
    simp only [cons_append] at hrest
    simp only [cons_append, runStages, hpair, hrest, bind_bind]

lemma aggregateFrom_of_placed {pipeline : List Document}
    (h : misplacedStage (splitWriteStage pipeline).1 = none) (initial : DocStream)
    (s : DatabaseContext) :
    aggregateFrom env geometry d stages options source initial pipeline s =
      (runSteps env geometry d stages options source
        (pipelineSteps (splitWriteStage pipeline).1) initial >>=
          finishPipeline env geometry d (splitWriteStage pipeline).2) s := by
  have hresults : pipelineResults env geometry d stages options source initial
      (splitWriteStage pipeline).1 s = (runSteps env geometry d stages options source
        (pipelineSteps (splitWriteStage pipeline).1) initial >>=
          fun stream => ofOutcome (collectStream stream)) s := by
    have hrun : runPipelineStages env geometry d stages options source initial
        (splitWriteStage pipeline).1 =
          runStages env geometry d stages options source (splitWriteStage pipeline).1 initial := by
      rw [runPipelineStages, h]
    rw [pipelineResults, bind_apply, bind_apply, hrun, runStages_eq]
  rw [aggregateFrom, bind_apply, hresults, bind_apply, bind_apply]
  rcases runSteps env geometry d stages options source (pipelineSteps (splitWriteStage pipeline).1)
    initial s with ⟨stream | _ | _, s'⟩
  · rfl
  · rfl
  · rfl

end

section

variable (env : Env) (geometry : Geometry) (d : Database) (stages : Stages)

def SortedOrder (sortDoc : Document) (input : DocStream) (order : List Document) : Prop :=
  ∃ docs, collectStream input = .ok docs ∧ order.Perm docs ∧
    order.Pairwise fun a b => compareBySort sortDoc a b ≠ .gt

/-- What a step may come to without an index context, where a sort may order ties differently. -/
inductive PipelineStep.Yields (input : DocStream) (s : DatabaseContext) :
    PipelineStep → Outcome AggregationError DocStream → DatabaseContext → Prop
  | runs (step : PipelineStep) :
      Yields input s step (step.exec env geometry d stages {} none input s).1
        (step.exec env geometry d stages {} none input s).2
  | sorts {sortDoc more : Document} {order : List Document} (h : SortedOrder sortDoc input order) :
      Yields input s (.stage (("$sort", .document sortDoc) :: more)) (.ok (order.map .ok)) s
  | sortLimits {sortDoc : Document} {limitSpec : Bson} {limit : Int64} {order : List Document}
      (hlimit : integerOf limitSpec = some limit) (h : SortedOrder sortDoc input order) :
      Yields input s (.sortLimit (.document sortDoc) limitSpec)
        (.ok ((order.take (usize limit)).map .ok)) s

inductive PossibleRun : List PipelineStep → DocStream → DatabaseContext →
    Outcome AggregationError DocStream → DatabaseContext → Prop
  | done (input : DocStream) (s : DatabaseContext) : PossibleRun [] input s (.ok input) s
  | step {step : PipelineStep} {steps : List PipelineStep} {input stream : DocStream}
      {s s₁ s' : DatabaseContext} {r : Outcome AggregationError DocStream}
      (h : step.Yields env geometry d stages input s (.ok stream) s₁)
      (hrest : PossibleRun steps stream s₁ r s') : PossibleRun (step :: steps) input s r s'
  | stopped {step : PipelineStep} {steps : List PipelineStep} {input : DocStream}
      {s s' : DatabaseContext} {r : Outcome AggregationError DocStream}
      (h : step.Yields env geometry d stages input s r s') (hstop : ∀ stream, r ≠ .ok stream) :
      PossibleRun (step :: steps) input s r s'

lemma PipelineStep.Yields.cases {input : DocStream} {s s' : DatabaseContext} {step : PipelineStep}
    {r : Outcome AggregationError DocStream} (h : step.Yields env geometry d stages input s r s') :
    (r, s') = step.exec env geometry d stages {} none input s ∨
      ∃ sortDoc order, SortedOrder sortDoc input order ∧ s' = s ∧
        ((∃ more, step = .stage (("$sort", .document sortDoc) :: more) ∧ r = .ok (order.map .ok)) ∨
          ∃ limitSpec n, step = .sortLimit (.document sortDoc) limitSpec ∧
            r = .ok ((order.take n).map .ok)) := by
  cases h with
  | runs => exact .inl rfl
  | @sorts sortDoc more order h => exact .inr ⟨sortDoc, order, h, rfl, .inl ⟨more, rfl, rfl⟩⟩
  | @sortLimits sortDoc limitSpec limit order hlimit h =>
    exact .inr ⟨sortDoc, order, h, rfl, .inr ⟨limitSpec, _, rfl, rfl⟩⟩

def PossibleResult (docs pipeline : List Document) (s : DatabaseContext)
    (r : Outcome AggregationError (List Document)) : Prop :=
  match misplacedStage (splitWriteStage pipeline).1 with
  | some name => r = .error (.invalidStage (name ++ " must be the first stage in the pipeline"))
  | none => ∃ out s₁, PossibleRun env geometry d stages (pipelineSteps (splitWriteStage pipeline).1)
        (docs.map .ok) s out s₁ ∧
      r = ((ofOutcome out >>= finishPipeline env geometry d (splitWriteStage pipeline).2) s₁).1

end

section

variable {env : Env} {geometry : Geometry} {d : Database} {stages : Stages}
  {options : PipelineOptions} {α : Type}

abbrev World.Same : RedbWorld → RedbWorld → Prop := World.SameOn (fun _ => True) fun _ => True

/-- The same tables and the same clock. -/
structure DatabaseContext.Twin (s t : DatabaseContext) : Prop where
  tables : s.db.tables = t.db.tables
  ticks : s.ticks = t.ticks

lemma DatabaseContext.Twin.refl (s : DatabaseContext) : s.Twin s := ⟨rfl, rfl⟩

lemma DatabaseContext.Twin.trans {s t u : DatabaseContext} (h : s.Twin t) (h' : t.Twin u) :
    s.Twin u := ⟨h.tables.trans h'.tables, h.ticks.trans h'.ticks⟩

lemma respects_onCollection {name : String} {m : Handle → RedbOp α}
    (hm : Respects World.Same (m (d.handle name))) :
    Respects DatabaseContext.Twin (onCollection d name m) := by
  intro s t h
  have hworld : (s.db.world s.ticks).Same (t.db.world t.ticks) :=
    ⟨⟨rfl, fun name _ => congrFun h.tables name, fun _ _ => rfl⟩, rfl, fun _ _ => h.ticks⟩
  obtain ⟨houtcome, hend, -⟩ :=
    ((respects_createTable (d.tableName name)).bind fun _ _ => hm) _ _ hworld
  refine ⟨congrArg (Outcome.mapError AggregationError.collection) houtcome, ⟨?_, ?_⟩,
    fun _ _ => trivial⟩
  · exact funext fun name => hend.session.tables name trivial
  · exact hend.ticks name trivial

lemma respects_statement (c : Handle) (st : Statement) : Respects World.Same (st.exec env c) :=
  Statement.respects_exec c.reads_all (fun _ _ _ => trivial) (fun _ _ => trivial) trivial st

lemma respects_replaceDocuments (c : Handle) (docs : List Document) :
    Respects World.Same (replaceDocuments env c docs) := by
  have hdelete : Respects World.Same (deleteMany env c [] false) :=
    .of_map (fun _ _ h => Reply.delete.inj h) (respects_statement c (.deleteMany [] false))
  have hinsert : Respects World.Same (insertMany env c docs false) :=
    .of_map (fun _ _ h => Reply.insertMany.inj h) (respects_statement c (.insertMany docs false))
  exact hdelete.bind fun _ _ => .ite (.pure trivial) (hinsert.map)

lemma respects_upsertEach (c : Handle) (onFields : List String) (whenMatched : String)
    (docs : List Document) : Respects World.Same
      (upsertEach env geometry c onFields whenMatched docs) := by
  induction docs with
  | nil => exact .pure trivial
  | cons doc docs ih =>
    have hupdate : ∀ filter update, Respects World.Same
        (updateOne env c filter update {}) := fun filter update =>
      .of_map (fun _ _ h => Reply.update.inj h) (respects_statement c (.updateOne filter update {}))
    have hinsert : Respects World.Same (insertOne env c doc false) :=
      .of_map (fun _ _ h => Reply.insertOne.inj h) (respects_statement c (.insertOne doc false))
    refine (Uses.respects (uses_findOne c.reads_all geometry _)).bind fun found _ => ?_
    cases found with
    | none => exact hinsert.bind fun _ _ => ih
    | some old => exact .ite ih (.ite (.pure trivial) ((hupdate _ _).bind fun _ _ => ih))

lemma respects_executeWriteStage (stage : Document) (results : List Document) :
    Respects DatabaseContext.Twin (executeWriteStage env geometry d stage results) := by
  have hout : ∀ spec, Respects DatabaseContext.Twin (executeOut env d spec results) := by
    intro spec
    unfold executeOut
    split
    · exact .fail _
    · exact respects_onCollection (respects_replaceDocuments _ results)
  have hmerge : ∀ spec,
      Respects DatabaseContext.Twin (executeMerge env geometry d spec results) := by
    intro spec
    unfold executeMerge
    split
    · split
      · exact .fail _
      · refine .ite (.fail _) ?_
        exact (respects_onCollection (respects_upsertEach _ _ _ results)).bind fun _ _ =>
          .ite (.pure trivial) (.fail _)
    · exact .fail _
  unfold executeWriteStage
  split
  · exact .fail _
  · exact .ite (hout _) (.ite (hmerge _) (.pure trivial))

lemma respects_finishPipeline (writeStage : Option Document) (stream : DocStream) :
    Respects DatabaseContext.Twin (finishPipeline env geometry d writeStage stream) := by
  refine (Respects.ofOutcome fun _ _ => trivial).bind fun results _ => ?_
  cases writeStage with
  | none => exact .pure trivial
  | some stage => exact (respects_executeWriteStage stage results).map

lemma respects_resolve (q : String × Option Document) :
    Respects DatabaseContext.Twin (resolve env geometry d q) :=
  respects_onCollection (Uses.respects (uses_find (Handle.reads_all _) geometry _))

lemma PipelineStep.respects_exec (step : PipelineStep) (input : DocStream) :
    Respects DatabaseContext.Twin (step.exec env geometry d stages options none input) := by
  have houtcome : ∀ {α : Type} (r : Outcome AggregationError α),
      Respects DatabaseContext.Twin (ofOutcome r : AggregationOp α) :=
    fun _ => .ofOutcome fun _ _ => trivial
  cases step with
  | sortLimit sortSpec limitSpec =>
    exact houtcome (stageSortLimitStream env options input sortSpec limitSpec)
  | stage st =>
    rw [exec, executeStageStream]
    cases st.head? with
    | none => exact .fail _
    | some field =>
      dsimp only
      cases stageNames.lookup field.1 with
      | none => exact .fail _
      | some name =>
        cases name with
        | join st => exact Script.run_respects respects_resolve _
        | out | merge => exact .pure trivial
        | geoNear =>
          change Respects _ (stageGeoNearStreamIndexed env geometry d stages none input _)
          unfold stageGeoNearStreamIndexed
          split
          · exact houtcome _
          · exact .fail _
        | _ => exact houtcome _

end

/-! ### The source collection -/

section

variable {env : Env} {geometry : Geometry} {d : Database} {stages : Stages} {source : String}
  {s : DatabaseContext} {α : Type}

structure SourceReady (env : Env) (d : Database) (source : String) (s : DatabaseContext) :
    Prop where
  existing : (s.db.tables (d.tableName source)).isSome
  settled : Settled env (d.handle source) (s.db.world s.ticks)
  keyed : Keyed env (s.db.table (d.tableName source))
  trees : ∀ spec ∈ (s.db.world s.ticks).specs env (d.handle source),
    is2dsphereKeys spec.keys = false ∧ spec.IsBTree
  ids : ∀ spec ∈ (s.db.world s.ticks).specs env (d.handle source),
    HoldsIds (d.handle source) (s.db.world s.ticks) spec.name

def sourceSpecs (env : Env) (d : Database) (source : String) (s : DatabaseContext) :
    List IndexSpec :=
  (s.db.world s.ticks).specs env (d.handle source)

def indexOrder (env : Env) (d : Database) (source : String) (s : DatabaseContext)
    (indexName : String) : List Document :=
  fetched env (d.handle source) (s.db.world s.ticks) indexName []

/-- The first documents in the order of the index are the first of the stream in an order that the
sort document allows. -/
def PipelineStep.Served (env : Env) (d : Database) (source : String) (input : DocStream)
    (s : DatabaseContext) : PipelineStep → Prop
  | sortLimit (.document sortDoc) limitSpec => ∀ limit indexName indexKeys n reverse,
      integerOf limitSpec = some limit →
      (planQueryFull env.evaluate2dspherePlan [] (sourceSpecs env d source s) none (some sortDoc)
        (some limit)).executionPlan = .sortedIndexScan indexName indexKeys n reverse →
      ∃ order, SortedOrder sortDoc input order ∧
        order.take n = (indexOrder env d source s indexName).take n
  | _ => True

def ServedAlong (env : Env) (geometry : Geometry) (d : Database) (stages : Stages)
    (source : String) : List PipelineStep → DocStream → DatabaseContext → Prop
  | [], _, _ => True
  | step :: steps, input, s => step.Served env d source input s ∧
      ∀ stream s', step.exec env geometry d stages {} (some source) input s = (.ok stream, s') →
        ServedAlong env geometry d stages source steps stream s'

lemma planQueryFull_sorted {geoPlan : Document → IndexSpec → Option QueryPlan}
    {specs : List IndexSpec} {sortDoc : Document} {limit : Int64} {indexName : String}
    {indexKeys : Document} {n : ℕ} {reverse : Bool}
    (h : (planQueryFull geoPlan [] specs none (some sortDoc) (some limit)).executionPlan =
      .sortedIndexScan indexName indexKeys n reverse) :
    0 < limit.toInt ∧ n = limit.toInt.toNat ∧ ∃ spec ∈ specs, spec.name = indexName := by
  unfold planQueryFull at h
  dsimp only at h
  split at h
  · next hlimit =>
    split at h
    · next plan hplan =>
      split at h
      · obtain ⟨spec, hmem, hspec⟩ := exists_of_findSome?_eq_some hplan
        split at hspec
        · cases hspec
        · split at hspec
          · cases hspec
          · obtain ⟨reverse', -, rfl⟩ := Option.map_eq_some_iff.mp hspec
            cases h
            exact ⟨hlimit, rfl, spec, hmem, rfl⟩
      · cases h
    · cases h
  · cases h

section

variable (h : SourceReady env d source s)
include h

lemma SourceReady.tables_opened : (s.opened d source).session.db.tables = s.db.tables := by
  obtain ⟨t, ht⟩ := Option.isSome_iff_exists.mp h.existing
  rw [s.opened_tables, Redb.table, ht, Option.getD_some, ← ht, Function.update_eq_self]

lemma SourceReady.twin {m : Handle → RedbOp α}
    (hm : Uses env (d.handle source) (fun _ => True) (fun _ => False) (m (d.handle source))) :
    (onCollection d source m s).2.Twin s := by
  obtain ⟨hsession, hticks⟩ := hm.unchanged (s.opened d source)
  refine ⟨?_, hticks⟩
  change (m (d.handle source) (s.opened d source)).2.session.db.tables = s.db.tables
  rw [hsession, h.tables_opened]

lemma SourceReady.listIndexes_opened :
    listIndexes env (d.handle source) (s.opened d source) = (.ok (sourceSpecs env d source s),
      { s.opened d source with indexCache := some (sourceSpecs env d source s) }) := by
  have hcommitted : (s.opened d source).committed = (s.db.world s.ticks).committed :=
    s.committed_opened source
  have hsettled : Settled env (d.handle source) (s.opened d source) :=
    h.settled.of_committed rfl rfl hcommitted
  have hlisted := hsettled.listed
  rw [World.specs, hcommitted] at hlisted
  exact listIndexes_of_listed hlisted

lemma SourceReady.walks {indexName : String} {n : ℕ}
    (hn : 0 < n) (hindex : ∃ spec ∈ sourceSpecs env d source s, spec.name = indexName) :
    let w : RedbWorld := { s.opened d source with indexCache := some (sourceSpecs env d source s) }
    collectSortedIndexScan env (d.handle source) [] indexName n w =
      (.ok ((indexOrder env d source s indexName).take n), w) := by
  intro w
  have hcommitted : w.committed = (s.db.world s.ticks).committed := s.committed_opened source
  have hshown : ∀ name, RedbCursor.shown w.session name =
      RedbCursor.shown (s.db.world s.ticks).session name := by
    intro name
    rw [shown_of_idle rfl, shown_of_idle rfl, hcommitted]
  obtain ⟨spec, hmem, rfl⟩ := hindex
  have hids : HoldsIds (d.handle source) w spec.name := by
    intro r hr
    rw [hshown] at hr
    exact h.ids spec hmem r hr
  have hkeyed : Keyed env (w.committed (d.handle source).tableName) := hcommitted ▸ h.keyed
  have hfetched : fetched env (d.handle source) w spec.name [] =
      indexOrder env d source s spec.name := by
    rw [indexOrder, fetched, fetched, hshown, hcommitted]
  rw [collectSortedIndexScan_apply hkeyed hids, hfetched, keepUpTo_nil hn fun doc _ => ⟨true, rfl⟩]
  have hall : selected env [] (indexOrder env d source s spec.name) =
      indexOrder env d source s spec.name := by
    rw [selected, filter_eq_self]
    exact fun doc _ => decide_eq_true rfl
  rw [hall]

end

lemma ExecutionPlan.eq_sortedIndexScan {plan : ExecutionPlan} (h : plan.isSorted = true) :
    ∃ indexName indexKeys n reverse, plan = .sortedIndexScan indexName indexKeys n reverse := by
  cases plan with
  | sortedIndexScan indexName indexKeys n reverse => exact ⟨indexName, indexKeys, n, reverse, rfl⟩
  | _ => cases h

section

variable (h : SourceReady env d source s)
include h

lemma SourceReady.sortedScan_cases (geometry : Geometry)
    (sortDoc : Document) (limit : Int64) : ∃ s₁, s₁.Twin s ∧
      (sortedScan env geometry d source sortDoc limit s = (.ok none, s₁) ∨
        ∃ indexName indexKeys n reverse,
          (planQueryFull env.evaluate2dspherePlan [] (sourceSpecs env d source s) none
            (some sortDoc) (some limit)).executionPlan =
              .sortedIndexScan indexName indexKeys n reverse ∧
          sortedScan env geometry d source sortDoc limit s =
            (.ok (some ((indexOrder env d source s indexName).take n)), s₁)) := by
  refine ⟨(sortedScan env geometry d source sortDoc limit s).2, h.twin ?_, ?_⟩
  · exact (uses_listIndexes (Handle.reads_all _)).bind fun indexes _ => .ite
      ((uses_executePlan (Handle.reads_all _) geometry [] _).map)
      (.pure trivial)
  · have hlist := h.listIndexes_opened
    rw [sortedScan, onCollection_apply, bind_of_ok hlist]
    cases hplan : (planQueryFull env.evaluate2dspherePlan [] (sourceSpecs env d source s) none
        (some sortDoc) (some limit)).executionPlan.isSorted with
    | false => exact .inl rfl
    | true =>
      obtain ⟨indexName, indexKeys, n, reverse, heq⟩ := ExecutionPlan.eq_sortedIndexScan hplan
      obtain ⟨hpos, hn, hindex⟩ := planQueryFull_sorted heq
      refine .inr ⟨indexName, indexKeys, n, reverse, heq, ?_⟩
      rw [if_pos rfl, heq, executePlan, bind_of_ok (h.walks (by omega) hindex)]
      rfl

lemma SourceReady.walkSource_cases (geometry : Geometry) (sortSpec limitSpec : Bson) :
    ∃ s₁, s₁.Twin s ∧
      (walkSource env geometry d (some source) sortSpec limitSpec s = (.ok none, s₁) ∨
        ∃ sortDoc limit indexName indexKeys n reverse, sortSpec = .document sortDoc ∧
          integerOf limitSpec = some limit ∧
          (planQueryFull env.evaluate2dspherePlan [] (sourceSpecs env d source s) none
            (some sortDoc) (some limit)).executionPlan =
              .sortedIndexScan indexName indexKeys n reverse ∧
          walkSource env geometry d (some source) sortSpec limitSpec s =
            (.ok (some ((indexOrder env d source s indexName).take n)), s₁)) := by
  unfold walkSource tryIndexSortLimit
  dsimp only
  split
  · next sortDoc =>
    cases hlimit : integerOf limitSpec with
    | none => exact ⟨s, .refl s, .inl rfl⟩
    | some limit =>
      split
      · exact ⟨s, .refl s, .inl rfl⟩
      · obtain ⟨s₁, htwin, hscan | ⟨indexName, indexKeys, n, reverse, hplan, hscan⟩⟩ :=
          h.sortedScan_cases geometry sortDoc limit
        · exact ⟨s₁, htwin, .inl hscan⟩
        · exact ⟨s₁, htwin,
            .inr ⟨sortDoc, limit, indexName, indexKeys, n, reverse, rfl, rfl, hplan, hscan⟩⟩
  · exact ⟨s, .refl s, .inl rfl⟩

lemma SourceReady.unanswered {p : IndexSpec → Bool}
    (hp : ∀ spec ∈ sourceSpecs env d source s, ¬p spec)
    {f : IndexSpec → RedbOp (Option α)} {m : Handle → RedbOp (Option α)}
    (hm : m (d.handle source) = do
      match (← listIndexes env (d.handle source)).find? p with
      | none => pure none
      | some spec => f spec) :
    ∃ s₁, s₁.Twin s ∧ onCollection d source m s = (.ok none, s₁) := by
  refine ⟨⟨(s.opened d source).session.db, (s.opened d source).ticks⟩, ⟨h.tables_opened, rfl⟩, ?_⟩
  rw [onCollection_apply, hm, bind_of_ok h.listIndexes_opened, find?_eq_none.mpr hp]
  rfl

lemma SourceReady.vectorSearch_none (geometry : Geometry) (q : VectorQuery) :
    ∃ s₁, s₁.Twin s ∧ vectorSearch env geometry d source q s = (.ok none, s₁) := by
  have hcandidates : ∃ s₁, s₁.Twin s ∧
      vectorCandidates env geometry d source q.filter s = (.ok none, s₁) := by
    refine h.unanswered (p := fun idx => idx.options.indexType = some .vectorSearch)
      (fun spec hmem htype => ?_) rfl
    have htree := (h.trees spec hmem).2
    rw [IndexSpec.IsBTree, resolveIndexType, of_decide_eq_true htype] at htree
    cases htree
  obtain ⟨s₁, htwin, hnone⟩ := hcandidates
  exact ⟨s₁, htwin, bind_of_ok hnone⟩

lemma SourceReady.geoNearIndexed_none (geometry : Geometry) (q : GeoNearQuery) :
    ∃ s₁, s₁.Twin s ∧ geoNearIndexed env geometry d source q s = (.ok none, s₁) := by
  refine h.unanswered (p := fun idx => twodsphereField idx.keys = some q.key)
    (fun spec hmem hfield => ?_) rfl
  rw [twodsphereField, (h.trees spec hmem).1] at hfield
  cases hfield

end

lemma orElseStream_unanswered {ask : Option (AggregationOp (Option (List Document)))}
    (hask : ∀ m ∈ ask, ∃ s₁, s₁.Twin s ∧ m s = (.ok none, s₁))
    (fallback : Outcome AggregationError DocStream) :
    (orElseStream ask fallback s).1 = fallback ∧ (orElseStream ask fallback s).2.Twin s := by
  cases ask with
  | none => exact ⟨rfl, .refl s⟩
  | some m =>
    obtain ⟨s₁, htwin, hm⟩ := hask m rfl
    have hrun : orElseStream (some m) fallback s = (fallback, s₁) := bind_of_ok (attempt_of_ok hm)
    rw [hrun]
    exact ⟨rfl, htwin⟩

lemma SourceReady.exec_stage (h : SourceReady env d source s) (geometry : Geometry)
    (stages : Stages) (input : DocStream) (stage : Document) :
    (executeStageStream env geometry d stages {} (some source) input stage s).1 =
        (executeStageStream env geometry d stages {} none input stage s).1 ∧
      (executeStageStream env geometry d stages {} (some source) input stage s).2.Twin
        (executeStageStream env geometry d stages {} none input stage s).2 := by
  unfold executeStageStream
  cases stage.head? with
  | none => exact ⟨rfl, .refl _⟩
  | some field =>
    dsimp only
    cases stageNames.lookup field.1 with
    | none => exact ⟨rfl, .refl _⟩
    | some name =>
      cases name with
      | vectorSearch =>
        refine orElseStream_unanswered (fun m hm => ?_) (stages.vectorSearch field.2 input)
        obtain ⟨collection, hcollection, hm⟩ := Option.bind_eq_some_iff.mp hm
        cases hcollection
        split at hm
        · obtain ⟨q, -, rfl⟩ := Option.map_eq_some_iff.mp hm
          exact h.vectorSearch_none geometry q
        · cases hm
      | geoNear =>
        obtain ⟨name, value⟩ := field
        cases value with
        | document doc =>
          refine orElseStream_unanswered (fun m hm => ?_) (stages.geoNear _ input)
          obtain ⟨collection, hcollection, hm⟩ := Option.bind_eq_some_iff.mp hm
          cases hcollection
          obtain ⟨q, -, rfl⟩ := Option.map_eq_some_iff.mp hm
          exact h.geoNearIndexed_none geometry q
        | _ => exact ⟨rfl, .refl _⟩
      | _ => exact ⟨rfl, .refl _⟩

lemma SourceReady.of_extends {s' : DatabaseContext} (h : SourceReady env d source s)
    (hext : s.Extends s') : SourceReady env d source s' := by
  have hcommitted : (s'.db.world s'.ticks).committed = (s.db.world s.ticks).committed := hext.table
  have hspecs : (s'.db.world s'.ticks).specs env (d.handle source) =
      (s.db.world s.ticks).specs env (d.handle source) := by
    rw [World.specs, World.specs, hcommitted]
  refine ⟨hext.existing _ h.existing, h.settled.of_committed rfl rfl hcommitted, ?_, ?_, ?_⟩
  · rw [hext.table]
    exact h.keyed
  · rw [hspecs]
    exact h.trees
  · rw [hspecs]
    intro spec hmem r hr
    rw [shown_of_idle rfl, hcommitted] at hr
    refine h.ids spec hmem r ?_
    rwa [shown_of_idle rfl]

lemma PipelineStep.exec_extends (env : Env) (geometry : Geometry) (d : Database) (stages : Stages)
    (source : Option String) (step : PipelineStep) (input : DocStream) (s : DatabaseContext) :
    s.Extends (step.exec env geometry d stages {} source input s).2 := by
  cases step with
  | sortLimit sortSpec limitSpec => exact (executeSortLimit_moves input sortSpec limitSpec s).1
  | stage st => exact (executeStageStream_moves input st s).1

/-- A step that meets the condition comes to something that it may come to without the index
context. -/
lemma PipelineStep.exec_yields {s₀ : DatabaseContext} (h : SourceReady env d source s)
    (htwin : s.Twin s₀) (geometry : Geometry) (stages : Stages) (step : PipelineStep)
    (input : DocStream) (hserved : step.Served env d source input s) :
    ∃ s₀', step.Yields env geometry d stages input s₀
        (step.exec env geometry d stages {} (some source) input s).1 s₀' ∧
      (step.exec env geometry d stages {} (some source) input s).2.Twin s₀' := by
  cases step with
  | stage st =>
    obtain ⟨houtcome, hsame⟩ := h.exec_stage geometry stages input st
    have hrespects : Respects DatabaseContext.Twin
        ((PipelineStep.stage st).exec env geometry d stages {} none input) :=
      PipelineStep.respects_exec _ input
    obtain ⟨houtcome₀, hsame₀, -⟩ := hrespects s s₀ htwin
    have hyields : (PipelineStep.stage st).Yields env geometry d stages input s₀ _ _ :=
      .runs (.stage st)
    refine ⟨_, ?_, hsame.trans hsame₀⟩
    rw [← houtcome₀] at hyields
    exact houtcome ▸ hyields
  | sortLimit sortSpec limitSpec =>
    obtain ⟨s₁, hsame, hwalk | ⟨sortDoc, limit, indexName, indexKeys, n, reverse, rfl, hlimit,
      hplan, hwalk⟩⟩ := h.walkSource_cases geometry sortSpec limitSpec
    · have hrun : (PipelineStep.sortLimit sortSpec limitSpec).exec env geometry d stages {}
          (some source) input s = (stageSortLimitStream env {} input sortSpec limitSpec, s₁) :=
        bind_of_ok hwalk
      rw [hrun]
      exact ⟨s₀, .runs (.sortLimit sortSpec limitSpec), hsame.trans htwin⟩
    · have hrun : (PipelineStep.sortLimit (.document sortDoc) limitSpec).exec env geometry d stages
          {} (some source) input s =
            (.ok (((indexOrder env d source s indexName).take n).map .ok), s₁) :=
        bind_of_ok hwalk
      obtain ⟨order, horder, htake⟩ := hserved limit indexName indexKeys n reverse hlimit hplan
      obtain ⟨hpos, hn, -⟩ := planQueryFull_sorted hplan
      rw [hrun, ← htake, hn, ← usize_of_nonneg hpos.le]
      exact ⟨s₀, .sortLimits hlimit horder, hsame.trans htwin⟩

lemma runSteps_possible {s₀ : DatabaseContext} (h : SourceReady env d source s)
    (htwin : s.Twin s₀) (steps : List PipelineStep) (input : DocStream)
    (hserved : ServedAlong env geometry d stages source steps input s) :
    ∃ s₀', PossibleRun env geometry d stages steps input s₀
        (runSteps env geometry d stages {} (some source) steps input s).1 s₀' ∧
      (runSteps env geometry d stages {} (some source) steps input s).2.Twin s₀' := by
  induction steps generalizing input s s₀ with
  | nil => exact ⟨s₀, .done input s₀, htwin⟩
  | cons step steps ih =>
    obtain ⟨hstep, hrest⟩ := hserved
    obtain ⟨s₁', hyields, htwin₁⟩ :=
      PipelineStep.exec_yields h htwin geometry stages step input hstep
    have hready := h.of_extends
      (PipelineStep.exec_extends env geometry d stages (some source) step input s)
    rw [runSteps, bind_apply]
    rcases hrun : step.exec env geometry d stages {} (some source) input s
      with ⟨stream | e | _, s₁⟩ <;> rw [hrun] at hyields htwin₁ hready
    · obtain ⟨s₂', hpossible, htwin₂⟩ := ih hready htwin₁ stream (hrest stream s₁ hrun)
      exact ⟨s₂', .step hyields hpossible, htwin₂⟩
    · exact ⟨s₁', .stopped hyields nofun, htwin₁⟩
    · exact ⟨s₁', .stopped hyields nofun, htwin₁⟩

end

namespace Sample

def pairContext : DatabaseContext := ⟨pair.session.db, pair.ticks⟩

def pairDocs : List Document := [doc (.int32 1) (.string "y"), doc (.int32 2) (.string "x")]

def lowest : List Document := [[("$sort", .document [("a", .int32 1)])], [("$limit", .int32 1)]]

def lowestOfNone : List Document := [("$match", .document [("a", .string "z")])] :: lowest

def ofPair (pipeline : List Document) : Outcome AggregationError (List Document) :=
  (aggregateWithDbCollection env flat ⟨none⟩ passingStages (some "t") pairDocs pipeline
    pairContext).1

variable {s' : DatabaseContext} {r : Outcome AggregationError DocStream}

lemma yields_filter
    (h : (PipelineStep.stage [("$match", .document [("a", .string "z")])]).Yields env flat ⟨none⟩
      passingStages (pairDocs.map .ok) pairContext r s') : r = .ok [] := by
  obtain heq | ⟨_, _, -, -, ⟨_, hstep, -⟩ | ⟨_, _, hstep, -⟩⟩ := h.cases
  · exact (congrArg Prod.fst heq).trans (rfl)
  · exact absurd (PipelineStep.stage.inj hstep) (by simp)
  · nomatch hstep

lemma yields_lowest {s : DatabaseContext}
    (h : (PipelineStep.sortLimit (.document [("a", .int32 1)]) (.int32 1)).Yields env flat ⟨none⟩
      passingStages [] s r s') : r = .ok [] := by
  obtain heq | ⟨_, order, ⟨docs, hdocs, hperm, -⟩, -, ⟨_, hstep, -⟩ | ⟨_, n, -, rfl⟩⟩ := h.cases
  · exact congrArg Prod.fst heq
  · nomatch hstep
  · obtain rfl : [] = docs := ok.inj hdocs
    rw [hperm.eq_nil, take_nil]
    rfl

lemma lowestOfNone_possible (h : PossibleRun env flat ⟨none⟩ passingStages
      [.stage [("$match", .document [("a", .string "z")])],
        .sortLimit (.document [("a", .int32 1)]) (.int32 1)]
      (pairDocs.map .ok) pairContext r s') : r = .ok [] := by
  cases h with
  | stopped h hstop => exact absurd (yields_filter h) (hstop [])
  | step h hrest =>
    obtain rfl := ok.inj (yields_filter h)
    cases hrest with
    | stopped h hstop => exact absurd (yields_lowest h) (hstop [])
    | step h hrest =>
      obtain rfl := ok.inj (yields_lowest h)
      cases hrest
      rfl

lemma pairContext_ready : SourceReady env ⟨none⟩ "t" pairContext := by
  have hrun : Along (Call.step env handle) (fun w call => call.Returns env handle w ∧ call.SparesId)
      start [create ascending, .statement (insert (.int32 1) (.string "y")),
        .statement (insert (.int32 2) (.string "x"))] :=
    ⟨⟨by decide, trivial⟩, ⟨by decide, trivial⟩, ⟨by decide, trivial⟩,
      trivial⟩
  have hreaches := reaches_of_run codec separate start_new hrun
  refine ⟨rfl, hreaches.settled.of_committed rfl rfl rfl, hreaches.keyed, ?_, ?_⟩
  · decide
  · intro spec hmem
    rw [mem_singleton.mp hmem]
    exact pair_indexes.holdsIds (by decide) mem_cons_self (by decide)

end Sample

section

open Sample

theorem pipeline_cut_lowest :
    let run := runStages env flat ⟨none⟩ passingStages {} (some "t")
    run ([[("$limit", .int32 2)]] ++ lowest) (pairDocs.map .ok) =
      run [[("$limit", .int32 2)]] (pairDocs.map .ok) >>= run lowest :=
  pipeline_cut _ _ _ _ _ _ _ (by rintro _ ⟨⟩ _ ⟨⟩; rfl)

end

end Smongo

import Smongo.Client.Routing
import Smongo.Oplog.Reader

/-!
# Aggregation pipelines

Stages are run in order on a stream of documents; a trailing `$out` or `$merge` runs on the results.
-/

namespace Smongo

open Option

inductive AggregationError
  | invalidStage (msg : String)
  | invalidOperator (msg : String)
  | missingField (msg : String)
  | typeError (msg : String)
  | memoryLimitExceeded (stage : String) (used limit : ℕ)
  | other (msg : String)
  /-- `Other` with the text of a collection's error. -/
  | collection (e : CollectionError)
deriving DecidableEq

/-- What an iterator yields, up to its end; the consumer stops at the first error. -/
abbrev DocStream := List (Outcome AggregationError Document)

/-- The storage behind a `DatabaseContext`. -/
structure DatabaseContext where
  db : Redb
  ticks : ℕ

abbrev AggregationOp (α : Type) := Eff DatabaseContext AggregationError α

inductive PlainStage
  | project
  | group
  | count
  | unwind
  | addFields
  | unset
  | replaceRoot
  | sample
  | redact
  | sortByCount
  | bucket
  | bucketAuto
  | setWindowFields
deriving DecidableEq

inductive JoinStage
  | lookup
  | graphLookup
  | facet
  | unionWith
deriving DecidableEq

inductive StageName
  | matching
  | limit
  | skip
  | sort
  | plain (st : PlainStage)
  | join (st : JoinStage)
  | out
  | merge
  | vectorSearch
  | geoNear
deriving DecidableEq

def stageNames : List (String × StageName) :=
  [("$match", .matching), ("$project", .plain .project), ("$limit", .limit), ("$skip", .skip),
    ("$sort", .sort), ("$group", .plain .group), ("$count", .plain .count),
    ("$unwind", .plain .unwind), ("$addFields", .plain .addFields), ("$set", .plain .addFields),
    ("$unset", .plain .unset), ("$replaceRoot", .plain .replaceRoot),
    ("$replaceWith", .plain .replaceRoot), ("$sample", .plain .sample),
    ("$redact", .plain .redact), ("$sortByCount", .plain .sortByCount),
    ("$bucket", .plain .bucket), ("$bucketAuto", .plain .bucketAuto),
    ("$lookup", .join .lookup), ("$graphLookup", .join .graphLookup), ("$facet", .join .facet),
    ("$setWindowFields", .plain .setWindowFields), ("$unionWith", .join .unionWith),
    ("$out", .out), ("$merge", .merge), ("$vectorSearch", .vectorSearch), ("$geoNear", .geoNear)]

/-- What `$vectorSearch` asks of an index, when its specification can be parsed. -/
structure VectorQuery where
  filter : Option Document
  score : IndexSpec → List Document → Outcome AggregationError (List Document)

/-- What `$geoNear` asks of an index, when it has a point to start from. -/
structure GeoNearQuery where
  key : String
  lon : F64
  lat : F64
  maxDistance : Option F64
  query : Option Document
  /-- Sort by distance, cut to the limit, and add the distances. -/
  present : List Document → List Document

structure PipelineOptions where
  memoryLimitBytes : Option ℕ := none
  allowDiskUse : Bool := false

structure Stages where
  plain : PlainStage → PipelineOptions → Bson → DocStream → Outcome AggregationError DocStream
  join : JoinStage → PipelineOptions → Bson → DocStream →
    Script (String × Option Document) (List Document) AggregationError DocStream
  externalSort : DocStream → Bson → ℕ → Outcome AggregationError (List Document)
  vectorQuery : Document → Option VectorQuery
  vectorSearch : Bson → DocStream → Outcome AggregationError DocStream
  geoNearQuery : Document → Option GeoNearQuery
  geoNear : Bson → DocStream → Outcome AggregationError DocStream

def defaultMemoryLimitBytes : ℕ := 100 * 1024 * 1024

section

variable (env : Env) (stages : Stages) (options : PipelineOptions) (input : DocStream)

def collectStream : Outcome AggregationError (List Document) := input.mapM id

lemma collectStream_map_ok (docs : List Document) : collectStream (docs.map .ok) = .ok docs := by
  induction docs with
  | nil => rfl
  | cons doc docs ih =>
    rw [collectStream] at ih ⊢
    rw [List.map_cons, List.mapM_cons, id, Outcome.ok_bind, ih]
    rfl

def estimateDocBytes (doc : Document) : ℕ :=
  match env.toVec doc with
  | .ok bytes => bytes.length
  | .error _ => 256

def collectWithLimit (stageName : String) : Outcome AggregationError (List Document) := do
  let docs ← collectStream input
  match options.memoryLimitBytes with
  | none => .ok docs
  | some maxBytes =>
    let estimated := docs.foldr (fun doc n => estimateDocBytes env doc + n) 0
    if maxBytes < estimated then .error (.memoryLimitExceeded stageName estimated maxBytes)
    else .ok docs

def matchItem (filter : Document) :
    Outcome AggregationError Document → Option (Outcome AggregationError Document)
  | .ok doc =>
    match evalQuery env doc filter with
    | .ok true => some (.ok doc)
    | .ok false => none
    | .error e => some (.error (.other e))
    | .panic => some .panic
  | r => some r

def stageMatchStream : Bson → Outcome AggregationError DocStream
  | .document filter => .ok (input.filterMap (matchItem env filter))
  | _ => .error (.invalidStage "$match requires document")

def usize (n : Int64) : ℕ := n.toBitVec.toNat

lemma usize_of_nonneg {n : Int64} (h : 0 ≤ n.toInt) : usize n = n.toInt.toNat := by
  have hcond := BitVec.toInt_eq_toNat_cond n.toBitVec
  change 0 ≤ n.toBitVec.toInt at h
  change n.toBitVec.toNat = n.toBitVec.toInt.toNat
  split at hcond <;> omega

def stageLimitStream (limit : Bson) : Outcome AggregationError DocStream :=
  match integerOf limit with
  | some n => .ok (input.take (usize n))
  | none => .error (.invalidStage "$limit requires number")

def stageSkipStream (skip : Bson) : Outcome AggregationError DocStream :=
  match integerOf skip with
  | some n => .ok (input.drop (usize n))
  | none => .error (.invalidStage "$skip requires number")

def stageSortStream (sortSpec : Bson) : Outcome AggregationError DocStream :=
  if options.allowDiskUse then do
    let docs ← stages.externalSort input sortSpec
      (options.memoryLimitBytes.getD defaultMemoryLimitBytes)
    .ok (docs.map .ok)
  else do
    let docs ← collectWithLimit env options input "$sort"
    match sortSpec with
    | .document sortDoc => .ok ((stageSort docs sortDoc).map .ok)
    | _ => .error (.invalidStage "$sort requires document")

/-- `$sort` and `$limit` in one.  Of equal documents the first are selected; the source is not
stable. -/
def stageSortLimitStream (sortSpec limitSpec : Bson) : Outcome AggregationError DocStream :=
  match sortSpec, integerOf limitSpec with
  | .document sortDoc, some limit =>
    if limit = 0 then .ok []
    else do
      let docs ← collectWithLimit env options input "$sort"
      .ok (((stageSort docs sortDoc).take (usize limit)).map .ok)
  | .document _, none => .error (.invalidStage "$limit requires number")
  | _, _ => .error (.invalidStage "$sort requires document")

end

section

variable (env : Env) (geometry : Geometry) (d : Database)

def onCollection {α : Type} (name : String) (m : Handle → RedbOp α) : AggregationOp α :=
  fun s =>
    let opened : RedbOp α := do
      onSession (StorageSession.createTable (d.tableName name))
      m (d.handle name)
    let r := opened (s.db.world s.ticks)
    (r.1.mapError .collection, ⟨r.2.session.db, r.2.ticks⟩)

def findAll (c : Handle) (filter : Document) : RedbOp (List Document) :=
  find env c (fun plan filter =>
    executePlan env c (materializeGeoPlan env c geometry) filter plan) filter

def resolve : String × Option Document → AggregationOp (List Document)
  | (name, filter) => onCollection d name fun c => findAll env geometry c (filter.getD [])

variable (collection : String)

def sortedScan (sortKeys : Document) (limit : Int64) : AggregationOp (Option (List Document)) :=
  onCollection d collection fun c => do
    let indexes ← listIndexes env c
    let plan := (planQueryFull env.evaluate2dspherePlan [] indexes none (some sortKeys)
      (some limit)).executionPlan
    if plan.isSorted then
      return some (← executePlan env c (materializeGeoPlan env c geometry) [] plan)
    else return none

def tryIndexSortLimit (sortSpec limitSpec : Bson) : AggregationOp (Option (List Document)) :=
  match sortSpec with
  | .document sortDoc =>
    let limit := (integerOf limitSpec).getD 0
    if limit = 0 then pure none else sortedScan env geometry d collection sortDoc limit
  | _ => pure none

def vectorCandidates (filter : Option Document) :
    AggregationOp (Option (IndexSpec × List Document)) :=
  onCollection d collection fun c => do
    let indexes ← listIndexes env c
    match indexes.find? fun idx => idx.options.indexType = some .vectorSearch with
    | none => return none
    | some idx => return some (idx, ← findAll env geometry c (filter.getD []))

def vectorSearch (q : VectorQuery) : AggregationOp (Option (List Document)) := do
  match ← vectorCandidates env geometry d collection q.filter with
  | none => pure none
  | some (idx, candidates) => do return some (← Eff.ofOutcome (q.score idx candidates))

def geoNearIndexed (q : GeoNearQuery) : AggregationOp (Option (List Document)) :=
  onCollection d collection fun c => do
    let indexes ← listIndexes env c
    match indexes.find? fun idx => twodsphereField idx.keys = some q.key with
    | none => return none
    | some idx =>
      let docs ← executePlan env c (materializeGeoPlan env c geometry) (q.query.getD [])
        (.geoNear idx.name q.key q.lon q.lat q.maxDistance none)
      return some (q.present docs)

/-- Ask an index first; without an answer, whatever the reason, run the stage on its input. -/
def orElseStream (ask : Option (AggregationOp (Option (List Document))))
    (fallback : Outcome AggregationError DocStream) : AggregationOp DocStream :=
  match ask with
  | none => Eff.ofOutcome fallback
  | some m => do
    match ← m.attempt with
    | .ok (some docs) => pure (docs.map .ok)
    | _ => Eff.ofOutcome fallback

variable (stages : Stages) (options : PipelineOptions) (source : Option String) (input : DocStream)

def stageVectorSearchStreamIndexed (spec : Bson) : AggregationOp DocStream :=
  let ask := source.bind fun collection =>
    match spec with
    | .document doc => (stages.vectorQuery doc).map (vectorSearch env geometry d collection)
    | _ => none
  orElseStream ask (stages.vectorSearch spec input)

def stageGeoNearStreamIndexed (spec : Bson) : AggregationOp DocStream :=
  match spec with
  | .document doc =>
    let ask := source.bind fun collection =>
      (stages.geoNearQuery doc).map (geoNearIndexed env geometry d collection)
    orElseStream ask (stages.geoNear spec input)
  | _ => Eff.fail (.invalidStage "$geoNear requires document")

def executeNamed (value : Bson) : StageName → AggregationOp DocStream
  | .matching => Eff.ofOutcome (stageMatchStream env input value)
  | .limit => Eff.ofOutcome (stageLimitStream input value)
  | .skip => Eff.ofOutcome (stageSkipStream input value)
  | .sort => Eff.ofOutcome (stageSortStream env stages options input value)
  | .plain st => Eff.ofOutcome (stages.plain st options value input)
  | .join st => (stages.join st options value input).run (resolve env geometry d)
  | .out | .merge => pure input
  | .vectorSearch => stageVectorSearchStreamIndexed env geometry d stages source input value
  | .geoNear => stageGeoNearStreamIndexed env geometry d stages source input value

def executeStageStream (stage : Document) : AggregationOp DocStream :=
  match stage.head? with
  | none => Eff.fail (.invalidStage "Empty stage")
  | some (name, value) =>
    match stageNames.lookup name with
    | some stageName => executeNamed env geometry d stages options source input value stageName
    | none => Eff.fail (.invalidStage ("Unknown stage: " ++ name))

def sortLimitPair (stage next : Document) : Option (Bson × Bson) :=
  match stage.head?, next.head? with
  | some (sn, sv), some (ln, lv) => if sn = "$sort" ∧ ln = "$limit" then some (sv, lv) else none
  | _, _ => none

def walkSource (sortSpec limitSpec : Bson) : AggregationOp (Option (List Document)) :=
  match source with
  | some collection => tryIndexSortLimit env geometry d collection sortSpec limitSpec
  | none => pure none

def executeSortLimit (sortSpec limitSpec : Bson) : AggregationOp DocStream := do
  match ← walkSource env geometry d source sortSpec limitSpec with
  | some docs => pure (docs.map .ok)
  | none => Eff.ofOutcome (stageSortLimitStream env options input sortSpec limitSpec)

def runStages : List Document → DocStream → AggregationOp DocStream
  | [], input => pure input
  | [stage], input => executeStageStream env geometry d stages options source input stage
  | stage :: next :: rest, input =>
    match sortLimitPair stage next with
    | some (sortSpec, limitSpec) => do
      let stream ← executeSortLimit env geometry d options source input sortSpec limitSpec
      runStages rest stream
    | none => do
      let stream ← executeStageStream env geometry d stages options source input stage
      runStages (next :: rest) stream

def misplacedStage (pipeline : List Document) : Option String :=
  (pipeline.drop 1).findSome? fun stage =>
    stage.head?.bind fun field =>
      if field.1 = "$vectorSearch" ∨ field.1 = "$geoNear" then some field.1 else none

variable (initial : DocStream) (pipeline : List Document)

def runPipelineStages : AggregationOp DocStream :=
  match misplacedStage pipeline with
  | some name => Eff.fail (.invalidStage (name ++ " must be the first stage in the pipeline"))
  | none => runStages env geometry d stages options source pipeline initial

def replaceDocuments (c : Handle) (docs : List Document) : RedbOp Unit := do
  let _ ← deleteMany env c [] false
  if docs.isEmpty then pure ()
  else do
    let _ ← insertMany env c docs false
    pure ()

def dropAndInsert (name : String) (docs : List Document) : AggregationOp Unit :=
  onCollection d name fun c => replaceDocuments env c docs

def mergeFilter (onFields : List String) (doc : Document) : Document :=
  onFields.foldl (fun filter field =>
    match doc.get field with
    | some value => filter.insert field value
    | none => filter) []

/-- `false` if a document matched that must not. -/
def upsertEach (c : Handle) (onFields : List String) (whenMatched : String) :
    List Document → RedbOp Bool
  | [] => pure true
  | doc :: docs => do
    let filter := mergeFilter onFields doc
    match ← findOne env c (materializeGeoPlan env c geometry) filter with
    | some _ =>
      if whenMatched = "keepExisting" then upsertEach c onFields whenMatched docs
      else if whenMatched = "fail" then pure false
      else do
        let _ ← updateOne env c filter [("$set", .document doc)] {}
        upsertEach c onFields whenMatched docs
    | none => do
      let _ ← insertOne env c doc false
      upsertEach c onFields whenMatched docs

def upsert (name : String) (onFields : List String) (docs : List Document)
    (whenMatched : String) : AggregationOp Unit := do
  if ← onCollection d name fun c => upsertEach env geometry c onFields whenMatched docs then pure ()
  else Eff.fail (.other "$merge: document matched whenMatched=fail")

def outTarget : Bson → Except AggregationError String
  | .string name => named name
  | .document doc => named (((getStr doc "coll").or (getStr doc "db")).getD "")
  | _ => .error (.invalidStage "$out requires string or document")
where
  named (target : String) : Except AggregationError String :=
    if target = "" then .error (.missingField "$out target collection required") else .ok target

def executeOut (spec : Bson) (docs : List Document) : AggregationOp Unit :=
  match outTarget spec with
  | .error e => Eff.fail e
  | .ok target => dropAndInsert env d target docs

def mergeTarget : Bson → String
  | .string name => name
  | .document doc => (getStr doc "coll").getD ""
  | _ => ""

def mergeOnFields (spec : Document) : List String :=
  match spec.get "on" with
  | some (.string field) => [field]
  | some (.array fields) => fields.filterMap fun field =>
      match field with
      | .string s => some s
      | _ => none
  | _ => ["_id"]

def executeMerge (spec : Bson) (docs : List Document) : AggregationOp Unit :=
  match spec with
  | .document mergeDoc =>
    match Document.get mergeDoc "into" with
    | none => Eff.fail (.missingField "$merge.into required")
    | some into =>
      if mergeTarget into = "" then
        Eff.fail (.missingField "$merge target collection required")
      else upsert env geometry d (mergeTarget into) (mergeOnFields mergeDoc) docs
        ((getStr mergeDoc "whenMatched").getD "replace")
  | _ => Eff.fail (.invalidStage "$merge requires document")

def isWriteStage (stage : Document) : Bool :=
  stage.head?.any fun field => field.1 = "$out" || field.1 = "$merge"

def splitWriteStage : List Document × Option Document :=
  match pipeline.getLast? with
  | some last => if isWriteStage last then (pipeline.dropLast, some last) else (pipeline, none)
  | none => (pipeline, none)

def executeWriteStage (stage : Document) (results : List Document) : AggregationOp Unit :=
  match stage.head? with
  | none => Eff.fail (.invalidStage "empty write stage")
  | some (name, value) =>
    if name = "$out" then executeOut env d value results
    else if name = "$merge" then executeMerge env geometry d value results
    else pure ()

def pipelineResults : AggregationOp (List Document) := do
  let stream ← runPipelineStages env geometry d stages options source initial pipeline
  Eff.ofOutcome (collectStream stream)

def aggregateFrom : AggregationOp (List Document) := do
  let results ← pipelineResults env geometry d stages options source initial
    (splitWriteStage pipeline).1
  match (splitWriteStage pipeline).2 with
  | none => pure ()
  | some stage => executeWriteStage env geometry d stage results
  pure results

def aggregateWithDbCollection (docs : List Document) (pipeline : List Document) :
    AggregationOp (List Document) :=
  aggregateFrom env geometry d stages {} source (docs.map .ok) pipeline

def aggregateWithDbCollectionStreamingOpts (docs : List (Outcome CollectionError Document))
    (pipeline : List Document) : AggregationOp (List Document) :=
  aggregateFrom env geometry d stages options source (docs.map (·.mapError .collection)) pipeline

end

/-! ### What a pipeline leaves alone -/

section

open Eff LocalClient

variable {env : Env} {geometry : Geometry} {d : Database} {stages : Stages}
  {options : PipelineOptions} {source : Option String} {α : Type}

def DatabaseContext.opened (d : Database) (name : String) (s : DatabaseContext) : RedbWorld :=
  ((onSession (StorageSession.createTable (d.tableName name))) (s.db.world s.ticks)).2

lemma onCollection_apply (name : String) (m : Handle → RedbOp α) (s : DatabaseContext) :
    onCollection d name m s = ((m (d.handle name) (s.opened d name)).1.mapError .collection,
      ⟨(m (d.handle name) (s.opened d name)).2.session.db,
        (m (d.handle name) (s.opened d name)).2.ticks⟩) := rfl

lemma DatabaseContext.committed_opened (name : String) (s : DatabaseContext) :
    (s.opened d name).committed = s.db.table :=
  funext fun table => table_createTable _ _ table

/-- Tables may have been created, but no row and no clock has changed. -/
structure DatabaseContext.Extends (s s' : DatabaseContext) : Prop where
  table : s'.db.table = s.db.table
  existing : ∀ name, (s.db.tables name).isSome → (s'.db.tables name).isSome
  ticks : s'.ticks = s.ticks

def sameTables : Frame DatabaseContext where
  rel := DatabaseContext.Extends
  refl _ := ⟨rfl, fun _ => id, rfl⟩
  trans h h' := ⟨h'.table.trans h.table, fun name hname => h'.existing name (h.existing name hname),
    h'.ticks.trans h.ticks⟩

lemma DatabaseContext.opened_tables (name : String) (s : DatabaseContext) :
    (s.opened d name).session.db.tables = Function.update s.db.tables (d.tableName name)
      (some (s.db.table (d.tableName name))) := rfl

lemma Uses.unchanged {c : Handle} {P : String → Prop} {m : RedbOp α}
    (h : Uses env c P (fun _ => False) m) (w : RedbWorld) :
    (m w).2.session = w.session ∧ (m w).2.ticks = w.ticks := by
  let still : Frame RedbWorld :=
    { rel := fun w w' => w'.session = w.session ∧ w'.ticks = w.ticks
      refl := fun _ => ⟨rfl, rfl⟩
      trans := fun h h' => ⟨h'.1.trans h.1, h'.2.trans h.2⟩ }
  have hmoves : Moves still m := by
    refine Composed.moves (fun {α m Q} hprim w => ?_) h
    cases hprim with
    | draw name hname => exact hname.elim
    | list hmetadata =>
      rw [listIndexes_apply]
      refine ⟨?_, fun _ _ => trivial⟩
      cases listed env c w <;> exact ⟨rfl, rfl⟩
    | look g hsame hq => exact ⟨⟨rfl, rfl⟩, hq _⟩
    | write name op hname | notify cfg hcfg hname entry => exact hname.elim
  exact (hmoves w).1

lemma onCollection_moves {name : String} {m : Handle → RedbOp α}
    (hm : Uses env (d.handle name) (fun _ => True) (fun _ => False) (m (d.handle name))) :
    Moves sameTables (onCollection d name m) := by
  refine fun s => ⟨?_, fun _ _ => trivial⟩
  obtain ⟨hsession, hticks⟩ := hm.unchanged (s.opened d name)
  refine ⟨?_, fun name' hname' => ?_, hticks⟩
  · change (m (d.handle name) (s.opened d name)).2.session.db.table = s.db.table
    rw [hsession]
    exact s.committed_opened name
  · change ((m (d.handle name) (s.opened d name)).2.session.db.tables name').isSome
    rw [hsession, s.opened_tables, Function.update_apply]
    split
    · rfl
    · exact hname'

lemma resolve_moves (q : String × Option Document) :
    Moves sameTables (resolve env geometry d q) :=
  onCollection_moves (uses_find (Handle.reads_all _) geometry _)

variable (collection : String)

lemma sortedScan_moves (sortKeys : Document) (limit : Int64) :
    Moves sameTables (sortedScan env geometry d collection sortKeys limit) := by
  refine onCollection_moves ((uses_listIndexes (Handle.reads_all _)).bind fun indexes _ => ?_)
  refine .ite ?_ (.pure trivial)
  exact (uses_executePlan (Handle.reads_all _) geometry [] _).map

lemma tryIndexSortLimit_moves (sortSpec limitSpec : Bson) :
    Moves sameTables (tryIndexSortLimit env geometry d collection sortSpec limitSpec) := by
  unfold tryIndexSortLimit
  split
  · exact .ite (.pure trivial) (sortedScan_moves collection _ _)
  · exact .pure trivial

lemma vectorSearch_moves (q : VectorQuery) :
    Moves sameTables (vectorSearch env geometry d collection q) := by
  have hcandidates : Moves sameTables (vectorCandidates env geometry d collection q.filter) := by
    refine onCollection_moves ((uses_listIndexes (Handle.reads_all _)).bind fun indexes _ => ?_)
    split
    · exact .pure trivial
    · exact (uses_find (Handle.reads_all _) geometry _).map
  refine hcandidates.bind fun found _ => ?_
  split
  · exact .pure trivial
  · exact (Moves.ofOutcome _).map

lemma geoNearIndexed_moves (q : GeoNearQuery) :
    Moves sameTables (geoNearIndexed env geometry d collection q) := by
  refine onCollection_moves ((uses_listIndexes (Handle.reads_all _)).bind fun indexes _ => ?_)
  split
  · exact .pure trivial
  · exact (uses_executePlan (Handle.reads_all _) geometry _ _).map

lemma orElseStream_moves {ask : Option (AggregationOp (Option (List Document)))}
    (hask : ∀ m ∈ ask, Moves sameTables m) (fallback : Outcome AggregationError DocStream) :
    Moves sameTables (orElseStream ask fallback) := by
  unfold orElseStream
  split
  · exact .ofOutcome fallback
  · next m =>
    refine (hask m rfl).attempt.bind fun r _ => ?_
    split
    · exact .pure trivial
    · exact .ofOutcome fallback

variable (input : DocStream)

lemma executeNamed_moves (value : Bson) (name : StageName) : Moves sameTables
      (executeNamed env geometry d stages options source input value name) := by
  cases name with
  | matching | limit | skip | sort | plain st => exact .ofOutcome _
  | join st =>
    refine fun s => ⟨?_, fun _ _ => trivial⟩
    have hcall (s : DatabaseContext) (q : String × Option Document) (_ : True) :
        sameTables.rel s (resolve env geometry d q s).2 := (resolve_moves q s).1
    exact Script.run_moves hcall _ (Script.guarded_true _ s)
  | out | merge => exact .pure trivial
  | vectorSearch =>
    refine orElseStream_moves (fun m hm => ?_) _
    obtain ⟨collection, -, hm⟩ := bind_eq_some_iff.mp hm
    split at hm
    · obtain ⟨q, -, rfl⟩ := map_eq_some_iff.mp hm
      exact vectorSearch_moves collection q
    · cases hm
  | geoNear =>
    change Moves sameTables (stageGeoNearStreamIndexed env geometry d stages source input value)
    unfold stageGeoNearStreamIndexed
    split
    · refine orElseStream_moves (fun m hm => ?_) _
      obtain ⟨collection, -, hm⟩ := bind_eq_some_iff.mp hm
      obtain ⟨q, -, rfl⟩ := map_eq_some_iff.mp hm
      exact geoNearIndexed_moves collection q
    · exact .fail _

lemma executeStageStream_moves (stage : Document) :
    Moves sameTables (executeStageStream env geometry d stages options source input stage) := by
  unfold executeStageStream
  split
  · exact .fail _
  · split
    · exact executeNamed_moves input _ _
    · exact .fail _

lemma executeSortLimit_moves (sortSpec limitSpec : Bson) : Moves sameTables
      (executeSortLimit env geometry d options source input sortSpec limitSpec) := by
  have hwalked : Moves sameTables (walkSource env geometry d source sortSpec limitSpec) := by
    unfold walkSource
    split
    · exact tryIndexSortLimit_moves _ _ _
    · exact .pure trivial
  refine hwalked.bind fun walked _ => ?_
  split
  · exact .pure trivial
  · exact .ofOutcome _

lemma runStages_moves (pipeline : List Document) (input : DocStream) :
    Moves sameTables (runStages env geometry d stages options source pipeline input) := by
  fun_induction runStages env geometry d stages options source pipeline input with
  | case1 input => exact .pure trivial
  | case2 stage input => exact executeStageStream_moves input stage
  | case3 stage next rest input sortSpec limitSpec hpair ih =>
    exact (executeSortLimit_moves input sortSpec limitSpec).bind fun stream _ => ih stream
  | case4 stage next rest input hpair ih =>
    exact (executeStageStream_moves input stage).bind fun stream _ => ih stream

lemma pipelineResults_moves (initial : DocStream) (pipeline : List Document) : Moves sameTables
      (pipelineResults env geometry d stages options source initial pipeline) := by
  have hrun : Moves sameTables
      (runPipelineStages env geometry d stages options source initial pipeline) := by
    unfold runPipelineStages
    split
    · exact .fail _
    · exact runStages_moves pipeline initial
  exact hrun.bind fun stream _ => .ofOutcome _

end

namespace Sample

/-- Only a `$unionWith` of a whole collection does something. -/
def passingStages : Stages where
  plain _ _ _ input := .ok input
  join
    | .unionWith, _, .string name, input => .call (name, none) fun
      | .ok docs => .done (input ++ docs.map .ok)
      | .error e => .raise e
    | _, _, _, input => .done input
  externalSort input _ _ := collectStream input
  vectorQuery _ := none
  vectorSearch _ input := .ok input
  geoNearQuery _ := none
  geoNear _ input := .ok input

end Sample

end Smongo

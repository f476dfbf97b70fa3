import Smongo.Aggregation.Stages
import Smongo.Collection.Find
import Smongo.Collection.Lookup
import Smongo.Planner.Full

/-!
# Executing plans

`executePlan` collects the documents of a plan, one loop for each kind of plan.
-/

namespace Smongo

open Bytes Eff StorageSession StorageCursor

structure FindOptions where
  projection : Option Document := none
  sort : Option Document := none
  skip : Option Int64 := none
  limit : Option Int64 := none

section

variable {S C : Type} [StorageCursor C] [StorageSession S C] (env : Env) (c : Handle)

/-- `loop { body; if cursor.next().is_err() { break } }` on a positioned cursor. -/
def loopRows {β : Type} (body : C → β → Op S (Bool × β)) : ℕ → C → β → Op S β
  | 0, _, acc => pure acc
  | fuel + 1, cursor, acc => do
    let (goOn, acc) ← body cursor acc
    if goOn then do
      let (moved, cursor) ← move next cursor
      match moved with
      | .error _ => pure acc
      | .ok () => loopRows body fuel cursor acc
    else pure acc

def scanRows {β : Type} (cursor : C) (acc : β) (body : C → β → Op S (Bool × β)) : Op S β := do
  let rows ← read fun w => rowsLeft cursor w.session
  let (moved, cursor) ← move next cursor
  match moved with
  | .error _ => pure acc
  | .ok () => loopRows body (rows + 1) cursor acc

def seekRows {β : Type} (cursor : C) (seekKey : Bytes) (acc : β)
    (body : C → β → Op S (Bool × β)) : Op S β := do
  let rows ← read fun w => rowsLeft cursor w.session
  match ← read fun w => advanceSeek w.session cursor seekKey false with
  | none => pure acc
  | some cursor => loopRows body (rows + 1) cursor acc

def whilePrefix {β : Type} (seekKey : Bytes) (body : C → β → Op S (Bool × β)) (cursor : C)
    (acc : β) : Op S (Bool × β) := do
  let indexKeyRaw ← liftStorage (getKeyRaw cursor)
  if seekKey.isPrefixOf indexKeyRaw then body cursor acc else pure (false, acc)

def passes (filter doc : Document) : Op S Bool :=
  ofOutcome ((evalQuery env doc filter).mapError .queryError)

def documentInRow (cursor : C) : Op S Document := do
  let docBytes ← liftStorage (getValueRaw cursor)
  ofOutcome (deserializeDocument env docBytes)

def documentOfRow (cursor : C) : Op S (Option Document) := do
  let idStr ← liftStorage (getValueStr cursor)
  fetchDocByIdStr env c idStr

variable (filter : Document)

def pushIfPasses (out : List Document) (doc : Document) : Op S (List Document) := do
  if ← passes env filter doc then pure (out ++ [doc]) else pure out

def collectRow (cursor : C) (out : List Document) : Op S (Bool × List Document) := do
  match ← documentOfRow env c cursor with
  | some doc => do
    let out ← pushIfPasses env filter out doc
    pure (true, out)
  | none => pure (true, out)

def collectCollectionScan : Op S (List Document) := do
  let cursor ← openTable c.tableName
  scanRows cursor [] fun cursor out => do
    let doc ← documentInRow env cursor
    let out ← pushIfPasses env filter out doc
    pure (true, out)

variable (indexName : String)

def collectIndexScan : Op S (List Document) := do
  let indexCursor ← openTable (c.indexTable indexName)
  scanRows indexCursor [] (collectRow env c filter)

def collectIndexSeek (indexKeys seekValues : Document) : Op S (List Document) := do
  let indexCursor ← openTable (c.indexTable indexName)
  let seekKey := buildSeekPrefix indexKeys seekValues
  seekRows indexCursor seekKey [] (whilePrefix seekKey (collectRow env c filter))

/-- The rows come in the order of the index, whatever direction the plan asks for. -/
def collectSortedIndexScan (limit : ℕ) : Op S (List Document) := do
  let indexCursor ← openTable (c.indexTable indexName)
  scanRows indexCursor [] fun cursor out => do
    match ← documentOfRow env c cursor with
    | some doc => do
      let holds ← if filter.isEmpty then pure true else passes env filter doc
      if holds then
        let out := out ++ [doc]
        pure (out.length < limit, out)
      else pure (true, out)
    | none => pure (true, out)

def applyProjectionToIndexDoc (indexDoc projection : Document) : Document :=
  projection.foldl (fun result (field, value) =>
    if field = "_id" || !isTruthyValue value then result
    else
      match indexDoc.get field with
      | some v => result.insert field v
      | none => result) []

def shouldIncludeId (projection : Document) : Bool := !idExcluded projection

def collectCoveredRow (filter indexKeys projection : Document) (cursor : C)
    (out : List Document) : Op S (Bool × List Document) := do
  let indexKeyRaw ← liftStorage (getKeyRaw cursor)
  match decodeIndexKey env indexKeyRaw indexKeys with
  | none => pure (true, out)
  | some indexDoc => do
    if ← passes env filter indexDoc then
      let projected := applyProjectionToIndexDoc indexDoc projection
      if shouldIncludeId projection then do
        let idStr ← liftStorage (getValueStr cursor)
        pure (true, out ++ [projected.insert "_id" (.string idStr)])
      else pure (true, out ++ [projected])
    else pure (true, out)

def collectCoveringIndexScan (indexKeys : Document)
    (seekValues : Option Document) (projection : Document) : Op S (List Document) := do
  let indexCursor ← openTable (c.indexTable indexName)
  match seekValues with
  | some seekVals =>
    let seekKey := buildSeekPrefix indexKeys seekVals
    seekRows indexCursor seekKey []
      (whilePrefix seekKey (collectCoveredRow env filter indexKeys projection))
  | none => scanRows indexCursor [] (collectCoveredRow env filter indexKeys projection)

def inSeekBytes : Bson → Option Bytes
  | .string s => some (utf8 s)
  | .int32 n => some (bigEndian 4 n.toBitVec.toNat)
  | .int64 n => some (bigEndian 8 n.toBitVec.toNat)
  | _ => none

def bitmapPositions (bitmap : BitmapIndex) : Option Bson → Option (List ℕ)
  | some (.string s) => some (bitmap.lookup (utf8 s))
  | some (.int32 n) => some (bitmap.lookup (bigEndian 4 n.toBitVec.toNat))
  | some (.int64 n) => some (bitmap.lookup (bigEndian 8 n.toBitVec.toNat))
  | some (.boolean b) => some (bitmap.lookup [if b then 0x01 else 0x00])
  | some (.document d) =>
    match Document.get d "$in" with
    | some (.array arr) => some (bitmap.lookupIn (arr.filterMap inSeekBytes))
    | _ => none
  | _ => none

def readBitmapRow (cursor : C) (bitmap : BitmapIndex) : Op S (Bool × BitmapIndex) := do
  let keyRaw ← liftStorage (getKeyRaw cursor)
  let idStr ← liftStorage (getValueStr cursor)
  pure (true, bitmap.insert idStr keyRaw)

def collectById (out : List Document) (idStr : String) : Op S (List Document) := do
  match ← fetchDocByIdStr env c idStr with
  | some doc => pushIfPasses env filter out doc
  | none => pure out

/-- The positions are looked up by whole row keys, which end with the id. -/
def collectBitmapScan (indexName field : String) : Op S (List Document) := do
  let opened : Except CollectionError C ← attempt (openTable (c.indexTable indexName))
  match opened with
  | .error _ => collectCollectionScan env c filter
  | .ok indexCursor => do
    let bitmap ← scanRows indexCursor .new readBitmapRow
    match bitmapPositions bitmap (filter.get field) with
    | none => collectCollectionScan env c filter
    | some positions => (bitmap.positionsToIds positions).foldlM (collectById env c filter) []

def prefixSeekDoc (filter indexKeys : Document) : Document :=
  indexKeys.filterMap fun f => (filter.get f.1).map (f.1, ·)

def collectPrefixIndexScan (indexKeys : Document) (prefixLength : ℕ) : Op S (List Document) := do
  let opened : Except CollectionError C ← attempt (openTable (c.indexTable indexName))
  match opened with
  | .error _ => collectCollectionScan env c filter
  | .ok indexCursor =>
    let seekDoc := prefixSeekDoc filter indexKeys
    if seekDoc.isEmpty then collectIndexScan env c filter indexName
    else
      let pre := truncateKey (extractIndexKey seekDoc indexKeys) prefixLength
      seekRows indexCursor pre [] (whilePrefix pre (collectRow env c filter))

def keepIds (ids : List String) (filter : Document) (out : List Document) (doc : Document) :
    Op S (List Document) := do
  let idStr ← ofOutcome (extractIdString env doc)
  if ids.contains idStr then
    if filter.isEmpty then pure (out ++ [doc]) else pushIfPasses env filter out doc
  else pure out

def textSearchString : Option Bson → Option String
  | some (.document td) =>
    match Document.get td "$search" with
    | some (.string s) => some s
    | _ => none
  | some (.string s) => some s
  | _ => none

def collectTextIndexScan (fields : List String) : Op S (List Document) := do
  match textSearchString (filter.get "$text") with
  | none => collectCollectionScan env c filter
  | some searchText => do
    let allDocs ← collectCollectionScan env c []
    let ids := (TextIndex.build env allDocs fields).search env searchText
    let nonTextFilter := filter.filter fun f => f.1 ≠ "$text"
    allDocs.foldlM (keepIds env ids nonTextFilter) []

/-- The rest of the filter is not evaluated. -/
def collectVectorIndexSearch (field : String) (dimensions : ℕ)
    (metric : String) (efConstruction m : Option ℕ) (indexingMethod : String) :
    Op S (List Document) := do
  match env.vectorSearch filter field dimensions metric efConstruction m indexingMethod with
  | none => collectCollectionScan env c filter
  | some search => do
    let allDocs ← collectCollectionScan env c []
    allDocs.foldlM (keepIds env (search allDocs) []) []

def pushUnseen (acc : List String × List Document) (doc : Document) :
    Op S (List String × List Document) := do
  let idStr ← ofOutcome (extractIdString env doc)
  if acc.1.contains idStr then pure acc else pure (idStr :: acc.1, acc.2 ++ [doc])

variable (materializeGeoPlan : ExecutionPlan → Document → Op S (List Document))

mutual

def executePlan (filter : Document) : ExecutionPlan → Op S (List Document)
  | .collectionScan => collectCollectionScan env c filter
  | .indexScan indexName _ => collectIndexScan env c filter indexName
  | .indexSeek indexName indexKeys seekValues =>
    collectIndexSeek env c filter indexName indexKeys seekValues
  | .coveringIndexScan indexName indexKeys seekValues projection =>
    collectCoveringIndexScan env c filter indexName indexKeys seekValues projection
  | .sortedIndexScan indexName _ limit _ => collectSortedIndexScan env c filter indexName limit
  | .bitmapScan indexName field => collectBitmapScan env c filter indexName field
  | .prefixIndexScan indexName indexKeys prefixLength =>
    collectPrefixIndexScan env c filter indexName indexKeys prefixLength
  | .textIndexScan _ fields => collectTextIndexScan env c filter fields
  | .vectorIndexSearch _ field dimensions metric efConstruction m indexingMethod =>
    collectVectorIndexSearch env c filter field dimensions metric efConstruction m indexingMethod
  | .geoNear indexName field lon lat maxDistanceM minDistanceM =>
    materializeGeoPlan (.geoNear indexName field lon lat maxDistanceM minDistanceM) filter
  | .geoCapWithin indexName field lon lat radiusM =>
    materializeGeoPlan (.geoCapWithin indexName field lon lat radiusM) filter
  | .geoCellCover indexName field cellIds =>
    materializeGeoPlan (.geoCellCover indexName field cellIds) filter
  | .orUnionPlans subplans => do
    let (_, out) ← executeUnion filter subplans ([], [])
    pure out
termination_by structural plan => plan

def executeUnion (filter : Document) :
    List ExecutionPlan → List String × List Document → Op S (List String × List Document)
  | [], acc => pure acc
  | sub :: rest, acc => do
    let docs ← executePlan filter sub
    let acc ← docs.foldlM (pushUnseen env) acc
    executeUnion filter rest acc
termination_by structural plans => plans

end

def firstIfPasses (filter doc : Document) : Op S (Bool × Option Document) := do
  if ← passes env filter doc then pure (false, some doc) else pure (true, none)

def findOneWithCollectionScan (filter : Document) : Op S (Option Document) := do
  let cursor ← openTable c.tableName
  scanRows cursor none fun cursor _ => do
    let doc ← documentInRow env cursor
    firstIfPasses env filter doc

def firstOfRow (filter : Document) (cursor : C) (_ : Option Document) :
    Op S (Bool × Option Document) := do
  match ← documentOfRow env c cursor with
  | some doc => firstIfPasses env filter doc
  | none => pure (true, none)

def findOneWithIndexScan (filter : Document) (indexName : String) : Op S (Option Document) := do
  let indexCursor ← openTable (c.indexTable indexName)
  scanRows indexCursor none (firstOfRow env c filter)

def findOneWithIndexSeek (filter : Document) (indexName : String)
    (indexKeys seekValues : Document) : Op S (Option Document) := do
  let indexCursor ← openTable (c.indexTable indexName)
  let seekKey := buildSeekPrefix indexKeys seekValues
  seekRows indexCursor seekKey none (whilePrefix seekKey (firstOfRow env c filter))

def findOne (filter : Document) : Op S (Option Document) := do
  let indexes ← listIndexes env c
  match (planQuery env.evaluate2dspherePlan filter indexes).executionPlan with
  | .indexSeek indexName indexKeys seekValues =>
    findOneWithIndexSeek env c filter indexName indexKeys seekValues
  | .indexScan indexName _ => findOneWithIndexScan env c filter indexName
  | .collectionScan => findOneWithCollectionScan env c filter
  | plan => do
    let docs ← executePlan env c materializeGeoPlan filter plan
    pure docs.head?

/-- The same cursor as `find_iter`, which takes the collection along. -/
def findIntoIter (filter : Document) : Op S (FindCursorState C) :=
  findIter env c (fun plan filter => executePlan env c materializeGeoPlan filter plan) filter

def findCursorNext (filter : Document) (s : S) :
    ℕ → FindCursorState C → Option (Outcome CollectionError Document) × FindCursorState C
  | 0, state => (none, state)
  | fuel + 1, state =>
    match findStep env filter s state with
    | (.finished, state) => (none, state)
    | (.skip, state) => findCursorNext filter s fuel state
    | (.item r, state) => (some r, state)

def drain (filter : Document) (s : S) :
    ℕ → FindCursorState C → List (Outcome CollectionError Document)
  | 0, _ => []
  | fuel + 1, state =>
    match findCursorNext env filter s (findFuel s state) state with
    | (none, _) => []
    | (some r, state) => r :: drain filter s fuel state

def aggregationError (r : Except String (List Document)) :
    Outcome CollectionError (List Document) :=
  (Outcome.ofExcept r).mapError .other

/-- Sort, skip, limit and project what a plan returned. -/
def applyOptions (options : FindOptions) (sorted : Bool) (docs : List Document) :
    Outcome CollectionError (List Document) :=
  let docs :=
    match options.sort with
    | some sortDoc => if sorted then docs else stageSort docs sortDoc
    | none => docs
  let docs :=
    match options.skip with
    | some n => if 0 < n.toInt then stageSkip docs n else docs
    | none => docs
  let docs :=
    match options.limit with
    | some n => if 0 < n.toInt && !sorted then stageLimit docs n else docs
    | none => docs
  match options.projection with
  | some proj => aggregationError (stageProject env proj docs)
  | none => .ok docs

def ExecutionPlan.isSorted : ExecutionPlan → Bool
  | .sortedIndexScan .. => true
  | _ => false

def findWithOptions (filter : Document) (options : FindOptions) : Op S (List Document) := do
  let indexes ← listIndexes env c
  let plan := (planQueryFull env.evaluate2dspherePlan filter indexes options.projection
    options.sort options.limit).executionPlan
  let docs ← executePlan env c materializeGeoPlan filter plan
  ofOutcome (applyOptions env options plan.isSorted docs)

end

end Smongo

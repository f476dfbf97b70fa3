import Smongo.Sync.Store

/-!
# Pushing local changes

A cycle retries the dead-letter queue, then pushes the oplog of each namespace, in turn or in a
pool of threads.
-/

namespace Smongo

abbrev SyncOp := Process SyncCall SyncCall.Reply PyError

abbrev SyncFilter := Document → Except PyError Bool

inductive OverflowStrategy
  | error
  | serverWins

inductive SchemaRejectionStrategy
  | rollback
  | quarantine
  | ignore

structure SyncConfig where
  batchSize : ℤ := 100
  pushConcurrency : ℤ := 4
  oplogAutoCompact : Bool := true
  overflowStrategy : OverflowStrategy := .serverWins
  schemaRejectionStrategy : SchemaRejectionStrategy := .rollback
  maxDlqRetries : ℤ := 5
  dlqBackoffBaseSec : ℚ := 30
  maxBackoffSec : ℚ := 300
  /-- An entry after `json.dumps(entry, default=str)` and `json.loads`. -/
  jsonCopy : PyEntry → PyEntry

structure Tracked where
  ns : String
  filter : Option SyncFilter

open Process

namespace SyncOp

def ofExcept {α : Type} (r : Except PyError α) : SyncOp α := .done r

def request (c : SyncCall) : SyncOp c.Reply := perform c

def ask (c : OutsideCall) : SyncOp c.Reply := request (.outside c)

def now : SyncOp ℚ := ask .now

def letterKey : SyncOp String := ask .letterKey

variable (ns : String)

def oldestKey : SyncOp (Option String) := ask (.oldestKey ns)

variable (id : Bson)

def getById : SyncOp (Option Document) := ask (.getById ns id)

def markDeleted : SyncOp Unit := ask (.markDeleted id)

def createIndex (definition : Document) : SyncOp Unit := ask (.createIndex ns definition)

def dropIndex (name : Bson) : SyncOp Unit := ask (.dropIndex ns name)

def pushIndexDefs : SyncOp Unit := ask (.pushIndexDefs ns)

def findRemote : SyncOp (Option Document) := ask (.findRemote ns id)

def updateLocal (fields : Document) : SyncOp Unit := ask (.updateLocal ns id fields)

def deleteLocal : SyncOp Unit := ask (.deleteLocal ns id)

def clearLocal : SyncOp Unit := ask (.clearLocal ns)

def pullAll : SyncOp Unit := ask (.pullAll ns)

def getCheckpoint (name : String) : SyncOp (Option String) := request (.getCheckpoint name)

def setCheckpoint (name value : String) : SyncOp Unit := request (.setCheckpoint name value)

def removeCheckpoint (name : String) : SyncOp Unit := request (.removeCheckpoint name)

def checkpointTruncate (name ns safeKey : String) : SyncOp Unit :=
  request (.checkpointTruncate name ns safeKey)

def readFrom (checkpoint : Option String) : SyncOp (List (String × PyEntry)) :=
  request (.readFrom ns checkpoint)

def dlqScan : SyncOp (List (String × Option DlqRow)) := request .dlqScan

def enqueue (key : String) (row : DlqRow) (origin : String × PyEntry) : SyncOp Unit :=
  request (.dlqEnqueue key row origin)

def dlqUpdate (key : String) (row : DlqRow) : SyncOp Unit := request (.dlqUpdate key row)

def removeRow (key : String) : SyncOp Unit := request (.dlqRemove key)

def bulkWrite (ops : List BulkOp) (sources : List OpSource) : SyncOp Unit :=
  request (.bulkWrite ns ops sources)

def exclude (ns key : String) : SyncOp Unit := request (.exclude ns key)

end SyncOp

open SyncOp

def stampInsert (ts : F64) (doc : Document) : BulkOp :=
  .insertOne (doc.insert "_lastModified" (.double ts))

def stampUpdate (ts : F64) (id : Bson) (spec : Document) : Except PyError BulkOp :=
  match (spec.get "$set").getD (.document []) with
  | .document fields =>
    .ok (.updateOne id
      (spec.insert "$set" (.document (Document.insert fields "_lastModified" (.double ts)))))
  | _ => .error (.typeError "object does not support item assignment")

def truthy (payload : Option Document) : Option Document := payload.filter (· ≠ [])

def entryToPymongoOp (entry : PyEntry) : Except PyError (Option BulkOp) :=
  if entry.op = "insert" then .ok ((truthy entry.payload).map (stampInsert entry.ts))
  else if entry.op = "update" then
    match truthy entry.payload with
    | none => .ok none
    | some payload => (stampUpdate entry.ts entry.docId payload).map some
  else if entry.op = "delete" then .ok (some (.deleteOne entry.docId))
  else .ok none

section

variable (cfg : SyncConfig) (ns : String)

def dlqEnqueue (item : String × PyEntry) (errorCode : Option ℤ) (errorMsg : String)
    (permanentlyFailed : Bool) : SyncOp Unit := do
  let time ← now
  let key ← letterKey
  enqueue key
    { ns
      entry := cfg.jsonCopy item.2
      errorCode
      errorMsg
      retryCount := 0
      nextRetryTs := some (time + cfg.dlqBackoffBaseSec)
      firstFailedTs := time
      permanentlyFailed } item

def dlqRemove (key : String) : SyncOp Unit := (removeRow key).rescue fun _ => some (pure ())

def retryRow (key : String) (row : DlqRow) : SyncOp Unit :=
  let count := row.retryCount + 1
  if cfg.maxDlqRetries ≤ count then
    dlqUpdate key { row with retryCount := count, permanentlyFailed := true }
  else do
    let time ← now
    let delay := min (cfg.dlqBackoffBaseSec * 2 ^ count) cfg.maxBackoffSec
    dlqUpdate key { row with retryCount := count, nextRetryTs := some (time + delay) }

def eligibleRows (time : ℚ) (rows : List (String × Option DlqRow)) : List (String × DlqRow) :=
  rows.filterMap fun r =>
    (r.2.filter fun row => !row.permanentlyFailed && row.nextRetryTs.any (· ≤ time)).map (r.1, ·)

def itemMap : List (String × DlqRow) → Except PyError (List ((String × DlqRow) × BulkOp))
  | [] => .ok []
  | item :: items =>
    match entryToPymongoOp item.2.entry with
    | .error e => .error e
    | .ok none => itemMap items
    | .ok (some op) => (itemMap items).map ((item, op) :: ·)

variable (items : List ((String × DlqRow) × BulkOp))

def writeItems : SyncOp Unit := do
  bulkWrite ns (items.map Prod.snd) (items.map fun i => .letter i.1.1)
  items.forM fun i => dlqRemove i.1.1

def retryItems : SyncOp Unit :=
  (writeItems ns items).rescue fun
    | .bulkWriteError errors => some <| items.zipIdx.forM fun i =>
        if errors.any fun e => e.index = some i.2 then retryRow cfg i.1.1.1 i.1.1.2
        else dlqRemove i.1.1.1
    | e => if e.isPyMongo || e.isOs then some (items.forM fun i => retryRow cfg i.1.1 i.1.2)
        else none

def sweepDlq (tracked : List Tracked) : SyncOp Unit := do
  let time ← now
  let rows ← dlqScan
  let eligible := eligibleRows time rows
  (eligible.map fun r => r.2.ns).eraseDups.forM fun ns =>
    if tracked.any (·.ns = ns) then do
      let items ← ofExcept (itemMap (eligible.filter fun r => r.2.ns = ns))
      if items.isEmpty then pure () else retryItems cfg ns items
    else pure ()

def schemaValidationErrorCode : ℤ := 121

def handleSchemaRejection (entry : PyEntry) : SyncOp Unit :=
  match cfg.schemaRejectionStrategy with
  | .quarantine | .ignore => pure ()
  | .rollback =>
    if entry.docId = .null then pure ()
    else
      (do match ← findRemote ns entry.docId with
          | some doc => updateLocal ns entry.docId (doc.filter fun f => f.1 ≠ "_id")
          | none => deleteLocal ns entry.docId).rescue fun _ => some (pure ())

def recordError (opEntries : List (String × PyEntry)) (err : WriteError) : SyncOp Unit :=
  match err.index.bind (opEntries[·]?) with
  | none => pure ()
  | some item => do
    let isSchema := err.code = some schemaValidationErrorCode
    dlqEnqueue cfg ns item err.code err.errmsg isSchema
    if isSchema then handleSchemaRejection cfg ns item.2 else pure ()

def writeBatch (ops : List BulkOp) (opEntries : List (String × PyEntry)) : SyncOp ℤ := do
  bulkWrite ns ops (opEntries.map fun item => .oplog item.1)
  pure ops.length

/-- The number of operations that were written, or -1 if the call failed as a whole. -/
def flushBulk (ops : List BulkOp) (opEntries : List (String × PyEntry)) : SyncOp ℤ :=
  (writeBatch ns ops opEntries).rescue fun
    | .bulkWriteError errors => some do
        errors.forM (recordError cfg ns opEntries)
        pure (ops.length - errors.length : ℤ)
    | e => if e.isPyMongo || e.isOs then some do
          opEntries.forM fun item => dlqEnqueue cfg ns item (some (-1)) e.text false
          pure (-1)
        else none

def passesFilter (filter : Option SyncFilter) (doc : Document) : Except PyError Bool :=
  match filter with
  | none => .ok true
  | some f =>
    match f doc with
    | .ok b => .ok b
    | .error e => if e.isKeyOrType then .ok false else .error e

def filterDocument (entry : PyEntry) (payload : Document) : SyncOp Document :=
  if entry.op = "update" then
    (do let found ← getById ns entry.docId
        pure ((truthy found).getD payload)).rescue fun e =>
      if e.isLookup then some (pure payload) else none
  else pure payload

variable (active : Option SyncFilter)

def isExcluded (t : Tracked) (entry : PyEntry) : SyncOp Bool :=
  match truthy entry.payload with
  | none => pure false
  | some payload =>
    if (t.filter.isSome || active.isSome) && entry.op ∈ ["insert", "update", "delete"] then do
      let doc ← filterDocument t.ns entry payload
      if ← ofExcept (passesFilter t.filter doc) then do
        let passes ← ofExcept (passesFilter active doc)
        pure !passes
      else pure true
    else pure false

structure PushLoop where
  ops : List BulkOp := []
  opEntries : List (String × PyEntry) := []
  lastKey : Option String := none
  safeKey : Option String := none

def PushLoop.append (l : PushLoop) (op : BulkOp) (item : String × PyEntry) : PushLoop :=
  { l with ops := l.ops ++ [op], opEntries := l.opEntries ++ [item] }

def stageEntry (l : PushLoop) (item : String × PyEntry) : SyncOp PushLoop :=
  let entry := item.2
  if entry.op = "insert" then
    match entry.payload with
    | none => raise (.typeError "'NoneType' object is not iterable")
    | some payload => pure (l.append (stampInsert entry.ts payload) item)
  else if entry.op = "update" then
    match entry.payload with
    | none => raise (.typeError "'NoneType' object is not iterable")
    | some payload => do
      let op ← ofExcept (stampUpdate entry.ts entry.docId payload)
      pure (l.append op item)
  else if entry.op = "delete" then do
    markDeleted entry.docId
    pure (l.append (.deleteOne entry.docId) item)
  else if entry.op = "index_create" then
    match entry.payload with
    | none => raise (.attributeError "'NoneType' object has no attribute 'get'")
    | some payload => do
      (createIndex ns payload).rescue fun e => if e.isPyMongo then some (pure ()) else none
      pure l
  else if entry.op = "index_drop" then do
    (dropIndex ns entry.docId).rescue fun e => if e.isPyMongo then some (pure ()) else none
    pure l
  else pure l

def flushFull (ns key : String) (l : PushLoop) : SyncOp PushLoop :=
  if cfg.batchSize ≤ l.ops.length then do
    let n ← flushBulk cfg ns l.ops l.opEntries
    pure { l with ops := [], opEntries := [], safeKey := if 0 < n then some key else l.safeKey }
  else pure l

def pushEntry (t : Tracked) (l : PushLoop) (item : String × PyEntry) : SyncOp PushLoop := do
  if ← isExcluded active t item.2 then do
    exclude t.ns item.1
    pure { l with
      lastKey := some item.1
      safeKey := if l.ops.isEmpty then some item.1 else l.safeKey }
  else do
    let l ← stageEntry t.ns l item
    flushFull cfg t.ns item.1 { l with lastKey := some item.1 }

def checkpointName : String := "push:" ++ ns

def advanceCheckpoint (safeKey : Option String) : SyncOp Unit :=
  match safeKey.filter (· ≠ "") with
  | none => pure ()
  | some key =>
    if cfg.oplogAutoCompact then checkpointTruncate (checkpointName ns) ns key
    else setCheckpoint (checkpointName ns) key

def flushRest (l : PushLoop) : SyncOp (Option String) :=
  if l.ops.isEmpty then pure l.safeKey
  else do
    let n ← flushBulk cfg ns l.ops l.opEntries
    pure (if 0 < n then l.lastKey else l.safeKey)

def resyncCheckpoints : List String :=
  [checkpointName ns, "pull_ts:" ++ ns, "pull_cs_init:" ++ ns, "pull_cs_page:" ++ ns,
    "pull_cs_token:" ++ ns]

def resetCheckpoints : SyncOp ℕ :=
  (resyncCheckpoints ns).foldlM
    (fun failures name => (do removeCheckpoint name; pure failures).rescue fun e =>
      some (pure (if e.isStorage then failures else failures + 1))) 0

def forceFullResync : SyncOp Unit := do
  let failures ← resetCheckpoints ns
  if failures = 0 then do
    let cleared ← (do clearLocal ns; pure true).rescue fun _ => some (pure false)
    if cleared then (pullAll ns).rescue fun _ => some (pure ()) else pure ()
  else pure ()

def handleOplogOverflow : SyncOp Unit :=
  match cfg.overflowStrategy with
  | .error => raise (.runtimeError ("Oplog overflow for " ++ ns ++
      ": checkpoint references truncated entries. " ++
      "Set overflow_strategy='server_wins' to auto-recover."))
  | .serverWins => forceFullResync ns

def hasOverflowed : Option String → SyncOp Bool
  | none => pure false
  | some checkpoint => do
    let oldest ← (oldestKey ns).rescue fun _ => some (pure none)
    pure (oldest.any (checkpoint < ·))

def pushNamespace (t : Tracked) : SyncOp Unit := do
  let checkpoint ← getCheckpoint (checkpointName t.ns)
  if ← hasOverflowed t.ns checkpoint then handleOplogOverflow cfg t.ns
  else do
    let entries ← SyncOp.readFrom t.ns checkpoint
    if entries.isEmpty then pushIndexDefs t.ns
    else do
      let l ← entries.foldlM (pushEntry cfg active t) {}
      let safeKey ← flushRest cfg t.ns l
      advanceCheckpoint cfg t.ns safeKey
      pushIndexDefs t.ns

def push (tracked : List Tracked) : List (List (SyncOp Unit)) :=
  if tracked.isEmpty then [[sweepDlq cfg tracked]]
  else if cfg.pushConcurrency ≤ 1 ∨ tracked.length ≤ 1 then
    [[do sweepDlq cfg tracked
         tracked.forM (pushNamespace cfg active)]]
  else [[sweepDlq cfg tracked], tracked.map (pushNamespace cfg active)]

end

/-- The store, the threads of the cycle that is going on, and its later stages. -/
structure SyncSystem (ρ : Type) where
  store : SyncStore ρ
  threads : List (SyncOp Unit) := []
  later : List (List (SyncOp Unit)) := []

inductive SyncEvent (χ ρ : Type)
  /-- A push cycle begins, with the filters and namespaces of the moment. -/
  | begin (active : Option SyncFilter) (tracked : List Tracked)
  | step (thread : ℕ) (x : χ)
  /-- All threads have ended: the next stage, unless one has raised. -/
  | join
  | append (ns key : String) (entry : PyEntry) (outside : ρ)
  | crash

def SyncStore.endCycle {ρ : Type} (s : SyncStore ρ) : SyncStore ρ :=
  { s with passed := fun ns => (s.checkpoints (checkpointName ns)).toList }

namespace SyncSystem

variable {χ ρ : Type} (o : Outside χ ρ) (cfg : SyncConfig)

def step (σ : SyncSystem ρ) : SyncEvent χ ρ → SyncSystem ρ
  | .begin active tracked =>
    if σ.threads.isEmpty && σ.later.isEmpty then
      match push cfg active tracked with
      | [] => σ
      | threads :: later => { σ with threads, later }
    else σ
  | .step i x =>
    match σ.threads[i]? with
    | none => σ
    | some p =>
      let out := p.turn (SyncStore.answer o) x σ.store
      { σ with store := out.2, threads := σ.threads.set i out.1 }
  | .join =>
    if σ.threads.all isDone then
      match σ.later with
      | threads :: later =>
        if σ.threads.all fun p => p.failure.isNone then { σ with threads, later }
        else { store := σ.store.endCycle }
      | [] => { store := σ.store.endCycle }
    else σ
  | .append ns key entry outside => { σ with store := σ.store.append ns key entry outside }
  | .crash => { store := σ.store.endCycle }

end SyncSystem

end Smongo

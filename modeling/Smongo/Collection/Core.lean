import Smongo.Oplog.Hub
import Smongo.Storage.Redb
import Smongo.Update.Apply

/-!
# Collections

A handle names the tables of a collection; the world is what its operations change.
-/

namespace Smongo

open Eff StorageSession

inductive CollectionError
  | storageError (e : StorageError)
  | serializationError (msg : String)
  | deserializationError (msg : String)
  | queryError (msg : String)
  | updateError (msg : String)
  | missingIdError
  | uniqueConstraintViolation (msg : String)
  | invalidIndexSpec (msg : String)
  | indexAlreadyExists (name : String)
  | other (msg : String)
deriving DecidableEq

/-- The fields of a `Collection` that its operations do not change. -/
structure Handle where
  tableName : String
  collectionName : String
  validator : Option Document := none
  oplog : Option CollectionOplogSettings := none

namespace Handle

variable (c : Handle)

def indexTable (name : String) : String := c.collectionName ++ ".idx_" ++ name

def textTable (name : String) : String := c.collectionName ++ ".ftx_" ++ name

def prefixTable (name : String) : String := c.collectionName ++ ".pfx_" ++ name

def metadataTable : String := c.collectionName ++ ".indexes_metadata"

end Handle

structure World (S : Type) where
  session : S
  indexCache : Option (List IndexSpec)
  ticks : ℕ
  /-- A collection whose oplog has no hub is one whose hub has no listeners. -/
  hub : OplogHub

abbrev Op (S α : Type) := Eff (World S) CollectionError α

abbrev RedbWorld := World RedbSession

abbrev RedbOp (α : Type) := Op RedbSession α

def extractEqualityFields (filter : Document) : Document :=
  filter.filter fun (key, value) =>
    !startsWithDollar key && match value with
      | .document inner => !(inner.any fun f => startsWithDollar f.1)
      | _ => true

variable (env : Env)

def idString : Bson → String
  | .objectId oid => oid.toHex
  | .string s => s
  | .int32 n => toString n.toInt
  | .int64 n => toString n.toInt
  | other => env.display other

def extractIdString (doc : Document) : Outcome CollectionError String :=
  match doc.get "_id" with
  | some id => .ok (idString env id)
  | none => .error .missingIdError

def serializeDocument (doc : Document) : Outcome CollectionError Bytes :=
  (Outcome.ofExcept (env.toWriter doc)).mapError .serializationError

def deserializeDocument (bytes : Bytes) : Outcome CollectionError Document :=
  (Outcome.ofExcept (env.fromReader bytes)).mapError .deserializationError

def buildSeekPrefix (indexKeys seekValues : Document) : Bytes :=
  extractIndexKey seekValues (indexKeys.takeWhile fun f => seekValues.containsKey f.1)

def insertSorted (name : String) : List String → List String
  | [] => [name]
  | n :: rest =>
    if name < n then name :: n :: rest
    else if name = n then n :: rest
    else n :: insertSorted name rest

def docTopLevelChanged (before after : Document) : List String :=
  let names := (before.keys ++ after.keys).filter (· ≠ "_id")
  (names.foldl (fun out name => insertSorted name out) []).filter fun k =>
    match before.get k, after.get k with
    | some a, some b => !a.eq b
    | none, none => false
    | _, _ => true

section

variable {S C : Type} [StorageCursor C] [StorageSession S C] (env : Env) (c : Handle)

def onSession {α : Type} (m : Eff S StorageError α) : Op S α :=
  mapError .storageError (zoom World.session (fun s w => { w with session := s }) m)

def liftStorage {α : Type} (r : Except StorageError α) : Op S α :=
  ofOutcome ((Outcome.ofExcept r).mapError .storageError)

def move {α : Type} (f : C → S → Except StorageError α × C) (cursor : C) :
    Op S (Except StorageError α × C) :=
  read fun w => f cursor w.session

def draw : Op S ℕ := do
  let tick ← read World.ticks
  modify fun w => { w with ticks := w.ticks + 1 }
  pure tick

def openTable (name : String) : Op S C := onSession (openCursor name)

def putRow (name : String) (key value : Bytes) : Op S Unit := do
  let cursor ← openTable name
  let cursor := StorageCursor.setValue (StorageCursor.setKey cursor key) value
  onSession (insert cursor)

def removeIfFound (name : String) (key : Bytes) : Op S Unit := do
  let cursor ← openTable name
  let (found, cursor) ← move search (StorageCursor.setKey cursor key)
  match found with
  | .ok () => onSession (remove cursor)
  | .error _ => pure ()

/-- `while cursor.next().is_ok() { body }`. -/
def whileNext {β : Type} (body : C → β → Op S (Bool × C × β)) : ℕ → C → β → Op S β
  | 0, _, acc => pure acc
  | fuel + 1, cursor, acc => do
    let (moved, cursor) ← move next cursor
    match moved with
    | .error _ => pure acc
    | .ok () => do
      let (goOn, cursor, acc) ← body cursor acc
      if goOn then whileNext body fuel cursor acc else pure acc

def forRows {β : Type} (name : String) (acc : β) (body : C → β → Op S (Bool × C × β)) : Op S β := do
  let cursor ← openTable name
  let rows ← read fun w => rowsLeft cursor w.session
  whileNext body (rows + 1) cursor acc

def withBatchedWrite {α : Type} (f : Op S α) : Op S α := do
  if ← read fun w => inTransaction w.session then f
  else
    onSession beginTransaction
    let r ← attempt f
    modify fun w => { w with indexCache := none }
    match r with
    | .ok v => do
      onSession commitTransaction
      pure v
    | .error e => do
      let _ : Except CollectionError Unit ← attempt (onSession rollbackTransaction)
      fail e

def StorageError.display : StorageError → String
  | .notFound msg => "Storage error: not found: " ++ msg
  | .duplicateKey msg => "Storage error: duplicate key: " ++ msg
  | .other msg => "Storage error: " ++ msg

def oplogError : CollectionError → CollectionError
  | .storageError e => .other ("Oplog storage error: " ++ e.display)
  | e => e

def appendOplog (cfg : CollectionOplogSettings) (op : String) (docId : Bson)
    (payload : Option Document) (opts : AppendOplogOpts) : Op S String := do
  let tick ← draw
  let entry := newOplogEntry env cfg tick op docId payload opts
  match env.toWriter (oplogEntryToDocument entry) with
  | .error e => fail (.other ("Oplog serialization error: " ++ e))
  | .ok buf => do
    mapError oplogError (putRow cfg.oplogTable (Bytes.utf8 (oplogKey env tick)) buf)
    modify fun w => { w with hub := w.hub.notify entry }
    pure (oplogKey env tick)

def appendOplogIfEnabled (op : String) (docId : Bson) (payload : Option Document)
    (internal : Bool) (changedFields : Option (List String)) : Op S Unit :=
  if internal then pure ()
  else
    match c.oplog with
    | none => pure ()
    | some cfg => do
      let _ ← appendOplog env cfg op docId payload { changedFields := changedFields }
      pure ()

def validateDoc (doc : Document) : Op S Unit :=
  match c.validator with
  | none => pure ()
  | some schema =>
    match env.validateDocument doc schema with
    | .ok () => pure ()
    | .error e => fail (.other ("Validation failed: " ++ e))

def ensureId (doc : Document) : Op S (Bson × Document) :=
  match doc.get "_id" with
  | some id => pure (id, doc)
  | none => do
    let id := Bson.objectId (env.objectIdNew (← draw))
    pure (id, doc.insert "_id" id)

end

end Smongo

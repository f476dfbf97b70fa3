import Smongo.Collection.Indexes

/-!
# Inserting, updating and deleting documents

Updates and deletes go through a cursor's snapshot and write back through that cursor.
-/

namespace Smongo

open Eff StorageSession

structure InsertOneResult where
  insertedId : Bson
deriving DecidableEq

structure InsertManyResult where
  insertedIds : List Bson
deriving DecidableEq

structure UpdateResult where
  matchedCount : ℕ
  modifiedCount : ℕ
  upsertedId : Option Bson
deriving DecidableEq

structure DeleteResult where
  deletedCount : ℕ
deriving DecidableEq

structure UpdateOptions where
  upsert : Bool := false
  internal : Bool := false

section

variable {S C : Type} [StorageCursor C] [StorageSession S C] (env : Env) (c : Handle)

def storeNew (doc : Document) (id : Bson) (internal : Bool) : Op S Unit := do
  insertIntoIndexes env c doc
  let docBytes ← ofOutcome (serializeDocument env doc)
  let keyStr ← ofOutcome (extractIdString env doc)
  putRow c.tableName (Bytes.utf8 keyStr) docBytes
  appendOplogIfEnabled env c "insert" id (some doc) internal none

def insertOneInner (document : Document) (internal : Bool) : Op S InsertOneResult := do
  let (insertedId, document) ← ensureId env document
  validateDoc env c document
  storeNew env c document insertedId internal
  pure ⟨insertedId⟩

def insertOne (document : Document) (internal : Bool) : Op S InsertOneResult :=
  withBatchedWrite (insertOneInner env c document internal)

def prepareDocuments : List Document → Op S (List (Bson × Document))
  | [] => pure []
  | doc :: rest => do
    let (id, doc) ← ensureId env doc
    validateDoc env c doc
    let prepared ← prepareDocuments rest
    pure ((id, doc) :: prepared)

def insertPrepared (prepared : List (Bson × Document)) (internal : Bool) :
    Op S InsertManyResult := do
  prepared.forM fun (_, doc) => storeNew env c doc ((doc.get "_id").getD .null) internal
  pure ⟨prepared.map Prod.fst⟩

def insertMany (documents : List Document) (internal : Bool) : Op S InsertManyResult := do
  let prepared ← prepareDocuments env c documents
  withBatchedWrite (insertPrepared env c prepared internal)

variable (filter : Document)

def readMatch (cursor : C) : Op S (Document × Bool) := do
  let docBytes ← liftStorage (StorageCursor.getValueRaw cursor)
  let doc ← ofOutcome (deserializeDocument env docBytes)
  let hit ← ofOutcome ((evalQuery env doc filter).mapError .queryError)
  pure (doc, hit)

def writeBack (update : Document) (internal : Bool) (cursor : C) (original doc : Document) :
    Op S C := do
  updateInIndexes env c original doc
  let updatedBytes ← ofOutcome (serializeDocument env doc)
  let cursor := StorageCursor.setValue cursor updatedBytes
  onSession (StorageSession.update cursor)
  match doc.get "_id" with
  | none => fail .missingIdError
  | some id => do
    appendOplogIfEnabled env c "update" id (some update) internal
      (some (docTopLevelChanged original doc))
    pure cursor

def updateRow (update : Document) (internal : Bool) (cursor : C) (original : Document) :
    Op S (C × Bool) := do
  let tick ← draw
  let doc ← ofOutcome ((applyUpdate env tick original update).mapError .updateError)
  if doc.eq original then pure (cursor, false)
  else do
    let cursor ← writeBack env c update internal cursor original doc
    pure (cursor, true)

variable (once : Bool)

/-- The loop body of `update_one` (`once`) and `update_many`, counting matched and modified. -/
def updateBody (filter update : Document) (internal : Bool) (cursor : C)
    (counts : ℕ × ℕ) : Op S (Bool × C × ℕ × ℕ) := do
  let (doc, hit) ← readMatch env filter cursor
  if hit then do
    let (cursor, modified) ← updateRow env c update internal cursor doc
    pure (!once, cursor, counts.1 + 1, if modified then counts.2 + 1 else counts.2)
  else pure (true, cursor, counts)

def upsertBase : Op S Document := do
  let newDoc := extractEqualityFields filter
  if newDoc.containsKey "_id" then pure newDoc
  else do
    let tick ← draw
    pure (newDoc.insert "_id" (.objectId (env.objectIdNew tick)))

def upsertNew (filter update : Document) (internal : Bool) : Op S UpdateResult := do
  let base ← upsertBase env filter
  let tick ← draw
  let newDoc ← ofOutcome ((applyUpdateForUpsert env tick base update).mapError .updateError)
  let _ ← insertOneInner env c newDoc internal
  pure ⟨0, 0, some ((newDoc.get "_id").getD .null)⟩

def updateInner (filter update : Document) (options : UpdateOptions) : Op S UpdateResult := do
  let (matched, modified) ←
    forRows c.tableName (0, 0) (updateBody env c once filter update options.internal)
  if matched = 0 ∧ options.upsert then upsertNew env c filter update options.internal
  else pure ⟨matched, modified, none⟩

def updateOne (filter update : Document) (options : UpdateOptions) : Op S UpdateResult :=
  withBatchedWrite (updateInner env c true filter update options)

def updateMany (filter update : Document) (options : UpdateOptions) : Op S UpdateResult :=
  withBatchedWrite (updateInner env c false filter update options)

variable (internal : Bool)

def deleteRow (cursor : C) (doc : Document) : Op S Unit :=
  match doc.get "_id" with
  | none => fail .missingIdError
  | some id => do
    removeFromIndexes env c doc
    onSession (remove cursor)
    appendOplogIfEnabled env c "delete" id none internal none

def deleteBody (filter : Document) (internal : Bool) (cursor : C) (count : ℕ) :
    Op S (Bool × C × ℕ) := do
  let (doc, hit) ← readMatch env filter cursor
  if hit then do
    deleteRow env c internal cursor doc
    pure (!once, cursor, count + 1)
  else pure (true, cursor, count)

def deleteInner (filter : Document) (internal : Bool) : Op S DeleteResult := do
  let count ← forRows c.tableName 0 (deleteBody env c once filter internal)
  pure ⟨count⟩

def deleteOne : Op S DeleteResult := withBatchedWrite (deleteInner env c true filter internal)

def deleteMany : Op S DeleteResult := withBatchedWrite (deleteInner env c false filter internal)

def withTransaction {α : Type} (f : Op S α) : Op S α := do
  onSession beginTransaction
  match ← attempt f with
  | .ok result => do
    onSession commitTransaction
    pure result
  | .error e => do
    ignoreError (onSession rollbackTransaction)
    fail e

end

end Smongo

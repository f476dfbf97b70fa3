import Smongo.Collection.Core

/-!
# Index maintenance

Creating, listing and dropping indexes, and keeping them in step with the documents.
-/

namespace Smongo

open Bytes Eff StorageSession StorageCursor

def hex16 (n : ℕ) : String :=
  let digit := fun d => if d < 10 then Char.ofNat (48 + d) else Char.ofNat (55 + d)
  String.ofList ((List.range 16).reverse.map fun i => digit (n / 16 ^ i % 16))

variable (env : Env)

def twodsphereIndexKey (doc keys : Document) : Option Bytes :=
  match twodsphereField keys with
  | none => none
  | some field =>
    match env.pointCell (getValue doc field), doc.get "_id" with
    | some cell, some id => some (utf8 (hex16 cell ++ "|" ++ idString env id))
    | _, _ => none

def combinedKey (indexKeyBytes : Bytes) (idStr : String) : Bytes := indexKeyBytes ++ utf8 idStr

def textRowKey (token idStr : String) : Bytes := utf8 token ++ [0xFE] ++ utf8 idStr

def truncateKey (key : Bytes) (prefixLength : ℕ) : Bytes := key.take prefixLength

def tokenize (text : String) : List String := env.wordMatches (env.toLowercase text)

def documentTokens (doc keys : Document) : List String :=
  (textFields keys).flatMap fun field =>
    match getValue doc field with
    | some (.string text) => tokenize env text
    | _ => []

variable (doc : Document)

def prefixRowKey (spec : IndexSpec) (idStr : String) : Bytes :=
  let prefixLength := (spec.options.prefixOptions.map PrefixOptions.prefixLength).getD 32
  truncateKey (extractIndexKey doc spec.keys) prefixLength ++ utf8 idStr

def specIndexKey (spec : IndexSpec) : Bytes :=
  extractIndexKeyWithCollation doc spec.keys (spec.options.collation.map env.collationIndexKey)

def fieldNames (keys : Document) : String := ", ".intercalate (keys.keys)

def partialAdmits (options : IndexOptions) : Outcome CollectionError Bool :=
  match options.partialFilterExpression with
  | none => .ok true
  | some pfe => if pfe.isEmpty then .ok true else (evalQuery env doc pfe).unwrapOr false

def twodsphereError (keys : Document) : CollectionError :=
  .other ("2dsphere indexed field '" ++ (twodsphereField keys).getD "?" ++
    "' must be a GeoJSON Point or [longitude, latitude] array")

section

variable {S C : Type} [StorageCursor C] [StorageSession S C] (env : Env) (c : Handle)

def indexHasPrefix (cursor : C) (pre : Bytes) : Op S Bool := do
  let (sought, cursor) ← move searchNear (StorageCursor.setKey cursor pre)
  match sought with
  | .error _ => pure false
  | .ok exact =>
    if exact < 0 then do
      let (moved, cursor) ← move next cursor
      match moved with
      | .error _ => pure false
      | .ok () => do
        let found ← liftStorage (getKeyRaw cursor)
        pure (pre.isPrefixOf found)
    else do
      let found ← liftStorage (getKeyRaw cursor)
      pure (pre.isPrefixOf found)

def listIndexesBody (cursor : C) (specs : List IndexSpec) : Op S (Bool × C × List IndexSpec) := do
  let specBytes ← liftStorage (getValueRaw cursor)
  match env.specFromSlice specBytes with
  | .ok spec => pure (true, cursor, specs ++ [spec])
  | .error e => fail (.other ("Failed to deserialize index spec: " ++ e))

def listIndexes : Op S (List IndexSpec) := do
  match ← read World.indexCache with
  | some cached => pure cached
  | none => do
    let specs ← forRows c.metadataTable [] (listIndexesBody env)
    modify fun w => { w with indexCache := some specs }
    pure specs

def invalidateIndexCache : Op S Unit := modify fun w => { w with indexCache := none }

variable (doc : Document)

def insertIntoTwoDSphere (idStr : String) (spec : IndexSpec) : Op S Unit :=
  match twodsphereIndexKey env doc spec.keys with
  | some key => putRow (c.indexTable spec.name) key (utf8 idStr)
  | none => if spec.options.sparse then pure () else fail (twodsphereError spec.keys)

variable (spec : IndexSpec)

def keyTaken (key : Bytes) : Op S Bool :=
  if spec.options.unique then do
    let cursor : C ← openTable (c.indexTable spec.name)
    indexHasPrefix cursor key
  else pure false

def duplicateKeyError : CollectionError :=
  .uniqueConstraintViolation
    ("Duplicate key for index '" ++ spec.name ++ "' on fields: " ++ fieldNames spec.keys)

variable (idStr : String)

def insertIntoBTree (spec : IndexSpec) : Op S Unit := do
  let key := specIndexKey env doc spec
  if ← keyTaken c spec key then fail (duplicateKeyError spec)
  else putRow (c.indexTable spec.name) (combinedKey key idStr) (utf8 idStr)

def ignoreError {α : Type} (m : Op S α) : Op S Unit := do
  let _ : Except CollectionError α ← attempt m
  pure ()

def insertIntoIndexesSingle (spec : IndexSpec) : Op S Unit := do
  if ← ofOutcome (partialAdmits env doc spec.options) then
    match resolveIndexType spec.keys spec.options with
    | .twoDSphere => insertIntoTwoDSphere env c doc idStr spec
    | .bTree => insertIntoBTree env c doc idStr spec
    | .text =>
      (documentTokens env doc spec.keys).forM fun token =>
        ignoreError (putRow (c.textTable spec.name) (textRowKey token idStr) (utf8 idStr))
    | .vectorSearch => pure ()
    | .bitmap => pure ()
    | .prefixed =>
      ignoreError (putRow (c.prefixTable spec.name) (prefixRowKey doc spec idStr) (utf8 idStr))
  else pure ()

def removeFromIndexesSingle (spec : IndexSpec) : Op S Unit :=
  match resolveIndexType spec.keys spec.options with
  | .twoDSphere =>
    match twodsphereIndexKey env doc spec.keys with
    | some key => removeIfFound (c.indexTable spec.name) key
    | none => pure ()
  | .bTree => removeIfFound (c.indexTable spec.name) (combinedKey (specIndexKey env doc spec) idStr)
  | .text =>
    (documentTokens env doc spec.keys).forM fun token =>
      ignoreError (removeIfFound (c.textTable spec.name) (textRowKey token idStr))
  | .vectorSearch => pure ()
  | .bitmap => pure ()
  | .prefixed => ignoreError (removeIfFound (c.prefixTable spec.name) (prefixRowKey doc spec idStr))

/-- Rows of a B-tree index whose key and id do not change are left alone. -/
def updateInIndexesSingle (oldDoc newDoc : Document) (oldIdStr newIdStr : String)
    (spec : IndexSpec) : Op S Unit :=
  if resolveIndexType spec.keys spec.options = .bTree ∧
      specIndexKey env oldDoc spec = specIndexKey env newDoc spec ∧ oldIdStr = newIdStr then
    pure ()
  else do
    removeFromIndexesSingle env c oldDoc oldIdStr spec
    insertIntoIndexesSingle env c newDoc newIdStr spec

def insertIntoIndexes : Op S Unit := do
  let indexes ← listIndexes env c
  let idStr ← ofOutcome (extractIdString env doc)
  indexes.forM (insertIntoIndexesSingle env c doc idStr)

def removeFromIndexes : Op S Unit := do
  let indexes ← listIndexes env c
  let idStr ← ofOutcome (extractIdString env doc)
  indexes.forM (removeFromIndexesSingle env c doc idStr)

def updateInIndexes (oldDoc newDoc : Document) : Op S Unit := do
  let indexes ← listIndexes env c
  let oldIdStr ← ofOutcome (extractIdString env oldDoc)
  let newIdStr ← ofOutcome (extractIdString env newDoc)
  indexes.forM (updateInIndexesSingle env c oldDoc newDoc oldIdStr newIdStr)

variable (name : String) (keys : Document) (options : IndexOptions)

/-- `seen` are the keys so far of a unique index.  Unlike the write path, this finds spherical
indexes by the key document alone, and ignores the collation. -/
def rebuildRow (doc : Document) (idStr : String) (seen : List Bytes) : Op S (List Bytes) := do
  if ← ofOutcome (partialAdmits env doc options) then
    if is2dsphereKeys keys then
      match twodsphereIndexKey env doc keys with
      | some key => do
        putRow (c.indexTable name) key (utf8 idStr)
        pure seen
      | none => if options.sparse then pure seen else fail (twodsphereError keys)
    else
      let key := extractIndexKey doc keys
      if options.unique && seen.contains key then
        fail (.uniqueConstraintViolation ("Duplicate key for index on fields: " ++ fieldNames keys))
      else do
        putRow (c.indexTable name) (combinedKey key idStr) (utf8 idStr)
        pure (key :: seen)
  else pure seen

def rebuildBody (cursor : C) (seen : List Bytes) : Op S (Bool × C × List Bytes) := do
  let docBytes ← liftStorage (getValueRaw cursor)
  let doc ← ofOutcome (deserializeDocument env docBytes)
  let idStr ← ofOutcome (extractIdString env doc)
  let seen ← rebuildRow env c name keys options doc idStr seen
  pure (true, cursor, seen)

def rebuildIndex : Op S Unit := do
  let _ ← forRows c.tableName [] (rebuildBody env c name keys options)
  pure ()

def newIndexName : Outcome CollectionError String :=
  match options.name with
  | none => .ok (generateIndexName keys)
  | some n =>
    if trim n = "" then .ok (generateIndexName keys)
    else
      match validateCustomIndexName env.debugStr (trim n) with
      | .ok () => .ok (trim n)
      | .error e => .error (.invalidIndexSpec e)

/-- What `create_index` checks before it touches the storage. -/
def checkNewIndex : Outcome CollectionError String :=
  if keys.isEmpty then .error (.invalidIndexSpec "Index keys cannot be empty")
  else do
    let name ← newIndexName env keys options
    if is2dsphereKeys keys && options.unique then
      .error (.invalidIndexSpec "unique 2dsphere indexes are not supported")
    else .ok name

def registerIndex (specBytes : Bytes) : Op S String := do
  putRow c.metadataTable (utf8 spec.name) specBytes
  rebuildIndex env c spec.name spec.keys spec.options
  appendOplogIfEnabled env c "index_create" (.string spec.name) (env.specToDocument spec) false none
  pure spec.name

def buildIndex : Op S String := do
  onSession (createTable (c.indexTable spec.name))
  onSession (createTable c.metadataTable)
  match env.specToVec spec with
  | .error e => fail (.other ("Failed to serialize index spec: " ++ e))
  | .ok specBytes => registerIndex env c spec specBytes

/-- `create_index` begins and ends a transaction of its own, also inside another one. -/
def createMissingIndex : Op S String := do
  onSession beginTransaction
  let r ← attempt (buildIndex env c spec)
  invalidateIndexCache
  match r with
  | .ok v => do
    onSession commitTransaction
    pure v
  | .error e => do
    ignoreError (onSession rollbackTransaction)
    fail e

/-- An existing index of the name must have the same keys; its options are not compared. -/
def createUnlessExists (existing : List IndexSpec) (spec : IndexSpec) : Op S String :=
  match existing.find? fun s => s.name = spec.name with
  | some found =>
    if found.keys.eq spec.keys then pure spec.name
    else fail (.indexAlreadyExists spec.name)
  | none => createMissingIndex env c spec

def createIndex (options : Option IndexOptions) : Op S String := do
  let opts := options.getD {}
  let name ← ofOutcome (checkNewIndex env keys opts)
  let existing ← listIndexes env c
  createUnlessExists env c existing ⟨name, keys, { opts with name := none }⟩

def dropIndexNamed : Op S Unit := do
  onSession (onSibling (dropTable (c.indexTable name)))
  removeIfFound c.metadataTable (utf8 name)
  invalidateIndexCache
  appendOplogIfEnabled env c "index_drop" (.string name) none false none

/-- `"*"` drops every index.  An index named `"*"` makes the source recurse until the stack
overflows: the fuel is used up. -/
def dropIndex : ℕ → String → Op S Unit
  | 0, _ => ofOutcome .panic
  | fuel + 1, name =>
    if name = "*" then do
      let indexes ← listIndexes env c
      indexes.forM fun spec => if spec.name = "_id_" then pure () else dropIndex fuel spec.name
    else dropIndexNamed env c name

end

end Smongo

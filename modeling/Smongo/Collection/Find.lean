import Smongo.Collection.Indexes

/-!
# Finding documents

`find` runs a plan as a cursor; index cursors fetch each document by a point lookup.
-/

namespace Smongo

open StorageSession StorageCursor

inductive FindCursorState (C : Type)
  | collectionScan (cursor : C)
  | indexScan (indexCursor dataCursor : C)
  | indexSeek (indexCursor dataCursor : C) (seekKey : Bytes) (positioned : Bool)
  | materialized (docs : List Document)

abbrev PlanRunner := ExecutionPlan → Document → RedbOp (List Document)

/-- What one turn of the loop in `find_cursor_next` comes to. -/
inductive FindStep
  | finished
  | skip
  | item (doc : Outcome CollectionError Document)

section

variable {S C : Type} [StorageCursor C] [StorageSession S C] (env : Env) (c : Handle)

def fetchDocByIdStr (id : String) : Op S (Option Document) := do
  let dataCursor ← openTable c.tableName
  let (found, dataCursor) ← move search (StorageCursor.setKey dataCursor (Bytes.utf8 id))
  match found with
  | .error _ => pure none
  | .ok () => do
    let docBytes ← liftStorage (getValueRaw dataCursor)
    let doc ← Eff.ofOutcome (deserializeDocument env docBytes)
    pure (some doc)

variable (filter : Document)

def offerDocument (value : Except StorageError Bytes) : FindStep :=
  match value with
  | .error e => .item (.error (.storageError e))
  | .ok docBytes =>
    match deserializeDocument env docBytes with
    | .ok doc =>
      match evalQuery env doc filter with
      | .ok true => .item (.ok doc)
      | .ok false => .skip
      | .error e => .item (.error (.queryError e))
      | .panic => .item .panic
    | .error e => .item (.error e)
    | .panic => .item .panic

def offerByIndexRow (s : S) (indexCursor dataCursor : C) : FindStep × C :=
  match getValueStr indexCursor with
  | .error e => (.item (.error (.storageError e)), dataCursor)
  | .ok idStr =>
    match search (StorageCursor.setKey dataCursor (Bytes.utf8 idStr)) s with
    | (.error _, dataCursor) => (.skip, dataCursor)
    | (.ok (), dataCursor) => (offerDocument env filter (getValueRaw dataCursor), dataCursor)

/-- Position the index cursor of a seek: on the first row not before the seek key at the start, on
the next row afterwards. -/
def advanceSeek (s : S) (indexCursor : C) (seekKey : Bytes) (positioned : Bool) : Option C :=
  if positioned then
    match next indexCursor s with
    | (.ok (), cursor) => some cursor
    | (.error _, _) => none
  else
    match searchNear (StorageCursor.setKey indexCursor seekKey) s with
    | (.error _, _) => none
    | (.ok exact, cursor) =>
      if exact < 0 then
        match next cursor s with
        | (.ok (), cursor) => some cursor
        | (.error _, _) => none
      else some cursor

def findStep (s : S) : FindCursorState C → FindStep × FindCursorState C
  | .collectionScan cursor =>
    match next cursor s with
    | (.error _, cursor) => (.finished, .collectionScan cursor)
    | (.ok (), cursor) => (offerDocument env filter (getValueRaw cursor), .collectionScan cursor)
  | .indexScan indexCursor dataCursor =>
    match next indexCursor s with
    | (.error _, indexCursor) => (.finished, .indexScan indexCursor dataCursor)
    | (.ok (), indexCursor) =>
      let (step, dataCursor) := offerByIndexRow env filter s indexCursor dataCursor
      (step, .indexScan indexCursor dataCursor)
  | .indexSeek indexCursor dataCursor seekKey positioned =>
    match advanceSeek s indexCursor seekKey positioned with
    | none => (.finished, .indexSeek indexCursor dataCursor seekKey true)
    | some indexCursor =>
      match getKeyRaw indexCursor with
      | .error e =>
        (.item (.error (.storageError e)), .indexSeek indexCursor dataCursor seekKey true)
      | .ok indexKeyRaw =>
        if seekKey.isPrefixOf indexKeyRaw then
          let (step, dataCursor) := offerByIndexRow env filter s indexCursor dataCursor
          (step, .indexSeek indexCursor dataCursor seekKey true)
        else (.finished, .indexSeek indexCursor dataCursor seekKey true)
  | .materialized [] => (.finished, .materialized [])
  | .materialized (doc :: docs) => (.item (.ok doc), .materialized docs)

/-- What `find_cursor_next` yields up to the first error.  Its own loop and that of the consumer are
one here. -/
def collectFound (filter : Document) (s : S) :
    ℕ → FindCursorState C → Outcome CollectionError (List Document)
  | 0, _ => .ok []
  | fuel + 1, state =>
    match findStep env filter s state with
    | (.finished, _) => .ok []
    | (.skip, state) => collectFound filter s fuel state
    | (.item r, state) => do
      let doc ← r
      let docs ← collectFound filter s fuel state
      .ok (doc :: docs)

def findFuel (s : S) : FindCursorState C → ℕ
  | .collectionScan cursor => rowsLeft cursor s + 1
  | .indexScan indexCursor _ => rowsLeft indexCursor s + 1
  | .indexSeek indexCursor _ _ _ => rowsLeft indexCursor s + 1
  | .materialized docs => docs.length + 1

variable (executePlan : ExecutionPlan → Document → Op S (List Document))

def findIter (filter : Document) : Op S (FindCursorState C) := do
  let indexes ← listIndexes env c
  match (planQuery env.evaluate2dspherePlan filter indexes).executionPlan with
  | .indexSeek indexName indexKeys seekValues => do
    let indexCursor ← openTable (c.indexTable indexName)
    let dataCursor ← openTable c.tableName
    pure (.indexSeek indexCursor dataCursor (buildSeekPrefix indexKeys seekValues) false)
  | .indexScan indexName _ => do
    let indexCursor ← openTable (c.indexTable indexName)
    let dataCursor ← openTable c.tableName
    pure (.indexScan indexCursor dataCursor)
  | .collectionScan => do
    let cursor ← openTable c.tableName
    pure (.collectionScan cursor)
  | plan => do
    let docs ← executePlan plan filter
    pure (.materialized docs)

def find (filter : Document) : Op S (List Document) := do
  let state ← findIter env c executePlan filter
  let s ← Eff.read World.session
  Eff.ofOutcome (collectFound env filter s (findFuel s state) state)

def findByScan (filter : Document) : Op S (List Document) := do
  let cursor ← openTable c.tableName
  let s ← Eff.read World.session
  let state := FindCursorState.collectionScan cursor
  Eff.ofOutcome (collectFound env filter s (findFuel s state) state)

end

end Smongo

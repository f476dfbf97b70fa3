import Smongo.Collection.Reads

/-!
# Views

A view is a collection inside a transaction that spans several collections.  All views of
a transaction share its session.
-/

namespace Smongo

open Eff

namespace CollectionView

section

variable {S C : Type} [StorageCursor C] [StorageSession S C] (env : Env) (c : Handle)

def listIndexesBody (cursor : C) (specs : List IndexSpec) : Op S (Bool × C × List IndexSpec) := do
  let specBytes ← liftStorage (StorageCursor.getValueRaw cursor)
  match env.specFromSlice specBytes with
  | .ok spec => pure (true, cursor, specs ++ [spec])
  | .error e => fail (.other ("index spec: " ++ e))

def listIndexes : Op S (List IndexSpec) := forRows c.metadataTable [] (listIndexesBody env)

def insertIntoIndexes (doc : Document) : Op S Unit := do
  let indexes ← listIndexes env c
  let idStr ← ofOutcome (extractIdString env doc)
  indexes.forM fun spec =>
    if resolveIndexType spec.keys spec.options = .bTree then insertIntoBTree env c doc idStr spec
    else pure ()

def removeFromIndexes (doc : Document) : Op S Unit := do
  let indexes ← listIndexes env c
  let idStr ← ofOutcome (extractIdString env doc)
  indexes.forM fun spec =>
    if resolveIndexType spec.keys spec.options = .bTree then
      removeIfFound (c.indexTable spec.name) (combinedKey (specIndexKey env doc spec) idStr)
    else pure ()

def insertOne (document : Document) : Op S InsertOneResult := do
  let (insertedId, document) ← ensureId env document
  insertIntoIndexes env c document
  let docBytes ← ofOutcome (serializeDocument env document)
  let keyStr ← ofOutcome (extractIdString env document)
  putRow c.tableName (Bytes.utf8 keyStr) docBytes
  pure ⟨insertedId⟩

/-- Look at the rows that the filter selects; `take` says what a document adds and whether to go
on. -/
def matchBody {β : Type} (filter : Document) (take : Document → β → Bool × β) (cursor : C)
    (acc : β) : Op S (Bool × C × β) := do
  let (doc, hit) ← readMatch env filter cursor
  if hit then
    let (goOn, acc) := take doc acc
    pure (goOn, cursor, acc)
  else pure (true, cursor, acc)

variable (filter : Document)

def findOne : Op S (Option Document) :=
  forRows c.tableName none (matchBody env filter fun doc _ => (false, some doc))

def find : Op S (List Document) :=
  forRows c.tableName [] (matchBody env filter fun doc out => (true, out ++ [doc]))

def countDocuments : Op S ℕ :=
  forRows c.tableName 0 (matchBody env filter fun _ count => (true, count + 1))

def updateRow (update : Document) (cursor : C) (original : Document) : Op S (C × Bool) := do
  let tick ← draw
  let doc ← ofOutcome ((applyUpdate env tick original update).mapError .updateError)
  if doc.eq original then pure (cursor, false)
  else do
    removeFromIndexes env c original
    insertIntoIndexes env c doc
    let updatedBytes ← ofOutcome (serializeDocument env doc)
    let cursor := StorageCursor.setValue cursor updatedBytes
    onSession (StorageSession.update cursor)
    pure (cursor, true)

def updateBody (once : Bool) (filter update : Document) (cursor : C) (counts : ℕ × ℕ) :
    Op S (Bool × C × ℕ × ℕ) := do
  let (doc, hit) ← readMatch env filter cursor
  if hit then do
    let (cursor, modified) ← updateRow env c update cursor doc
    pure (!once, cursor, counts.1 + 1, if modified then counts.2 + 1 else counts.2)
  else pure (true, cursor, counts)

def update (once : Bool) (filter update : Document) : Op S UpdateResult := do
  let (matched, modified) ← forRows c.tableName (0, 0) (updateBody env c once filter update)
  pure ⟨matched, modified, none⟩

def updateOne (filter update : Document) : Op S UpdateResult :=
  CollectionView.update env c true filter update

def updateMany (filter update : Document) : Op S UpdateResult :=
  CollectionView.update env c false filter update

def deleteBody (once : Bool) (filter : Document) (cursor : C) (count : ℕ) :
    Op S (Bool × C × ℕ) := do
  let (doc, hit) ← readMatch env filter cursor
  if hit then do
    removeFromIndexes env c doc
    onSession (StorageSession.remove cursor)
    pure (!once, cursor, count + 1)
  else pure (true, cursor, count)

def delete (once : Bool) (filter : Document) : Op S DeleteResult := do
  let count ← forRows c.tableName 0 (deleteBody env c once filter)
  pure ⟨count⟩

def deleteOne : Op S DeleteResult := delete env c true filter

def deleteMany : Op S DeleteResult := delete env c false filter

end

section

variable {env : Env} {c : Handle} {P W : String → Prop} (hreads : c.Reads P)
include hreads

lemma uses_listIndexes : Uses env c P W (listIndexes env c) := by
  refine uses_forRows hreads.metadata (fun cursor specs hcursor => ?_) []
  refine (uses_liftStorage _).bind fun specBytes _ => ?_
  split
  · exact .pure hcursor
  · exact .fail _

lemma uses_forMatches {β : Type} (filter : Document) (take : Document → β → Bool × β) (acc : β) :
    Uses env c P W (forRows c.tableName acc (matchBody env filter take)) :=
  uses_forRows hreads.data (fun cursor _ hcursor => (uses_readMatch filter cursor).bind fun _ _ =>
    .ite (.pure hcursor) (.pure hcursor)) acc

variable (hindex : ∀ name, W (c.indexTable name))
include hindex

lemma uses_insertIntoIndexes (doc : Document) :
    Uses env c P W (insertIntoIndexes env c doc) :=
  (uses_listIndexes hreads).bind fun specs _ => (Composed.ofOutcome _).bind fun idStr _ =>
    .forM specs fun spec _ => .ite (uses_insertIntoBTree hreads (hindex spec.name) doc idStr)
      (.pure trivial)

lemma uses_removeFromIndexes (doc : Document) :
    Uses env c P W (removeFromIndexes env c doc) :=
  (uses_listIndexes hreads).bind fun specs _ => (Composed.ofOutcome _).bind fun _ _ =>
    .forM specs fun spec _ => .ite
      (uses_removeIfFound (hreads.index spec.name _ (.inl rfl)) (hindex spec.name) _)
      (.pure trivial)

variable (hdata : W c.tableName)
include hdata

lemma uses_insertOne (document : Document) :
    Uses env c P W (insertOne env c document) :=
  (composed_ensureId (.draw _ hdata) document).bind fun r _ =>
    (uses_insertIntoIndexes hreads hindex r.2).bind fun _ _ => (Composed.ofOutcome _).bind
      fun _ _ => (Composed.ofOutcome _).bind fun _ _ =>
      (uses_putRow hdata _ _).map

lemma uses_updateRow (update : Document) {cursor : RedbCursor}
    (hcursor : cursor.tableName = c.tableName) (original : Document) :
    Uses env c P W (updateRow env c update cursor original)
      fun r => r.1.tableName = c.tableName := by
  refine (uses_draw hdata).bind fun _ _ => (Composed.ofOutcome _).bind fun doc _ =>
    .ite (.pure hcursor) ?_
  refine (uses_removeFromIndexes hreads hindex original).bind fun _ _ =>
    (uses_insertIntoIndexes hreads hindex doc).bind fun _ _ =>
      (Composed.ofOutcome _).bind fun bytes _ => ?_
  have hname : W (StorageCursor.setValue cursor bytes).tableName := by
    change W cursor.tableName
    rw [hcursor]
    exact hdata
  exact (uses_insert hname).bind fun _ _ => .pure hcursor

lemma uses_update (once : Bool) (filter update : Document) :
    Uses env c P W (CollectionView.update env c once filter update) := by
  refine (uses_forRows hreads.data (fun cursor counts hcursor => ?_) (0, 0)).bind
    fun _ _ => .pure trivial
  refine (uses_readMatch filter cursor).bind fun r _ => .ite ?_ (.pure hcursor)
  exact (uses_updateRow hreads hindex hdata update hcursor r.1).bind fun _ h => .pure h

lemma uses_delete (once : Bool) (filter : Document) :
    Uses env c P W (delete env c once filter) := by
  refine (uses_forRows hreads.data (fun cursor count hcursor => ?_) 0).map
  refine (uses_readMatch filter cursor).bind fun r _ => .ite ?_ (.pure hcursor)
  exact (uses_removeFromIndexes hreads hindex r.1).bind fun _ _ =>
    (uses_remove (hcursor.symm ▸ hdata)).bind fun _ _ => .pure hcursor

end

end CollectionView

end Smongo

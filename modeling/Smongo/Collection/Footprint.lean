import Smongo.Collection.Calls
import Smongo.Collection.Rows

/-!
# The footprint of an operation

Which tables an operation of a collection reads and which it writes.
-/

namespace Smongo

open Eff RedbCursor RedbSession Composed

namespace RedbSession

/-- The sessions show the same of the tables in `P`. -/
structure SameOn (P : String → Prop) (s t : RedbSession) : Prop where
  inTransaction : s.inTransaction = t.inTransaction
  tables : ∀ name, P name → s.db.tables name = t.db.tables name
  pending : ∀ name, P name → s.pendingWrites.get name = t.pendingWrites.get name

variable {P : String → Prop} {s t : RedbSession}

lemma SameOn.shown (h : SameOn P s t) {name : String} (hname : P name) :
    shown s name = shown t name := by
  unfold RedbCursor.shown view pendingFor Redb.table
  rw [h.tables name hname, h.pending name hname, h.inTransaction]

lemma SameOn.doWrite (h : SameOn P s t) (name : String) (op : PendingWrite) :
    SameOn P (doWrite name op s).2 (doWrite name op t).2 := by
  simp only [RedbSession.doWrite, modify_apply]
  rw [← h.inTransaction]
  split
  · refine ⟨rfl, h.tables, fun name' hname' => ?_⟩
    simp only [OrderedTable.get_insert, pendingFor]
    split
    · next heq =>
      subst heq
      rw [h.pending _ hname']
    · exact h.pending name' hname'
  · refine ⟨rfl, fun name' hname' => ?_, h.pending⟩
    change Redb.writeTable s.db.tables name [op] name' = Redb.writeTable t.db.tables name [op] name'
    simp only [Redb.writeTable, Function.update_apply]
    split
    · next heq =>
      subst heq
      rw [h.tables _ hname']
    · exact h.tables name' hname'

end RedbSession

namespace RedbCursor

variable {P : String → Prop} {s t : RedbSession} (h : RedbSession.SameOn P s t) {c : RedbCursor}
  (hc : P c.tableName)
include h hc

lemma materialize_congr : c.materialize s = c.materialize t := by
  unfold materialize overlaidRows
  rw [h.tables _ hc, h.pending _ hc, h.inTransaction]

lemma search_congr : StorageSession.search c s = StorageSession.search c t := by
  change c.search s = c.search t
  unfold search
  rw [h.tables _ hc]

lemma next_congr : StorageSession.next c s = StorageSession.next c t := by
  change c.next s = c.next t
  rw [next, next, materialize_congr h hc]

lemma rowsLeft_congr : c.rowsLeft s = c.rowsLeft t := by
  rw [rowsLeft, rowsLeft, materialize_congr h hc]

lemma searchNear_congr : StorageSession.searchNear c s = StorageSession.searchNear c t := by
  change c.searchNear s = c.searchNear t
  have hfresh : materialize { c with entries := none } s =
      materialize { c with entries := none } t :=
    materialize_congr h hc
  rw [searchNear, searchNear, hfresh]

end RedbCursor

/-- The worlds differ at most in tables outside `P` and, as long as there is nothing to write, in
the fresh values to come. -/
structure World.SameOn (P W : String → Prop) (w w' : RedbWorld) : Prop where
  session : RedbSession.SameOn P w.session w'.session
  indexCache : w.indexCache = w'.indexCache
  ticks : ∀ name, W name → w.ticks = w'.ticks

variable (c : Handle)

def Handle.OfIndex (name table : String) : Prop :=
  table = c.indexTable name ∨ table = c.textTable name ∨ table = c.prefixTable name

/-- The table in which writes keep the rows of an index.  Bitmap and vector indexes have none. -/
def Handle.Maintains (spec : IndexSpec) (table : String) : Prop :=
  match resolveIndexType spec.keys spec.options with
  | .bTree | .twoDSphere => table = c.indexTable spec.name
  | .text => table = c.textTable spec.name
  | .prefixed => table = c.prefixTable spec.name
  | .vectorSearch | .bitmap => False

lemma Handle.Maintains.ofIndex {c : Handle} {spec : IndexSpec} {table : String}
    (h : c.Maintains spec table) : c.OfIndex spec.name table := by
  unfold Maintains at h
  split at h
  · exact .inl h
  · exact .inl h
  · exact .inr (.inl h)
  · exact .inr (.inr h)
  · exact h.elim
  · exact h.elim

/-- The table of the oplog, if the collection has one, is in `P`. -/
def Handle.OplogIn (P : String → Prop) : Prop := ∀ cfg ∈ c.oplog, P cfg.oplogTable

/-- `P` has the tables that operations on the collection read. -/
structure Handle.Reads (c : Handle) (P : String → Prop) : Prop where
  data : P c.tableName
  metadata : P c.metadataTable
  index : ∀ name t, c.OfIndex name t → P t

lemma Handle.reads_all : c.Reads fun _ => True := ⟨trivial, trivial, fun _ _ _ => trivial⟩

/-- What the operations on documents are composed of. -/
inductive Primitive (env : Env) (c : Handle) (P W : String → Prop) :
    ∀ α : Type, RedbOp α → (α → Prop) → Prop
  | draw (name : String) (h : W name) : Primitive env c P W ℕ draw fun _ => True
  | list (h : P c.metadataTable) : Primitive env c P W (List IndexSpec) (listIndexes env c)
      fun _ => True
  | look {α : Type} {Q : α → Prop} (g : RedbSession → Outcome CollectionError α)
      (hsame : ∀ s t, RedbSession.SameOn P s t → g s = g t) (hq : ∀ s a, g s = .ok a → Q a) :
      Primitive env c P W α (fun w => (g w.session, w)) Q
  | write (name : String) (op : PendingWrite) (h : W name) :
      Primitive env c P W Unit (onSession (doWrite name op)) fun _ => True
  | notify (cfg : CollectionOplogSettings) (hcfg : cfg ∈ c.oplog) (h : W cfg.oplogTable)
      (entry : OplogEntry) : Primitive env c P W Unit (modify
        fun w => { w with hub := w.hub.notify entry })
        fun _ => True

/-- The computation looks at tables in `P` and writes to tables in `W` only. -/
abbrev Uses (env : Env) (c : Handle) (P W : String → Prop) {α : Type} (m : RedbOp α)
    (Q : α → Prop := fun _ => True) : Prop :=
  Composed (Primitive env c P W) m Q

section

variable {env : Env} {c : Handle} {P W : String → Prop} {α β : Type}

/-- Worlds that differ in tables not looked at give equal outcomes, and still differ only there. -/
lemma Uses.respects {m : RedbOp α} {Q : α → Prop} (h : Uses env c P W m Q) :
    Respects (World.SameOn P W) m Q := by
  refine Composed.respects (fun {α m Q} hprim => ?_) h
  intro w w' hw
  cases hprim with
  | draw name hname =>
    have hticks := hw.ticks name hname
    refine ⟨congrArg Outcome.ok hticks, ⟨hw.session, hw.indexCache, fun _ _ => ?_⟩,
      fun _ _ => trivial⟩
    exact congrArg (· + 1) hticks
  | list hmetadata =>
    have hlisted : listed env c w = listed env c w' := by
      unfold listed
      rw [hw.indexCache, hw.session.shown hmetadata]
    rw [listIndexes_apply, listIndexes_apply, ← hlisted]
    refine ⟨rfl, ?_, fun _ _ => trivial⟩
    cases listed env c w with
    | ok specs => exact ⟨hw.session, rfl, hw.ticks⟩
    | error e | panic => exact hw
  | look g hsame hq => exact ⟨hsame _ _ hw.session, hw, hq _⟩
  | write name op _ =>
    exact ⟨rfl, ⟨hw.session.doWrite name op, hw.indexCache, hw.ticks⟩, fun _ _ => trivial⟩
  | notify cfg hcfg h entry =>
    exact ⟨rfl, ⟨hw.session, hw.indexCache, hw.ticks⟩, fun _ _ => trivial⟩

variable {name : String} {cursor : RedbCursor} {spec : IndexSpec}

lemma uses_draw (h : W name) : Uses env c P W draw := .prim (.draw name h)

lemma uses_look {Q : α → Prop} (g : RedbSession → α)
    (hsame : ∀ s t, RedbSession.SameOn P s t → g s = g t) (hq : ∀ s, Q (g s)) :
    Uses env c P W (read fun w => g w.session) Q := by
  refine .prim (.look (fun s => .ok (g s)) (fun s t hst => congrArg _ (hsame s t hst)) ?_)
  intro s a ha
  cases ha
  exact hq s

lemma uses_openTable (name : String) : Uses env c P W (openTable name) fun cursor =>
      cursor.tableName = name := .pure rfl

lemma uses_liftStorage (r : Except StorageError α) :
    Uses env c P W (liftStorage r) := .ofOutcome _

lemma uses_insert (h : W cursor.tableName) :
    Uses env c P W (onSession (StorageSession.insert cursor)) := by
  change Uses env c P W (onSession cursor.insert)
  unfold RedbCursor.insert
  cases cursor.effectiveKey with
  | error e => exact .fail _
  | ok key =>
    cases cursor.effectiveValue with
    | error e => exact .fail _
    | ok value => exact .prim (.write _ (.put key value) h)

lemma uses_remove (h : W cursor.tableName) :
    Uses env c P W (onSession (StorageSession.remove cursor)) := by
  change Uses env c P W (onSession cursor.remove)
  unfold remove
  cases cursor.effectiveKey with
  | error e => exact .fail _
  | ok key => exact .prim (.write _ (.del key) h)

lemma uses_search (h : P cursor.tableName) :
    Uses env c P W (move StorageSession.search cursor) fun r => r.2.tableName = cursor.tableName :=
  uses_look (search cursor) (fun _ _ hst => search_congr hst h) fun _ => search_tableName

lemma uses_next (h : P cursor.tableName) :
    Uses env c P W (move StorageSession.next cursor) fun r => r.2.tableName = cursor.tableName :=
  uses_look (next cursor) (fun _ _ hst => next_congr hst h) fun _ => next_tableName

lemma uses_rowsLeft (h : P cursor.tableName) :
    Uses env c P W (read fun w => StorageSession.rowsLeft cursor w.session) :=
  uses_look (rowsLeft cursor) (fun _ _ hst => rowsLeft_congr hst h) fun _ => trivial

lemma uses_putRow (h : W name) (key value : Bytes) : Uses env c P W (putRow name key value) :=
  (uses_openTable name).bind fun _ hcursor => uses_insert (hcursor.symm ▸ h)

lemma uses_removeIfFound (h : P name) (h' : W name) (key : Bytes) :
    Uses env c P W (removeIfFound name key) := by
  refine (uses_openTable name).bind fun cursor hcursor => ?_
  have hname : P (StorageCursor.setKey cursor key).tableName := hcursor.symm ▸ h
  refine (uses_search hname).bind fun r hr => ?_
  obtain ⟨_ | _, cursor'⟩ := r
  · exact .pure trivial
  · refine uses_remove ?_
    rw [hr]
    exact hcursor.symm ▸ h'

section

variable (h : P name) {body : RedbCursor → β → RedbOp (Bool × RedbCursor × β)}
  (hbody : ∀ cursor acc, cursor.tableName = name →
    Uses env c P W (body cursor acc) fun r => r.2.1.tableName = name)
include h hbody

lemma uses_whileNext (fuel : ℕ) (hcursor : cursor.tableName = name) (acc : β) :
    Uses env c P W (whileNext body fuel cursor acc) := by
  induction fuel generalizing cursor acc with
  | zero => exact .pure trivial
  | succ fuel ih =>
    refine (uses_next (hcursor.symm ▸ h)).bind fun r hr => ?_
    obtain ⟨_ | _, cursor'⟩ := r
    · exact .pure trivial
    · refine (hbody cursor' acc (hr.trans hcursor)).bind fun r hr => ?_
      obtain ⟨goOn, cursor'', acc'⟩ := r
      exact .ite (ih hr acc') (.pure trivial)

lemma uses_forRows (acc : β) : Uses env c P W (forRows name acc body) :=
  (uses_openTable name).bind fun _ hcursor => (uses_rowsLeft (hcursor.symm ▸ h)).bind fun rows _ =>
    uses_whileNext h hbody (rows + 1) hcursor acc

end

lemma uses_ignoreError {m : RedbOp α} (h : Uses env c P W m) : Uses env c P W (ignoreError m) :=
  h.attempt.map

section

variable {prim : ∀ α : Type, RedbOp α → (α → Prop) → Prop}

lemma composed_ensureId (hdraw : prim ℕ draw fun _ => True) (doc : Document) :
    Composed prim (ensureId env doc) fun _ => True := by
  unfold ensureId
  split
  · exact .pure trivial
  · exact (Composed.prim hdraw).map

lemma composed_validateDoc (doc : Document) :
    Composed prim (validateDoc env c doc) fun _ => True := by
  unfold validateDoc
  split
  · exact .pure trivial
  · split
    · exact .pure trivial
    · exact .fail _

lemma composed_prepareDocuments (hdraw : prim ℕ draw fun _ => True) (documents : List Document) :
    Composed prim (prepareDocuments env c documents) fun _ => True := by
  induction documents with
  | nil => exact .pure trivial
  | cons doc rest ih =>
    exact (composed_ensureId hdraw doc).bind fun r _ => (composed_validateDoc r.2).bind fun _ _ =>
      ih.map

end

lemma uses_appendOplog {cfg : CollectionOplogSettings} (hcfg : cfg ∈ c.oplog)
    (h : W cfg.oplogTable) (op : String) (docId : Bson) (payload : Option Document)
    (opts : AppendOplogOpts) :
    Uses env c P W (appendOplog env cfg op docId payload opts) := by
  refine (uses_draw h).bind fun tick _ => ?_
  dsimp only
  split
  · exact .fail _
  · exact (mapError _ (uses_putRow h _ _)).bind fun _ _ => (prim (.notify cfg hcfg h _)).map

lemma uses_appendOplogIfEnabled (h : c.OplogIn W) (op : String) (docId : Bson)
    (payload : Option Document) (internal : Bool) (changedFields : Option (List String)) :
    Uses env c P W (appendOplogIfEnabled env c op docId payload internal changedFields :
      RedbOp Unit) := by
  refine .ite (.pure trivial) ?_
  split
  · exact .pure trivial
  · next cfg hcfg =>
    exact (uses_appendOplog hcfg (h cfg hcfg) op docId payload _).map

lemma uses_readMatch (filter : Document) (cursor : RedbCursor) :
    Uses env c P W (readMatch env filter cursor) :=
  (uses_liftStorage _).bind fun _ _ => (Composed.ofOutcome _).bind fun _ _ =>
    (Composed.ofOutcome _).map

lemma uses_rebuildRow (h : W (c.indexTable name)) (keys : Document)
    (options : IndexOptions) (doc : Document) (idStr : String) (seen : List Bytes) :
    Uses env c P W (rebuildRow env c name keys options doc idStr seen) := by
  refine (Composed.ofOutcome _).bind fun admitted _ => .ite (.ite ?_ ?_) (.pure trivial)
  · split
    · exact (uses_putRow h _ _).map
    · exact .ite (.pure trivial) (.fail _)
  · exact .ite (.fail _) ((uses_putRow h _ _).map)

lemma uses_rebuildIndex (hdata : P c.tableName) (h : W (c.indexTable name))
    (keys : Document) (options : IndexOptions) :
    Uses env c P W (rebuildIndex env c name keys options) := by
  refine (uses_forRows hdata (fun cursor seen hcursor => ?_) []).map
  exact (uses_liftStorage _).bind fun _ _ => (Composed.ofOutcome _).bind fun doc _ =>
    (Composed.ofOutcome _).bind fun idStr _ =>
      (uses_rebuildRow h keys options doc idStr seen).bind fun _ _ => .pure hcursor

lemma uses_registerIndex (hdata : P c.tableName) (hindex : W (c.indexTable spec.name))
    (hmetadata : W c.metadataTable) (hoplog : c.OplogIn W) (specBytes : Bytes) :
    Uses env c P W (registerIndex env c spec specBytes) :=
  (uses_putRow hmetadata _ _).bind fun _ _ => (uses_rebuildIndex hdata hindex _ _).bind fun _ _ =>
    (uses_appendOplogIfEnabled hoplog _ _ _ _ _).map

variable (hreads : c.Reads P)
include hreads

lemma uses_listIndexes : Uses env c P W (listIndexes env c) := .prim (.list hreads.metadata)

lemma uses_keyTaken (spec : IndexSpec) (key : Bytes) : Uses env c P W (keyTaken c spec key) := by
  have hname : P (c.indexTable spec.name) := hreads.index spec.name _ (.inl rfl)
  have hkeyTaken : (keyTaken c spec key) = read fun w =>
      spec.options.unique && hasPrefix (shown w.session (c.indexTable spec.name)) key :=
    funext fun w => keyTaken_apply c spec key w
  rw [hkeyTaken]
  refine uses_look (fun s => spec.options.unique && hasPrefix (shown s _) key)
    (fun s t hst => ?_) fun _ => trivial
  rw [hst.shown hname]

lemma uses_insertIntoBTree (h : W (c.indexTable spec.name)) (doc : Document) (idStr : String) :
    Uses env c P W (insertIntoBTree env c doc idStr spec) :=
  (uses_keyTaken hreads spec _).bind fun _ _ => .ite (.fail _) (uses_putRow h _ _)

section

variable (h : ∀ t, c.Maintains spec t → W t)
include h

lemma uses_insertIntoIndexesSingle (doc : Document) (idStr : String) :
    Uses env c P W (insertIntoIndexesSingle env c doc idStr spec) := by
  unfold Handle.Maintains at h
  refine (Composed.ofOutcome _).bind fun admitted _ => .ite ?_ (.pure trivial)
  split
  · next htype =>
    rw [htype] at h
    unfold insertIntoTwoDSphere
    split
    · exact uses_putRow (h _ rfl) _ _
    · exact .ite (.pure trivial) (.fail _)
  · next htype =>
    rw [htype] at h
    exact uses_insertIntoBTree hreads (h _ rfl) doc idStr
  · next htype =>
    rw [htype] at h
    exact .forM _ fun token _ => uses_ignoreError (uses_putRow (h _ rfl) _ _)
  · exact .pure trivial
  · exact .pure trivial
  · next htype =>
    rw [htype] at h
    exact uses_ignoreError (uses_putRow (h _ rfl) _ _)

lemma uses_removeFromIndexesSingle (doc : Document) (idStr : String) :
    Uses env c P W (removeFromIndexesSingle env c doc idStr spec) := by
  unfold Handle.Maintains at h
  unfold removeFromIndexesSingle
  split
  · next htype =>
    rw [htype] at h
    split
    · exact uses_removeIfFound (hreads.index _ _ (.inl rfl)) (h _ rfl) _
    · exact .pure trivial
  · next htype =>
    rw [htype] at h
    exact uses_removeIfFound (hreads.index _ _ (.inl rfl)) (h _ rfl) _
  · next htype =>
    rw [htype] at h
    exact .forM _ fun token _ => uses_ignoreError
      (uses_removeIfFound (hreads.index _ _ (.inr (.inl rfl))) (h _ rfl) _)
  · exact .pure trivial
  · exact .pure trivial
  · next htype =>
    rw [htype] at h
    exact uses_ignoreError (uses_removeIfFound (hreads.index _ _ (.inr (.inr rfl))) (h _ rfl) _)

lemma uses_updateInIndexesSingle (oldDoc newDoc : Document) (oldIdStr newIdStr : String) :
    Uses env c P W (updateInIndexesSingle env c oldDoc newDoc oldIdStr newIdStr spec :
      RedbOp Unit) :=
  .ite (.pure trivial) ((uses_removeFromIndexesSingle hreads h oldDoc oldIdStr).bind fun _ _ =>
    uses_insertIntoIndexesSingle hreads h newDoc newIdStr)

end

variable (hindex : ∀ name t, c.OfIndex name t → W t)
include hindex

lemma uses_insertIntoIndexes (doc : Document) : Uses env c P W (insertIntoIndexes env c doc) :=
  (uses_listIndexes hreads).bind fun specs _ => (Composed.ofOutcome _).bind fun idStr _ =>
    .forM specs fun spec _ => uses_insertIntoIndexesSingle hreads
      (fun t ht => hindex spec.name t ht.ofIndex) doc idStr

lemma uses_removeFromIndexes (doc : Document) : Uses env c P W (removeFromIndexes env c doc) :=
  (uses_listIndexes hreads).bind fun specs _ => (Composed.ofOutcome _).bind fun idStr _ =>
    .forM specs fun spec _ => uses_removeFromIndexesSingle hreads
      (fun t ht => hindex spec.name t ht.ofIndex) doc idStr

lemma uses_updateInIndexes (oldDoc newDoc : Document) :
    Uses env c P W (updateInIndexes env c oldDoc newDoc) :=
  (uses_listIndexes hreads).bind fun specs _ => (Composed.ofOutcome _).bind fun oldIdStr _ =>
    (Composed.ofOutcome _).bind fun newIdStr _ => .forM specs fun spec _ =>
      uses_updateInIndexesSingle hreads (fun t ht => hindex spec.name t ht.ofIndex) oldDoc newDoc
        oldIdStr newIdStr

variable (hdata : W c.tableName) (hoplog : c.OplogIn W)
include hdata hoplog

lemma uses_storeNew (doc : Document) (id : Bson) (internal : Bool) :
    Uses env c P W (storeNew env c doc id internal) :=
  (uses_insertIntoIndexes hreads hindex doc).bind fun _ _ => (Composed.ofOutcome _).bind fun _ _ =>
    (Composed.ofOutcome _).bind fun _ _ => (uses_putRow hdata _ _).bind fun _ _ =>
      uses_appendOplogIfEnabled hoplog _ _ _ _ _

lemma uses_insertOneInner (document : Document) (internal : Bool) :
    Uses env c P W (insertOneInner env c document internal) :=
  (composed_ensureId (.draw _ hdata) document).bind fun r _ =>
    (composed_validateDoc r.2).bind fun _ _ => (uses_storeNew hreads hindex hdata hoplog r.2 r.1
      internal).map

lemma uses_insertPrepared (prepared : List (Bson × Document)) (internal : Bool) :
    Uses env c P W (insertPrepared env c prepared internal) :=
  (forM prepared fun p _ => uses_storeNew hreads hindex hdata hoplog p.2 _ internal).map

section

variable (update : Document) (internal : Bool) (hcursor : cursor.tableName = c.tableName)
  (original : Document)
include update internal hcursor original

lemma uses_writeBack (doc : Document) :
    Uses env c P W (writeBack env c update internal cursor original doc)
      fun cursor' => cursor'.tableName = c.tableName := by
  refine (uses_updateInIndexes hreads hindex original doc).bind fun _ _ =>
    (Composed.ofOutcome _).bind fun bytes _ => ?_
  have hname : W (StorageCursor.setValue cursor bytes).tableName := by
    change W cursor.tableName
    rw [hcursor]
    exact hdata
  refine (uses_insert hname).bind fun _ _ => ?_
  split
  · exact .fail _
  · exact (uses_appendOplogIfEnabled hoplog _ _ _ _ _).bind fun _ _ => .pure hcursor

lemma uses_updateRow :
    Uses env c P W (updateRow env c update internal cursor original)
      fun r => r.1.tableName = c.tableName :=
  (uses_draw hdata).bind fun _ _ => (Composed.ofOutcome _).bind fun doc _ => .ite (.pure hcursor)
    ((uses_writeBack hreads hindex hdata hoplog update internal hcursor original doc).bind
      fun _ h => .pure h)

end

lemma uses_updateInner (once : Bool) (filter update : Document) (options : UpdateOptions) :
    Uses env c P W (updateInner env c once filter update options) := by
  have hbody : ∀ (cursor : RedbCursor) (counts : ℕ × ℕ), cursor.tableName = c.tableName →
      Uses env c P W (updateBody env c once filter update options.internal cursor counts)
        fun r => r.2.1.tableName = c.tableName := by
    intro cursor counts hcursor
    refine (uses_readMatch filter cursor).bind fun r _ => .ite ?_ (.pure hcursor)
    exact (uses_updateRow hreads hindex hdata hoplog update options.internal hcursor r.1).bind
      fun _ h => .pure h
  have hbase : Uses env c P W (upsertBase env filter) :=
    .ite (.pure trivial) ((uses_draw hdata).map)
  have hupsert : Uses env c P W (upsertNew env c filter update options.internal) :=
    hbase.bind fun _ _ => (uses_draw hdata).bind fun _ _ => (Composed.ofOutcome _).bind
      fun newDoc _ =>
      (uses_insertOneInner hreads hindex hdata hoplog newDoc options.internal).bind
        fun _ _ => .pure trivial
  exact (uses_forRows hreads.data hbody (0, 0)).bind fun _ _ => .ite hupsert (.pure trivial)

lemma uses_deleteInner (once : Bool) (filter : Document) (internal : Bool) :
    Uses env c P W (deleteInner env c once filter internal) := by
  have hbody : ∀ (cursor : RedbCursor) (count : ℕ), cursor.tableName = c.tableName →
      Uses env c P W (deleteBody env c once filter internal cursor count)
        fun r => r.2.1.tableName = c.tableName := by
    intro cursor count hcursor
    refine (uses_readMatch filter cursor).bind fun r _ => .ite ?_ (.pure hcursor)
    refine bind (Q := fun _ => True) ?_ fun _ _ => .pure hcursor
    unfold deleteRow
    split
    · exact .fail _
    · exact (uses_removeFromIndexes hreads hindex r.1).bind fun _ _ =>
        (uses_remove (hcursor.symm ▸ hdata)).bind fun _ _ =>
          uses_appendOplogIfEnabled hoplog _ _ _ _ _
  exact (uses_forRows hreads.data hbody 0).map

end

end Smongo

import Smongo.Collection.Bulk
import Smongo.Collection.Expiry
import Smongo.Collection.Inserts

/-!
# Deleting and inserting many documents

A deletion of everything succeeds. An insertion of many documents succeeds exactly if each of them
can be encoded and no index refuses it, with the rows of those before it.
-/

namespace Smongo

open Eff List OrderedTable Bytes Outcome

section

variable {env : Env} {c : Handle} {w w' : RedbWorld} {specs : List IndexSpec} {spec : IndexSpec}

lemma WroteAll.index_eq {xs : List DocWrite} (h : WroteAll env c specs xs w w')
    (hmem : spec ∈ specs) (htree : spec.IsBTree) :
    w'.view (c.indexTable spec.name) =
      xs.foldl (fun t x => x.index env spec (w.committed (c.indexTable spec.name)) t)
        (w.view (c.indexTable spec.name)) := by
  induction xs generalizing w with
  | nil => exact Still.index h spec.name
  | cons x xs ih =>
    obtain ⟨w₁, hx, hxs⟩ := h
    rw [ih hxs, foldl_cons, hx.index.bTree spec hmem htree, World.committed, hx.db, World.committed]

/-! ### Deleting everything -/

/-- What is left of an index when documents are removed from it. -/
def IndexSpec.cleared (env : Env) (spec : IndexSpec) (docs : List Document) (idx : Table) : Table :=
  docs.foldl (fun t doc => spec.removed env idx doc (idKey env doc) t) idx

lemma map_hits (t : Table) : (hits env [] t.rows).map Prod.snd = documentsIn env t := by
  rw [hits, map_filterMap, documentsIn]
  refine filterMap_congr fun r hr => ?_
  have hget : t.get r.1 = some r.2 := get_eq_some_iff.mpr hr
  cases hread : env.fromReader r.2 with
  | error e =>
    rw [docAt, hget, Option.bind_some, hread]
    rfl
  | ok doc => simp [docAt_eq_some_iff.mpr ⟨r.2, hget, hread⟩, evalQuery]

lemma isSome_commitTransaction {s : RedbSession} {name : String}
    (h : (s.db.tables name).isSome) : ((s.commitTransaction).2.db.tables name).isSome := by
  have hfold : ∀ (ops : List (String × List PendingWrite)) (tables : String → Option Table),
      (tables name).isSome → (ops.foldl (fun tables p => Redb.writeTable tables p.1 p.2) tables
        name).isSome := by
    intro ops
    induction ops with
    | nil => exact fun _ h => h
    | cons p ops ih =>
      intro tables h
      refine ih _ ?_
      change (Function.update tables p.1 _ name).isSome
      rw [Function.update_apply]
      split
      · rfl
      · exact h
  change ((if s.pendingWrites.rows.isEmpty then s.db else s.db.transact _).tables name).isSome
  split
  · exact h
  · exact hfold _ _ h

/-- What the deletion needs of the rows that are left. -/
structure Deletable (env : Env) (c : Handle) (specs : List IndexSpec) (ticks : ℕ) (rows : Rows)
    (w : RedbWorld) : Prop where
  inTransaction : w.session.inTransaction = true
  listed : listed env c w = .ok specs
  ticks : w.ticks = ticks
  readable : ∀ row ∈ rows, ∃ doc idStr, env.fromReader row.2 = .ok doc ∧
    extractIdString env doc = .ok idStr

section

variable (hoplog : c.oplog = none)
include hoplog

lemma appendOplogIfEnabled_none (op : String) (id : Bson) (payload : Option Document)
    (internal : Bool) (changed : Option (List String)) (w : RedbWorld) :
    appendOplogIfEnabled env c op id payload internal changed w = (.ok (), w) := by
  rw [appendOplogIfEnabled, hoplog, ite_self]
  rfl

lemma deleteBody_returns {ticks : ℕ} {cursor : RedbCursor} {row : Row} {rest : Rows}
    (hat : RedbCursor.At cursor row rest) (hkey : cursor.pendingKey = some row.1)
    (h : Deletable env c specs ticks (row :: rest) w) (count : ℕ) :
    ∃ count' w', deleteBody env c false [] false cursor count w =
      (.ok (true, cursor, count'), w') ∧ Deletable env c specs ticks rest w' := by
  obtain ⟨doc, idStr, hread, hid⟩ := h.readable row mem_cons_self
  obtain ⟨id, hget⟩ : ∃ id, doc.get "_id" = some id := by
    unfold extractIdString at hid
    split at hid
    · next id hget => exact ⟨id, hget⟩
    · cases hid
  have hmatch : readMatch env [] cursor w = (.ok (doc, true), w) := by
    have hdoc : deserializeDocument env row.2 = .ok doc := by
      rw [deserializeDocument, hread]
      rfl
    rw [readMatch, getValueRaw_of_at hat]
    refine (bind_of_ok (ofOutcome_apply w (.ok row.2))).trans ?_
    rw [hdoc]
    rfl
  obtain ⟨w₁, hindexes, hwrites⟩ := removeFromIndexes_ok h.listed hid
  have htx : w₁.session.inTransaction = true := hwrites.inTransaction.trans h.inTransaction
  refine ⟨count + 1, w₁.buffer cursor.tableName (.del row.1), ?_, ⟨htx, ?_, ?_, fun r hr => ?_⟩⟩
  · refine (bind_of_ok hmatch).trans ?_
    have hrow : deleteRow env c false cursor doc w =
        (.ok (), w₁.buffer cursor.tableName (.del row.1)) := by
      rw [deleteRow, hget]
      refine (bind_of_ok hindexes).trans ((bind_of_ok (remove_apply htx hkey)).trans ?_)
      exact appendOplogIfEnabled_none hoplog _ _ _ _ _ _
    exact bind_of_ok hrow
  · have hcache : (w₁.buffer cursor.tableName (.del row.1)).indexCache = some specs :=
      hwrites.indexCache
    rw [Smongo.listed, hcache]
  · exact hwrites.ticks.trans h.ticks
  · exact h.readable r (mem_cons_of_mem _ hr)

/-- Every document can be deleted, and each row of theirs is removed from the indexes. -/
lemma deleteMany_returns (hsep : c.Separate) (hw : Settled env c w)
    (hkeyed : Keyed env (w.committed c.tableName)) :
    ∃ n w', deleteMany env c [] false w = (.ok n, w') ∧ w'.ticks = w.ticks ∧
      (∀ name, (w.session.db.tables name).isSome → (w'.session.db.tables name).isSome) ∧
      ∀ spec ∈ w.specs env c, spec.IsBTree → w'.committed (c.indexTable spec.name) =
        spec.cleared env (documentsIn env (w.committed c.tableName))
          (w.committed (c.indexTable spec.name)) := by
  have hrows : w.begin.rows c = (w.committed c.tableName).rows := shown_begin w c.tableName
  have hdeletable : Deletable env c (w.specs env c) w.ticks (w.begin.rows c) w.begin := by
    refine ⟨rfl, hw.listed_begin, rfl, fun row hrow => ?_⟩
    rw [hrows] at hrow
    obtain ⟨doc, idStr, hread, hid, -⟩ := hkeyed row.1 row.2 (get_eq_some_iff.mpr hrow)
    exact ⟨doc, idStr, hread, hid⟩
  obtain ⟨count, t, hloop, hdone⟩ := forRows_returns (fun cursor row rest count w hat _ hkey h =>
    deleteBody_returns hoplog hat hkey h count) 0 hdeletable
  have hinner : deleteInner env c false [] false w.begin = (.ok ⟨count⟩, t) := bind_of_ok hloop
  have hrun : deleteMany env c [] false w = (.ok ⟨count⟩, t.uncached.commit) := by
    rw [deleteMany, withBatchedWrite_of_not_inTransaction _ hw.idle, hinner]
    rfl
  obtain ⟨-, hwrote⟩ := deleteInner_wrote hsep hw.nodup_names rfl hw.listed_begin hinner
  refine ⟨_, _, hrun, hdone.ticks, fun name hname => ?_, fun spec hmem htree => ?_⟩
  · apply isSome_commitTransaction
    rw [show t.uncached.session.db = w.session.db from hwrote.db]
    exact hname
  · rw [committed_commit (w := t.uncached) hwrote.inTransaction]
    refine (hwrote.index_eq hmem htree).trans ?_
    rw [foldl_map, hrows, IndexSpec.cleared, ← map_hits, foldl_map, view_begin]
    rfl

end

/-! ### Inserting many documents -/

lemma indexVerdict_of_not_isBTree (h : ¬ spec.IsBTree) (doc : Document) (rows rows' : Rows) :
    indexVerdict env doc rows spec = indexVerdict env doc rows' spec := by
  unfold indexVerdict
  cases htype : resolveIndexType spec.keys spec.options with
  | bTree => exact absurd htype h
  | _ => rfl

variable (env specs) in
/-- Each document can be encoded and no index refuses it, with the rows of those before it. -/
def Storable : (IndexSpec → Table) → List Document → Prop
  | _, [] => True
  | idx, doc :: docs =>
    (∀ spec ∈ specs, indexVerdict env doc (idx spec).rows spec = .ok ()) ∧
      (∃ bytes, env.toWriter doc = .ok bytes) ∧
      Storable (fun spec => spec.added env doc (idKey env doc) (idx spec)) docs

lemma storable_congr {idx idx' : IndexSpec → Table} {docs : List Document}
    (h : ∀ spec ∈ specs, spec.IsBTree → idx spec = idx' spec) :
    Storable env specs idx docs ↔ Storable env specs idx' docs := by
  induction docs generalizing idx idx' with
  | nil => rfl
  | cons doc docs ih =>
    refine and_congr ?_ (and_congr_right fun _ => ih fun spec hmem htree =>
      by rw [h spec hmem htree])
    refine forall_congr' fun spec => forall_congr' fun hmem => ?_
    by_cases htree : spec.IsBTree
    · rw [h spec hmem htree]
    · rw [indexVerdict_of_not_isBTree htree]

lemma extractIdString_of_mem_identifyAll {ticks : ℕ} {docs : List Document} {doc : Document}
    (h : doc ∈ (identifyAll env ticks docs).1) : ∃ idStr, extractIdString env doc = .ok idStr := by
  induction docs generalizing ticks with
  | nil => cases h
  | cons first docs ih =>
    rcases mem_cons.mp h with rfl | h
    · exact extractIdString_identify env ticks first
    · exact ih h

lemma prepareDocuments_of_none (hvalidator : c.validator = none) (docs : List Document)
    (w : RedbWorld) : ∃ prepared, prepareDocuments env c docs w =
        (.ok prepared, { w with ticks := (identifyAll env w.ticks docs).2 }) ∧
      prepared.map Prod.snd = (identifyAll env w.ticks docs).1 := by
  induction docs generalizing w with
  | nil => exact ⟨[], rfl, rfl⟩
  | cons doc docs ih =>
    obtain ⟨prepared, hprepare, hdocs⟩ := ih { w with ticks := (identify env w.ticks doc).2 }
    have hvalid : ∀ w' : RedbWorld, validateDoc env c (identify env w.ticks doc).1 w' =
        (.ok (), w') := by
      intro w'
      rw [validateDoc, hvalidator]
      rfl
    refine ⟨(((identify env w.ticks doc).1.get "_id").getD .null, (identify env w.ticks doc).1) ::
      prepared, ?_, congrArg _ hdocs⟩
    refine (bind_of_ok (ensureId_eq env doc w)).trans ?_
    exact (bind_of_ok (hvalid _)).trans (bind_of_ok hprepare)

variable (env c) in
def storeEach (prepared : List (Bson × Document)) : RedbOp Unit :=
  prepared.forM fun p => storeNew env c p.2 ((p.2.get "_id").getD .null) false

section

variable (hoplog : c.oplog = none) (hsep : c.Separate)
  (hnames : (specs.map IndexSpec.name).Nodup)
include hoplog hsep hnames

lemma storeEach_eq_ok {prepared : List (Bson × Document)}
    (hw : w.session.inTransaction = true) (hlisted : listed env c w = .ok specs)
    (hexist : ∀ spec ∈ specs, (w.session.db.tables (c.indexTable spec.name)).isSome)
    (hids : ∀ p ∈ prepared, ∃ idStr, extractIdString env p.2 = .ok idStr) :
    (storeEach env c prepared w).1 = .ok () ↔
      Storable env specs (fun spec => w.view (c.indexTable spec.name))
        (prepared.map Prod.snd) := by
  induction prepared generalizing w with
  | nil => exact iff_of_true rfl trivial
  | cons p prepared ih =>
    obtain ⟨id, doc⟩ := p
    rw [forall_mem_cons] at hids
    obtain ⟨⟨idStr, hid⟩, hids⟩ := hids
    have hfst := storeNew_fst hnames hw hlisted hid false
    have hverdicts : verdicts env c w specs doc = specs.map fun spec =>
        indexVerdict env doc (w.view (c.indexTable spec.name)).rows spec :=
      map_congr_left fun spec hmem => by rw [shown_of_isSome (hexist spec hmem)]
    have hlog : oplogVerdict env c w.ticks doc false = .ok () := by rw [oplogVerdict, hoplog]
    rw [hverdicts, hlog] at hfst
    have hone : (storeNew env c doc ((doc.get "_id").getD .null) false w).1 = .ok () ↔
        (∀ spec ∈ specs,
          indexVerdict env doc (w.view (c.indexTable spec.name)).rows spec = .ok ()) ∧
          ∃ bytes, env.toWriter doc = .ok bytes := by
      rw [hfst]
      simp only [Outcome.bind_eq_ok]
      constructor
      · rintro ⟨⟨⟩, hindexes, bytes, hbytes, -⟩
        rw [inTurn_eq_ok, forall_mem_map] at hindexes
        exact ⟨hindexes, bytes, serializeDocument_eq_ok hbytes⟩
      · rintro ⟨hindexes, bytes, hbytes⟩
        refine ⟨(), ?_, bytes, ?_, trivial⟩
        · rwa [inTurn_eq_ok, forall_mem_map]
        · rw [serializeDocument, hbytes]
          rfl
    have hcons : storeEach env c ((id, doc) :: prepared) w =
        (storeNew env c doc ((doc.get "_id").getD .null) false >>= fun _ =>
          storeEach env c prepared) w := rfl
    rw [hcons, map_cons]
    rcases hrun : storeNew env c doc ((doc.get "_id").getD .null) false w with ⟨⟨⟩ | e | _, w₁⟩ <;>
      rw [hrun] at hone
    · obtain ⟨hindexes, hbytes⟩ := hone.mp rfl
      have hwrote := storeNew_wrote hsep hw hlisted hnames hrun
      rw [bind_of_ok hrun, ih hwrote.inTransaction hwrote.listed (by rwa [hwrote.db]) hids,
        Storable, and_iff_right hindexes, and_iff_right hbytes]
      exact storable_congr fun spec hmem htree => hwrote.index.bTree spec hmem htree
    · rw [bind_of_error hrun]
      refine iff_of_false (fun h => by cases h) fun h => ?_
      cases hone.mpr ⟨h.1, h.2.1⟩
    · rw [bind_of_panic hrun]
      refine iff_of_false (fun h => by cases h) fun h => ?_
      cases hone.mpr ⟨h.1, h.2.1⟩

/-- Into indexes that exist, many documents can be inserted exactly if they are storable. -/
lemma insertMany_eq_ok_iff (hvalidator : c.validator = none) (docs : List Document)
    (hw : w.session.inTransaction = false) (hlisted : listed env c w.begin = .ok specs)
    (hexist : ∀ spec ∈ specs, (w.session.db.tables (c.indexTable spec.name)).isSome) :
    (∃ result, (insertMany env c docs false w).1 = .ok result) ↔
      Storable env specs (fun spec => w.committed (c.indexTable spec.name))
        (identifyAll env w.ticks docs).1 := by
  obtain ⟨prepared, hprepare, hdocs⟩ := prepareDocuments_of_none hvalidator docs w
  let w₁ : RedbWorld := { w with ticks := (identifyAll env w.ticks docs).2 }
  have hrun : insertMany env c docs false w =
      endBatch (insertPrepared env c prepared false w₁.begin) :=
    (bind_of_ok hprepare).trans (withBatchedWrite_of_not_inTransaction _ hw)
  have hprepared : insertPrepared env c prepared false =
      (storeEach env c prepared >>= fun _ => pure ⟨prepared.map Prod.fst⟩ : RedbOp _) := rfl
  have hids : ∀ p ∈ prepared, ∃ idStr, extractIdString env p.2 = .ok idStr := by
    intro p hp
    have hmem : p.2 ∈ (identifyAll env w.ticks docs).1 := hdocs ▸ mem_map_of_mem hp
    exact extractIdString_of_mem_identifyAll hmem
  have hiff : _ ↔ Storable env specs (fun spec => w.committed (c.indexTable spec.name)) _ :=
    @storeEach_eq_ok env c w₁.begin specs hoplog hsep hnames prepared rfl hlisted hexist hids
  rw [← hdocs, ← hiff, hrun, hprepared]
  rcases hstore : storeEach env c prepared w₁.begin with ⟨⟨⟩ | e | _, w₂⟩
  · rw [bind_of_ok hstore]
    exact iff_of_true ⟨_, rfl⟩ rfl
  · rw [bind_of_error hstore]
    exact iff_of_false (fun ⟨_, h⟩ => by cases h) nofun
  · rw [bind_of_panic hstore]
    exact iff_of_false (fun ⟨_, h⟩ => by cases h) nofun

end

end

end Smongo

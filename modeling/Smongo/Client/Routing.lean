import Smongo.Client.Core
import Smongo.Collection.Extent

/-!
# Where calls on the client go

With an empty slot a call runs on the committed state, otherwise in the transaction in the slot.
-/

namespace Smongo

open Eff RedbSession

namespace LocalClient

variable {env : Env} {geometry : Geometry} {k : LocalClient} {coll : LocalCollection} {α : Type}

lemma table_createTable (s : RedbSession) (name name' : String) :
    (createTable name s).2.db.table name' = s.db.table name' := by
  simp only [createTable, modify_apply, Redb.table, Redb.transact, Redb.writeTable,
    Function.update_apply]
  split
  · next h => rw [h, Change.applyAll_nil, Option.getD_some]
  · rfl

lemma engineWorld_spec (k : LocalClient) (coll : LocalCollection) :
    (k.engineWorld coll).session.inTransaction = false ∧ (k.engineWorld coll).session.issued = [] ∧
      (k.engineWorld coll).session.pendingWrites = .empty ∧
      ∀ name, (k.engineWorld coll).session.db.table name = k.db.table name := by
  refine ⟨rfl, rfl, rfl, fun name => ?_⟩
  exact (table_createTable _ _ name).trans (table_createTable _ _ name)

lemma onEngine_of_none (hk : k.txnSlot = none) (m : RedbOp α) :
    onEngine coll m k = ((m (k.engineWorld coll)).1.mapError .collectionError,
      { k with db := (m (k.engineWorld coll)).2.session.db
               ticks := (m (k.engineWorld coll)).2.ticks }) := by
  rw [onEngine, hk]

lemma route_of_none (hk : k.txnSlot = none) (refusal : Option String)
    (view engine : RedbOp α) : route coll refusal view engine k = onEngine coll engine k := by
  rw [route, hk]

/-- The session in the slot is in a transaction, and has buffered all the writes it was asked
for. -/
def Sound (k : LocalClient) : Prop :=
  ∀ ts ∈ k.txnSlot, ts.inTransaction = true ∧
    ∀ name, (k.session ts).pendingFor name = writesTo name ts.issued

lemma sound_of_none (hk : k.txnSlot = none) : k.Sound := by
  intro ts hts
  rw [hk] at hts
  cases hts

/-- The committed rows stay; a transaction stays open if one was. -/
structure Continues (k k' : LocalClient) : Prop where
  table : ∀ name, k'.db.table name = k.db.table name
  slot : k'.txnSlot.isSome = k.txnSlot.isSome
  sound : k.Sound → k'.Sound

lemma Continues.refl (k : LocalClient) : Continues k k := ⟨fun _ => rfl, rfl, id⟩

variable {ts : TransactionSession} {c : Handle} {P W : String → Prop}

lemma onView_continues (hk : k.txnSlot = some ts) (hsound : k.Sound) {m : RedbOp α}
    (hm : Uses env coll.viewHandle (fun _ => True) (fun _ => True) m) :
    Continues k (onView coll ts m k).2 := by
  obtain ⟨hopen, hpending⟩ := hsound ts hk
  let w : RedbWorld :=
    ⟨(createTable coll.viewHandle.tableName (k.session ts)).2, none, k.ticks, {}⟩
  obtain ⟨ws, -, hbuffers⟩ := ((admits_writing env coll.viewHandle
    fun _ => True).moves hm w).1 hopen
  have hend : (onView coll ts m k).2 =
      { db := (m w).2.session.db
        txnSlot := some ⟨(m w).2.session.inTransaction, (m w).2.session.pendingWrites,
          (m w).2.session.issued⟩
        ticks := (m w).2.ticks } := rfl
  rw [hend]
  refine ⟨fun name => ?_, by rw [hk]; rfl, fun _ ts' hts' => ?_⟩
  · rw [hbuffers.db]
    exact table_createTable (k.session ts) _ name
  · cases hts'
    refine ⟨hbuffers.inTransaction, fun name => ?_⟩
    have hwrites := hbuffers.pendingFor name
    have hold : w.session.pendingFor name = writesTo name ts.issued := hpending name
    have hissued : (m w).2.session.issued = ts.issued ++ ws := hbuffers.issued
    rw [hold] at hwrites
    rw [hissued, writesTo_append]
    exact hwrites

section

variable (hreads : c.Reads P) (hindex : ∀ name, W (c.indexTable name)) (hdata : W c.tableName)
include hreads hindex hdata

lemma uses_insertEach (docs : List Document) :
    Uses env c P W (insertEach env c docs) := by
  induction docs with
  | nil => exact .pure trivial
  | cons doc rest ih =>
    exact (CollectionView.uses_insertOne hreads hindex hdata doc).bind fun _ _ => ih.map

lemma uses_execView (st : Statement) :
    Uses env c P W (execView env c st) := by
  cases st with
  | insertOne document internal =>
    exact (CollectionView.uses_insertOne hreads hindex hdata document).bind fun _ _ => .pure trivial
  | insertMany documents internal => exact (uses_insertEach hreads hindex hdata documents).map
  | updateOne filter update options =>
    exact (CollectionView.uses_update hreads hindex hdata true filter update).bind
      fun _ _ => .pure trivial
  | updateMany filter update options =>
    exact (CollectionView.uses_update hreads hindex hdata false filter update).bind
      fun _ _ => .pure trivial
  | deleteOne filter internal =>
    exact (CollectionView.uses_delete hreads hindex hdata true filter).map
  | deleteMany filter internal =>
    exact (CollectionView.uses_delete hreads hindex hdata false filter).bind
      fun _ _ => .pure trivial

end

lemma Query.uses_execView (hreads : c.Reads P) (q : Query) :
    Uses env c P W (q.execView env c) := by
  cases q with
  | findOne filter projection | find filter projection | findIter filter | countDocuments filter =>
    exact (CollectionView.uses_forMatches hreads filter _ _).map

lemma Query.uses_exec (hreads : c.Reads P) (q : Query) :
    Uses env c P W (q.exec env geometry c) := by
  cases q with
  | findOne filter projection =>
    rw [Query.exec]
    cases projectionOptions projection with
    | none => exact (uses_findOne hreads geometry filter).map
    | some options => exact (uses_findWithOptions hreads geometry filter _).map
  | find filter projection =>
    rw [Query.exec]
    cases projectionOptions projection with
    | none => exact (uses_find hreads geometry filter).map
    | some options => exact (uses_findWithOptions hreads geometry filter _).map
  | findIter filter => exact (uses_find hreads geometry filter).map
  | countDocuments filter => exact (uses_countDocuments hreads filter).map

def reading : Frame RedbWorld where
  rel w w' := w'.session = w.session
  refl _ := rfl
  trans h h' := h'.trans h

lemma admits_reading (env : Env) (c : Handle) : Admits env c (fun _ => False) reading where
  draw _ := rfl
  list _ _ _ _ := rfl
  write _ _ _ h := h.elim
  notify _ _ _ h := h.elim

/-- No program of queries changes the session, whichever plans they run and whatever they return. -/
theorem queries_read_only (env : Env) (geometry : Geometry) (c : Handle)
    (program : Script Query Answer CollectionError α) (w : RedbWorld) :
    (program.run (Query.exec env geometry c) w).2.session = w.session :=
  program.run_moves (R := reading)
    (fun w q _ => ((admits_reading env c).moves (q.uses_exec c.reads_all) w).1)
    (program.guarded_true w)

lemma onEngine_continues (hk : k.txnSlot = none) {m : RedbOp α}
    (hm : Uses env coll.handle (fun _ => True) (fun _ => False) m) :
    Continues k (onEngine coll m k).2 := by
  have hsession : (m (k.engineWorld coll)).2.session = (k.engineWorld coll).session :=
    ((admits_reading env coll.handle).moves hm _).1
  rw [onEngine_of_none hk]
  refine ⟨fun name => ?_, rfl, fun _ => sound_of_none hk⟩
  rw [hsession]
  exact (engineWorld_spec k coll).2.2.2 name

lemma query_continues (env : Env) (geometry : Geometry) (coll : LocalCollection)
    (hsound : k.Sound) (q : Query) :
    Continues k (query env geometry coll q k).2 := by
  unfold query
  cases hk : k.txnSlot with
  | none =>
    rw [route_of_none hk]
    exact onEngine_continues hk (q.uses_exec coll.handle.reads_all)
  | some ts =>
    rw [route, hk]
    cases q.refused with
    | some msg => exact .refl k
    | none => exact onView_continues hk hsound (q.uses_execView coll.viewHandle.reads_all)

lemma onEngineOnly_of_some (hk : k.txnSlot = some ts) (call : String)
    (m : RedbOp α) : (onEngineOnly call coll m k).2 = k := by
  rw [onEngineOnly, hk]

lemma onEngineOnly_of_none (hk : k.txnSlot = none) (call : String) (m : RedbOp α) :
    onEngineOnly call coll m k = onEngine coll m k := by
  rw [onEngineOnly, hk]

lemma listIndexes_continues : Continues k (listIndexes env coll k).2 := by
  unfold listIndexes
  cases hk : k.txnSlot with
  | none =>
    rw [onEngineOnly_of_none hk]
    exact onEngine_continues hk (uses_listIndexes coll.handle.reads_all)
  | some ts =>
    rw [onEngineOnly_of_some hk]
    exact .refl k

section

variable (env coll)

lemma validate_cases (k : LocalClient) (doc : Document) :
    validate env coll doc k = (.ok (), k) ∨ ∃ e, validate env coll doc k = (.error e, k) := by
  rw [validate]
  cases coll.validator with
  | none => exact .inl rfl
  | some schema =>
    cases hempty : schema.isEmpty with
    | true => exact .inl (by simp [hempty])
    | false =>
      simp only [hempty, Bool.false_eq_true, if_false]
      cases env.validateDocument doc schema with
      | ok _ => exact .inl rfl
      | error e => exact .inr ⟨_, rfl⟩

lemma forM_validate_cases (k : LocalClient) (docs : List Document) :
    docs.forM (validate env coll) k = (.ok (), k) ∨
      ∃ e, docs.forM (validate env coll) k = (.error e, k) := by
  induction docs with
  | nil => exact .inl rfl
  | cons doc rest ih =>
    change (validate env coll doc >>= fun _ => rest.forM (validate env coll)) k = _ ∨
      ∃ e, (validate env coll doc >>= fun _ => rest.forM (validate env coll)) k = _
    rcases validate_cases env coll k doc with h | ⟨e, h⟩
    · rw [bind_of_ok h]
      exact ih
    · rw [bind_of_error h]
      exact .inr ⟨e, rfl⟩

lemma write_cases (k : LocalClient) (st : Statement) :
    write env coll st k = route coll (refusedWrite st) (execView env coll.viewHandle st)
        (st.exec env coll.handle) k ∨
      ∃ e, write env coll st k = (.error e, k) := by
  rcases forM_validate_cases env coll k (inserted st) with h | ⟨e, h⟩
  · exact .inl (bind_of_ok h)
  · exact .inr ⟨e, bind_of_error h⟩

lemma write_continues (hk : k.txnSlot = some ts) (hsound : k.Sound)
    (st : Statement) : Continues k (write env coll st k).2 := by
  rcases write_cases env coll k st with h | ⟨e, h⟩
  · rw [h, route, hk]
    cases refusedWrite st with
    | some msg => exact .refl k
    | none =>
      exact onView_continues hk hsound (uses_execView coll.viewHandle.reads_all
        (fun _ => trivial) trivial st)
  · rw [h]
    exact .refl k

end

def engineWrites (env : Env) (k : LocalClient) (coll : LocalCollection) (st : Statement) :
    List (String × PendingWrite) :=
  (st.exec env coll.handle (k.engineWorld coll)).2.session.issued

/-- With an empty slot an acknowledged write commits its writes, and a failed one nothing. -/
lemma write_of_none (env : Env) (coll : LocalCollection) (hk : k.txnSlot = none) (st : Statement) :
    (write env coll st k).2.txnSlot = none ∧
    (∀ reply, (write env coll st k).1 = .ok reply → ∀ name, (write env coll st k).2.db.table name =
        Change.applyAll (k.db.table name) (writesTo name (engineWrites env k coll st))) ∧
    ((∀ reply, (write env coll st k).1 ≠ .ok reply) →
      ∀ name, (write env coll st k).2.db.table name = k.db.table name) := by
  obtain ⟨hidle, hissued, -, htable⟩ := engineWorld_spec k coll
  rcases write_cases env coll k st with h | ⟨e, h⟩
  · rw [h, route_of_none hk, onEngine_of_none hk]
    rcases hrun : st.exec env coll.handle (k.engineWorld coll) with ⟨r, w⟩
    obtain ⟨hundone, hdone⟩ := st.exec_commits env coll.handle hidle hrun
    refine ⟨hk, fun reply hreply name => ?_, fun hfailed name => ?_⟩
    · obtain ⟨ws, hcommits⟩ := hdone reply (Outcome.mapError_eq_ok.mp hreply)
      have hws : engineWrites env k coll st = ws := by
        rw [engineWrites, hrun, hcommits.issued, hissued, List.nil_append]
      rw [hws, ← htable name]
      exact hcommits.table name
    · rw [← htable name]
      refine congrArg (Redb.table · name) (hundone fun reply hreply => ?_)
      exact hfailed reply (Outcome.mapError_eq_ok.mpr hreply)
  · rw [h]
    exact ⟨hk, nofun, fun _ _ => rfl⟩

end LocalClient

def LocalCollection.IndexTable (coll : LocalCollection) (table : String) : Prop :=
  table = coll.handle.metadataTable ∨ (∃ name, coll.handle.OfIndex name table) ∨
    table = coll.oplogTable

namespace LocalClient

variable {env : Env} {k : LocalClient} {coll : LocalCollection} {α : Type}

lemma onEngineOnly_sparing (k : LocalClient) (call : String) {m : RedbOp α}
    (hm : Moves (sparing coll.IndexTable) m) :
    ((k.txnSlot.isSome → (onEngineOnly call coll m k).2 = k) ∧
      (k.txnSlot = none → (onEngineOnly call coll m k).2.txnSlot = none)) ∧
    ∀ name, ¬coll.IndexTable name →
      (onEngineOnly call coll m k).2.db.table name = k.db.table name := by
  obtain ⟨-, -, hpending, htable⟩ := engineWorld_spec k coll
  cases hk : k.txnSlot with
  | some ts =>
    rw [onEngineOnly_of_some hk]
    exact ⟨⟨fun _ => rfl, nofun⟩, fun _ _ => rfl⟩
  | none =>
    rw [onEngineOnly_of_none hk, onEngine_of_none hk]
    refine ⟨⟨nofun, fun _ => hk⟩, fun name hname => ?_⟩
    have hempty : (k.engineWorld coll).session.pendingWrites.get name = none := by rfl
    obtain ⟨htables, -⟩ := (hm (k.engineWorld coll)).1 name hname hempty
    rw [← htable name]
    exact congrArg (Option.getD · .empty) htables

lemma createIndex_sparing (keys : Document) (options : Option IndexOptions) :
    Moves (sparing coll.IndexTable)
      (Smongo.createIndex env coll.handle keys options) := by
  refine moves_createIndex (fun name t ht => .inr (.inl ⟨name, ht⟩)) (.inl rfl) (fun cfg hcfg => ?_)
    keys options
  cases hcfg
  exact .inr (.inr rfl)

lemma dropIndex_sparing (name : String) : Moves (sparing coll.IndexTable)
      (Smongo.dropIndex env coll.handle 2 name) := by
  refine moves_dropIndex (fun name t ht => .inr (.inl ⟨name, ht⟩)) (.inl rfl) (fun cfg hcfg => ?_)
    2 name
  cases hcfg
  exact .inr (.inr rfl)

end LocalClient

end Smongo

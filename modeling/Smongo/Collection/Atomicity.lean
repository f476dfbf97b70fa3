import Smongo.Collection.Buffering

/-!
# Atomicity of statements and transactions

A statement outside a transaction commits all its writes at once or none of them.
-/

namespace Smongo

open Eff RedbSession

variable {α : Type} {w w' : RedbWorld}

namespace World

def begin (w : RedbWorld) : RedbWorld := { w with session := (beginTransaction w.session).2 }

def commit (w : RedbWorld) : RedbWorld := { w with session := (commitTransaction w.session).2 }

def rollback (w : RedbWorld) : RedbWorld := { w with session := (rollbackTransaction w.session).2 }

def uncached (w : RedbWorld) : RedbWorld := { w with indexCache := none }

end World

def endTransaction : Outcome CollectionError α × RedbWorld → Outcome CollectionError α × RedbWorld
  | (.ok a, w) => (.ok a, w.commit)
  | (.error e, w) => (.error e, w.rollback)
  | (.panic, w) => (.panic, w)

lemma withTransaction_eq (f : RedbOp α) (w : RedbWorld) :
    withTransaction f w = endTransaction (f w.begin) := by
  change (attempt f >>= _) w.begin = _
  rcases h : f w.begin with ⟨a | e | _, t⟩
  · exact bind_of_ok (attempt_of_ok h)
  · exact bind_of_ok (attempt_of_error h)
  · exact bind_of_panic (by rw [attempt, h])

lemma withBatchedWrite_of_inTransaction (f : RedbOp α)
    (hw : w.session.inTransaction = true) : withBatchedWrite f w = f w := by
  have hread : (read fun w : RedbWorld => StorageSession.inTransaction w.session :
      RedbOp Bool) w = (.ok true, w) := by
    exact congrArg (fun b => (Outcome.ok b, w)) hw
  exact bind_of_ok hread

def endBatch : Outcome CollectionError α × RedbWorld → Outcome CollectionError α × RedbWorld
  | (.ok a, w) => (.ok a, w.uncached.commit)
  | (.error e, w) => (.error e, w.uncached.rollback)
  | (.panic, w) => (.panic, w)

lemma withBatchedWrite_of_not_inTransaction (f : RedbOp α)
    (hw : w.session.inTransaction = false) : withBatchedWrite f w = endBatch (f w.begin) := by
  have hread : (read fun w : RedbWorld => StorageSession.inTransaction w.session :
      RedbOp Bool) w = (.ok false, w) := by
    exact congrArg (fun b => (Outcome.ok b, w)) hw
  rw [withBatchedWrite, bind_of_ok hread]
  change (attempt f >>= _) w.begin = _
  rcases h : f w.begin with ⟨a | e | _, t⟩
  · exact bind_of_ok (attempt_of_ok h)
  · exact bind_of_ok (attempt_of_error h)
  · exact bind_of_panic (by rw [attempt, h])

lemma withBatchedWrite_map {β : Type} (f : RedbOp α) (g : α → β) :
    (do return g (← withBatchedWrite f)) = withBatchedWrite (do return g (← f)) := by
  funext w
  cases hw : w.session.inTransaction with
  | true =>
    rw [withBatchedWrite_of_inTransaction _ hw, bind_apply, bind_apply,
      withBatchedWrite_of_inTransaction _ hw]
  | false =>
    rw [withBatchedWrite_of_not_inTransaction _ hw, bind_apply, bind_apply,
      withBatchedWrite_of_not_inTransaction _ hw]
    rcases f w.begin with ⟨a | e | _, t⟩ <;> rfl

def Statement.prepare (env : Env) (c : Handle) : Statement → RedbOp (RedbOp Reply)
  | insertOne document internal =>
    pure do return .insertOne (← insertOneInner env c document internal)
  | insertMany documents internal => do
    let prepared ← prepareDocuments env c documents
    pure do return .insertMany (← insertPrepared env c prepared internal)
  | updateOne filter update options =>
    pure do return .update (← updateInner env c true filter update options)
  | updateMany filter update options =>
    pure do return .update (← updateInner env c false filter update options)
  | deleteOne filter internal => pure do return .delete (← deleteInner env c true filter internal)
  | deleteMany filter internal => pure do return .delete (← deleteInner env c false filter internal)

lemma Statement.exec_eq (env : Env) (c : Handle) (st : Statement) :
    st.exec env c = (st.prepare env c >>= withBatchedWrite) := by
  cases st with
  | insertMany documents internal =>
    funext w
    simp only [exec, prepare, Smongo.insertMany, bind_apply]
    rcases prepareDocuments env c documents w with ⟨prepared | e | _, t⟩
    · exact congrFun (withBatchedWrite_map (insertPrepared env c prepared internal) _) t
    · rfl
    · rfl
  | insertOne document internal | updateOne filter update options
  | updateMany filter update options | deleteOne filter internal | deleteMany filter internal =>
    exact withBatchedWrite_map _ _

def drawing : Frame RedbWorld where
  rel w w' := w'.session = w.session ∧ w'.indexCache = w.indexCache
  refl _ := ⟨rfl, rfl⟩
  trans h h' := ⟨h'.1.trans h.1, h'.2.trans h.2⟩

variable {c : Handle} {P : String → Prop}

/-- Before its batch a statement only draws fresh values. -/
lemma Statement.composed_prepare (env : Env)
    (prim : ∀ α : Type, RedbOp α → (α → Prop) → Prop) (hdraw : prim ℕ draw fun _ => True)
    {W : String → Prop} (hreads : c.Reads P) (hindex : ∀ name t, c.OfIndex name t → W t)
    (hdata : W c.tableName) (hoplog : c.OplogIn W) (st : Statement) :
    Composed prim (st.prepare env c) fun body => Uses env c P W body := by
  cases st with
  | insertOne document internal =>
    exact .pure ((uses_insertOneInner hreads hindex hdata hoplog document internal).bind
      fun _ _ => .pure trivial)
  | insertMany documents internal =>
    refine (composed_prepareDocuments hdraw documents).bind fun prepared _ => ?_
    exact .pure ((uses_insertPrepared hreads hindex hdata hoplog prepared internal).bind
      fun _ _ => .pure trivial)
  | updateOne filter update options =>
    exact .pure ((uses_updateInner hreads hindex hdata hoplog true filter update options).bind
      fun _ _ => .pure trivial)
  | updateMany filter update options =>
    exact .pure ((uses_updateInner hreads hindex hdata hoplog false filter update options).bind
      fun _ _ => .pure trivial)
  | deleteOne filter internal =>
    exact .pure ((uses_deleteInner hreads hindex hdata hoplog true filter internal).bind
      fun _ _ => .pure trivial)
  | deleteMany filter internal =>
    exact .pure ((uses_deleteInner hreads hindex hdata hoplog false filter internal).bind
      fun _ _ => .pure trivial)

/-- Its batch moves along every frame that allows writes to the collection's data, index and
oplog tables. -/
lemma Statement.moves_prepare {env : Env} {R : Frame RedbWorld} (hR : Admits env c P R)
    (hindex : ∀ name t, c.OfIndex name t → P t) (hdata : P c.tableName) (hoplog : c.OplogIn P)
    (st : Statement) : Moves drawing (st.prepare env c) fun body => Moves R body := by
  have hdraw : Moves drawing (draw : RedbOp ℕ) := fun w => ⟨⟨rfl, rfl⟩, fun _ _ => trivial⟩
  have hprepare := st.composed_prepare env (fun _ m Q => Moves drawing m Q) hdraw c.reads_all hindex
    hdata hoplog
  exact (hprepare.moves id).weaken fun _ hbody => hR.moves hbody

namespace RedbSession

/-- From `s` to `s'` exactly the writes `ws` were made, and reached the committed state in one
redb transaction, if in any. -/
structure CommitsAtOnce (ws : List (String × PendingWrite)) (s s' : RedbSession) : Prop where
  issued : s'.issued = s.issued ++ ws
  table : ∀ name, s'.db.table name = Change.applyAll (s.db.table name) (writesTo name ws)
  once : s'.db = s.db ∨ s'.db.history = s.db.tables :: s.db.history

lemma Buffers.commitsAtOnce {ws : List (String × PendingWrite)} {s t : RedbSession}
    (h : Buffers ws (beginTransaction s).2 t) : CommitsAtOnce ws s (commitTransaction t).2 where
  issued := h.issued
  table name := by
    rw [table_commitTransaction, h.pendingFor, h.db]
    rfl
  once := by
    have hdb : t.db = s.db := h.db
    simp only [commitTransaction, modify_apply]
    split
    · exact .inl hdb
    · refine .inr ?_
      rw [hdb]
      rfl

end RedbSession

/-- A batched write commits all of its writes together, or fails and commits none. -/
lemma withBatchedWrite_atomic {f : RedbOp α} (hf : Moves (writing fun _ => True) f)
    (hw : w.session.inTransaction = false) {r : Outcome CollectionError α}
    (hrun : withBatchedWrite f w = (r, w')) :
    ((∀ a, r ≠ .ok a) → w'.session.db = w.session.db) ∧
    ∀ a, r = .ok a → ∃ ws, RedbSession.CommitsAtOnce ws w.session w'.session := by
  rw [withBatchedWrite_of_not_inTransaction f hw] at hrun
  obtain ⟨ws, -, hbuffers⟩ := (hf w.begin).1 rfl
  rcases hbody : f w.begin with ⟨a | e | _, t⟩ <;> rw [hbody] at hbuffers hrun <;> cases hrun
  · exact ⟨fun h => absurd rfl (h a), fun _ _ => ⟨ws, hbuffers.commitsAtOnce⟩⟩
  · exact ⟨fun _ => hbuffers.db, nofun⟩
  · exact ⟨fun _ => hbuffers.db, nofun⟩

/-- Outside a transaction a statement commits all of its writes when it returns `Ok`, and none
otherwise. -/
lemma Statement.exec_commits (env : Env) (c : Handle) (st : Statement)
    (hw : w.session.inTransaction = false) {r : Outcome CollectionError Reply}
    (hrun : st.exec env c w = (r, w')) :
    ((∀ reply, r ≠ .ok reply) → w'.session.db = w.session.db) ∧
    ∀ reply, r = .ok reply → ∃ ws, RedbSession.CommitsAtOnce ws w.session w'.session := by
  obtain ⟨⟨hsession, -⟩, hbody⟩ := st.moves_prepare (admits_writing env c fun _ => True)
    (fun _ _ _ => trivial) trivial (fun _ _ => trivial) w
  rw [Statement.exec_eq, bind_apply] at hrun
  rcases hprepare : st.prepare env c w with ⟨body | e | _, w₁⟩ <;>
    rw [hprepare] at hsession hbody hrun
  · have hw₁ : w₁.session.inTransaction = false := by rw [hsession, hw]
    have hbatch := withBatchedWrite_atomic (hbody body rfl) hw₁ hrun
    rwa [hsession] at hbatch
  · cases hrun
    exact ⟨fun _ => congrArg db hsession, nofun⟩
  · cases hrun
    exact ⟨fun _ => congrArg db hsession, nofun⟩

/-- A statement outside a transaction makes all of its writes in a single commit, or none and fails.
-/
theorem statement_atomic (env : Env) (c : Handle) (st : Statement) (w w' : World RedbSession)
    (hw : w.session.inTransaction = false) :
    (∀ e, st.exec env c w = (.error e, w') →
      ∀ name, w'.session.db.table name = w.session.db.table name) ∧
    ∀ r, st.exec env c w = (.ok r, w') →
      ∃ ws, RedbSession.CommitsAtOnce ws w.session w'.session := by
  refine ⟨fun e hrun name => ?_, fun r hrun => (st.exec_commits env c hw hrun).2 r rfl⟩
  rw [(st.exec_commits env c hw hrun).1 fun _ h => nomatch h]

section

open Sample

theorem statement_atomic_insertMany :
    let st := Statement.insertMany
      [doc (.int32 1) (.string "x"), doc (.int32 2) (.string "x")] false
    ((st.exec env handle (run [create unique])).1 = .error (duplicateKeyError unique) ∧
      ∀ name, (st.exec env handle (run [create unique])).2.session.db.table name =
        (run [create unique]).session.db.table name) ∧
    ((st.exec env handle (run [create ascending])).1 = .ok (.insertMany ⟨[.int32 1, .int32 2]⟩) ∧
      ∃ ws, RedbSession.CommitsAtOnce ws (run [create ascending]).session
        (st.exec env handle (run [create ascending])).2.session) := by
  intro st
  have herror : (st.exec env handle (run [create unique])).1 =
      .error (duplicateKeyError unique) := by
    decide +kernel
  have hok : (st.exec env handle (run [create ascending])).1 =
      .ok (.insertMany ⟨[.int32 1, .int32 2]⟩) := rfl
  refine ⟨⟨herror, ?_⟩, hok, ?_⟩
  · exact (statement_atomic env handle st _ _ (rfl)).1 _ (Prod.ext herror rfl)
  · exact (statement_atomic env handle st _ _ (rfl)).2 _ (Prod.ext hok rfl)

end

/-- A statement alone in a transaction commits what it commits without one. -/
theorem transaction_of_one (env : Env) (c : Handle) (st : Statement) {w : RedbWorld}
    (hw : w.session.inTransaction = false) :
    (withTransaction (st.exec env c) w).1 = (st.exec env c w).1 ∧
      (withTransaction (st.exec env c) w).2.session.db = (st.exec env c w).2.session.db := by
  -- what it draws before its batch does not depend on the session
  have hdraw : Respects (fun v v' : RedbWorld => v' = v.begin) (draw : RedbOp ℕ) := by
    rintro v _ rfl
    exact ⟨rfl, rfl, fun _ _ => trivial⟩
  have hindex : ∀ name t, c.OfIndex name t → (fun _ => True) t := fun _ _ _ => trivial
  have hprepare := st.composed_prepare env (fun _ m Q => Respects _ m Q) hdraw c.reads_all hindex
    trivial fun _ _ => trivial
  obtain ⟨hsame, hbegin, -⟩ := hprepare.respects id w w.begin rfl
  have hdrawn :=
    (st.moves_prepare (admits_writing env c _) hindex trivial (fun _ _ => trivial) w).1.1
  have hrun : st.prepare env c w.begin = ((st.prepare env c w).1, (st.prepare env c w).2.begin) :=
    Prod.ext hsame.symm hbegin
  rw [withTransaction_eq, Statement.exec_eq, bind_apply, bind_apply, hrun]
  generalize st.prepare env c w = r at hdrawn ⊢
  obtain ⟨body | e | _, v⟩ := r
  · have hv : v.session.inTransaction = false := by rw [hdrawn, hw]
    dsimp only
    rw [withBatchedWrite_of_inTransaction body rfl, withBatchedWrite_of_not_inTransaction body hv]
    rcases body v.begin with ⟨a | e | _, t⟩ <;> exact ⟨rfl, rfl⟩
  · exact ⟨rfl, rfl⟩
  · exact ⟨rfl, rfl⟩

theorem transaction_of_one_insert :
    let st := Sample.insert (.int32 1) (.string "x")
    (withTransaction (st.exec Sample.env Sample.handle) Sample.start).2.session.db =
      (Sample.run [.statement st]).session.db :=
  (transaction_of_one _ _ _ rfl).2

/-! ### Transaction closures -/

/-- Calls that do not open a nested transaction. -/
def Call.Quiet (env : Env) (c : Handle) (w : RedbWorld) : Call → Prop
  | statement _ => True
  | createIndex keys options =>
    ∀ name, checkNewIndex env keys (options.getD {}) = .ok name →
      ∃ specs, (listIndexes env c w).1 = .ok specs ∧ ∃ spec ∈ specs, spec.name = name
  | dropIndex _ => False

lemma writing_withBatchedWrite {f : RedbOp α} (hf : Moves (writing P) f) (w : RedbWorld) :
    (writing P).rel w (withBatchedWrite f w).2 := by
  intro hw
  rw [withBatchedWrite_of_inTransaction f hw]
  exact (hf w).1 hw

lemma writing_of_session_eq (h : w'.session = w.session) : (writing P).rel w w' := by
  intro hw
  rw [h]
  exact ⟨[], by simp, .refl hw⟩

lemma writing_statement (env : Env)
    (hindex : ∀ name t, c.OfIndex name t → P t) (hdata : P c.tableName) (hoplog : c.OplogIn P)
    (st : Statement) (w : RedbWorld) : (writing P).rel w (st.exec env c w).2 := by
  obtain ⟨⟨hsession, -⟩, hbody⟩ := st.moves_prepare (admits_writing env c P) hindex hdata hoplog w
  rw [Statement.exec_eq, bind_apply]
  rcases hprepare : st.prepare env c w with ⟨body | e | _, w₁⟩ <;> rw [hprepare] at hsession hbody
  · exact (writing P).trans (writing_of_session_eq hsession)
      (writing_withBatchedWrite (hbody body rfl) w₁)
  · exact writing_of_session_eq hsession
  · exact writing_of_session_eq hsession

lemma listIndexes_session (env : Env) (c : Handle) (w : RedbWorld) :
    (listIndexes env c w).2.session = w.session := by
  rw [listIndexes_apply]
  split <;> rfl

lemma createIndex_of_quiet (env : Env) {keys : Document}
    {options : Option IndexOptions} (h : (Call.createIndex keys options).Quiet env c w) :
    (createIndex env c keys options w).2.session = w.session := by
  unfold createIndex
  cases hcheck : checkNewIndex env keys (options.getD {}) with
  | error e | panic => rfl
  | ok name =>
    obtain ⟨specs, hspecs, spec, hmem, hname⟩ := h name hcheck
    have hlist : listIndexes env c w = (.ok specs, (listIndexes env c w).2) := by rw [← hspecs]
    have hfound : (specs.find? fun s => s.name = name).isSome :=
      List.find?_isSome.mpr ⟨spec, hmem, by simpa using hname⟩
    obtain ⟨found, hfound⟩ := Option.isSome_iff_exists.mp hfound
    have hstill : ∀ w₁ : RedbWorld, (createUnlessExists env c specs
        ⟨name, keys, { options.getD {} with name := none }⟩ w₁).2 = w₁ := by
      intro w₁
      rw [createUnlessExists, hfound]
      change ((if _ then pure name else fail _) w₁).2 = w₁
      split <;> rfl
    change ((listIndexes env c >>= _) w).2.session = _
    rw [bind_of_ok hlist, hstill, listIndexes_session]

lemma writing_call {env : Env} {call : Call} (h : call.Quiet env c w) :
    (writing fun _ => True).rel w (call.exec env c w).2 := by
  cases call with
  | statement st =>
    exact writing_statement env (fun _ _ _ => trivial) trivial (fun _ _ => trivial) st w
  | dropIndex name => exact h.elim
  | createIndex keys options =>
    refine writing_of_session_eq ?_
    rw [← createIndex_of_quiet env h, Call.exec, bind_apply]
    rcases createIndex env c keys options w with ⟨_ | _ | _, _⟩ <;> rfl

/-- A closure of quiet calls commits all of its writes together, or fails and changes nothing. -/
theorem transaction_closure_atomic (env : Env) (c : Handle)
    (closure : Script Call Reply CollectionError α) (w w' : World RedbSession)
    (hquiet : closure.Guarded (Call.exec env c) (Call.Quiet env c) w.begin) :
    (∀ e, withTransaction (closure.run (Call.exec env c)) w = (.error e, w') →
      ∀ name, w'.session.db.table name = w.session.db.table name) ∧
    ∀ a, withTransaction (closure.run (Call.exec env c)) w = (.ok a, w') →
      ∃ ws, RedbSession.CommitsAtOnce ws w.session w'.session := by
  obtain ⟨ws, -, hbuffers⟩ := closure.run_moves (R := writing fun _ => True)
    (fun _ _ h => writing_call h) hquiet rfl
  rw [withTransaction_eq]
  rcases hrun : closure.run (Call.exec env c) w.begin with ⟨a | e | _, t⟩ <;> rw [hrun] at hbuffers
  · refine ⟨nofun, fun b h => ?_⟩
    cases h
    exact ⟨ws, hbuffers.commitsAtOnce⟩
  · refine ⟨fun e' h name => ?_, nofun⟩
    cases h
    change t.session.db.table name = _
    rw [hbuffers.db]
    rfl
  · exact ⟨nofun, nofun⟩

namespace Sample

def insertAndIndex (result : Except CollectionError Unit) :
    Script Call Reply CollectionError Unit :=
  .inOrder [.statement (insert (.int32 1) (.string "x")), create ascending] result

lemma insertAndIndex_quiet (result : Except CollectionError Unit) :
    (insertAndIndex result).Guarded (Call.exec env handle) (Call.Quiet env handle)
      (run [create ascending]).begin := by
  refine Script.guarded_inOrder ⟨trivial, fun name hname => ?_, trivial⟩
  have hcheck : checkNewIndex env ascending.keys ascending.options = .ok "a_1" := rfl
  rw [show checkNewIndex env ascending.keys ascending.options = .ok name from hname] at hcheck
  cases hcheck
  exact ⟨[ascending], rfl, ascending, List.mem_singleton_self _, rfl⟩

end Sample

section

open Sample

theorem transaction_closure_atomic_insertAndIndex : let w := run [create ascending]
    let committed := withTransaction ((insertAndIndex (.ok ())).run (Call.exec env handle)) w
    let failed := withTransaction
      ((insertAndIndex (.error .missingIdError)).run (Call.exec env handle)) w
    (committed.1 = .ok () ∧ ∃ ws, RedbSession.CommitsAtOnce ws w.session committed.2.session) ∧
    failed.1 = .error .missingIdError ∧
      ∀ name, failed.2.session.db.table name = w.session.db.table name := by
  intro w committed failed
  have hok : committed.1 = .ok () := rfl
  have herror : failed.1 = .error .missingIdError := rfl
  refine ⟨⟨hok, ?_⟩, herror, ?_⟩
  · exact (transaction_closure_atomic env handle _ w _ (insertAndIndex_quiet _)).2 ()
      (Prod.ext hok rfl)
  · exact (transaction_closure_atomic env handle _ w _ (insertAndIndex_quiet _)).1 _
      (Prod.ext herror rfl)

/-- Building an index begins a transaction of its own: the insert is dropped, and the index stays.
-/
theorem insertAndIndex_not_atomic :
    let committed := withTransaction ((insertAndIndex (.ok ())).run (Call.exec env handle)) start
    let failed := withTransaction
      ((insertAndIndex (.error .missingIdError)).run (Call.exec env handle)) start
    (committed.1 = .ok () ∧
      ("t", .put (Bytes.utf8 "1") ((bsonBytes (doc (.int32 1) (.string "x"))).getD [])) ∈
        committed.2.session.issued ∧
      (committed.2.session.db.table "t").get (Bytes.utf8 "1") = none) ∧
    failed.1 = .error .missingIdError ∧ failed.2.session.db.table "t.indexes_metadata" ≠
        start.session.db.table "t.indexes_metadata" := by
  decide +kernel

end

end Smongo

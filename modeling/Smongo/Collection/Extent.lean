import Smongo.Collection.Atomicity

/-!
# The extent of a call

A call touches the tables of its collection and no others.
-/

namespace Smongo

open Eff RedbSession

def sparing (P : String → Prop) : Frame RedbWorld where
  rel w w' := ∀ name, ¬P name → w.session.pendingWrites.get name = none →
    w'.session.db.tables name = w.session.db.tables name ∧ w'.session.pendingWrites.get name = none
  refl _ _ _ h := ⟨rfl, h⟩
  trans h h' name hname hpending := by
    obtain ⟨htables, hnone⟩ := h name hname hpending
    obtain ⟨htables', hnone'⟩ := h' name hname hnone
    exact ⟨htables'.trans htables, hnone'⟩

section

variable {P : String → Prop} {w w' : RedbWorld} {α : Type}

lemma sparing_of_session_eq (h : w'.session = w.session) : (sparing P).rel w w' := by
  intro name _ hpending
  rw [h]
  exact ⟨rfl, hpending⟩

lemma admits_sparing (env : Env) (c : Handle) (P : String → Prop) :
    Admits env c P (sparing P) where
  draw _ := sparing_of_session_eq rfl
  list _ _ _ _ := sparing_of_session_eq rfl
  notify _ _ _ _ _ := sparing_of_session_eq rfl
  write w name op hname name' hname' hpending := by
    have hne : name' ≠ name := fun h => hname' (h ▸ hname)
    simp only [doWrite, modify_apply]
    split
    · refine ⟨rfl, ?_⟩
      rw [OrderedTable.get_insert, if_neg hne]
      exact hpending
    · refine ⟨?_, hpending⟩
      change Redb.writeTable w.session.db.tables name [op] name' = _
      rw [Redb.writeTable, Function.update_of_ne hne]

lemma moves_beginTransaction :
    Moves (sparing P) (onSession StorageSession.beginTransaction) :=
  fun _ => ⟨fun _ _ _ => ⟨rfl, rfl⟩, fun _ _ => trivial⟩

lemma moves_rollbackTransaction :
    Moves (sparing P) (onSession StorageSession.rollbackTransaction) :=
  fun _ => ⟨fun _ _ _ => ⟨rfl, rfl⟩, fun _ _ => trivial⟩

lemma moves_commitTransaction :
    Moves (sparing P) (onSession StorageSession.commitTransaction) := by
  refine fun w => ⟨fun name _ hpending => ⟨?_, rfl⟩, fun _ _ => trivial⟩
  change (commitTransaction w.session).2.db.tables name = w.session.db.tables name
  rw [tables_commitTransaction, hpending, Option.elim_none]

lemma moves_createTable {name : String} (h : P name) :
    Moves (sparing P) (onSession (StorageSession.createTable name)) := by
  refine fun w => ⟨fun name' hname' hpending => ⟨?_, hpending⟩, fun _ _ => trivial⟩
  have hne : name' ≠ name := fun heq => hname' (heq ▸ h)
  exact Function.update_of_ne hne _ _

lemma moves_dropTable {name : String} (h : P name) :
    Moves (sparing P) (onSession (StorageSession.onSibling (StorageSession.dropTable name)) :
      RedbOp Unit) := by
  refine fun w => ⟨fun name' hname' hpending => ⟨?_, hpending⟩, fun _ _ => trivial⟩
  have hne : name' ≠ name := fun heq => hname' (heq ▸ h)
  exact Function.update_of_ne hne _ _

lemma moves_invalidateIndexCache : Moves (sparing P) (invalidateIndexCache : RedbOp Unit) :=
  fun _ => ⟨sparing_of_session_eq rfl, fun _ _ => trivial⟩

lemma moves_withBatchedWrite {f : RedbOp α} (hf : Moves (sparing P) f) :
    Moves (sparing P) (withBatchedWrite f) := by
  refine (Moves.read _).bind fun _ _ => .ite hf ?_
  refine moves_beginTransaction.bind fun _ _ => hf.attempt.bind fun r _ =>
    moves_invalidateIndexCache.bind fun _ _ => ?_
  cases r with
  | ok v => exact moves_commitTransaction.map
  | error e => exact moves_rollbackTransaction.attempt.bind fun _ _ => .fail e

variable {env : Env} {c : Handle}

lemma Statement.moves_exec (hindex : ∀ name t, c.OfIndex name t → P t) (hdata : P c.tableName)
    (hoplog : c.OplogIn P) (st : Statement) :
    Moves (sparing P) (st.exec env c) := by
  rw [Statement.exec_eq]
  have hprepare := st.moves_prepare (admits_sparing env c P) hindex hdata hoplog
  have hdrawing : Moves (sparing P) (st.prepare env c) fun body => Moves (sparing P) body :=
    fun w => ⟨sparing_of_session_eq (hprepare w).1.1, (hprepare w).2⟩
  exact hdrawing.bind fun _ hbody => moves_withBatchedWrite hbody

variable (hindex : ∀ name t, c.OfIndex name t → P t) (hmetadata : P c.metadataTable)
  (hoplog : c.OplogIn P)
include hindex hmetadata hoplog

lemma moves_createMissingIndex (spec : IndexSpec) :
    Moves (sparing P) (createMissingIndex env c spec) := by
  have hname : P (c.indexTable spec.name) := hindex spec.name _ (.inl rfl)
  have hbuild : Moves (sparing P) (buildIndex env c spec) := by
    refine (moves_createTable hname).bind fun _ _ => (moves_createTable hmetadata).bind fun _ _ =>
      ?_
    split
    · exact .fail _
    · exact (admits_sparing env c P).moves (uses_registerIndex trivial hname hmetadata hoplog _)
  refine moves_beginTransaction.bind fun _ _ => hbuild.attempt.bind fun r _ =>
    moves_invalidateIndexCache.bind fun _ _ => ?_
  cases r with
  | ok v => exact moves_commitTransaction.map
  | error e =>
    have hundo : Moves (sparing P) (ignoreError (onSession StorageSession.rollbackTransaction) :
        RedbOp Unit) := moves_rollbackTransaction.attempt.map
    exact hundo.bind fun _ _ => .fail e

lemma moves_createIndex (keys : Document) (options : Option IndexOptions) :
    Moves (sparing P) (createIndex env c keys options) := by
  refine (Moves.ofOutcome _).bind fun name _ =>
    (admits_sparing env c P).moves_listIndexes.bind fun existing _ => ?_
  unfold createUnlessExists
  split
  · exact .ite (.pure trivial) (.fail _)
  · exact moves_createMissingIndex hindex hmetadata hoplog _

lemma moves_dropIndex (fuel : ℕ) (name : String) :
    Moves (sparing P) (dropIndex env c fuel name) := by
  induction fuel generalizing name with
  | zero => exact .ofOutcome _
  | succ fuel ih =>
    refine .ite ?_ ?_
    · exact (admits_sparing env c P).moves_listIndexes.bind fun specs _ => .forM specs
        fun spec _ => .ite (.pure trivial) (ih spec.name)
    · exact (moves_dropTable (hindex name _ (.inl rfl))).bind fun _ _ =>
        ((admits_sparing env c P).moves
          (uses_removeIfFound trivial hmetadata (Bytes.utf8 name))).bind fun _ _ =>
        moves_invalidateIndexCache.bind fun _ _ =>
          (admits_sparing env c P).moves (uses_appendOplogIfEnabled hoplog _ _ _ _ _)

end

/-- No program of calls on a collection changes a table that is not the collection's, whatever the
calls return. -/
theorem program_extent (env : Env) {c : Handle} {name : String} (hdata : c.tableName ≠ name)
    (hmetadata : c.metadataTable ≠ name) (hindex : ∀ n t, c.OfIndex n t → t ≠ name)
    (hoplog : c.OplogIn (· ≠ name)) {α : Type} (program : Script Call Reply CollectionError α)
    {w : RedbWorld} (hpending : w.session.pendingWrites.get name = none) :
    (program.run (Call.exec env c) w).2.session.db.tables name = w.session.db.tables name := by
  have hcall : ∀ call : Call, Moves (sparing (· ≠ name)) (call.exec env c) := by
    intro call
    cases call with
    | statement st => exact st.moves_exec hindex hdata hoplog
    | createIndex keys options => exact (moves_createIndex hindex hmetadata hoplog keys options).map
    | dropIndex name' => exact (moves_dropIndex hindex hmetadata hoplog 2 name').map
  have hrun := program.run_moves (fun w call _ => (hcall call w).1) (program.guarded_true w)
  exact (hrun name (not_not.mpr rfl) hpending).1

theorem program_extent_insert :
    let program : Script Call Reply CollectionError Unit :=
      .call (.statement (Sample.insert (.int32 1) (.string "x"))) fun _ => .done ()
    (program.run (Call.exec Sample.env Sample.handle) Sample.start).2.session.db.tables "u" =
      none := by
  refine program_extent _ (by decide) (by decide) (fun n t ht heq => ?_) (fun _ h => by cases h) _
    rfl
  have hchars := congrArg String.toList heq
  rcases ht with rfl | rfl | rfl <;>
    simp [Handle.indexTable, Handle.textTable, Handle.prefixTable, Sample.handle] at hchars

end Smongo

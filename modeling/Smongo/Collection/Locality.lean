import Smongo.Collection.Extent

/-!
# Calls see only their own tables

Two worlds that differ only in tables which a call does not look at give it the same
outcome.
-/

namespace Smongo

open Eff

namespace RedbSession

variable {P : String → Prop} {s t u : RedbSession}

lemma SameOn.refl (s : RedbSession) : SameOn P s s := ⟨rfl, fun _ _ => rfl, fun _ _ => rfl⟩

section

variable (h : SameOn P s t)
include h

lemma SameOn.trans (h' : SameOn P t u) : SameOn P s u where
  inTransaction := h.inTransaction.trans h'.inTransaction
  tables name hname := (h.tables name hname).trans (h'.tables name hname)
  pending name hname := (h.pending name hname).trans (h'.pending name hname)

lemma SameOn.mono {P' : String → Prop} (hP : ∀ name, P' name → P name) : SameOn P' s t where
  inTransaction := h.inTransaction
  tables name hname := h.tables name (hP name hname)
  pending name hname := h.pending name (hP name hname)

lemma SameOn.beginTransaction :
    SameOn P (beginTransaction s).2 (beginTransaction t).2 := ⟨rfl, h.tables, fun _ _ => rfl⟩

lemma SameOn.rollbackTransaction :
    SameOn P (rollbackTransaction s).2 (rollbackTransaction t).2 := ⟨rfl, h.tables, fun _ _ => rfl⟩

lemma SameOn.commitTransaction : SameOn P (commitTransaction s).2 (commitTransaction t).2 := by
  refine ⟨rfl, fun name hname => ?_, fun _ _ => rfl⟩
  rw [tables_commitTransaction, tables_commitTransaction, Redb.table, Redb.table,
    h.tables name hname, h.pending name hname]

lemma SameOn.createTable (name : String) :
    SameOn P (createTable name s).2 (createTable name t).2 := by
  refine ⟨h.inTransaction, fun name' hname' => ?_, h.pending⟩
  change Redb.writeTable s.db.tables name [] name' = Redb.writeTable t.db.tables name [] name'
  simp only [Redb.writeTable, Function.update_apply]
  split
  · next heq =>
    subst heq
    rw [h.tables _ hname']
  · exact h.tables name' hname'

end

end RedbSession

section

variable {P W : String → Prop} {α : Type}

lemma respects_onSession {g : RedbSession → RedbSession}
    (hg : ∀ s t, RedbSession.SameOn P s t → RedbSession.SameOn P (g s) (g t)) :
    Respects (World.SameOn P W) (onSession (Eff.modify g)) :=
  fun _ _ hw => ⟨rfl, ⟨hg _ _ hw.session, hw.indexCache, hw.ticks⟩, fun _ _ => trivial⟩

lemma respects_beginTransaction : Respects (World.SameOn P W)
    (onSession StorageSession.beginTransaction) :=
  respects_onSession fun _ _ h => h.beginTransaction

lemma respects_commitTransaction : Respects (World.SameOn P W)
    (onSession StorageSession.commitTransaction) :=
  respects_onSession fun _ _ h => h.commitTransaction

lemma respects_rollbackTransaction : Respects (World.SameOn P W)
    (onSession StorageSession.rollbackTransaction) :=
  respects_onSession fun _ _ h => h.rollbackTransaction

lemma respects_createTable (name : String) : Respects (World.SameOn P W)
    (onSession (StorageSession.createTable name)) :=
  respects_onSession fun _ _ h => h.createTable name

lemma respects_invalidateIndexCache :
    Respects (World.SameOn P W) (invalidateIndexCache : RedbOp Unit) :=
  .modify fun _ _ hw => ⟨hw.session, rfl, hw.ticks⟩

lemma respects_withBatchedWrite {f : RedbOp α} (hf : Respects (World.SameOn P W) f) :
    Respects (World.SameOn P W) (withBatchedWrite f) := by
  refine (Respects.read fun _ _ hw => hw.session.inTransaction).bind fun inTransaction _ => ?_
  refine .ite hf ?_
  refine respects_beginTransaction.bind fun _ _ => hf.attempt.bind fun r _ =>
    respects_invalidateIndexCache.bind fun _ _ => ?_
  cases r with
  | ok v => exact respects_commitTransaction.map
  | error e => exact respects_rollbackTransaction.attempt.bind fun _ _ => .fail e

variable {env : Env} {c : Handle} (hreads : c.Reads P)
  (hindex : ∀ name t, c.OfIndex name t → W t) (hoplog : c.OplogIn W)
include hreads hindex hoplog

lemma Statement.respects_exec (hdata : W c.tableName) (st : Statement) :
    Respects (World.SameOn P W) (st.exec env c) := by
  rw [Statement.exec_eq]
  have hprepare := st.composed_prepare env (Primitive env c P W) (.draw _ hdata) hreads hindex hdata
    hoplog
  exact (Uses.respects hprepare).bind fun _ hbody => respects_withBatchedWrite hbody.respects

lemma respects_createMissingIndex (hmetadata : W c.metadataTable) (spec : IndexSpec) :
    Respects (World.SameOn P W) (createMissingIndex env c spec) := by
  have hbuild : Respects (World.SameOn P W) (buildIndex env c spec) := by
    refine (respects_createTable _).bind fun _ _ => (respects_createTable _).bind fun _ _ => ?_
    split
    · exact .fail _
    · exact (uses_registerIndex hreads.data (hindex spec.name _ (.inl rfl)) hmetadata hoplog
        _).respects
  refine respects_beginTransaction.bind fun _ _ => hbuild.attempt.bind fun r _ =>
    respects_invalidateIndexCache.bind fun _ _ => ?_
  cases r with
  | ok v => exact respects_commitTransaction.map
  | error e =>
    have hundo : Respects (World.SameOn P W)
        (ignoreError (onSession StorageSession.rollbackTransaction)) :=
      respects_rollbackTransaction.attempt.map
    exact hundo.bind fun _ _ => .fail e

lemma respects_createIndex (hmetadata : W c.metadataTable) (keys : Document)
    (options : Option IndexOptions) :
    Respects (World.SameOn P W) (createIndex env c keys options) := by
  refine (Respects.ofOutcome fun _ _ => trivial).bind fun name _ =>
    (uses_listIndexes hreads).respects.bind fun existing _ => ?_
  unfold createUnlessExists
  split
  · exact .ite (.pure trivial) (.fail _)
  · exact respects_createMissingIndex hreads hindex hoplog hmetadata _

end

end Smongo

import Smongo.Collection.Maintenance
import Smongo.Database.Core

/-!
# What `drop_collection` drops

The tables of a collection and of its indexes, and dropping them.
-/

namespace Smongo

open List RedbSession

def Handle.Satellite (c : Handle) (t : String) : Prop :=
  t = c.metadataTable ∨ ∃ name, c.OfIndex name t

def Handle.Owns (c : Handle) (t : String) : Prop := t = c.tableName ∨ c.Satellite t

lemma Handle.Satellite.startsWith {c : Handle} {t : String} (h : c.Satellite t) :
    Smongo.startsWith (c.collectionName ++ ".") t = true := by
  rw [startsWith_iff]
  rcases h with rfl | ⟨name, rfl | rfl | rfl⟩
  · exact ⟨"indexes_metadata", by simp [metadataTable, String.append_assoc]⟩
  · exact ⟨"idx_" ++ name, by rw [← String.toList_inj]; simp [indexTable]⟩
  · exact ⟨"ftx_" ++ name, by rw [← String.toList_inj]; simp [textTable]⟩
  · exact ⟨"pfx_" ++ name, by rw [← String.toList_inj]; simp [prefixTable]⟩

namespace Redb

variable (tables : List (String × Table))

def ofTables : Redb := ⟨fun t => tables.lookup t, []⟩

lemma lists_ofTables : (ofTables tables).Lists (tables.map Prod.fst) := by
  intro t
  induction tables with
  | nil => simp [ofTables]
  | cons p tables ih =>
    have hcons : (ofTables (p :: tables)).tables t =
        if t = p.1 then some p.2 else (ofTables tables).tables t :=
      OrderedTable.lookup_cons_ite p tables t
    rw [map_cons, mem_cons, ih, hcons]
    by_cases ht : t = p.1
    · simp [ht]
    · simp [ht]

end Redb

namespace Database

variable {d : Database} {all : List String} {name : String} {db : Redb}

variable (d) in
def Reaches (name t : String) : Prop :=
  t = d.tableName name ∨ startsWith (d.tableName name ++ ".") t = true

instance instDecidableReaches (name t : String) : Decidable (d.Reaches name t) :=
  inferInstanceAs (Decidable (_ ∨ _))

lemma mem_owned {t : String} : t ∈ owned all (d.tableName name) ↔ t ∈ all ∧ d.Reaches name t := by
  simp [owned, Reaches]

lemma forM_dropOwned (table : String) (ts : List String) (s : RedbSession) :
    ∃ s', ts.forM (dropOwned table) s = (.ok (), s') ∧
      ∀ t, s'.db.tables t = if t ∈ ts then none else s.db.tables t := by
  induction ts generalizing s with
  | nil => exact ⟨s, rfl, fun t => (if_neg not_mem_nil).symm⟩
  | cons u ts ih =>
    obtain ⟨s', hrun, htables⟩ := ih (dropTable u s).2
    refine ⟨s', hrun, fun t => ?_⟩
    rw [htables]
    by_cases hmem : t ∈ ts
    · simp [hmem]
    · by_cases htu : t = u
      · simp [htu, dropTable, Redb.transact]
      · simp [hmem, htu, dropTable, Redb.transact]

variable (d name) in
lemma tables_dropCollection (hall : db.Lists all) (t : String) :
    (d.dropCollection all name db).2.tables t =
      if d.tableName name ∈ all ∧ d.Reaches name t then none else db.tables t := by
  unfold dropCollection
  by_cases hname : d.tableName name ∈ all
  · rw [if_pos hname]
    obtain ⟨s', hrun, htables⟩ := forM_dropOwned (d.tableName name)
      (owned all (d.tableName name)) ⟨db, false, .empty, []⟩
    change ((owned all (d.tableName name)).forM (dropOwned (d.tableName name))
      ⟨db, false, .empty, []⟩).2.db.tables t = _
    rw [hrun]
    simp only [htables, mem_owned]
    by_cases ht : t ∈ all
    · simp [hname, ht]
    · have hnone : db.tables t = none := by
        rw [hall t, Option.not_isSome_iff_eq_none] at ht
        exact ht
      simp [hnone]
  · rw [if_neg hname, if_neg fun h => hname h.1]
    rfl

/-- All tables of the collection are gone, and the other collections have kept theirs. -/
structure Dropped (d : Database) (all : List String) (name : String) (before after : Redb) :
    Prop where
  gone : ∀ t, (d.handle name).Owns t → after.tables t = none
  reopened : ∀ env ticks, let db := (d.openCollection name after).2
    (db.table (d.tableName name)).rows = [] ∧
      (listIndexes env (d.handle name) (db.world ticks)).1 = .ok []
  kept : ∀ other ∈ d.listCollectionNames all, other ≠ name →
    ¬ (d.handle name).Satellite (d.tableName other) →
    ∀ t, (d.handle other).Owns t → after.tables t = before.tables t

variable (d name) in
lemma rows_openCollection {after : Redb} {t : String} (h : after.tables t = none) :
    ((d.openCollection name after).2.table t).rows = [] := by
  change ((Redb.writeTable after.tables (d.tableName name) [] t).getD .empty).rows = []
  rw [Redb.writeTable, Function.update_apply]
  split
  · next ht => rw [← ht, h]; rfl
  · rw [h]; rfl

lemma listIndexes_openCollection {after : Redb}
    (h : after.tables (d.handle name).metadataTable = none) (env : Env) (ticks : ℕ) :
    (listIndexes env (d.handle name) ((d.openCollection name after).2.world ticks)).1 = .ok [] := by
  have hrows := rows_openCollection d name h
  have hshown : RedbCursor.shown ((d.openCollection name after).2.world ticks).session
      (d.handle name).metadataTable = [] := by
    unfold RedbCursor.shown
    split
    · rfl
    · exact hrows
  rw [listIndexes_apply]
  change readSpecs env (RedbCursor.shown ((d.openCollection name after).2.world ticks).session
    (d.handle name).metadataTable) = .ok []
  rw [hshown]
  rfl

/-- A collection is dropped and nothing else iff just its own index tables extend the name of its
document table with a dot. -/
theorem drop_collection_exact (hall : db.Lists all) :
    Dropped d all name db (d.dropCollection all name db).2 ↔
      (∀ t ∈ all, (d.handle name).Satellite t → d.tableName name ∈ all ∧ d.Reaches name t) ∧
      (d.tableName name ∈ all → ∀ other ∈ d.listCollectionNames all, other ≠ name →
        ¬ (d.handle name).Satellite (d.tableName other) →
        ∀ t ∈ all, (d.handle other).Owns t → ¬ d.Reaches name t) := by
  have htables := tables_dropCollection d name hall
  constructor
  · intro h
    refine ⟨fun t ht hsat => ?_, fun hname other hother hne hsat t ht howns hreach => ?_⟩
    · have hgone := h.gone t (.inr hsat)
      rw [htables] at hgone
      by_contra hcon
      rw [if_neg hcon] at hgone
      have hsome := (hall t).mp ht
      rw [hgone] at hsome
      cases hsome
    · have hkept := h.kept other hother hne hsat t howns
      rw [htables, if_pos ⟨hname, hreach⟩] at hkept
      have hsome := (hall t).mp ht
      rw [← hkept] at hsome
      cases hsome
  · rintro ⟨hown, hothers⟩
    have hgone : ∀ t, (d.handle name).Owns t →
        (d.dropCollection all name db).2.tables t = none := by
      intro t howns
      rw [htables]
      split
      · rfl
      · next hcon =>
        by_contra hsome
        have ht : t ∈ all := (hall t).mpr (Option.isSome_iff_ne_none.mpr hsome)
        rcases howns with rfl | hsat
        · exact hcon ⟨ht, .inl rfl⟩
        · exact hcon (hown t ht hsat)
    refine ⟨hgone, fun env ticks => ⟨?_, ?_⟩, fun other hother hne hsat t howns => ?_⟩
    · exact rows_openCollection d name (hgone _ (.inl rfl))
    · exact listIndexes_openCollection (hgone _ (.inr (.inl rfl))) env ticks
    · rw [htables]
      split
      · next hreach =>
        by_contra hsome
        have ht : t ∈ all := (hall t).mpr (Option.isSome_iff_ne_none.mpr (Ne.symm hsome))
        exact hothers hreach.1 other hother hne hsat t ht howns hreach.2
      · rfl

end Database

namespace Sample

def plainDb : Database := ⟨none⟩

def prefixedDb : Database := ⟨some "p_"⟩

def sampleRow : Table := OrderedTable.empty.insert [1] [1]

def usersTables : List (String × Table) :=
  [("users", sampleRow), ("users.idx_a_1", sampleRow), ("users.indexes_metadata", sampleRow),
    ("posts", sampleRow)]

def prefixedTables : List (String × Table) :=
  [("p_users", sampleRow), ("users.idx_a_1", sampleRow), ("users.indexes_metadata", sampleRow)]

def archiveTables : List (String × Table) := [("users", sampleRow), ("users.archive", sampleRow)]

def dropUsers (d : Database) (tables : List (String × Table)) : Outcome DatabaseError Unit × Redb :=
  d.dropCollection (tables.map Prod.fst) "users" (.ofTables tables)

end Sample

section

open Sample

theorem drop_collection_exact_users :
    plainDb.Dropped (usersTables.map Prod.fst) "users" (.ofTables usersTables)
      (dropUsers plainDb usersTables).2 := by
  refine (Database.drop_collection_exact (Redb.lists_ofTables usersTables)).mpr
    ⟨fun t _ hsat => ?_, ?_⟩
  · exact ⟨by decide, .inr hsat.startsWith⟩
  · intro _ other hother hne _ t ht howns
    have hlisted : plainDb.listCollectionNames (usersTables.map Prod.fst) = ["users", "posts"] := by
      decide
    have hposts : other = "posts" := by
      rw [hlisted] at hother
      simp only [mem_cons, not_mem_nil, or_false] at hother
      exact hother.resolve_left hne
    subst hposts
    have hapart : ∀ t ∈ usersTables.map Prod.fst, t = "posts" ∨ startsWith "posts." t = true →
        ¬ plainDb.Reaches "users" t := by decide
    exact hapart t ht (howns.imp_right Handle.Satellite.startsWith)

/-- With a prefix the indexes stay; without one a collection with a longer name goes as well. -/
theorem drop_collection_inexact : ((dropUsers prefixedDb prefixedTables).1 = .ok () ∧
      ¬ prefixedDb.Dropped (prefixedTables.map Prod.fst) "users" (.ofTables prefixedTables)
        (dropUsers prefixedDb prefixedTables).2) ∧
    (dropUsers plainDb archiveTables).1 = .ok () ∧
      ¬ plainDb.Dropped (archiveTables.map Prod.fst) "users" (.ofTables archiveTables)
        (dropUsers plainDb archiveTables).2 := by
  refine ⟨⟨by decide, fun h => ?_⟩, by decide, fun h => ?_⟩
  · have hgone := h.gone "users.indexes_metadata" (.inr (.inl rfl))
    revert hgone
    decide
  · have hsat : ¬ (plainDb.handle "users").Satellite (plainDb.tableName "users.archive") := by
      rintro (h | ⟨name, h | h | h⟩) <;> exact absurd (congrArg String.toList h)
        (by simp [Database.handle, Database.tableName, plainDb, Handle.metadataTable,
          Handle.indexTable, Handle.textTable, Handle.prefixTable])
    have hkept := h.kept "users.archive" (by decide) (by decide) hsat "users.archive" (.inl rfl)
    revert hkept
    decide

end

end Smongo

import Smongo.Collection.Runs

/-!
# Rebuilding all indexes

`rebuild_all_indexes` clears each table, if it has a row with the empty key, and builds it again.
-/

namespace Smongo

open Eff List OrderedTable RedbCursor Outcome StorageCursor IndexSpec World

section

variable {S C : Type} [StorageCursor C] [StorageSession S C] (env : Env) (c : Handle)

def collectKey (cursor : C) (keys : List Bytes) : Op S (Bool × C × List Bytes) := do
  let key ← liftStorage (getKeyRaw cursor)
  pure (true, cursor, keys ++ [key])

def collectKeys (cursor : C) : Op S (List Bytes) := do
  let key ← liftStorage (getKeyRaw cursor)
  let rows ← read fun w => StorageSession.rowsLeft cursor w.session
  whileNext collectKey (rows + 1) cursor [key]

def clearIndexTable (name : String) : Op S Unit := do
  let cursor : C ← openTable (c.indexTable name)
  let (found, cursor) ← move StorageSession.search (StorageCursor.setKey cursor [])
  match found with
  | .error _ => pure ()
  | .ok () => do
    let keys ← collectKeys cursor
    keys.forM (removeIfFound (c.indexTable name))

def rebuildOne (n : ℕ) (spec : IndexSpec) : Op S ℕ :=
  if spec.name = "_id_" then pure n
  else do
    clearIndexTable c spec.name
    rebuildIndex env c spec.name spec.keys spec.options
    pure (n + 1)

def rebuildAllIndexes : Op S ℕ := do
  let indexes ← listIndexes env c
  indexes.foldlM (rebuildOne env c) 0

def insertStored (rows : Rows) : Op S Unit :=
  rows.forM fun row => do
    let doc ← ofOutcome (deserializeDocument env row.2)
    insertIntoIndexes env c doc

end

section

variable {env : Env} {c : Handle} {w w' : RedbWorld} {spec : IndexSpec} {name : String}

lemma removeKeys_written (name : String) (keys : List Bytes) (w : RedbWorld) :
    ∃ ops, (keys.forM (removeIfFound name)) w = (.ok (), w.writtenAll name ops) ∧
      ∀ k, ((w.writtenAll name ops).view name).get k =
        if k ∈ keys ∧ ((w.committed name).get k).isSome then none else (w.view name).get k := by
  induction keys generalizing w with
  | nil => exact ⟨[], rfl, fun k => by simp [writtenAll]⟩
  | cons key keys ih =>
    cases hkey : ((w.committed name).get key).isSome with
    | false =>
      obtain ⟨ops, hrun, hget⟩ := ih w
      refine ⟨ops, ?_, fun k => ?_⟩
      · refine (bind_of_ok (removeIfFound_written name key w)).trans ?_
        rw [hkey]
        exact hrun
      · rw [hget]
        by_cases hk : k = key
        · subst hk
          simp [hkey]
        · simp [hk]
    | true =>
      obtain ⟨ops, hrun, hget⟩ := ih (w.written name (.del key))
      refine ⟨.del key :: ops, ?_, fun k => ?_⟩
      · refine (bind_of_ok (removeIfFound_written name key w)).trans ?_
        rw [hkey]
        exact hrun
      · have hcommitted : k ≠ key → ((w.written name (.del key)).committed name).get k =
            (w.committed name).get k := by
          intro hk
          rw [committed, written, RedbSession.table_doWrite]
          split
          · exact (get_erase _ _ _).trans (if_neg hk)
          · rfl
        change (((w.written name (.del key)).writtenAll name ops).view name).get k = _
        rw [hget, view_written]
        by_cases hk : k = key
        · subst hk
          simp [hkey, Change.apply, get_erase]
        · rw [hcommitted hk, Change.apply, get_erase, if_neg hk]
          simp [hk]

lemma collectKey_eq (cursor : RedbCursor) (row : Row) (rest : Rows)
    (keys : List Bytes) (hat : RedbCursor.At cursor row rest) :
    collectKey cursor keys = (ofOutcome (do
      .ok (true, cursor, ← (.ok (keys ++ [row.1]) : Outcome CollectionError (List Bytes)))) :
        RedbOp _) := by
  funext w
  rw [collectKey, hat.getKeyRaw]
  rfl

lemma foldlM_keys (rows : Rows) (keys : List Bytes) :
    rows.foldlM (fun keys row => (.ok (keys ++ [row.1]) : Outcome CollectionError (List Bytes)))
      keys = .ok (keys ++ rows.map Prod.fst) := by
  induction rows generalizing keys with
  | nil => simp [pure]
  | cons row rows ih =>
    refine (ih (keys ++ [row.1])).trans ?_
    simp

lemma shown_of_committed {key value : Bytes} (h : (w.committed name).get key = some value) :
    shown w.session name = (w.view name).rows := by
  unfold shown
  cases htable : w.session.db.tables name with
  | some table => rfl
  | none =>
    rw [committed, Redb.table, htable] at h
    cases h

/-- The table has no committed row with the empty key, or the row is not committed itself. -/
def Outlives (committed : Table) (key : Bytes) : Prop :=
  committed.get [] = none ∨ committed.get key = none

instance (committed : Table) (key : Bytes) : Decidable (Outlives committed key) :=
  inferInstanceAs (Decidable (_ ∨ _))

lemma clearIndexTable_written (name : String) (w : RedbWorld) :
    ∃ ops, clearIndexTable c name w = (.ok (), w.writtenAll (c.indexTable name) ops) ∧
      ∀ k, ((w.writtenAll (c.indexTable name) ops).view (c.indexTable name)).get k =
        if Outlives (w.committed (c.indexTable name)) k then (w.view (c.indexTable name)).get k
        else none := by
  let cursor : RedbCursor := { tableName := c.indexTable name, pendingKey := some [] }
  have heff : cursor.effectiveKey = .ok [] := rfl
  cases hget : (w.committed (c.indexTable name)).get [] with
  | none =>
    obtain ⟨e, hsearch⟩ := search_of_get_eq_none heff hget
    refine ⟨[], ?_, fun k => (if_pos (.inl hget)).symm⟩
    rw [clearIndexTable, bind_of_ok (openTable_apply _ w)]
    refine (bind_of_ok (move_search cursor w)).trans ?_
    rw [hsearch]
    rfl
  | some value =>
    let found : RedbCursor := { cursor with currentKey := some [], currentValue := some value }
    -- `search` leaves the position alone, so that `next` comes to the first row of the table
    have hleft : found.Left w.session (shown w.session (c.indexTable name)) :=
      left_of_entries_none rfl rfl
    have hkeys : collectKeys found w =
        (.ok ([] :: (shown w.session (c.indexTable name)).map Prod.fst), w) := by
      refine (whileNext_fold collectKey_eq (Nat.lt_succ_of_le (le_of_eq ?_)) hleft [[]]).trans ?_
      · exact (rowsLeft_of_left hleft).symm
      · rw [foldlM_keys]
        rfl
    obtain ⟨ops, hrun, hops⟩ := removeKeys_written (c.indexTable name)
      ([] :: (shown w.session (c.indexTable name)).map Prod.fst) w
    refine ⟨ops, ?_, fun k => ?_⟩
    · rw [clearIndexTable, bind_of_ok (openTable_apply _ w)]
      refine (bind_of_ok (move_search cursor w)).trans ?_
      rw [search_of_get_eq_some heff hget]
      exact (bind_of_ok hkeys).trans hrun
    · rw [hops]
      by_cases hk : (w.committed (c.indexTable name)).get k = none
      · have hlives : Outlives (w.committed (c.indexTable name)) k := .inr hk
        rw [if_neg (by simp [hk]), if_pos hlives]
      · have hlives : ¬ Outlives (w.committed (c.indexTable name)) k := by
          rintro (h | h)
          · cases hget.symm.trans h
          · exact hk h
        split
        · rfl
        · next hnot =>
          -- a row that the session sees is among those collected
          by_contra hsome
          obtain ⟨v, hv⟩ := Option.ne_none_iff_exists'.mp hsome
          apply hnot
          refine ⟨mem_cons_of_mem _ ?_, Option.isSome_iff_ne_none.mpr hk⟩
          rw [shown_of_committed hget]
          exact mem_map_of_mem (f := Prod.fst) (get_eq_some_iff.mp hv)

def IndexSpec.scratch (env : Env) (spec : IndexSpec) (rows : Rows) : Table :=
  spec.rebuilt env rows .empty

def IndexSpec.remade (env : Env) (spec : IndexSpec) (rows : Rows) : Table :=
  if spec.name = "_id_" then .empty else Change.applyAll .empty (spec.buildAllOps env rows)

def IndexSpec.Left (c : Handle) (spec : IndexSpec) (w : RedbWorld) (r v : Bytes) : Prop :=
  (w.view (c.indexTable spec.name)).get r = some v ∧
    (spec.name ≠ "_id_" → Outlives (w.committed (c.indexTable spec.name)) r)

def Remade (env : Env) (c : Handle) (spec : IndexSpec) (w w' : RedbWorld) : Prop :=
  ∀ r v, (w'.view (c.indexTable spec.name)).get r = some v ↔
    (spec.remade env (shown w.session c.tableName)).get r = some v ∨
      ((spec.remade env (shown w.session c.tableName)).get r = none ∧ spec.Left c w r v)

lemma rebuildOne_written {n n' : ℕ} (hsep : c.Separate)
    (hrun : rebuildOne env c n spec w = (.ok n', w')) :
    (∃ ops, w' = w.writtenAll (c.indexTable spec.name) ops) ∧ Remade env c spec w w' := by
  unfold rebuildOne at hrun
  split at hrun
  · next hname =>
    cases hrun
    refine ⟨⟨[], rfl⟩, fun r v => ?_⟩
    simp [remade, IndexSpec.Left, hname]
  · next hname =>
    obtain ⟨dels, hclear, hcleared⟩ := clearIndexTable_written (c := c) spec.name w
    rw [bind_of_ok hclear] at hrun
    obtain ⟨⟨⟩, w₂, hbuild, hend⟩ := bind_eq_ok.mp hrun
    cases hend
    have hdata : c.tableName ≠ c.indexTable spec.name := fun h =>
      hsep.data_index spec.name (h ▸ (c.ofIndex_indexTable.mpr rfl))
    have hsame := sameTable_writtenAll (w := w) hdata dels
    rw [rebuildIndex_written hbuild, hsame.shown, ← writtenAll_append]
    refine ⟨⟨_, rfl⟩, fun r v => ?_⟩
    rw [writtenAll_append, view_writtenAll,
      Change.get_applyAll_of_puts fun op hop => mem_buildAllOps hop, hcleared,
      remade, if_neg hname, IndexSpec.Left, Option.or_eq_some_iff]
    split
    · next hlives => simp [hlives]
    · next hlives => simp [hlives, hname]

lemma rebuildAll_remade (hsep : c.Separate) {specs : List IndexSpec}
    (hnames : (specs.map IndexSpec.name).Nodup) {n n' : ℕ}
    (hrun : specs.foldlM (rebuildOne env c) n w = (.ok n', w')) :
    (∀ spec ∈ specs, Remade env c spec w w') ∧
      ∀ name, (∀ spec ∈ specs, name ≠ c.indexTable spec.name) → World.SameTable name w w' := by
  induction specs generalizing n w with
  | nil =>
    cases hrun
    exact ⟨by simp, fun name _ => .refl⟩
  | cons first rest ih =>
    obtain ⟨hfirst, hnames⟩ := nodup_cons.mp hnames
    obtain ⟨n₁, w₁, hone, hmany⟩ := bind_eq_ok.mp hrun
    obtain ⟨⟨ops, hw₁⟩, hremade⟩ := rebuildOne_written hsep hone
    obtain ⟨hrest, hothers⟩ := ih hnames hmany
    have hsame : ∀ name, name ≠ c.indexTable first.name → World.SameTable name w w₁ := by
      intro name hname
      rw [hw₁]
      exact sameTable_writtenAll hname ops
    have hdata : c.tableName ≠ c.indexTable first.name := fun h =>
      hsep.data_index first.name (h ▸ (c.ofIndex_indexTable.mpr rfl))
    refine ⟨fun spec hmem => ?_, fun name hname => ?_⟩
    · rcases mem_cons.mp hmem with rfl | hmem
      · have hlast := hothers (c.indexTable spec.name) fun other hother heq =>
          hfirst (c.indexTable_injective heq ▸ mem_map_of_mem hother)
        intro r v
        rw [hlast.view]
        exact hremade r v
      · have hne : c.indexTable spec.name ≠ c.indexTable first.name := fun heq =>
          hfirst (c.indexTable_injective heq ▸ mem_map_of_mem hmem)
        intro r v
        rw [hrest spec hmem r v, (hsame _ hdata).shown, IndexSpec.Left, IndexSpec.Left,
          (hsame _ hne).view, (hsame _ hne).committed]
    · exact (hsame name (hname first mem_cons_self)).trans
        (hothers name fun spec hmem => hname spec (mem_cons_of_mem _ hmem))

/-- What is built and what stays are together the rows of the stored documents. -/
structure IndexSpec.Repairable (env : Env) (c : Handle) (spec : IndexSpec)
    (w : RedbWorld) : Prop where
  remade : ∀ r v, (spec.remade env (shown w.session c.tableName)).get r = some v →
    (spec.scratch env (shown w.session c.tableName)).get r = some v
  left : ∀ r v, spec.Left c w r v → (spec.remade env (shown w.session c.tableName)).get r = none →
    (spec.scratch env (shown w.session c.tableName)).get r = some v
  complete : ∀ r v, (spec.scratch env (shown w.session c.tableName)).get r = some v →
    (spec.remade env (shown w.session c.tableName)).get r = some v ∨ spec.Left c w r v

lemma Remade.eq_scratch_iff (h : Remade env c spec w w') : w'.view (c.indexTable spec.name) =
        spec.scratch env (shown w.session c.tableName) ↔ spec.Repairable env c w := by
  constructor
  · intro heq
    rw [Remade, heq] at h
    refine ⟨fun r v hr => (h r v).mpr (.inl hr), fun r v hl hn => (h r v).mpr (.inr ⟨hn, hl⟩),
      fun r v hr => ?_⟩
    exact ((h r v).mp hr).imp id And.right
  · intro hrep
    refine ext_get fun r => Option.ext fun v => ?_
    rw [h r v]
    constructor
    · rintro (hr | ⟨hn, hl⟩)
      · exact hrep.remade r v hr
      · exact hrep.left r v hl hn
    · intro hr
      rcases hrep.complete r v hr with hmade | hleft
      · exact .inl hmade
      · cases hmade : (spec.remade env (shown w.session c.tableName)).get r with
        | none => exact .inr ⟨rfl, hleft⟩
        | some v' =>
          have hv := hrep.remade r v' hmade
          rw [hr] at hv
          exact .inl hv.symm

/-- Documents inserted one by one into an empty index make the index from scratch. -/
theorem insertStored_scratch {specs : List IndexSpec} (hw : w.session.inTransaction = true)
    (hlisted : listed env c w = .ok specs) (hnames : (specs.map IndexSpec.name).Nodup) {rows : Rows}
    (hrun : insertStored env c rows w = (.ok (), w')) (hmem : spec ∈ specs) (htree : spec.IsBTree)
    (hempty : w.view (c.indexTable spec.name) = .empty) :
    w'.view (c.indexTable spec.name) = spec.scratch env rows := by
  rw [scratch, ← hempty]
  clear hempty
  induction rows generalizing w with
  | nil =>
    cases hrun
    rfl
  | cons row rows ih =>
    obtain ⟨⟨⟩, w₁, hone, hmany⟩ := bind_eq_ok.mp hrun
    obtain ⟨doc, hdoc, hinsert⟩ := ofOutcome_bind_eq_ok.mp hone
    have hread : env.fromReader row.2 = .ok doc := ofExcept_eq_ok.mp (mapError_eq_ok.mp hdoc)
    obtain ⟨idStr, hid, hindexed⟩ := insertIntoIndexes_indexed hw hlisted hnames hinsert
    have hadmits : Admits env c (fun t => ∃ n, c.OfIndex n t) (listing env c specs) := by
      apply admits_listing
      rintro ⟨n, hn⟩
      exact c.not_ofIndex_metadataTable n hn
    have hmoves := (hadmits.moves
      (uses_insertIntoIndexes c.reads_all (fun n t ht => ⟨n, ht⟩) doc) w).1
    rw [hinsert] at hmoves
    obtain ⟨hw₁, hlisted₁⟩ := hmoves hw hlisted
    rw [ih hw₁ hlisted₁ hmany, hindexed.bTree spec hmem htree, ← idKey_of_extractIdString hid,
      rebuilt, rebuilt, foldl_cons, hread]

/-- After a rebuild the B-tree indexes have the rows of the stored documents iff each was
repairable. -/
theorem rebuild_repairs_iff (hsep : c.Separate) {specs : List IndexSpec}
    (hlisted : listed env c w = .ok specs) (hnames : (specs.map IndexSpec.name).Nodup) {n : ℕ}
    (hrun : rebuildAllIndexes env c w = (.ok n, w')) :
    (∀ spec ∈ specs, spec.IsBTree → w'.view (c.indexTable spec.name) =
        spec.scratch env (shown w.session c.tableName)) ↔
      ∀ spec ∈ specs, spec.IsBTree → spec.Repairable env c w := by
  rw [rebuildAllIndexes, bind_of_ok (listIndexes_of_listed hlisted)] at hrun
  have hremade : ∀ spec ∈ specs, Remade env c spec w w' := (rebuildAll_remade hsep hnames hrun).1
  refine forall₂_congr fun spec hmem => forall_congr' fun _ => ?_
  exact (hremade spec hmem).eq_scratch_iff

end

namespace Sample

def oneIndexed : RedbWorld := indexed ascending (.objectId oid) (.string "x")

def lostRow : RedbWorld :=
  oneIndexed.written (handle.indexTable "a_1")
    (.del (ascending.row env (doc (.objectId oid) (.string "x")) (Bytes.utf8 oid.toHex)))

def staleRow : RedbWorld := oneIndexed.written (handle.indexTable "a_1") (.put [1] [2])

end Sample

section

open Sample

theorem rebuild_repairs_lost_row : (lostRow.view (handle.indexTable "a_1")).rows = [] ∧
      ascending.Repairable env handle lostRow := by
  have hrun : rebuildAllIndexes env handle lostRow =
      (.ok 1, (rebuildAllIndexes env handle lostRow).2) :=
    Prod.ext (rfl) rfl
  have hlisted : listed env handle lostRow = .ok [ascending] := rfl
  have hiff := rebuild_repairs_iff separate hlisted (nodup_singleton _) hrun
  refine ⟨rfl, hiff.mp (fun spec hmem _ => ?_) ascending (by simp) (by decide)⟩
  rw [mem_singleton.mp hmem]
  decide +kernel

theorem insertStored_scratch_two :
    let rows := shown (run [.statement (insert (.int32 1) (.string "y")),
      .statement (insert (.int32 2) (.string "x"))]).session "t"
    let w := (run [create ascending]).begin
    (insertStored env handle rows w).2.view (handle.indexTable "a_1") =
      ascending.scratch env rows := by
  intro rows w
  have hlisted : listed env handle w = .ok [ascending] := rfl
  exact insertStored_scratch rfl hlisted (nodup_singleton _) (Prod.ext rfl rfl)
    (mem_singleton_self _) (by decide) rfl

/-- A row that belongs to no document outlives the rebuild. -/
theorem rebuild_keeps_stale_row : (rebuildAllIndexes env handle staleRow).1 = .ok 1 ∧
      (((rebuildAllIndexes env handle staleRow).2.view (handle.indexTable "a_1")).get [1]) =
        some [2] ∧
      (ascending.scratch env (shown staleRow.session "t")).get [1] = none := by
  refine ⟨rfl, rfl, rfl⟩

end

end Smongo

import Smongo.Database.Core
import Smongo.Oplog.Reader

/-!
# Truncation of an oplog

A checkpoint is written in one transaction with the removal of the rows before a key.
-/

namespace Smongo

open Eff List Bytes RedbCursor RedbSession OrderedTable

def keysBefore (bound : String) :
    ℕ → RedbCursor → List String → Eff RedbSession StorageError (List String)
  | 0, _, toRemove => pure toRemove
  | fuel + 1, oc, toRemove => do
    let (moved, oc) ← read fun s => StorageSession.next oc s
    match moved with
    | .error _ => pure toRemove
    | .ok () => do
      let k ← ofOutcome (.ofExcept (getKeyStr oc))
      if utf8 bound ≤ utf8 k then pure toRemove else keysBefore bound fuel oc (toRemove ++ [k])

def removeKey (table k : String) : Eff RedbSession StorageError Unit := do
  let c ← openCursor table
  let _ : Except StorageError Unit ← attempt (remove { c with pendingKey := some (utf8 k) })

def redbAtomicCheckpointTruncateOplog (checkpointTable checkpointKey checkpointVal oplogTable
    truncateBeforeExclusive : String) : Eff Redb StorageError Unit :=
  Redb.onNewSession do
    createTable checkpointTable
    beginTransaction
    let ck ← openCursor checkpointTable
    insert { ck with pendingKey := utf8 checkpointKey, pendingValue := utf8 checkpointVal }
    let oc ← openCursor oplogTable
    let rows ← read fun s => oc.rowsLeft s
    let toRemove ← keysBefore truncateBeforeExclusive (rows + 1) oc []
    toRemove.forM (removeKey oplogTable)
    commitTransaction

section

variable {s : RedbSession} {cursor : RedbCursor} {rows : Rows}

lemma keysBefore_eq (bound : String) (hleft : cursor.Left s rows)
    (hrows : ∀ r ∈ rows, ∃ key, r.1 = utf8 key) {fuel : ℕ} (hfuel : rows.length < fuel)
    (toRemove : List String) : ∃ keys, keysBefore bound fuel cursor toRemove s =
      (.ok (toRemove ++ keys), s) ∧
        keys.map utf8 = (rows.takeWhile (·.1 < utf8 bound)).map Prod.fst := by
  induction rows generalizing cursor fuel toRemove with
  | nil =>
    obtain ⟨fuel, rfl⟩ : ∃ n, fuel = n + 1 := ⟨fuel - 1, by omega⟩
    refine ⟨[], ?_, rfl⟩
    rw [append_nil, keysBefore]
    refine (bind_of_ok (read_apply s _)).trans ?_
    rw [next_of_left_nil hleft]
    rfl
  | cons row rows ih =>
    obtain ⟨fuel, rfl⟩ : ∃ n, fuel = n + 1 := ⟨fuel - 1, by omega⟩
    obtain ⟨cursor', hnext, hat, -⟩ := next_of_left_cons hleft
    obtain ⟨key, hkey⟩ := hrows row mem_cons_self
    have hread : (ofOutcome (.ofExcept (getKeyStr cursor')) :
        Eff RedbSession StorageError String) s = (.ok key, s) := by
      rw [getKeyStr_of_at hat (by rw [hkey, ofUtf8_utf8])]
      rfl
    have hstep : keysBefore bound (fuel + 1) cursor toRemove s = (if utf8 bound ≤ utf8 key
        then pure toRemove else keysBefore bound fuel cursor' (toRemove ++ [key]) :
          Eff RedbSession StorageError _) s := by
      rw [keysBefore]
      refine (bind_of_ok (read_apply s _)).trans ?_
      rw [hnext]
      exact bind_of_ok hread
    rw [hstep, takeWhile_cons, hkey]
    by_cases hle : utf8 bound ≤ utf8 key
    · exact ⟨[], by rw [if_pos hle, append_nil]; rfl, by simp [not_lt.mpr hle]⟩
    · obtain ⟨keys, hkeys, hmap⟩ := ih (hat.left s) (fun r hr => hrows r (mem_cons_of_mem _ hr))
        (by simpa using hfuel) (toRemove ++ [key])
      refine ⟨key :: keys, ?_, ?_⟩
      · rw [if_neg hle, hkeys, append_assoc, singleton_append]
      · simp [not_le.mp hle, hmap, hkey]

lemma forM_removeKey (table : String) (keys : List String) (hs : s.inTransaction = true) :
    ∃ s', keys.forM (removeKey table) s = (.ok (), s') ∧ s'.inTransaction = true ∧
      ∀ k, (s'.view table).get k = if k ∈ keys.map utf8 then none else (s.view table).get k := by
  induction keys generalizing s with
  | nil => exact ⟨s, rfl, hs, fun k => by simp⟩
  | cons key keys ih =>
    have hone : removeKey table key s = (.ok (), s.buffer table (.del (utf8 key))) := by
      have hdel := doWrite_of_inTransaction s table (.del (utf8 key)) hs
      exact (bind_of_ok rfl).trans (bind_of_ok (attempt_of_ok hdel))
    obtain ⟨s', hmany, htx, hget⟩ := ih (s := s.buffer table (.del (utf8 key))) hs
    refine ⟨s', (bind_of_ok hone).trans hmany, htx, fun k => ?_⟩
    rw [hget, RedbSession.view_buffer s table _ hs, if_pos rfl, Change.apply, get_erase, map_cons]
    by_cases hk : k = utf8 key <;> simp [hk]

end

section

variable {env : Env} {codec : OplogCodec} {db : Redb} {oplogTable : String}

/-- `OplogReader::read_from` on a session of its own. -/
def readOplog (env : Env) (codec : OplogCodec) (oplogTable : String) (checkpointKey : Option String)
    (skipInternal : Bool) (db : Redb) : Outcome OplogError (List (String × OplogEntry)) :=
  (readFrom env codec oplogTable checkpointKey skipInternal ⟨db, false, .empty, []⟩ :
    Outcome _ _ × RedbSession).1

lemma shown_of_view {s : RedbSession} {name : String} (h : s.view name = s.db.table name) :
    shown s name = (s.db.table name).rows := by
  unfold shown
  cases htable : s.db.tables name with
  | none => simp [Redb.table, htable, OrderedTable.empty]
  | some table => exact congrArg OrderedTable.rows h

/-- Without the keys up to the first that is not smaller than the bound, the others are left. -/
lemma rows_of_keysBefore {t t' : Table} {keys : List Bytes} {bound : Bytes}
    (hkeys : keys = (t.rows.takeWhile (·.1 < bound)).map Prod.fst)
    (hget : ∀ k, t'.get k = if k ∈ keys then none else t.get k) :
    t'.rows = t.rows.filter (bound ≤ ·.1) := by
  refine rows_eq_of_mem_iff t'.sorted (t.sorted.filter _) fun ⟨k, v⟩ => ?_
  rw [← get_eq_some_iff, hget, mem_filter, ← get_eq_some_iff, decide_eq_true_iff]
  split_ifs with hk
  · rw [hkeys] at hk
    obtain ⟨r, hr, rfl⟩ := mem_map.mp hk
    obtain ⟨hmem, hall⟩ := (mem_takeWhile_iff t.sorted).mp hr
    have hlt := of_decide_eq_true (hall r hmem le_rfl)
    exact iff_of_false nofun fun h => absurd hlt (not_lt.mpr h.2)
  · refine ⟨fun hv => ⟨hv, not_lt.mp fun hlt => hk ?_⟩, And.left⟩
    rw [hkeys]
    refine mem_map_of_mem ((mem_takeWhile_iff t.sorted).mpr ⟨get_eq_some_iff.mp hv, ?_⟩)
    exact fun r' _ hle => decide_eq_true (hle.trans_lt hlt)

lemma eq_utf8_of_ofUtf8 {b : Bytes} {s : String} (h : ofUtf8 b = some s) : b = utf8 s := by
  unfold ofUtf8 String.fromUTF8? at h
  split at h
  · cases h
    rfl
  · cases h

section

variable (hrows : ∀ r ∈ (db.table oplogTable).rows, ∃ e, decodeRow env codec r = some e)
  (c : String) (skipInternal : Bool)
include hrows c skipInternal

lemma readOplog_eq :
    readOplog env codec oplogTable (some c) skipInternal db = .ok (handedOut env codec skipInternal
      ((db.table oplogTable).rows.filter (utf8 c < ·.1))) := by
  have hshown : shown (⟨db, false, .empty, []⟩ : RedbSession) oplogTable =
      (db.table oplogTable).rows :=
    shown_of_view rfl
  rw [readOplog, readFrom_eq _ _ _ (by rwa [hshown]), hshown]
  simp [Tail.Above]

/-- A reader gets exactly what is behind its key, and a truncation removes exactly what is before
its bound, so that no reader at or behind the bound misses anything. -/
theorem oplog_checkpoint_cuts :
    readOplog env codec oplogTable (some c) skipInternal db = .ok (handedOut env codec skipInternal
      ((db.table oplogTable).rows.filter (utf8 c < ·.1))) ∧
    ∀ checkpointTable ≠ oplogTable, ∀ key val, ∃ db',
      redbAtomicCheckpointTruncateOplog checkpointTable key val oplogTable c db = (.ok (), db') ∧
      (db'.table oplogTable).rows = (db.table oplogTable).rows.filter (utf8 c ≤ ·.1) ∧
      ∀ c', utf8 c ≤ utf8 c' → readOplog env codec oplogTable (some c') skipInternal db' =
        readOplog env codec oplogTable (some c') skipInternal db := by
  refine ⟨readOplog_eq hrows c skipInternal, fun checkpointTable hne key val => ?_⟩
  let s : RedbSession := (buffer ⟨db.transact (Redb.writeTable db.tables checkpointTable []), true,
    .empty, []⟩ checkpointTable (.put (utf8 key) (utf8 val)))
  have htables : s.db.tables oplogTable = db.tables oplogTable := Function.update_of_ne hne.symm _ _
  have htable : s.db.table oplogTable = db.table oplogTable := congrArg (·.getD .empty) htables
  have hview : s.view oplogTable = s.db.table oplogTable := by
    rw [RedbSession.view_buffer _ _ _ rfl, if_neg hne.symm]
    rfl
  have hshown := shown_of_view hview
  rw [htable] at hshown hview
  have hutf8 : ∀ r ∈ shown s oplogTable, ∃ key, r.1 = utf8 key := by
    intro r hr
    obtain ⟨⟨key, entry⟩, hdecode⟩ := hrows r (hshown ▸ hr)
    exact ⟨key, eq_utf8_of_ofUtf8 (decodeRow_eq_some.mp hdecode).1⟩
  let cursor : RedbCursor := { tableName := oplogTable }
  have hleft := left_shown s oplogTable
  obtain ⟨keys, hkeys, hmap⟩ := keysBefore_eq c hleft hutf8 (Nat.lt_succ_self _) []
  obtain ⟨s', hremoved, htx, hget⟩ := forM_removeKey oplogTable keys (s := s) rfl
  have hrun : redbAtomicCheckpointTruncateOplog checkpointTable key val oplogTable c db =
      (.ok (), (commitTransaction s').2.db) := by
    have hread : (read fun s => cursor.rowsLeft s : Eff RedbSession StorageError ℕ) s =
        (.ok (shown s oplogTable).length, s) := by rw [read_apply, rowsLeft_of_left hleft]
    refine congrArg (fun r : Outcome StorageError Unit × RedbSession => (r.1, r.2.db))
      (?_ : _ = (.ok (), (commitTransaction s').2))
    refine (bind_of_ok rfl).trans ((bind_of_ok rfl).trans ((bind_of_ok rfl).trans
      ((bind_of_ok rfl).trans ((bind_of_ok rfl).trans ?_))))
    refine (bind_of_ok hread).trans ?_
    exact (bind_of_ok hkeys).trans (bind_of_ok hremoved)
  have hcut : ((commitTransaction s').2.db.table oplogTable).rows =
      (db.table oplogTable).rows.filter (utf8 c ≤ ·.1) := by
    rw [hshown] at hmap
    refine rows_of_keysBefore hmap fun k => ?_
    rw [commitTransaction_table_eq_view s' oplogTable htx, hget, hview]
  refine ⟨_, hrun, hcut, fun c' hc' => ?_⟩
  rw [readOplog_eq hrows, readOplog_eq (fun r hr => hrows r ?_), hcut, filter_filter]
  · congr 2
    refine filter_congr fun r _ => ?_
    simp
    exact fun h => hc'.trans h.le
  · rw [hcut] at hr
    exact (mem_filter.mp hr).1

end

end

namespace Sample

def jsonCodec : OplogCodec :=
  ⟨fun _ => some ⟨.ofInt 0, "shop", "insert", .null, none, none, none, false, none, none⟩,
    fun _ => ""⟩

def threeEntries : Redb :=
  ⟨fun name => if name = "log" then some (Change.applyAll .empty
    (["1", "2", "3"].map fun key => .put (utf8 key) [0x7b])) else none, []⟩

theorem oplog_checkpoint_cuts_three : ∃ db',
    redbAtomicCheckpointTruncateOplog "checkpoints" "push" "2" "log" "2" threeEntries =
      (.ok (), db') ∧ (db'.table "log").rows = [(utf8 "2", [0x7b]), (utf8 "3", [0x7b])] := by
  have hdecode : ∀ r ∈ (threeEntries.table "log").rows,
      (decodeRow (Env.ofLists [] []) jsonCodec r).isSome := by decide +kernel
  obtain ⟨db', hrun, hrows, -⟩ := (oplog_checkpoint_cuts (fun r hr =>
    Option.isSome_iff_exists.mp (hdecode r hr)) "2" false).2 "checkpoints" (by decide) "push" "2"
  refine ⟨db', hrun, hrows.trans ?_⟩
  decide +kernel

end Sample

end Smongo

import Smongo.Storage.Redb

/-!
# What sessions and cursors show

Inside a transaction a session shows each table with its buffered writes applied in order.
-/

namespace Smongo

open List Option RedbSession OrderedTable Bytes Redb

namespace RedbSession

variable (s : RedbSession) (name : String) (op : PendingWrite)

def view : Table :=
  Change.applyAll (s.db.table name) (if s.inTransaction then s.pendingFor name else [])

def buffer : RedbSession :=
  { s with
    issued := s.issued ++ [(name, op)]
    pendingWrites := s.pendingWrites.insert name (s.pendingFor name ++ [op]) }

@[simp] lemma buffer_db : (s.buffer name op).db = s.db := rfl
@[simp] lemma buffer_inTransaction : (s.buffer name op).inTransaction = s.inTransaction := rfl
@[simp] lemma buffer_issued : (s.buffer name op).issued = s.issued ++ [(name, op)] := rfl

variable (name' : String)

lemma pendingFor_buffer : (s.buffer name op).pendingFor name' =
    if name' = name then s.pendingFor name ++ [op] else s.pendingFor name' := by
  rw [pendingFor, buffer, get_insert]
  split_ifs <;> rfl

lemma view_buffer (h : s.inTransaction = true) (name' : String) : (s.buffer name op).view name' =
      if name' = name then op.apply (s.view name) else s.view name' := by
  simp only [view, buffer_inTransaction, h, if_true, buffer_db, pendingFor_buffer]
  split_ifs with hname
  · rw [hname, Change.applyAll_append, Change.applyAll_cons, Change.applyAll_nil]
  · rfl

lemma doWrite_of_inTransaction (h : s.inTransaction = true) :
    doWrite name op s = (.ok (), s.buffer name op) := by
  simp [doWrite, buffer, pendingFor, h]

lemma table_doWrite : (doWrite name op s).2.db.table name' =
    if s.inTransaction = false ∧ name' = name then op.apply (s.db.table name)
    else s.db.table name' := by
  cases hs : s.inTransaction with
  | true => simp [doWrite, hs]
  | false =>
    by_cases hname : name' = name
    · subst hname
      simp [doWrite, hs, table, transact, writeTable]
    · simp [doWrite, hs, table, transact, writeTable, hname]

lemma pendingFor_doWrite : (doWrite name op s).2.pendingFor name' =
    if s.inTransaction = true ∧ name' = name then s.pendingFor name ++ [op]
    else s.pendingFor name' := by
  cases hs : s.inTransaction with
  | true =>
    rw [doWrite_of_inTransaction s name op hs, pendingFor_buffer]
    simp
  | false => simp [doWrite, hs, pendingFor]

lemma inTransaction_doWrite : (doWrite name op s).2.inTransaction = s.inTransaction := by
  cases hs : s.inTransaction <;> simp [doWrite, hs]

lemma view_doWrite : (doWrite name op s).2.view name' =
    if name' = name then op.apply (s.view name) else s.view name' := by
  cases hs : s.inTransaction with
  | true =>
    rw [doWrite_of_inTransaction s name op hs]
    exact view_buffer s name op hs name'
  | false =>
    rw [view, view, view, inTransaction_doWrite, hs, table_doWrite, hs]
    by_cases hname : name' = name <;> simp [hname]

lemma tables_doWrite_of_ne {name' : String} (h : name' ≠ name) :
    (doWrite name op s).2.db.tables name' = s.db.tables name' := by
  cases hs : s.inTransaction with
  | true => rw [doWrite_of_inTransaction s name op hs, buffer_db]
  | false => simp [doWrite, hs, transact, writeTable, h]

lemma foldl_writeTable {ops : List (String × List PendingWrite)}
    (hops : ops.Pairwise fun a b => a.1 ≠ b.1) (tables : String → Option Table) :
    (ops.foldl (fun tables p => writeTable tables p.1 p.2) tables) name = match ops.lookup name with
      | some l => some (Change.applyAll ((tables name).getD .empty) l)
      | none => tables name := by
  induction ops generalizing tables with
  | nil => rfl
  | cons p ops ih =>
    obtain ⟨hhead, htail⟩ := pairwise_cons.mp hops
    rw [foldl_cons, ih htail, lookup_cons_ite]
    by_cases hname : name = p.1
    · have hnone : ops.lookup name = none := by
        rw [eq_none_iff_forall_not_mem]
        intro l hl
        exact hhead _ ((lookup_eq_some_iff htail).mp hl) hname.symm
      rw [hnone, if_pos hname, hname]
      simp [writeTable]
    · simp [writeTable, hname]

lemma tables_commitTransaction :
    (commitTransaction s).2.db.tables name = (s.pendingWrites.get name).elim (s.db.tables name)
      fun l => some (Change.applyAll (s.db.table name) l) := by
  simp only [commitTransaction, Eff.modify_apply]
  split
  · next hempty => rw [OrderedTable.get, isEmpty_iff.mp hempty, lookup_nil, elim_none]
  · have hfold := foldl_writeTable name (ne_of_sorted s.pendingWrites.sorted) s.db.tables
    refine hfold.trans ?_
    rw [OrderedTable.get]
    cases s.pendingWrites.rows.lookup name <;> rfl

lemma table_commitTransaction :
    (commitTransaction s).2.db.table name =
      Change.applyAll (s.db.table name) (s.pendingFor name) := by
  rw [table, tables_commitTransaction, pendingFor]
  cases s.pendingWrites.get name <;> rfl

lemma commitTransaction_table_eq_view (h : s.inTransaction = true) :
    (commitTransaction s).2.db.table name = s.view name := by
  rw [table_commitTransaction, view, if_pos h]

end RedbSession

namespace RedbCursor

variable {c : RedbCursor} {s : RedbSession}

def shown (s : RedbSession) (name : String) : Rows :=
  match s.db.tables name with
  | none => []
  | some _ => (s.view name).rows

/-- `rows` are the rows `next` has still to visit. -/
def Left (c : RedbCursor) (s : RedbSession) (rows : Rows) : Prop :=
  ∃ all, (c.materialize s).entries = some all ∧ all.drop (c.materialize s).nextPos = rows

/-- The cursor stands on `row`, and `left` are the rows after it, whatever the session does. -/
structure At (c : RedbCursor) (row : Row) (left : Rows) : Prop where
  currentKey : c.currentKey = some row.1
  currentValue : c.currentValue = some row.2
  left : ∀ s, c.Left s left

variable {row : Row} {rows : Rows} {key : Bytes}

section

variable {left : Rows} (h : c.At row left)
include h

lemma At.getKeyRaw :
    StorageCursor.getKeyRaw c = .ok row.1 := by
  change positioned c.currentKey = _
  rw [h.currentKey]
  rfl

lemma At.getValueRaw :
    StorageCursor.getValueRaw c = .ok row.2 := by
  change positioned c.currentValue = _
  rw [h.currentValue]
  rfl

lemma At.getValueStr {value : String} (hvalue : row.2 = utf8 value) :
    StorageCursor.getValueStr c = .ok value := by
  change RedbCursor.getValueStr c = _
  rw [RedbCursor.getValueStr, h.currentValue, hvalue]
  dsimp only [positioned, bind, Except.bind]
  rw [ofUtf8_utf8]

end

lemma overlaidRows_eq {name : String} {table : Table} (h : s.db.tables name = some table) :
    overlaidRows s name table = (s.view name).rows := by
  have htable : s.db.table name = table := by rw [Redb.table, h]; rfl
  unfold overlaidRows view pendingFor
  rw [htable]
  split
  · cases s.pendingWrites.get name with
    | none => rfl
    | some ops => exact Change.overlay_rows table ops
  · rfl

lemma shown_doWrite_of_ne {name name' : String} (h : name' ≠ name) (op : PendingWrite) :
    shown (doWrite name op s).2 name' = shown s name' := by
  rw [shown, shown, tables_doWrite_of_ne s name op h, view_doWrite, if_neg h]

lemma materialize_of_entries (h : c.entries.isSome) : c.materialize s = c := by
  obtain ⟨all, hall⟩ := isSome_iff_exists.mp h
  rw [materialize, hall]

lemma materialize_none (h : c.entries = none) :
    (c.materialize s).entries = some (shown s c.tableName) := by
  rw [materialize, h, shown]
  cases htable : s.db.tables c.tableName with
  | none => rfl
  | some table => simp [overlaidRows_eq htable]

lemma left_of_entries_none (h : c.entries = none) (hpos : c.position = none) :
    c.Left s (shown s c.tableName) := by
  refine ⟨_, materialize_none h, ?_⟩
  have hnext : (c.materialize s).nextPos = 0 := by
    rw [materialize, h]
    cases s.db.tables c.tableName <;> simp [nextPos, hpos]
  rw [hnext, drop_zero]

lemma left_shown (s : RedbSession) (name : String) :
    RedbCursor.Left { tableName := name } s (shown s name) := left_of_entries_none rfl rfl

@[simp] lemma materialize_tableName : (c.materialize s).tableName = c.tableName := by
  unfold materialize
  split
  · rfl
  · split <;> rfl

lemma search_tableName : (StorageSession.search c s).2.tableName = c.tableName := by
  change (c.search s).2.tableName = _
  unfold search
  repeat' split
  all_goals rfl

lemma next_tableName : (StorageSession.next c s).2.tableName = c.tableName := by
  change (c.next s).2.tableName = _
  unfold next
  dsimp only
  split <;> exact materialize_tableName

lemma searchNear_tableName : (StorageSession.searchNear c s).2.tableName = c.tableName := by
  change (c.searchNear s).2.tableName = _
  unfold searchNear
  dsimp only
  repeat' split
  all_goals exact materialize_tableName

@[simp] lemma materialize_pendingKey : (c.materialize s).pendingKey = c.pendingKey := by
  unfold materialize
  split
  · rfl
  · split <;> rfl

@[simp] lemma materialize_pendingValue : (c.materialize s).pendingValue = c.pendingValue := by
  unfold materialize
  split
  · rfl
  · split <;> rfl

lemma materialize_stageValue (c : RedbCursor) (s : RedbSession) (value : Option Bytes) :
    ({ c with pendingValue := value } : RedbCursor).materialize s =
      { c.materialize s with pendingValue := value } := by
  obtain ⟨name, entries, position, _, _, _, _⟩ := c
  unfold materialize
  cases entries with
  | some all => rfl
  | none => cases s.db.tables name <;> rfl

lemma At.stageValue {left : Rows} (h : At c row left)
    (value : Option Bytes) : At { c with pendingValue := value } row left where
  currentKey := h.currentKey
  currentValue := h.currentValue
  left s := by
    obtain ⟨all, hall, hdrop⟩ := h.left s
    refine ⟨all, ?_, ?_⟩
    · rw [materialize_stageValue]
      exact hall
    · rw [materialize_stageValue]
      exact hdrop

lemma next_of_left_nil (h : c.Left s []) :
    StorageSession.next c s = (.error (.notFound "end of cursor"), c.materialize s) := by
  obtain ⟨all, hall, hdrop⟩ := h
  have hnone : all[(c.materialize s).nextPos]? = none := by
    rw [getElem?_eq_none_iff]
    exact drop_eq_nil_iff.mp hdrop
  change c.next s = _
  simp only [next, hall, getD_some, hnone]

lemma at_moveTo {all : Rows} (hall : c.entries = some all) {pos : ℕ}
    (hrows : all.drop pos = row :: rows)
    (key : Option Bytes) : At { c.moveTo pos row with pendingKey := key } row rows where
  currentKey := rfl
  currentValue := rfl
  left s := by
    have hmat : ({ c.moveTo pos row with pendingKey := key } : RedbCursor).materialize s =
        { c.moveTo pos row with pendingKey := key } :=
      materialize_of_entries (by simp [moveTo, hall])
    refine ⟨all, ?_, ?_⟩
    · rw [hmat]
      exact hall
    · rw [hmat]
      have htail := congrArg tail hrows
      simpa [nextPos, moveTo] using htail

lemma next_of_left_cons (h : c.Left s (row :: rows)) :
    ∃ c', StorageSession.next c s = (.ok (), c') ∧ At c' row rows ∧ c'.tableName = c.tableName ∧
      c'.pendingKey = some row.1 ∧ c'.pendingValue = c.pendingValue := by
  obtain ⟨all, hall, hdrop⟩ := h
  have hsome : all[(c.materialize s).nextPos]? = some row := by rw [← head?_drop, hdrop, head?_cons]
  refine ⟨{ (c.materialize s).moveTo (c.materialize s).nextPos row with pendingKey := some row.1 },
    ?_, at_moveTo hall hdrop _, materialize_tableName, rfl, materialize_pendingValue⟩
  change c.next s = _
  simp only [next, hall, getD_some, hsome]

lemma rowsLeft_of_left (h : c.Left s rows) : c.rowsLeft s = rows.length := by
  obtain ⟨all, hall, hdrop⟩ := h
  rw [← hdrop, length_drop]
  simp only [rowsLeft, hall, getD_some]

lemma search_of_get_eq_some {value : Bytes} (hkey : c.effectiveKey = .ok key)
    (h : (s.db.table c.tableName).get key = some value) :
    c.search s = (.ok (), { c with currentKey := some key, currentValue := some value }) := by
  unfold table at h
  cases htable : s.db.tables c.tableName with
  | none =>
    rw [htable] at h
    cases h
  | some table =>
    rw [htable, getD_some] at h
    simp only [search, hkey, htable, h]

lemma search_of_get_eq_none (hkey : c.effectiveKey = .ok key)
    (h : (s.db.table c.tableName).get key = none) : ∃ e, c.search s = (.error e, c) := by
  unfold table at h
  cases htable : s.db.tables c.tableName with
  | none => exact ⟨.notFound "table does not exist", by simp only [search, hkey, htable]⟩
  | some table =>
    rw [htable, getD_some] at h
    exact ⟨.notFound "key not found", by simp only [search, hkey, htable, h]⟩

lemma shown_sorted (s : RedbSession) (name : String) :
    (shown s name).Pairwise fun a b => a.1 < b.1 := by
  unfold shown
  split
  · exact List.Pairwise.nil
  · exact (s.view name).sorted

lemma partitions_cmp (h : rows.Pairwise fun a b => a.1 < b.1) (seek : Bytes) :
    Partitions (fun r => r.1.cmp seek) rows := by
  refine h.imp fun {a b} hab => ⟨fun ha => ?_, fun hb => ?_⟩
  · exact cmp_eq_gt.mpr ((cmp_eq_gt.mp ha).trans hab)
  · exact cmp_eq_lt.mpr (hab.trans (cmp_eq_lt.mp hb))

/-- Where `search_near` stops: nowhere, on the first row that is not smaller than the key, or on the
last row. -/
inductive Seek (rows : Rows) (key : Bytes) : Except StorageError ℤ × RedbCursor → Prop
  | empty (c' : RedbCursor) (hrows : rows = []) :
      Seek rows key (.error (.notFound "table is empty"), c')
  | found (before : Rows) (row : Row) (after : Rows)
      (sign : ℤ) (c' : RedbCursor) (hrows : rows = before ++ row :: after)
      (hbefore : ∀ r ∈ before, r.1 < key) (hrow : ¬ row.1 < key) (hsign : 0 ≤ sign)
      (hexact : sign = 0 ↔ row.1 = key) (hat : At c' row after) : Seek rows key (.ok sign, c')
  | past (row : Row) (c' : RedbCursor) (hrows : ∀ r ∈ rows, r.1 < key)
      (hat : At c' row []) : Seek rows key (.ok (-1), c')

lemma seek_found (hrows : c.entries = some rows) {idx : ℕ} (hidx : idx < rows.length)
    (hbefore : ∀ r ∈ rows.take idx, r.1 < key) (hrow : ¬ rows[idx].1 < key) {sign : ℤ}
    (hsign : 0 ≤ sign) (hexact : sign = 0 ↔ rows[idx].1 = key) :
    Seek rows key (.ok sign, c.moveTo idx rows[idx]) := by
  refine .found (rows.take idx) rows[idx] (rows.drop (idx + 1)) sign _ ?_ hbefore hrow hsign hexact
    (at_moveTo hrows (drop_eq_getElem_cons hidx) _)
  rw [← drop_eq_getElem_cons hidx, take_append_drop]

lemma searchNear_seek (s : RedbSession) (hkey : c.pendingKey = some key) :
    Seek (shown s c.tableName) key (c.searchNear s) := by
  have hentries : (materialize { c with entries := none } s).entries =
      some (shown s c.tableName) := materialize_none rfl
  have heff : (materialize { c with entries := none } s).effectiveKey = .ok key := by
    simp [effectiveKey, hkey]
  have hsorted := shown_sorted s c.tableName
  simp only [searchNear, heff, hentries, getD_some]
  generalize shown s c.tableName = rows at hentries hsorted ⊢
  have hpart := partitions_cmp hsorted key
  by_cases hempty : rows.isEmpty
  · rw [if_pos hempty]
    exact .empty _ (isEmpty_iff.mp hempty)
  · rw [if_neg hempty]
    cases hsearch : binarySearchBy (fun r => r.1.cmp key) rows with
    | ok idx =>
      obtain ⟨hlt, heq⟩ := binarySearchBy_ok hpart hsearch
      have hkeyEq : rows[idx].1 = key := cmp_eq_eq.mp heq
      simp only [getElem?_eq_getElem hlt]
      refine seek_found hentries hlt (fun r hr => ?_) ?_ le_rfl (iff_of_true rfl hkeyEq)
      · obtain ⟨j, hj, rfl⟩ := mem_take_iff_getElem.mp hr
        rw [← hkeyEq]
        exact pairwise_iff_getElem.mp hsorted j idx _ hlt (by omega)
      · rw [hkeyEq]
        exact lt_irrefl (α := Bytes) key
    | error idx =>
      obtain ⟨hle, hbefore, hafter⟩ := binarySearchBy_error hpart hsearch
      replace hbefore : ∀ r ∈ rows.take idx, r.1 < key := fun r hr => cmp_eq_lt.mp (hbefore r hr)
      rcases Nat.eq_or_lt_of_le hle with hend | hlt
      · have hpos : 0 < rows.length := length_pos_iff.mpr fun h => hempty (isEmpty_iff.mpr h)
        have hlast : idx - 1 < rows.length := by omega
        simp only [getElem?_eq_none (le_of_eq hend.symm), getElem?_eq_getElem hlast]
        refine .past _ _ (fun r hr => hbefore r ?_) (at_moveTo hentries ?_ _)
        · rwa [take_of_length_le (le_of_eq hend.symm)]
        · rw [drop_eq_getElem_cons hlast, drop_eq_nil_of_le (by omega)]
      · simp only [getElem?_eq_getElem hlt]
        have hmem : rows[idx] ∈ rows.drop idx := by
          rw [drop_eq_getElem_cons hlt]
          exact mem_cons_self
        have hgt : key < rows[idx].1 := cmp_eq_gt.mp (hafter _ hmem)
        exact seek_found hentries hlt hbefore (lt_asymm (α := Bytes) hgt) (by omega)
          (iff_of_false (by omega) (ne_of_gt (α := Bytes) hgt))

end RedbCursor

end Smongo

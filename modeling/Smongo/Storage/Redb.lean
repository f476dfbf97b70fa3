import Mathlib.Data.String.Basic
import Smongo.Lib.BinarySearch
import Smongo.Lib.OrderedTable
import Smongo.Storage.Interface

/-!
# The redb backend

A redb database is a map from table names to ordered byte tables, changed by atomic write
transactions.
-/

namespace Smongo

open Eff

abbrev Table := OrderedTable Bytes Bytes

abbrev Row := Bytes × Bytes

abbrev Rows := List Row

abbrev PendingWrite := Change Bytes Bytes

/-- A database, with the states it had before each of its commits, latest first. -/
structure Redb where
  tables : String → Option Table
  history : List (String → Option Table)

namespace Redb

def transact (db : Redb) (tables : String → Option Table) : Redb :=
  ⟨tables, db.tables :: db.history⟩

def table (db : Redb) (name : String) : Table := (db.tables name).getD .empty

def writeTable (tables : String → Option Table) (name : String) (ops : List PendingWrite) :
    String → Option Table :=
  Function.update tables name (some (Change.applyAll ((tables name).getD .empty) ops))

end Redb

structure RedbSession where
  db : Redb
  inTransaction : Bool
  pendingWrites : OrderedTable String (List PendingWrite)
  /-- Every write the session was asked for, in order.  Not part of the program. -/
  issued : List (String × PendingWrite)

namespace RedbSession

def pendingFor (s : RedbSession) (name : String) : List PendingWrite :=
  (s.pendingWrites.get name).getD []

def createTable (name : String) : Eff RedbSession StorageError Unit :=
  modify fun s => { s with db := s.db.transact (Redb.writeTable s.db.tables name []) }

def dropTable (name : String) : Eff RedbSession StorageError Unit :=
  modify fun s => { s with db := s.db.transact (Function.update s.db.tables name none) }

/-- One table is copied over another and deleted, in one transaction. -/
def renameTable (src dst : String) : Eff RedbSession StorageError Unit :=
  if src = dst then fail (.other ("Table '" ++ dst ++ "' already opened"))
  else
    modify fun s =>
      let copied := (s.db.table src).rows.map fun r => Change.put r.1 r.2
      let tables := Function.update (Redb.writeTable s.db.tables dst copied) src none
      { s with db := s.db.transact tables }

def beginTransaction : Eff RedbSession StorageError Unit :=
  modify fun s => { s with inTransaction := true, pendingWrites := .empty }

def commitTransaction : Eff RedbSession StorageError Unit :=
  modify fun s =>
    { s with
      inTransaction := false
      pendingWrites := .empty
      db :=
        if s.pendingWrites.rows.isEmpty then s.db
        else s.db.transact
          (s.pendingWrites.rows.foldl (fun tables p => Redb.writeTable tables p.1 p.2)
            s.db.tables) }

def rollbackTransaction : Eff RedbSession StorageError Unit :=
  modify fun s => { s with inTransaction := false, pendingWrites := .empty }

def onSibling {α : Type} (m : Eff RedbSession StorageError α) : Eff RedbSession StorageError α :=
  zoom (fun s => { s with inTransaction := false, pendingWrites := .empty })
    (fun sibling s => { s with db := sibling.db, issued := sibling.issued }) m

def doWrite (name : String) (op : PendingWrite) : Eff RedbSession StorageError Unit :=
  modify fun s =>
    let s := { s with issued := s.issued ++ [(name, op)] }
    if s.inTransaction then
      { s with pendingWrites := s.pendingWrites.insert name (s.pendingFor name ++ [op]) }
    else { s with db := s.db.transact (Redb.writeTable s.db.tables name [op]) }

end RedbSession

structure RedbCursor where
  tableName : String
  entries : Option Rows := none
  position : Option ℕ := none
  currentKey : Option Bytes := none
  currentValue : Option Bytes := none
  pendingKey : Option Bytes := none
  pendingValue : Option Bytes := none

namespace RedbCursor

def openCursor (name : String) : Eff RedbSession StorageError RedbCursor :=
  pure { tableName := name }

def overlaidRows (s : RedbSession) (name : String) (table : Table) : Rows :=
  if s.inTransaction then
    match s.pendingWrites.get name with
    | some ops => Change.overlay table.rows ops
    | none => table.rows
  else table.rows

variable (c : RedbCursor) (s : RedbSession)

def materialize : RedbCursor :=
  match c.entries with
  | some _ => c
  | none =>
    match s.db.tables c.tableName with
    -- the buffer is not consulted for a table that does not exist
    | none => { c with entries := some [] }
    | some table => { c with entries := some (overlaidRows s c.tableName table), position := none }

def effectiveKey : Except StorageError Bytes :=
  match c.pendingKey.or c.currentKey with
  | some key => .ok key
  | none => .error (.other "no key set on cursor")

def effectiveValue : Except StorageError Bytes :=
  match c.pendingValue.or c.currentValue with
  | some value => .ok value
  | none => .error (.other "no value set on cursor")

def positioned (current : Option Bytes) : Except StorageError Bytes :=
  match current with
  | some bytes => .ok bytes
  | none => .error (.notFound "cursor not positioned")

def getKeyRaw : Except StorageError Bytes := positioned c.currentKey

def getValueRaw : Except StorageError Bytes := positioned c.currentValue

def getValueStr : Except StorageError String := do
  match (← positioned c.currentValue).ofUtf8 with
  | some s => .ok s
  | none => .error (.other "value is not valid UTF-8")

def search : Except StorageError Unit × RedbCursor :=
  match c.effectiveKey with
  | .error e => (.error e, c)
  | .ok key =>
    match s.db.tables c.tableName with
    | none => (.error (.notFound "table does not exist"), c)
    | some table =>
      match table.get key with
      | some value => (.ok (), { c with currentKey := some key, currentValue := some value })
      | none => (.error (.notFound "key not found"), c)

def moveTo (pos : ℕ) (row : Row) : RedbCursor :=
  { c with position := some pos, currentKey := some row.1, currentValue := some row.2 }

def searchNear : Except StorageError ℤ × RedbCursor :=
  let c := materialize { c with entries := none } s
  match c.effectiveKey with
  | .error e => (.error e, c)
  | .ok seek =>
    let entries := c.entries.getD []
    if entries.isEmpty then (.error (.notFound "table is empty"), c)
    else
      match binarySearchBy (fun r => r.1.cmp seek) entries with
      | .ok idx =>
        match entries[idx]? with
        | some row => (.ok 0, c.moveTo idx row)
        | none => (.error (.notFound "no entries near key"), c)
      | .error idx =>
        match entries[idx]?, entries[idx - 1]? with
        | some row, _ => (.ok 1, c.moveTo idx row)
        | none, some row => (.ok (-1), c.moveTo (idx - 1) row)
        | none, none => (.error (.notFound "no entries near key"), c)

def nextPos : ℕ :=
  match c.position with
  | some p => p + 1
  | none => 0

def next : Except StorageError Unit × RedbCursor :=
  let c := c.materialize s
  match (c.entries.getD [])[c.nextPos]? with
  | none => (.error (.notFound "end of cursor"), c)
  | some row => (.ok (), { c.moveTo c.nextPos row with pendingKey := some row.1 })

def insert : Eff RedbSession StorageError Unit := do
  let key ← ofOutcome (.ofExcept c.effectiveKey)
  let value ← ofOutcome (.ofExcept c.effectiveValue)
  RedbSession.doWrite c.tableName (.put key value)

def update : Eff RedbSession StorageError Unit := c.insert

def remove : Eff RedbSession StorageError Unit := do
  let key ← ofOutcome (.ofExcept c.effectiveKey)
  RedbSession.doWrite c.tableName (.del key)

def reset : RedbCursor := { tableName := c.tableName }

def rowsLeft : ℕ :=
  let c := c.materialize s
  (c.entries.getD []).length - c.nextPos

end RedbCursor

instance : StorageCursor RedbCursor where
  setKey c key := { c with pendingKey := some key }
  setValue c value := { c with pendingValue := some value }
  getKeyRaw := RedbCursor.getKeyRaw
  getValueRaw := RedbCursor.getValueRaw
  getValueStr := RedbCursor.getValueStr

instance : StorageSession RedbSession RedbCursor where
  createTable := RedbSession.createTable
  dropTable := RedbSession.dropTable
  openCursor := RedbCursor.openCursor
  inTransaction := RedbSession.inTransaction
  beginTransaction := RedbSession.beginTransaction
  commitTransaction := RedbSession.commitTransaction
  rollbackTransaction := RedbSession.rollbackTransaction
  onSibling := RedbSession.onSibling
  search := RedbCursor.search
  searchNear := RedbCursor.searchNear
  next := RedbCursor.next
  insert := RedbCursor.insert
  update := RedbCursor.update
  remove := RedbCursor.remove
  rowsLeft := RedbCursor.rowsLeft

end Smongo

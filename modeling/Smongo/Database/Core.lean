import Smongo.Collection.Core
import Smongo.Lib.Strings

/-!
# Databases

A database has a prefix for the names of document tables; index tables are named after the
collection alone.
-/

namespace Smongo

inductive DatabaseError
  | storageError (e : StorageError)
  | collectionNotFound (name : String)
deriving DecidableEq

structure Database where
  tablePrefix : Option String

namespace Redb

def Lists (all : List String) (db : Redb) : Prop := ∀ t, t ∈ all ↔ (db.tables t).isSome

def onNewSession {α : Type} (m : Eff RedbSession StorageError α) : Eff Redb StorageError α :=
  Eff.zoom (fun db => ⟨db, false, .empty, []⟩) (fun s _ => s.db) m

def world (db : Redb) (ticks : ℕ) : RedbWorld := ⟨⟨db, false, .empty, []⟩, none, ticks, {}⟩

end Redb

namespace Database

variable (d : Database)

def tableName (name : String) : String :=
  match d.tablePrefix with
  | some pre => pre ++ name
  | none => name

def handle (name : String) : Handle := { tableName := d.tableName name, collectionName := name }

def openCollection (name : String) : Eff Redb DatabaseError Handle := do
  Eff.mapError .storageError (Redb.onNewSession (RedbSession.createTable (d.tableName name)))
  pure (d.handle name)

def isInternal (table : String) : Bool :=
  startsWith "__" table || containsText ".idx_" table || containsText ".indexes_metadata" table

variable (all : List String)

def listCollectionNames : List String :=
  (all.filter fun t => !isInternal t).filterMap fun t =>
    match d.tablePrefix with
    | some pre => stripPrefix t pre
    | none => some t

def owned (table : String) : List String :=
  (all.filter fun t => t = table || startsWith (table ++ ".") t).insertionSort
    fun a b => (Bytes.utf8 b).length ≤ (Bytes.utf8 a).length

def dropOwned (table t : String) : Eff RedbSession StorageError Unit := do
  match ← Eff.attempt (RedbSession.dropTable t) with
  | .ok () => pure ()
  | .error e => if t = table then Eff.fail e else pure ()

def dropCollection (name : String) : Eff Redb DatabaseError Unit :=
  let table := d.tableName name
  if table ∈ all then
    Eff.mapError .storageError (Redb.onNewSession ((owned all table).forM (dropOwned table)))
  else Eff.fail (.collectionNotFound name)

/-- A table whose name extends that of the old document table with a dot moves along; an error is
ignored. -/
def renameSatellite (src dst table : String) : Eff RedbSession StorageError Unit :=
  match stripPrefix table (src ++ ".") with
  | none => pure ()
  | some suffix => do
    let _ : Except StorageError Unit ←
      Eff.attempt (RedbSession.renameTable table (dst ++ "." ++ suffix))
    pure ()

def renameCollection (src dst : String) : Eff Redb DatabaseError Unit :=
  let srcTable := d.tableName src
  let dstTable := d.tableName dst
  if srcTable ∈ all then
    Eff.mapError .storageError (Redb.onNewSession do
      RedbSession.renameTable srcTable dstTable
      all.forM (renameSatellite srcTable dstTable))
  else Eff.fail (.collectionNotFound src)

end Database

end Smongo

import Smongo.Lib.ByteStrings
import Smongo.Lib.Effect

/-!
# Storage sessions and cursors

The traits through which the engine reaches a storage backend.
-/

namespace Smongo

inductive StorageError
  | notFound (msg : String)
  | duplicateKey (msg : String)
  | other (msg : String)
deriving DecidableEq

/-- Staging and reading on a cursor, apart from any session. -/
class StorageCursor (C : Type) where
  setKey : C → Bytes → C
  setValue : C → Bytes → C
  getKeyRaw : C → Except StorageError Bytes
  getValueRaw : C → Except StorageError Bytes
  getValueStr : C → Except StorageError String

def getKeyStr {C : Type} [StorageCursor C] (cursor : C) : Except StorageError String := do
  match (← StorageCursor.getKeyRaw cursor).ofUtf8 with
  | some s => .ok s
  | none => .error (.other "key is not valid UTF-8")

class StorageSession (S : Type) (C : outParam Type) where
  createTable : String → Eff S StorageError Unit
  dropTable : String → Eff S StorageError Unit
  openCursor : String → Eff S StorageError C
  inTransaction : S → Bool
  beginTransaction : Eff S StorageError Unit
  commitTransaction : Eff S StorageError Unit
  rollbackTransaction : Eff S StorageError Unit
  /-- Run a computation on a session from `open_sibling_session`. -/
  onSibling {α : Type} : Eff S StorageError α → Eff S StorageError α
  search : C → S → Except StorageError Unit × C
  /-- The sign tells on which side of the key the cursor stopped. -/
  searchNear : C → S → Except StorageError ℤ × C
  next : C → S → Except StorageError Unit × C
  insert : C → Eff S StorageError Unit
  update : C → Eff S StorageError Unit
  remove : C → Eff S StorageError Unit
  /-- How many rows `next` can still reach. -/
  rowsLeft : C → S → ℕ

end Smongo

import Smongo.Collection.Crud
import Smongo.Lib.Script

/-!
# Calls and programs

Statements and index operations as data: runs are lists of calls.
-/

namespace Smongo

/-- The operations that write documents. -/
inductive Statement
  | insertOne (document : Document) (internal : Bool)
  | insertMany (documents : List Document) (internal : Bool)
  | updateOne (filter update : Document) (options : UpdateOptions)
  | updateMany (filter update : Document) (options : UpdateOptions)
  | deleteOne (filter : Document) (internal : Bool)
  | deleteMany (filter : Document) (internal : Bool)

inductive Call
  | statement (st : Statement)
  | createIndex (keys : Document) (options : Option IndexOptions)
  | dropIndex (name : String)

inductive Reply
  | insertOne (result : InsertOneResult)
  | insertMany (result : InsertManyResult)
  | update (result : UpdateResult)
  | delete (result : DeleteResult)
  | createIndex (name : String)
  | dropIndex
deriving DecidableEq

section

variable {S C : Type} [StorageCursor C] [StorageSession S C] (env : Env) (c : Handle)

def Statement.exec : Statement → Op S Reply
  | insertOne document internal => do return .insertOne (← Smongo.insertOne env c document internal)
  | insertMany documents internal => do
    return .insertMany (← Smongo.insertMany env c documents internal)
  | updateOne filter update options => do
    return .update (← Smongo.updateOne env c filter update options)
  | updateMany filter update options => do
    return .update (← Smongo.updateMany env c filter update options)
  | deleteOne filter internal => do return .delete (← Smongo.deleteOne env c filter internal)
  | deleteMany filter internal => do return .delete (← Smongo.deleteMany env c filter internal)

/-- The recursion of `drop_index` on `"*"` is two deep, unless an index has that name. -/
def Call.exec : Call → Op S Reply
  | statement st => st.exec env c
  | createIndex keys options => do return .createIndex (← Smongo.createIndex env c keys options)
  | dropIndex name => do
    Smongo.dropIndex env c 2 name
    return .dropIndex

def Call.step (w : World S) (call : Call) : World S := (call.exec env c w).2

end

/-! ### A small collection

Documents, indexes and calls on fixed inputs, for runs that show what the general results say. -/

namespace Sample

def doc (id a : Bson) : Document := [("_id", id), ("a", a)]

def oid : ObjectId := ⟨Bytes.bigEndian 12 7, Bytes.length_bigEndian 12 7⟩

def ascending : IndexSpec := ⟨"a_1", [("a", .int32 1)], {}⟩

def unique : IndexSpec := ⟨"a_1", [("a", .int32 1)], { unique := true }⟩

def spherical : IndexSpec :=
  ⟨"loc_2dsphere", [("loc", .string "2dsphere")], { sparse := true, indexType := some .bTree }⟩

def documents : List Document :=
  [doc (.int32 1) (.string "x"), doc (.int32 1) (.string "y"), doc (.int32 1) (.string "z"),
    doc (.int32 1) (.string "xy"), doc (.int32 1) (.int32 5), doc (.int32 2) (.string "x"),
    doc (.int32 2) (.int64 5), doc (.string "1") (.string "x"), doc (.objectId oid) (.string "x"),
    doc (.objectId oid) (.string "y")]

def env : Env := Env.ofLists documents [ascending, unique, spherical]

lemma codec : env.Codec := Env.codec_ofLists (by decide +kernel) (by decide +kernel)

def handle : Handle := { tableName := "t", collectionName := "t" }

def start : RedbWorld where
  session :=
    { db := ⟨fun name => if name = "t" then some .empty else none, []⟩
      inTransaction := false
      pendingWrites := .empty
      issued := [] }
  indexCache := none
  ticks := 0
  hub := {}

def run (calls : List Call) : RedbWorld := calls.foldl (Call.step env handle) start

def insert (id a : Bson) : Statement := .insertOne (doc id a) false

def set (id : Bson) (field : String) (value : Bson) : Statement :=
  .updateOne [("_id", id)] [("$set", .document [(field, value)])] {}

def create (spec : IndexSpec) : Call := .createIndex spec.keys (some spec.options)

def indexed (spec : IndexSpec) (id a : Bson) : RedbWorld :=
  run [create spec, .statement (insert id a)]

end Sample

end Smongo

import Smongo.Env

/-!
# Oplog entries

An oplog entry passes its document id and payload through JSON before it is stored.
-/

namespace Smongo

inductive Json
  | null
  | bool (b : Bool)
  | int (n : ℤ)
  | float (x : F64)
  | string (s : String)
  | array (items : List Json)
  | object (fields : List (String × Json))

section

variable (env : Env)

mutual

def bsonToJsonValue : Bson → Json
  | .null => .null
  | .boolean b => .bool b
  | .int32 n => .int n.toInt
  | .int64 n => .int n.toInt
  | .double x => if x.isNaN || x.isInf then .null else .float x
  | .string s => .string s
  | .objectId oid => .object [("$oid", .string oid.toHex)]
  | .document d => .object (bsonToJsonFields d)
  | .array items => .array (bsonToJsonItems items)
  | other => .string (env.debug other)

def bsonToJsonFields : List (String × Bson) → List (String × Json)
  | [] => []
  | (k, v) :: rest => (k, bsonToJsonValue v) :: bsonToJsonFields rest

def bsonToJsonItems : List Bson → List Json
  | [] => []
  | v :: rest => bsonToJsonValue v :: bsonToJsonItems rest

end

end

def hexDigitValue (c : Char) : Option ℕ :=
  if '0' ≤ c ∧ c ≤ '9' then some (c.toNat - '0'.toNat)
  else if 'a' ≤ c ∧ c ≤ 'f' then some (c.toNat - 'a'.toNat + 10)
  else if 'A' ≤ c ∧ c ≤ 'F' then some (c.toNat - 'A'.toNat + 10)
  else none

def decodeHex : List Char → Option Bytes
  | [] => some []
  | [_] => none
  | c :: d :: rest => do
    let high ← hexDigitValue c
    let low ← hexDigitValue d
    some (UInt8.ofNat (16 * high + low) :: (← decodeHex rest))

def ObjectId.parseStr (s : String) : Option ObjectId :=
  (decodeHex s.toList).bind fun bytes => if h : bytes.length = 12 then some ⟨bytes, h⟩ else none

def oidOfJson (fields : List (String × Json)) : Option ObjectId :=
  match fields.lookup "$oid" with
  | some (.string s) => ObjectId.parseStr s
  | _ => none

mutual

def jsonToBsonValue : Json → Bson
  | .null => .null
  | .bool b => .boolean b
  | .int n => if -2 ^ 31 ≤ n ∧ n < 2 ^ 31 then .int32 (.ofInt n) else .int64 (.ofInt n)
  | .float x => .double x
  | .string s => .string s
  | .array items => .array (jsonToBsonItems items)
  | .object fields =>
    match oidOfJson fields with
    | some oid => .objectId oid
    | none => .document (jsonToBsonFields fields)

def jsonToBsonItems : List Json → List Bson
  | [] => []
  | v :: rest => jsonToBsonValue v :: jsonToBsonItems rest

def jsonToBsonFields : List (String × Json) → List (String × Bson)
  | [] => []
  | (k, v) :: rest => (k, jsonToBsonValue v) :: jsonToBsonFields rest

end

structure CollectionOplogSettings where
  oplogTable : String
  ns : String
  nodeId : Option String

structure OplogEntry where
  ts : F64
  ns : String
  op : String
  docId : Json
  payload : Option Json
  v : Option Int64 := none
  checksum : Option String := none
  internal : Bool := false
  changedFields : Option (List String)
  nodeId : Option String

structure AppendOplogOpts where
  version : Option Int64 := none
  internal : Bool := false
  changedFields : Option (List String) := none

def newOplogEntry (env : Env) (cfg : CollectionOplogSettings) (tick : ℕ) (op : String)
    (docId : Bson) (payload : Option Document) (opts : AppendOplogOpts) : OplogEntry :=
  { ts := env.timeSecs tick
    ns := cfg.ns
    op := op
    docId := bsonToJsonValue env docId
    payload := payload.map fun p => bsonToJsonValue env (.document p)
    v := opts.version
    internal := opts.internal
    changedFields := opts.changedFields
    nodeId := cfg.nodeId }

def insertSome (d : Document) (k : String) : Option Bson → Document
  | some v => d.insert k v
  | none => d

def oplogEntryToDocument (entry : OplogEntry) : Document :=
  let d := Document.insert [] "ts" (.double entry.ts)
  let d := d.insert "ns" (.string entry.ns)
  let d := d.insert "op" (.string entry.op)
  let d := d.insert "doc_id" (jsonToBsonValue entry.docId)
  let d := insertSome d "payload" (entry.payload.map jsonToBsonValue)
  let d := insertSome d "v" (entry.v.map .int64)
  let d := insertSome d "checksum" (entry.checksum.map .string)
  let d := d.insert "internal" (.boolean entry.internal)
  let d := insertSome d "changed_fields"
    (entry.changedFields.map fun names => .array (names.map .string))
  insertSome d "node_id" (entry.nodeId.map .string)

def pad20 (n : ℕ) : String :=
  let digits := toString n
  String.ofList (List.replicate (20 - digits.length) '0') ++ digits

def oplogKey (env : Env) (tick : ℕ) : String := pad20 (env.timeNanos tick) ++ "-" ++ env.uuid tick

end Smongo

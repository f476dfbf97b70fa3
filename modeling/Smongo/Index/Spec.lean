import Smongo.Bson.Paths

/-!
# Index specifications and index keys

A row of a B-tree index has the encodings of the values, joined with `0xFE`, and the id string.
-/

namespace Smongo

inductive IndexType
  | bTree
  | twoDSphere
  | text
  | vectorSearch
  | bitmap
  | prefixed
deriving DecidableEq

structure VectorIndexOptions where
  dimensions : ℕ
  metric : String
  indexingMethod : String
  efConstruction : Option ℕ
  m : Option ℕ
deriving DecidableEq

structure TextIndexOptions where
  defaultLanguage : Option String
  weights : Option Document
deriving DecidableEq

structure PrefixOptions where
  prefixLength : ℕ
deriving DecidableEq

structure IndexOptions where
  name : Option String := none
  unique : Bool := false
  sparse : Bool := false
  background : Bool := false
  expireAfterSeconds : Option UInt64 := none
  partialFilterExpression : Option Document := none
  collation : Option Document := none
  indexType : Option IndexType := none
  vectorOptions : Option VectorIndexOptions := none
  textOptions : Option TextIndexOptions := none
  prefixOptions : Option PrefixOptions := none
deriving DecidableEq

structure IndexSpec where
  name : String
  keys : Document
  options : IndexOptions
deriving DecidableEq

variable (keys : Document)

def is2dsphereKeys : Bool :=
  keys.length = 1 && keys.all fun f =>
    match f.2 with
    | .string s => s = "2dsphere" || s = "2d"
    | _ => false

def twodsphereField : Option String := if is2dsphereKeys keys then keys.head?.map Prod.fst else none

def isTextValue : Bson → Bool
  | .string s => s = "text"
  | _ => false

def isTextKeys : Bool := keys.any fun f => isTextValue f.2

def textFields : List String := (keys.filter fun f => isTextValue f.2).map Prod.fst

def resolveIndexType (opts : IndexOptions) : IndexType :=
  match opts.indexType with
  | some explicit => explicit
  | none =>
    if is2dsphereKeys keys then .twoDSphere
    else if isTextKeys keys then .text
    else .bTree

inductive IndexDirection
  | ascending
  | descending
deriving DecidableEq

def IndexDirection.fromBson : Bson → Option IndexDirection
  | .int32 n => if n = 1 then some .ascending else if n = -1 then some .descending else none
  | .int64 n => if n = 1 then some .ascending else if n = -1 then some .descending else none
  | _ => none

def invertBytes (b : Bytes) : Bytes := b.map (· ^^^ 0xFF)

variable (collation : Option (String → Bytes))

def encodeIndexValue : Option Bson → Bytes
  | some .null => [0x00]
  | some (.int32 n) => Bytes.bigEndian 4 n.toBitVec.toNat
  | some (.int64 n) => Bytes.bigEndian 8 n.toBitVec.toNat
  | some (.double x) => x.bytes
  | some (.string s) =>
    match collation with
    | some indexKeyBytes => indexKeyBytes s
    | none => Bytes.utf8 s
  | some (.objectId oid) => oid.bytes
  | some (.boolean b) => [if b then 0x01 else 0x00]
  | some (.dateTime millis) => Bytes.bigEndian 8 millis.toBitVec.toNat
  | some _ => [0x02]
  | none => [0xFF]

def indexKeyPart (doc : Document) (key : String × Bson) : Bytes :=
  let serialized := encodeIndexValue collation (getValue doc key.1)
  if IndexDirection.fromBson key.2 = some .descending then invertBytes serialized
  else serialized

def extractIndexKeyWithCollation (doc keys : Document) (collation : Option (String → Bytes)) :
    Bytes :=
  [0xFE].intercalate (keys.map (indexKeyPart collation doc))

def extractIndexKey (doc keys : Document) : Bytes := extractIndexKeyWithCollation doc keys none

def generateIndexName : String :=
  "_".intercalate (keys.map fun f =>
    let dirStr := match f.2 with
      | .int32 n => if n = -1 then "-1" else "1"
      | .int64 n => if n = -1 then "-1" else "1"
      | .string s => s
      | _ => "1"
    f.1 ++ "_" ++ dirStr)

/-- `char::is_whitespace`, the Unicode `White_Space` property. -/
def isWhitespace (c : Char) : Bool :=
  let n := c.toNat
  (0x09 ≤ n && n ≤ 0x0D) || n = 0x20 || n = 0x85 || n = 0xA0 || n = 0x1680 ||
    (0x2000 ≤ n && n ≤ 0x200A) || n = 0x2028 || n = 0x2029 || n = 0x202F || n = 0x205F ||
    n = 0x3000

def trim (s : String) : String :=
  String.ofList ((s.toList.dropWhile isWhitespace).reverse.dropWhile isWhitespace).reverse

/-- `debug` renders a string as `{:?}` does. -/
def validateCustomIndexName (debug : String → String) (name : String) : Except String Unit :=
  if name.toList.any fun c => c = '.' || c = '/' || c = '\\' then
    .error ("index name must not contain '.', '/', or '\\\\': " ++ debug name)
  else if name = "_id_" then .error "index name '_id_' is reserved"
  else .ok ()

end Smongo

import Mathlib.Data.List.Dedup
import Smongo.Collection.Indexes

/-!
# Reading indexes

What the executor makes of index rows and of documents.
-/

namespace Smongo

section

variable (env : Env)

/-- The type of the value is guessed from the bytes. -/
def decodeIndexValuePart (bytes : Bytes) : Option Bson :=
  let text := bytes.ofUtf8
  let plain := fun s : String => s ≠ "" && s.toList.all fun ch =>
    env.isAlphanumeric ch || isWhitespace ch || ['_', '-', '.', '/'].contains ch
  if bytes = [] || bytes.head? = some 0xFF then none
  else if bytes = [0x01] then some (.boolean true)
  else if bytes = [0x00] then some (.boolean false)
  else if text.any plain then text.map .string
  else if 4 ≤ bytes.length &&
      (bytes.length = 4 || (bytes.drop 4).all fun b => 32 ≤ b && b ≤ 126) then
    some (.int32 (.ofNat (Bytes.ofBigEndian (bytes.take 4))))
  else if bytes.length = 8 then some (.int64 (.ofNat (bytes.ofBigEndian)))
  else if h : bytes.length = 12 then some (.objectId ⟨bytes, h⟩)
  else text.map .string

/-- One part for each indexed field; the last one is the last value and the id in one. -/
def decodeIndexKey (keyBytes : Bytes) (indexKeys : Document) : Option Document :=
  let parts := keyBytes.splitOn 0xFE
  if parts.length < indexKeys.length then none
  else
    (indexKeys.zip parts).foldlM (fun result (key, part) => do
      let part :=
        if IndexDirection.fromBson key.2 = some .descending then invertBytes part else part
      let value ← decodeIndexValuePart env part
      some (result.insert key.1 value)) []

end

structure BitmapIndex where
  bitmaps : Bytes → List ℕ
  posToId : List String
  idToPos : String → Option ℕ
  nextPos : ℕ

namespace BitmapIndex

def new : BitmapIndex := ⟨fun _ => [], [], fun _ => none, 0⟩

variable (idx : BitmapIndex)

def pushPosition (valueBytes : Bytes) (pos : ℕ) : BitmapIndex :=
  { idx with bitmaps := fun v => if v = valueBytes then idx.bitmaps v ++ [pos] else idx.bitmaps v }

def insert (docId : String) (valueBytes : Bytes) : BitmapIndex :=
  match idx.idToPos docId with
  | some existing => idx.pushPosition valueBytes existing
  | none =>
    let p := idx.nextPos
    let resized := idx.posToId ++ List.replicate (p + 1 - idx.posToId.length) ""
    let idx := { idx with
      nextPos := p + 1
      idToPos := fun id => if id = docId then some p else idx.idToPos id
      posToId := resized.set p docId }
    idx.pushPosition valueBytes p

def lookup (valueBytes : Bytes) : List ℕ := idx.bitmaps valueBytes

def lookupIn (values : List Bytes) : List ℕ :=
  -- in a sorted list, equal positions are neighbours
  ((values.flatMap idx.bitmaps).insertionSort (· ≤ ·)).dedup

def positionsToIds (positions : List ℕ) : List String :=
  positions.filterMap fun p => (idx.posToId[p]?).filter (· ≠ "")

end BitmapIndex

section

variable (env : Env)

/-- The ids of the documents that have a token. -/
structure TextIndex where
  postings : String → List String
  fields : List String

namespace TextIndex

def new (fields : List String) : TextIndex := ⟨fun _ => [], fields⟩

def docId (doc : Document) : Option String :=
  match doc.get "_id" with
  | some (.objectId oid) => some oid.toHex
  | some (.string s) => some s
  | some (.int32 n) => some (toString n.toInt)
  | some (.int64 n) => some (toString n.toInt)
  | _ => none

def fieldTokens (doc : Document) (field : String) : List String :=
  match getValue doc field with
  | some (.string text) => tokenize env text
  | _ => []

def insertDoc (idx : TextIndex) (doc : Document) : TextIndex :=
  match docId doc with
  | none => idx
  | some docId =>
    let terms := idx.fields.flatMap (fieldTokens env doc)
    { idx with postings := fun token =>
        if terms.contains token then idx.postings token ++ [docId] else idx.postings token }

def build (docs : List Document) (fields : List String) : TextIndex :=
  docs.foldl (insertDoc env) (new fields)

/-- The ids with as many hits as the query has tokens. -/
def search (idx : TextIndex) (query : String) : List String :=
  let tokens := tokenize env query
  if tokens.isEmpty then []
  else
    let hits := tokens.flatMap idx.postings
    hits.dedup.filter fun id => tokens.length ≤ hits.count id

end TextIndex

end

end Smongo

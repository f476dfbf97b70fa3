import Mathlib.Data.List.Sort
import Smongo.Env
import Smongo.Lib.BinarySearch

/-!
# Query predicates

Values are ordered by type and then by value; pairs without a rule compare as equal.
-/

namespace Smongo

def bsonTypeOrder : Bson → ℤ
  | .null | .undefined => 0
  | .int32 _ | .int64 _ | .double _ | .decimal128 _ => 1
  | .string _ | .symbol _ => 2
  | .document _ => 3
  | .array _ => 4
  | .binary .. => 5
  | .objectId _ => 6
  | .boolean _ => 7
  | .dateTime _ => 8
  | .timestamp .. => 9
  | .regularExpression .. => 10
  | .javaScriptCode _ | .javaScriptCodeWithScope .. => 11
  | .dbPointer .. => 12
  | .maxKey => 127
  | .minKey => -128

def floatCmp (x y : F64) : Ordering := (x.partialCmp y).getD .eq

mutual

def bsonCmp : Bson → Bson → Ordering
  | .int32 a, .int32 b => compare a.toInt b.toInt
  | .int64 a, .int64 b => compare a.toInt b.toInt
  | .double a, .double b => floatCmp a b
  | .int32 a, .int64 b => compare a.toInt b.toInt
  | .int64 a, .int32 b => compare a.toInt b.toInt
  | .int32 a, .double b => floatCmp (.ofInt a.toInt) b
  | .double a, .int32 b => floatCmp a (.ofInt b.toInt)
  | .int64 a, .double b => floatCmp (.ofInt a.toInt) b
  | .double a, .int64 b => floatCmp a (.ofInt b.toInt)
  | .string a, .string b => Bytes.cmp (Bytes.utf8 a) (Bytes.utf8 b)
  | .boolean a, .boolean b => compare a b
  | .dateTime a, .dateTime b => compare a.toInt b.toInt
  | .objectId a, .objectId b => a.bytes.cmp b.bytes
  | .array a, .array b => bsonCmpItems a b
  | a, b => compare (bsonTypeOrder a) (bsonTypeOrder b)

def bsonCmpItems : List Bson → List Bson → Ordering
  | [], [] => .eq
  | [], _ :: _ => .lt
  | _ :: _, [] => .gt
  | a :: as, b :: bs =>
    match bsonCmp a b with
    | .eq => bsonCmpItems as bs
    | o => o

end

def bsonEq : Option Bson → Option Bson → Bool
  | some a, some b => bsonCmp a b = .eq
  | none, none => true
  | _, _ => false

/-- `$gt`, `$gte`, `$lt` and `$lte`: a missing field satisfies none of them. -/
def bsonOrdered (accepts : Ordering → Bool) (value : Option Bson) (bound : Bson) : Bool :=
  match value with
  | some a => accepts (bsonCmp a bound)
  | none => false

def asArray : Bson → Outcome String (List Bson)
  | .array items => .ok items
  | _ => .error "Expected array"

variable (value : Option Bson) (condVal : Bson)

def evalIn : Outcome String Bool := do
  let items ← asArray condVal
  let sorted := items.insertionSort fun a b => bsonCmp a b ≠ .gt
  let contains := fun v => (binarySearchBy (fun probe => bsonCmp probe v) sorted).toBool
  match value with
  | some (.array vals) => .ok (vals.any contains)
  | some v => .ok (contains v)
  | none => .ok false

def evalExists (doc : Document) (key : String) (condVal : Bson) : Bool :=
  let present := fieldExists doc key
  match condVal with
  | .boolean false => !present
  | _ => present

def bsonTypeNumberToName (n : Int32) : Option String :=
  match n.toInt with
  | 1 => some "double"
  | 2 => some "string"
  | 3 => some "object"
  | 4 => some "array"
  | 5 => some "binData"
  | 7 => some "objectId"
  | 8 => some "bool"
  | 9 => some "date"
  | 10 => some "null"
  | 11 => some "regex"
  | 16 => some "int"
  | 18 => some "long"
  | 19 => some "decimal"
  | _ => none

/-- The names under which `$type` knows a value. -/
def bsonTypeNames : Bson → List String
  | .double _ => ["double", "number"]
  | .string _ => ["string"]
  | .document _ => ["object"]
  | .array _ => ["array"]
  | .binary .. => ["binData"]
  | .objectId _ => ["objectId"]
  | .boolean _ => ["bool"]
  | .dateTime _ => ["date"]
  | .null => ["null"]
  | .regularExpression .. => ["regex"]
  | .int32 _ => ["int", "number"]
  | .int64 _ => ["long", "number"]
  | .decimal128 _ => ["decimal", "number"]
  | _ => []

def evalType : Bool :=
  match value with
  | none => false
  | some v =>
    let typeName := match condVal with
      | .int32 n => bsonTypeNumberToName n
      | .int64 n => bsonTypeNumberToName n.toInt32
      | .string s => some s
      | _ => none
    match typeName with
    | some name => (bsonTypeNames v).contains name
    | none => false

def evalAll (env : Env) (value : Option Bson) (condVal : Bson) : Outcome String Bool :=
  let canonicalBsonKey := fun v =>
    match env.toVec [("", v)] with
    | .ok bytes => bytes
    | .error _ => []
  match value with
  | some (.array vals) => do
    let conds ← asArray condVal
    let keys := vals.map canonicalBsonKey
    .ok (conds.all fun c => keys.contains (canonicalBsonKey c))
  | _ => .ok false

def evalRegex (env : Env) (value : Option Bson) (condVal : Bson) : Outcome String Bool :=
  match value with
  | some (.string s) =>
    let compileAndMatch := fun pattern =>
      match env.regexNew pattern with
      | .ok isMatch => .ok (isMatch s)
      | .error e => .error ("invalid regex pattern '" ++ pattern ++ "': " ++ e)
    match condVal with
    | .string pattern => compileAndMatch pattern
    | .regularExpression pattern _ => compileAndMatch pattern
    | _ => .error "$regex requires string pattern"
  | _ => .ok false

/-- `n as usize` of a signed integer: negative numbers wrap around. -/
def asUsize (n : ℤ) : ℕ := (n % 2 ^ 64).toNat

def evalSize : Outcome String Bool :=
  match value with
  | some (.array vals) =>
    match condVal with
    | .int32 n => .ok (vals.length = asUsize n.toInt)
    | .int64 n => .ok (vals.length = asUsize n.toInt)
    | _ => .error "$size requires number"
  | _ => .ok false

/-- `as i64` of a number; a double saturates. -/
def numberAsI64 : Bson → Option ℤ
  | .int32 n => some n.toInt
  | .int64 n => some n.toInt
  | .double x => some (x.toIntSat (-2 ^ 63) (2 ^ 63 - 1))
  | _ => none

def evalMod : Outcome String Bool :=
  match condVal with
  | .array [d, r] =>
    match numberAsI64 d with
    | none => .error "$mod divisor must be numeric"
    | some divisor =>
      if divisor = 0 then .error "$mod divisor cannot be zero"
      else
        match numberAsI64 r with
        | none => .error "$mod remainder must be numeric"
        | some remainder =>
          match value.bind numberAsI64 with
          | none => .ok false
          | some fieldVal =>
            -- `i64::MIN % -1` overflows, which panics in every build
            if fieldVal = -2 ^ 63 ∧ divisor = -1 then .panic
            else .ok (fieldVal.tmod divisor = remainder)
  | _ => .error "$mod requires a 2-element array [divisor, remainder]"

inductive BitsMode
  | allSet
  | anySet
  | allClear
  | anyClear

def bitMask : List Bson → Outcome String (BitVec 64)
  | [] => .ok 0
  | pos :: rest => do
    let p ← match pos with
      | .int32 n => .ok n.toInt
      | .int64 n => .ok n.toInt
      | _ => .error "$bits position must be a non-negative integer"
    if p < 0 ∨ 63 < p then .error ("$bits position out of range: " ++ toString p)
    else
      let mask ← bitMask rest
      .ok (1#64 <<< p.toNat ||| mask)

def evalBits (mode : BitsMode) : Outcome String Bool :=
  match value.bind numberAsI64 with
  | none => .ok false
  | some fieldVal => do
    let mask ← match condVal with
      | .array positions => bitMask positions
      | m =>
        match numberAsI64 m with
        | some n => .ok (BitVec.ofInt 64 n)
        | none => .error "$bits requires a numeric bitmask or array of bit positions"
    let masked := BitVec.ofInt 64 fieldVal &&& mask
    match mode with
    | .allSet => .ok (masked = mask)
    | .anySet => .ok (masked ≠ 0)
    | .allClear => .ok (masked = 0)
    | .anyClear => .ok (masked ≠ mask)

mutual

def collectStrings : Bson → List String
  | .string s => [s]
  | .document d => collectFieldStrings d
  | .array items => collectItemStrings items
  | _ => []

def collectFieldStrings : List (String × Bson) → List String
  | [] => []
  | (_, v) :: rest => collectStrings v ++ collectFieldStrings rest

def collectItemStrings : List Bson → List String
  | [] => []
  | v :: rest => collectStrings v ++ collectItemStrings rest

end

def extractAllStrings (env : Env) (doc : Document) : String :=
  env.toLowercase (" ".intercalate (collectFieldStrings doc))

def splitWhitespace (s : String) : List String :=
  ((s.toList.splitOnP isWhitespace).filter (· ≠ [])).map String.ofList

def evalText (env : Env) (doc : Document) (condition : Bson) : Outcome String Bool := do
  let search ← match condition with
    | .document d =>
      match Document.get d "$search" with
      | some (.string s) => .ok s
      | some _ => .error "$text.$search must be a string"
      | none => .error "$text requires $search"
    | .string s => .ok s
    | _ => .error "$text requires a document with $search"
  let tokens := splitWhitespace (env.toLowercase search)
  .ok (tokens.all fun t => t.toList <:+: (extractAllStrings env doc).toList)

def evalPlainOperator (env : Env) (doc : Document) (key : String) (value : Option Bson)
    (op : String) (condVal : Bson) : Outcome String Bool :=
  match op with
  | "$gt" => .ok (bsonOrdered (· = .gt) value condVal)
  | "$gte" => .ok (bsonOrdered (· ≠ .lt) value condVal)
  | "$lt" => .ok (bsonOrdered (· = .lt) value condVal)
  | "$lte" => .ok (bsonOrdered (· ≠ .gt) value condVal)
  | "$eq" => .ok (bsonEq value (some condVal))
  | "$ne" => .ok !bsonEq value (some condVal)
  | "$in" => evalIn value condVal
  | "$nin" => do .ok !(← evalIn value condVal)
  | "$exists" => .ok (evalExists doc key condVal)
  | "$type" => .ok (evalType value condVal)
  | "$regex" => evalRegex env value condVal
  | "$not" => .ok false
  | "$all" => evalAll env value condVal
  | "$elemMatch" =>
    match value with
    | some (.array _) => .error "$elemMatch requires object"
    | _ => .ok false
  | "$size" => evalSize value condVal
  | "$mod" => evalMod value condVal
  | "$bitsAllSet" => evalBits value condVal .allSet
  | "$bitsAnySet" => evalBits value condVal .anySet
  | "$bitsAllClear" => evalBits value condVal .allClear
  | "$bitsAnyClear" => evalBits value condVal .anyClear
  | "$options" | "$near" | "$nearSphere" | "$geoWithin" | "$geoIntersects" => .ok true
  | _ => .error ("Unknown operator: " ++ op)

/-- Some document among the items satisfies `query`; other items are skipped. -/
def anyDocument (query : Document → Outcome String Bool) : List Bson → Outcome String Bool
  | [] => .ok false
  | .document d :: rest => do if ← query d then .ok true else anyDocument query rest
  | _ :: rest => anyDocument query rest

section

variable (env : Env)

mutual

def evalQuery (doc : Document) : Document → Outcome String Bool
  | [] => .ok true
  | (key, condition) :: rest => do
    let holds ← match key with
      | "$or" => evalOr doc condition
      | "$and" => evalAnd doc condition
      | "$nor" => evalNor doc condition
      | "$expr" => env.evalExpr doc condition
      | "$text" => evalText env doc condition
      | "$comment" => .ok true
      | _ => evalFieldCondition doc key condition
    if holds then evalQuery doc rest else .ok false
termination_by structural q => q

def evalOr (doc : Document) : Bson → Outcome String Bool
  | .array queries => evalOrItems doc queries
  | _ => .error "Expected array"
termination_by structural q => q

def evalOrItems (doc : Document) : List Bson → Outcome String Bool
  | [] => .ok false
  | .document q :: rest => do if ← evalQuery doc q then .ok true else evalOrItems doc rest
  | _ :: _ => .error "$or requires array of objects"
termination_by structural q => q

def evalAnd (doc : Document) : Bson → Outcome String Bool
  | .array queries => evalAndItems doc queries
  | _ => .error "Expected array"
termination_by structural q => q

def evalAndItems (doc : Document) : List Bson → Outcome String Bool
  | [] => .ok true
  | .document q :: rest => do if ← evalQuery doc q then evalAndItems doc rest else .ok false
  | _ :: _ => .error "$and requires array of objects"
termination_by structural q => q

def evalNor (doc : Document) : Bson → Outcome String Bool
  | .array queries => evalNorItems doc queries
  | _ => .error "Expected array"
termination_by structural q => q

def evalNorItems (doc : Document) : List Bson → Outcome String Bool
  | [] => .ok true
  | .document q :: rest => do if ← evalQuery doc q then .ok false else evalNorItems doc rest
  | _ :: _ => .error "$nor requires array of objects"
termination_by structural q => q

def evalFieldCondition (doc : Document) (key : String) : Bson → Outcome String Bool
  | .document cond =>
    let value := getValue doc key
    if Document.containsKey cond "$near" || Document.containsKey cond "$nearSphere" then
      env.evalNearFamily value cond
    else if Document.containsKey cond "$geoWithin" then env.evalGeoWithin value cond
    else if Document.containsKey cond "$geoIntersects" then env.evalGeoIntersects value cond
    else evalOperators doc key value cond
  | condition => .ok (bsonEq (getValue doc key) (some condition))
termination_by structural q => q

def evalOperators (doc : Document) (key : String) (value : Option Bson) :
    Document → Outcome String Bool
  | [] => .ok true
  | (op, condVal) :: rest => do
    if ← evalOperator doc key value op condVal then evalOperators doc key value rest
    else .ok false
termination_by structural q => q

def evalOperator (doc : Document) (key : String) (value : Option Bson) (op : String) :
    Bson → Outcome String Bool
  | .document cond =>
    match op with
    | "$not" => evalNot doc key value cond
    | "$elemMatch" =>
      match value with
      | some (.array items) => anyDocument (fun d => evalQuery d cond) items
      | _ => .ok false
    | _ => evalPlainOperator env doc key value op (.document cond)
  | condVal => evalPlainOperator env doc key value op condVal
termination_by structural q => q

def evalNot (doc : Document) (key : String) (value : Option Bson) : Document → Outcome String Bool
  | [] => .ok true
  | (op, opVal) :: rest => do
    if ← evalOperator doc key value op opVal then .ok false else evalNot doc key value rest
termination_by structural q => q

end

end

end Smongo

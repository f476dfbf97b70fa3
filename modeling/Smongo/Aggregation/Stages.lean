import Smongo.Update.Apply

/-!
# Pipeline stages of a query with options

The comparison of `stageSort` takes `NaN` for equal to every number, and only without `NaN` it is
an order.
-/

namespace Smongo

/-- Only `Int32` directions count, anything else is ascending. -/
def sortDescending : Bson → Bool
  | .int32 n => n < 0
  | _ => false

def compareBySort (sortDoc a b : Document) : Ordering :=
  sortDoc.foldr (fun f rest =>
    let cmp := compareBson (getValue a f.1) (getValue b f.1)
    (if sortDescending f.2 then cmp.swap else cmp).then rest) .eq

variable (docs : List Document)

def stageSort (sortDoc : Document) : List Document :=
  docs.insertionSort fun a b => compareBySort sortDoc a b ≠ .gt

def stageSkip (n : Int64) : List Document := docs.drop n.toInt.toNat

def stageLimit (n : Int64) : List Document := docs.take n.toInt.toNat

def isZeroOrFalse : Bson → Bool
  | .int32 n => n = 0
  | .int64 n => n = 0
  | .boolean b => !b
  | _ => false

def isOneOrTrue : Bson → Bool
  | .int32 n => n = 1
  | .int64 n => n = 1
  | .boolean b => b
  | _ => false

section

variable (env : Env) (proj : Document)

def idExcluded : Bool := (proj.get "_id").any isZeroOrFalse

variable (doc : Document)

def projectExcluding : Except String Document := do
  let nd ← proj.foldlM (fun nd (field, value) =>
    if field = "_id" then pure nd
    else if isZeroOrFalse value then pure (nd.remove field)
    else do
      let val ← env.evaluateExpression doc value
      pure (nd.insert field val)) doc
  pure (if idExcluded proj then nd.remove "_id" else nd)

def includeField (doc nd : Document) : String × Bson → Except String Document
  | (field, value) =>
    if field = "_id" then pure nd
    else if isOneOrTrue value then
      match getValue doc field with
      | some val => pure (nd.insert field val)
      | none => pure nd
    else do
      let val ← env.evaluateExpression doc value
      pure (nd.insert field val)

def projectIncluding : Except String Document :=
  let nd := if idExcluded proj then [] else
    match doc.get "_id" with
    | some id => [("_id", id)]
    | none => []
  proj.foldlM (includeField env doc) nd

def projectDocument : Except String Document :=
  if proj.any fun f => f.1 ≠ "_id" && isZeroOrFalse f.2 then projectExcluding env proj doc
  else projectIncluding env proj doc

def stageProject (docs : List Document) : Except String (List Document) :=
  docs.mapM (projectDocument env proj)

end

end Smongo

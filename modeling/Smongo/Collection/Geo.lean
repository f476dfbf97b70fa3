import Smongo.Collection.Exec

/-!
# Spherical plans

A spherical plan is a set of S2 cells, whose rows are visited.
-/

namespace Smongo

structure Geometry where
  rangeMin : UInt64 → ℕ
  rangeMax : UInt64 → ℕ
  queryCapCovering : F64 → F64 → Option F64 → List UInt64
  extractLonLat : Option Bson → Option (F64 × F64)
  haversineMeters : F64 → F64 → F64 → F64 → F64
  /-- The order in which a hash set of these strings is gone through. -/
  iterate : List String → List String

def u64FromHex (digits : List Char) : Option ℕ :=
  let digits :=
    match digits with
    | '+' :: rest => rest
    | _ => digits
  if digits.isEmpty then none
  else
    (digits.foldlM (fun n d => (hexDigitValue d).map (16 * n + ·)) 0).bind fun n =>
      if n < 2 ^ 64 then some n else none

def indexKeyCellId (key : String) : Option ℕ :=
  if '|' ∈ key.toList then u64FromHex (key.toList.takeWhile (· ≠ '|')) else none

section

variable {S C : Type} [StorageCursor C] [StorageSession S C] (env : Env) (c : Handle)
  (geometry : Geometry)

def collectCellRow (rmin rmax : ℕ) (cursor : C) (seen : List String) :
    Op S (Bool × List String) := do
  let keyStr ← liftStorage (getKeyStr cursor)
  match indexKeyCellId keyStr with
  | none => pure (true, seen)
  | some cid =>
    if cid < rmin then pure (true, seen)
    else if rmax < cid then pure (false, seen)
    else do
      let docId ← liftStorage (StorageCursor.getValueStr cursor)
      pure (true, if docId ∈ seen then seen else seen ++ [docId])

def collectIdsGeoCells (indexName : String) (cells : List UInt64) : Op S (List String) := do
  let cursor : C ← openTable (c.indexTable indexName)
  cells.foldlM (fun seen cell =>
    let rmin := geometry.rangeMin cell
    seekRows cursor (Bytes.utf8 (hex16 rmin ++ "|")) seen
      (collectCellRow rmin (geometry.rangeMax cell))) []

def scoreById (filter : Document) (field : String) (lon lat : F64)
    (maxDistanceM minDistanceM : Option F64) (scored : List (F64 × Document)) (id : String) :
    Op S (List (F64 × Document)) := do
  match ← fetchDocByIdStr env c id with
  | none => pure scored
  | some doc =>
    if ← passes env filter doc then
      match geometry.extractLonLat (getValue doc field) with
      | none => pure scored
      | some (dlon, dlat) =>
        let d := geometry.haversineMeters lon lat dlon dlat
        if minDistanceM.any fun m => d.partialCmp m = some .lt then pure scored
        else if maxDistanceM.any fun m => d.partialCmp m = some .gt then pure scored
        else pure (scored ++ [(d, doc)])
    else pure scored

def collectIds (filter : Document) (ids : List String) : Op S (List Document) :=
  (geometry.iterate ids).foldlM (collectById env c filter) []

def materializeGeoPlan (plan : ExecutionPlan) (filter : Document) : Op S (List Document) :=
  match plan with
  | .geoNear indexName field lon lat maxDistanceM minDistanceM => do
    let cells := geometry.queryCapCovering lon lat maxDistanceM
    let ids ← collectIdsGeoCells c geometry indexName cells
    let scored ← (geometry.iterate ids).foldlM
      (scoreById env c geometry filter field lon lat maxDistanceM minDistanceM) []
    pure ((scored.insertionSort fun a b => a.1.partialCmp b.1 ≠ some .gt).map Prod.snd)
  | .geoCapWithin indexName _ lon lat radiusM => do
    let cells := geometry.queryCapCovering lon lat (some radiusM)
    let ids ← collectIdsGeoCells c geometry indexName cells
    collectIds env c geometry filter ids
  | .geoCellCover indexName _ cellIds => do
    let ids ← collectIdsGeoCells c geometry indexName cellIds
    collectIds env c geometry filter ids
  | _ => Eff.fail (.other "internal: not a geospatial execution plan")

end

end Smongo

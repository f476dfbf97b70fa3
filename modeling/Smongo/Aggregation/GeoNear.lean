import Smongo.Aggregation.Pipeline
import Smongo.Lib.TopK

/-!
# `$geoNear`

The stage returns documents by distance; with a limit it keeps the nearest in a bounded heap.
-/

namespace Smongo

open List Outcome

structure GeoDistance (δ : Type) where
  extractLonLat : Option Bson → Option (F64 × F64)
  haversineMeters : F64 × F64 → F64 × F64 → δ
  /-- The distance of so many meters. -/
  ofMeters : F64 → δ
  /-- The distance in meters, multiplied. -/
  scaled : δ → F64 → F64

structure GeoNearSpec (δ : Type) where
  near : F64 × F64
  distanceField : String
  key : String
  maxDistance : Option δ
  minDistance : Option δ
  distanceMultiplier : F64
  includeLocs : Option String
  limit : Option Int64
  query : Option Document

/-- `as_f64`, or else `as_i64`: an `Int32` is neither. -/
def doubleOrInt64 : Bson → Option F64
  | .double x => some x
  | .int64 n => some (.ofInt n.toInt)
  | _ => none

def asDouble : Bson → Option F64
  | .double x => some x
  | _ => none

def getDocument (d : Document) (key : String) : Option Document :=
  match d.get key with
  | some (.document e) => some e
  | _ => none

section

variable {δ : Type} (g : GeoDistance δ)

def parseGeoNear : Bson → Outcome AggregationError (GeoNearSpec δ)
  | .document d =>
    match Document.get d "near" with
    | none => .error (.missingField "$geoNear.near required")
    | some near =>
      match g.extractLonLat (some near) with
      | none => .error (.invalidStage "$geoNear.near must be a GeoJSON Point or [lon, lat]")
      | some point =>
        match getStr d "distanceField" with
        | none => .error (.missingField "$geoNear.distanceField required")
        | some distanceField =>
          .ok {
            near := point
            distanceField := distanceField
            key := (getStr d "key").getD "location"
            maxDistance := ((Document.get d "maxDistance").bind doubleOrInt64).map g.ofMeters
            minDistance := ((Document.get d "minDistance").bind doubleOrInt64).map g.ofMeters
            distanceMultiplier :=
              ((Document.get d "distanceMultiplier").bind asDouble).getD (.ofInt 1)
            includeLocs := getStr d "includeLocs"
            limit := (Document.get d "limit").bind integerOf
            query := getDocument d "query" }
  | _ => .error (.invalidStage "$geoNear requires document")

variable [LinearOrder δ] (env : Env) (q : GeoNearSpec δ) (doc : Document)

/-- A query that cannot be evaluated selects nothing. -/
def GeoNearSpec.queried : Outcome AggregationError Bool :=
  match q.query with
  | none => .ok true
  | some filter => (evalQuery env doc filter).unwrapOr false

def GeoNearSpec.annotate (dist : δ) (doc : Document) : Document :=
  let result := setValue doc q.distanceField (.double (g.scaled dist q.distanceMultiplier))
  match q.includeLocs with
  | none => result
  | some field =>
    match getValue result q.key with
    | none => result
    | some loc => setValue result field loc

def GeoNearSpec.prepare : Outcome AggregationError (Option (δ × Document)) := do
  if ← q.queried env doc then
    match g.extractLonLat (getValue doc q.key) with
    | none => .ok none
    | some point =>
      let dist := g.haversineMeters q.near point
      if q.maxDistance.any (· < dist) then .ok none
      else if q.minDistance.any (dist < ·) then .ok none
      else .ok (some (dist, q.annotate g dist doc))
  else .ok none

structure GeoNearState (H : BinaryHeap (δ × ℕ)) where
  prepared : List (δ × Document)
  heap : H.Heap

def GeoNearState.add {H : BinaryHeap (δ × ℕ)} (st : GeoNearState H) (useHeap : Option ℕ)
    (p : δ × Document) : GeoNearState H where
  prepared := st.prepared ++ [p]
  heap :=
    match useHeap with
    | some k => offer H k st.heap p.1 st.prepared.length
    | none => st.heap

def geoNearLoop (H : BinaryHeap (δ × ℕ)) (useHeap : Option ℕ) (st : GeoNearState H)
    (docs : List Document) : Outcome AggregationError (GeoNearState H) :=
  docs.foldlM (fun st doc => do
    match ← q.prepare g env doc with
    | none => .ok st
    | some p => .ok (st.add useHeap p)) st

def stageGeoNear (H : BinaryHeap (δ × ℕ)) (docs : List Document) (spec : Bson) :
    Outcome AggregationError (List Document) := do
  let q ← parseGeoNear g spec
  let useHeap := q.limit.map usize
  let st ← geoNearLoop g env q H useHeap ⟨[], H.new⟩ docs
  match useHeap with
  | some _ =>
    let top := (H.intoIter st.heap).insertionSort fun a b => a.1 ≤ b.1
    .ok (top.map fun p => (st.prepared[p.2]?.map Prod.snd).getD [])
  | none => .ok ((st.prepared.insertionSort fun a b => a.1 ≤ b.1).map Prod.snd)

def GeoNearSpec.distanceOf : Option δ :=
  (g.extractLonLat (getValue doc q.key)).map (g.haversineMeters q.near)

def GeoNearSpec.selects : Bool := q.query.all fun filter => evalQuery env doc filter = .ok true

def GeoNearSpec.within (dist : δ) : Bool :=
  q.maxDistance.all (dist ≤ ·) && q.minDistance.all (· ≤ dist)

/-- A document with coordinates that passes the filters, with its distance and as it is
returned. -/
def GeoNearSpec.candidate : Option (δ × Document) :=
  if q.selects env doc then
    ((q.distanceOf g doc).filter q.within).map fun dist => (dist, q.annotate g dist doc)
  else none

def GeoNearSpec.candidates (docs : List Document) : List (δ × Document) :=
  docs.filterMap (q.candidate g env)

def GeoNearSpec.Traps : Prop := ∃ filter, q.query = some filter ∧ evalQuery env doc filter = .panic

end

section

variable {δ : Type} {g : GeoDistance δ} {env : Env} {q : GeoNearSpec δ}

variable {doc : Document} {H : BinaryHeap (δ × ℕ)}

lemma GeoNearSpec.queried_eq (h : ¬ q.Traps env doc) :
    q.queried env doc = .ok (q.selects env doc) := by
  rw [queried, selects]
  cases hquery : q.query with
  | none => rfl
  | some filter =>
    cases heval : evalQuery env doc filter with
    | ok b => cases b <;> simp [unwrapOr, heval]
    | error e => simp [unwrapOr, heval]
    | panic => exact absurd ⟨filter, hquery, heval⟩ h

variable (ps : List (δ × Document))

def numbered : List (δ × ℕ) := ps.zipIdx.map fun e => (e.1.1, e.2)

lemma nodup_numbered : (numbered ps).Nodup := by
  apply List.Nodup.of_map Prod.snd
  have hsnd : (numbered ps).map Prod.snd = range' 0 ps.length := by
    rw [numbered, map_map]
    exact zipIdx_map_snd 0 ps
  rw [hsnd]
  exact nodup_range'

def entryOf (p : δ × ℕ) : (δ × Document) × ℕ := ((p.1, (ps[p.2]?.map Prod.snd).getD []), p.2)

lemma map_entryOf_numbered : (numbered ps).map (entryOf ps) = ps.zipIdx := by
  rw [numbered, map_map]
  refine (map_congr_left fun e he => ?_).trans (map_id _)
  have hget : ps[e.2]? = some e.1 := mk_mem_zipIdx_iff_getElem?.mp he
  simp [entryOf, hget]

variable [LinearOrder δ]

lemma GeoNearSpec.prepare_of_traps (h : q.Traps env doc) : q.prepare g env doc = .panic := by
  obtain ⟨filter, hquery, heval⟩ := h
  simp [prepare, queried, hquery, heval, unwrapOr]

lemma GeoNearSpec.prepare_eq (h : ¬ q.Traps env doc) :
    q.prepare g env doc = .ok (q.candidate g env doc) := by
  rw [prepare, queried_eq h, ok_bind, candidate, distanceOf]
  split
  · cases hpoint : g.extractLonLat (getValue doc q.key) with
    | none => rfl
    | some point =>
      have hmax : ∀ d : δ, q.maxDistance.all (d ≤ ·) = !q.maxDistance.any (· < d) := by
        cases q.maxDistance <;> simp [← not_lt]
      have hmin : ∀ d : δ, q.minDistance.all (· ≤ d) = !q.minDistance.any (d < ·) := by
        cases q.minDistance <;> simp [← not_lt]
      simp only [Option.map_some, Option.filter_some, within, hmax, hmin]
      split
      · next hfar => simp [hfar]
      · next hnear =>
        split
        · next hclose => simp [hclose]
        · next hnot => simp [hnear, hnot]
  · rfl

lemma geoNearLoop_of_traps {useHeap : Option ℕ} {docs : List Document}
    (h : ∃ doc ∈ docs, q.Traps env doc) (st : GeoNearState H) :
    geoNearLoop g env q H useHeap st docs = .panic := by
  induction docs generalizing st with
  | nil =>
    obtain ⟨doc, hdoc, -⟩ := h
    exact absurd hdoc not_mem_nil
  | cons doc docs ih =>
    rw [geoNearLoop, foldlM_cons]
    by_cases htraps : q.Traps env doc
    · rw [GeoNearSpec.prepare_of_traps htraps]
      rfl
    · have hrest : ∃ doc ∈ docs, q.Traps env doc := by
        obtain ⟨d, hd, hdtraps⟩ := h
        rcases mem_cons.mp hd with rfl | hd
        · exact absurd hdtraps htraps
        · exact ⟨d, hd, hdtraps⟩
      rw [GeoNearSpec.prepare_eq htraps, ok_bind]
      cases q.candidate g env doc with
      | none => exact ih hrest st
      | some p => exact ih hrest (st.add useHeap p)

lemma geoNearLoop_eq {useHeap : Option ℕ} {docs : List Document}
    (h : ∀ doc ∈ docs, ¬ q.Traps env doc) (st : GeoNearState H) :
    geoNearLoop g env q H useHeap st docs =
      .ok ((q.candidates g env docs).foldl (fun st p => st.add useHeap p) st) := by
  induction docs generalizing st with
  | nil => rfl
  | cons doc docs ih =>
    have hrest : ∀ doc ∈ docs, ¬ q.Traps env doc := fun d hd => h d (mem_cons_of_mem doc hd)
    rw [geoNearLoop, foldlM_cons, GeoNearSpec.prepare_eq (h doc mem_cons_self),
      ok_bind, GeoNearSpec.candidates, filterMap_cons]
    cases q.candidate g env doc with
    | none => exact ih hrest st
    | some p => exact ih hrest (st.add useHeap p)

lemma foldl_add {Valid : H.Heap → Prop} {k : ℕ}
    (hH : H.Contract cmpPairs Set.univ Valid) (ps : List (δ × Document)) {st : GeoNearState H}
    (hvalid : Valid st.heap) (hst : ∃ rest, HoldsLeast H k st.heap (numbered st.prepared) rest) :
    let st' := ps.foldl (fun st p => st.add (some k) p) st
    st'.prepared = st.prepared ++ ps ∧
      ∃ rest, HoldsLeast H k st'.heap (numbered st'.prepared) rest := by
  induction ps generalizing st with
  | nil => exact ⟨(append_nil _).symm, hst⟩
  | cons p ps ih =>
    obtain ⟨rest, hst⟩ := hst
    have hbefore : ∀ a ∈ numbered st.prepared, a.2 < st.prepared.length := by
      intro a ha
      obtain ⟨e, he, rfl⟩ := mem_map.mp ha
      have hlt := snd_lt_of_mem_zipIdx he
      omega
    obtain ⟨hvalid', rest', hst'⟩ := hst.offer hH hvalid (d := p.1) hbefore
    have hnumbered : numbered (st.prepared ++ [p]) =
        numbered st.prepared ++ [(p.1, st.prepared.length)] := by
      simp [numbered, zipIdx_append]
    rw [← hnumbered] at hst'
    obtain ⟨hprepared, hrest⟩ := @ih (st.add (some k) p) hvalid' ⟨rest', hst'⟩
    refine ⟨?_, hrest⟩
    rw [foldl_cons, hprepared, GeoNearState.add, append_assoc]
    rfl

end

/-- Among the candidates the found ones are the least `k` by distance and then by arrival. -/
def GeoNearSpec.Nearest {δ : Type} [LinearOrder δ] (g : GeoDistance δ) (env : Env)
    (q : GeoNearSpec δ) (docs : List Document) (k : ℕ) (found : List Document) : Prop :=
  ∃ chosen rest : List ((δ × Document) × ℕ),
    found = chosen.map (fun e => e.1.2) ∧
    (chosen ++ rest).Perm (q.candidates g env docs).zipIdx ∧
    chosen.length = min k (q.candidates g env docs).length ∧
    (∀ a ∈ chosen, ∀ b ∈ rest, toLex (a.1.1, a.2) < toLex (b.1.1, b.2)) ∧
    chosen.Pairwise fun a b => a.1.1 ≤ b.1.1

namespace Sample

def samePlace : GeoDistance ℤ where
  extractLonLat
    | some (.array [.double lon, .double lat]) => some (lon, lat)
    | _ => none
  haversineMeters p r := if p = r then 0 else 1
  ofMeters x := x.orderKey
  scaled _ _ := .zero

def place : Bson := .array [.double (.ofInt 1), .double (.ofInt 2)]

def placed : List Document :=
  [[("_id", .int32 1)], [("_id", .int32 2), ("location", place)],
    [("_id", .int32 3), ("location", place)]]

def nearPlace : GeoNearSpec ℤ :=
  ⟨(.ofInt 1, .ofInt 2), "d", "location", none, none, .ofInt 1, none, some 1, none⟩

end Sample

section

open Sample

end

end Smongo

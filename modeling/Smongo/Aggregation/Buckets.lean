import Mathlib.Data.List.Zip
import Smongo.Aggregation.Accumulators
import Smongo.Aggregation.SortKeys

/-!
# `$bucket` and `$bucketAuto`

`$bucket` searches the boundaries by halves, and keeps the buckets under the texts of their lower
bounds.
-/

namespace Smongo

open List Outcome Function

def getArray (d : Document) (key : String) : Option (List Bson) :=
  match d.get key with
  | some (.array items) => some items
  | _ => none

section

variable (rt : AccumRuntime)

def bucketResult (output : Option Document) (id : Bson) (docs : List Document) :
    Outcome AggregationError Document :=
  match output with
  | some spec => accumulateInto rt docs [("_id", id)] spec
  | none => .ok [("_id", id), ("count", .int32 (Int32.ofNat docs.length))]

variable (vals : List F64)

def bucketKey (n : F64) : Option String :=
  let idx := partitionPoint (·.le n) vals
  if 0 < idx ∧ idx < vals.length then vals[idx - 1]?.map F64.display else none

structure BucketState where
  buckets : String → List Document
  defaultDocs : List Document

def bucketOf (val : Bson) : Option String := (bsonToF64 val).bind (bucketKey vals)

def BucketState.place (hasDefault : Bool) (st : BucketState) (p : Bson × Document) : BucketState :=
  match bucketOf vals p.1 with
  | some key => { st with buckets := update st.buckets key (st.buckets key ++ [p.2]) }
  | none => if hasDefault then { st with defaultDocs := st.defaultDocs ++ [p.2] } else st

def bucketResults (output : Option Document) :
    (String → List Document) → List F64 → Outcome AggregationError (List Document)
  | _, [] => .ok []
  | buckets, bval :: rest => do
    let key := F64.display bval
    let result ← bucketResult rt output (.double bval) (buckets key)
    let results ← bucketResults output (update buckets key []) rest
    .ok (result :: results)

def stageBucket (docs : List Document) : Bson → Outcome AggregationError (List Document)
  | .document spec =>
    match Document.get spec "groupBy" with
    | none => .error (.missingField "$bucket.groupBy required")
    | some groupBy =>
      match getArray spec "boundaries" with
      | none => .error (.missingField "$bucket.boundaries required")
      | some boundaries =>
        let output := getDocument spec "output"
        let vals := boundaries.filterMap bsonToF64
        if vals.length < 2 then
          .error (.invalidStage "$bucket requires at least 2 boundaries")
        else do
          let st ← docs.foldlM (fun st doc => do
            let val ← rt.evaluateExpression doc groupBy
            .ok (st.place vals (Document.get spec "default").isSome (val, doc)))
            (⟨fun _ => [], []⟩ : BucketState)
          let results ← bucketResults rt output st.buckets vals.dropLast
          match Document.get spec "default" with
          | none => .ok results
          | some id =>
            if st.defaultDocs = [] then .ok results
            else do
              let result ← bucketResult rt output id st.defaultDocs
              .ok (results ++ [result])
  | _ => .error (.invalidStage "$bucket requires document")

variable {rt}

lemma get_id_bucketResult {output : Option Document} {id : Bson} {docs : List Document}
    {result : Document} (hid : ∀ spec, output = some spec → "_id" ∉ spec.keys)
    (h : bucketResult rt output id docs = .ok result) :
    result.get "_id" = some id := by
  cases output with
  | none => cases h; rfl
  | some spec => rw [get_accumulateInto rt (hid spec rfl) h]; rfl

lemma foldl_place (hasDefault : Bool) (ps : List (Bson × Document)) (st : BucketState) :
    (∀ key, (ps.foldl (BucketState.place vals hasDefault) st).buckets key = st.buckets key ++
      (ps.filter fun p => bucketOf vals p.1 = some key).map Prod.snd) ∧
    (ps.foldl (BucketState.place vals hasDefault) st).defaultDocs = st.defaultDocs ++
      if hasDefault then (ps.filter fun p => bucketOf vals p.1 = none).map Prod.snd else [] := by
  induction ps generalizing st with
  | nil => simp
  | cons p ps ih =>
    obtain ⟨hbuckets, hdefault⟩ := ih (st.place vals hasDefault p)
    refine ⟨fun key => ?_, ?_⟩
    · rw [foldl_cons, hbuckets, BucketState.place]
      cases hof : bucketOf vals p.1 with
      | some key' =>
        by_cases hkey : key' = key
        · simp [hof, hkey]
        · simp [hof, hkey, update_of_ne (Ne.symm hkey)]
      | none => cases hasDefault <;> simp [hof]
    · rw [foldl_cons, hdefault, BucketState.place]
      cases hof : bucketOf vals p.1 with
      | some key' => simp [hof]
      | none => cases hasDefault <;> simp [hof]

lemma bucketResults_eq_ok {output : Option Document} {buckets : String → List Document}
    {vals : List F64} {results : List Document} (hkeys : (vals.map F64.display).Nodup)
    (h : bucketResults rt output buckets vals = .ok results) :
    List.Forall₂ (fun b r =>
      bucketResult rt output (.double b) (buckets (F64.display b)) = .ok r) vals results := by
  suffices ∀ table : String → List Document,
      (∀ b ∈ vals, table (F64.display b) = buckets (F64.display b)) →
      bucketResults rt output table vals = .ok results →
      List.Forall₂ (fun b r =>
        bucketResult rt output (.double b) (buckets (F64.display b)) = .ok r) vals results from
    this buckets (fun _ _ => rfl) h
  clear h
  induction vals generalizing results with
  | nil =>
    intro table _ h
    cases h
    exact .nil
  | cons b vals ih =>
    intro table htable h
    rw [map_cons, nodup_cons] at hkeys
    obtain ⟨result, hresult, hrest⟩ := bind_eq_ok.mp h
    obtain ⟨rest, hresults, hout⟩ := bind_eq_ok.mp hrest
    cases hout
    refine .cons (htable b mem_cons_self ▸ hresult) (ih hkeys.2 _ (fun c hc => ?_) hresults)
    have hne : F64.display c ≠ F64.display b := fun heq => hkeys.1 (heq ▸ mem_map_of_mem hc)
    rw [update_of_ne hne, htable c (mem_cons_of_mem b hc)]

/-! ### Integer boundaries -/

def integerIn (range : ℤ × ℤ) (val : Bson) : Bool :=
  (integerOf val).any fun n => range.1 ≤ n.toInt ∧ n.toInt < range.2

lemma bsonToF64_of_integerOf {val : Bson} {n : Int64} (h : integerOf val = some n) :
    bsonToF64 val = some (.ofInt n.toInt) := by
  cases val <;> cases h
  · rw [bsonToF64, Int32.toInt_toInt64]
  · rfl

def ranges (ns : List ℤ) : List (ℤ × ℤ) := ns.zip ns.tail

lemma mem_ranges {ns : List ℤ} {r : ℤ × ℤ} (h : r ∈ ranges ns) :
    ∃ i, ∃ hi : i + 1 < ns.length, r = (ns[i], ns[i + 1]) := by
  obtain ⟨i, hi, rfl⟩ := getElem_of_mem h
  rw [ranges, length_zip, length_tail] at hi
  refine ⟨i, by omega, ?_⟩
  simp [ranges]

lemma ranges_of_lt {ns : List ℤ} {i : ℕ} (hi : i + 1 < ns.length) :
    (ns[i], ns[i + 1]) ∈ ranges ns := by
  have hlen : i < (ranges ns).length := by
    rw [ranges, length_zip, length_tail]
    omega
  have hget : (ranges ns)[i] = (ns[i], ns[i + 1]) := by simp [ranges]
  exact hget ▸ getElem_mem hlen

lemma map_dropLast_ranges {α : Type} (f : ℤ → α) (ns : List ℤ) :
    (ns.map f).dropLast = (ranges ns).map fun r => f r.1 := by
  apply ext_getElem
  · simp [ranges]
  · simp [ranges]

lemma ranges_disjoint {ns : List ℤ} (hlt : ns.Pairwise (· < ·)) :
    (ranges ns).Pairwise fun r r' => r.2 ≤ r'.1 := by
  rw [pairwise_iff_getElem] at hlt ⊢
  intro i j hi hj hij
  have hlen := hj
  rw [ranges, length_zip, length_tail] at hlen
  simp only [ranges, getElem_zip, getElem_tail]
  rcases Nat.eq_or_lt_of_le (Nat.succ_le_of_lt hij) with rfl | hlt'
  · exact le_rfl
  · exact (hlt (i + 1) j (by omega) (by omega) hlt').le

section

variable {ns : List ℤ} (hlt : ns.Pairwise (· < ·)) (hsmall : ∀ n ∈ ns, n.natAbs < 2 ^ 53)

include hlt hsmall in
/-- Integers below `2^53` have different texts. -/
lemma nodup_display : (ns.map fun n => (F64.ofInt n).display).Nodup := by
  refine (nodup_map_iff_inj_on (hlt.imp ne_of_lt)).mpr fun m hm n hn htext => ?_
  have hle : ∀ m ∈ ns, ∀ n, F64.ofInt m = F64.ofInt n → m ≤ n := fun m hm n h =>
    (F64.le_ofInt_iff (hsmall m hm)).mp (h ▸ (F64.le_ofInt_iff (hsmall m hm)).mpr le_rfl)
  rcases F64.display_eq_iff.mp htext with h | ⟨h, -⟩
  · exact le_antisymm (hle m hm n h) (hle n hn m h.symm)
  · rw [F64.isNaN_ofInt] at h
    cases h

include hlt hsmall in
/-- The binary search ends behind the lower bound of the range of the number. -/
lemma partitionPoint_ofInt (m : ℤ) {i : ℕ} (hi : i + 1 < ns.length) :
    partitionPoint (·.le (.ofInt m)) (ns.map F64.ofInt) = i + 1 ↔ ns[i] ≤ m ∧ m < ns[i + 1] := by
  have hsorted : (ns.map F64.ofInt).Pairwise fun a b =>
      b.le (.ofInt m) = true → a.le (.ofInt m) = true := by
    rw [pairwise_map]
    refine (List.Pairwise.and_mem.mp hlt).imp fun ⟨ha, hb, hab⟩ hle => ?_
    rw [F64.le_ofInt_iff (hsmall _ hb)] at hle
    exact (F64.le_ofInt_iff (hsmall _ ha)).mpr (hab.le.trans hle)
  obtain ⟨-, hiff⟩ := partitionPoint_spec hsorted
  have hbound : ∀ j, ∀ hj : j < ns.length,
      j < partitionPoint (·.le (.ofInt m)) (ns.map F64.ofInt) ↔ ns[j] ≤ m := by
    intro j hj
    rw [hiff j (by rwa [length_map]), getElem_map, F64.le_ofInt_iff (hsmall _ (getElem_mem hj))]
  have hlower := hbound i (by omega)
  have hupper := hbound (i + 1) hi
  omega

include hlt hsmall in
lemma bucketOf_eq_some_iff {r : ℤ × ℤ} (hr : r ∈ ranges ns) {val : Bson}
    (hval : (integerOf val).isSome ∨ bsonToF64 val = none) :
    bucketOf (ns.map F64.ofInt) val = some (F64.display (.ofInt r.1)) ↔
      integerIn r val = true := by
  obtain ⟨i, hi, rfl⟩ := mem_ranges hr
  rw [bucketOf, integerIn]
  cases hint : integerOf val with
  | none =>
    rw [hint] at hval
    rw [hval.resolve_left (by simp)]
    simp
  | some n =>
    rw [bsonToF64_of_integerOf hint, Option.bind_some, bucketKey, Option.any_some,
      decide_eq_true_eq, ← partitionPoint_ofInt hlt hsmall n.toInt hi, length_map,
      getElem?_map]
    generalize partitionPoint (·.le (.ofInt n.toInt)) (ns.map F64.ofInt) = idx
    constructor
    · intro h
      split at h
      · next hidx =>
        rw [getElem?_eq_getElem (by omega), Option.map_some, Option.map_some,
          Option.some.injEq] at h
        have hbound := inj_on_of_nodup_map (nodup_display hlt hsmall)
          (getElem_mem _) (getElem_mem _) h
        have hnodup : ns.Nodup := hlt.imp ne_of_lt
        have hsame := hnodup.getElem_inj_iff.mp hbound
        omega
      · cases h
    · rintro rfl
      rw [if_pos (by omega), Nat.add_sub_cancel, getElem?_eq_getElem (by omega)]
      rfl

include hlt hsmall in
lemma bucketOf_eq_none_iff {val : Bson} (hval : (integerOf val).isSome ∨ bsonToF64 val = none) :
    bucketOf (ns.map F64.ofInt) val = none ↔ ∀ r ∈ ranges ns, integerIn r val = false := by
  rw [bucketOf]
  cases hint : integerOf val with
  | none =>
    rw [hint] at hval
    rw [hval.resolve_left (by simp)]
    simp [integerIn, hint]
  | some n =>
    have hpoint := fun i hi => partitionPoint_ofInt hlt hsmall n.toInt (i := i) hi
    rw [bsonToF64_of_integerOf hint, Option.bind_some, bucketKey, length_map, getElem?_map]
    simp only [integerIn, hint, Option.any_some, decide_eq_false_iff_not]
    generalize partitionPoint (·.le (.ofInt n.toInt)) (ns.map F64.ofInt) = idx at hpoint
    constructor
    · intro h r hr
      obtain ⟨i, hi, rfl⟩ := mem_ranges hr
      rw [← hpoint i hi]
      rintro rfl
      rw [if_pos (by omega), getElem?_eq_getElem (by omega)] at h
      cases h
    · intro h
      rw [if_neg]
      intro hidx
      have hi : idx - 1 + 1 < ns.length := by omega
      exact h _ (ranges_of_lt hi) ((hpoint _ hi).mp (by omega))

end

/-- With integer boundaries in ascending order, every document falls into the bucket of the range
that holds its integer, or into the default bucket, and each bucket is computed from the documents
of its own range, in input order. -/
theorem bucket_conserves {docs : List Document} {spec : Document} {groupBy : Bson}
    {boundaries : List Bson} {ns : List ℤ} {out : List Document}
    (hgroup : Document.get spec "groupBy" = some groupBy)
    (hbounds : getArray spec "boundaries" = some boundaries)
    (hints : boundaries.map bsonToF64 = ns.map fun n => some (F64.ofInt n))
    (hlt : ns.Pairwise (· < ·)) (hsmall : ∀ n ∈ ns, n.natAbs < 2 ^ 53)
    (hvals : ∀ doc ∈ docs, ∀ val, rt.evaluateExpression doc groupBy = .ok val →
      (integerOf val).isSome ∨ bsonToF64 val = none)
    (hid : ∀ output, getDocument spec "output" = some output → "_id" ∉ Document.keys output)
    (h : stageBucket rt docs (.document spec) = .ok out) :
    let result := bucketResult rt (getDocument spec "output")
    let others := docs.filter (rt.hasValue groupBy fun val => (ranges ns).all (!integerIn · val))
    (ranges ns).Pairwise (fun r r' => ∀ val, integerIn r val → ¬ integerIn r' val) ∧
    ∃ ranged rest, out = ranged ++ rest ∧ List.Forall₂ (fun r bucket =>
        result (.double (.ofInt r.1)) (docs.filter (rt.hasValue groupBy (integerIn r))) =
          .ok bucket ∧
        Document.get bucket "_id" = some (.double (.ofInt r.1))) (ranges ns) ranged ∧
      ((rest = [] ∧ (Document.get spec "default" = none ∨ others = [])) ∨
        ∃ id bucket, Document.get spec "default" = some id ∧ others ≠ [] ∧ rest = [bucket] ∧
          result id others = .ok bucket ∧ Document.get bucket "_id" = some id) := by
  intro result others
  have hfloats : boundaries.filterMap bsonToF64 = ns.map F64.ofInt := by
    have h := congrArg (filterMap id) hints
    rwa [filterMap_map, filterMap_map, id_comp, id_comp, filterMap_eq_map'] at h
  refine ⟨?_, ?_⟩
  · refine (ranges_disjoint hlt).imp fun {r r'} hle val hin hin' => ?_
    rw [integerIn, Option.any_eq_true] at hin hin'
    obtain ⟨n, hn, hin⟩ := hin
    obtain ⟨n', hn', hin'⟩ := hin'
    cases hn.symm.trans hn'
    rw [decide_eq_true_eq] at hin hin'
    omega
  simp only [stageBucket, hgroup, hbounds, hfloats] at h
  split at h
  · cases h
  obtain ⟨st, hst, h⟩ := bind_eq_ok.mp h
  obtain ⟨ranged, hranged, h⟩ := bind_eq_ok.mp h
  rw [foldlM_evaluated] at hst
  obtain ⟨ps, hps, hst⟩ := bind_eq_ok.mp hst
  cases hst
  have hvalued : ∀ p ∈ ps, (integerOf p.1).isSome ∨ bsonToF64 p.1 = none := fun p hp =>
    hvals p.2 (evaluated_of_mem hps hp).1 p.1 (evaluated_of_mem hps hp).2
  obtain ⟨hbuckets, hdefault⟩ := foldl_place (ns.map F64.ofInt)
    (Document.get spec "default").isSome ps ⟨fun _ => [], []⟩
  generalize ps.foldl _ _ = st at hbuckets hdefault h hranged
  have hothers : (Document.get spec "default").isSome = true → st.defaultDocs = others := by
    intro hsome
    rw [hdefault, nil_append, if_pos hsome]
    refine Eq.trans ?_ (filter_evaluated hps _)
    congr 1
    refine filter_congr fun p hp => ?_
    rw [Bool.eq_iff_iff, decide_eq_true_eq, bucketOf_eq_none_iff hlt hsmall (hvalued p hp)]
    simp
  have hfilled : ∀ r ∈ ranges ns, st.buckets (F64.display (.ofInt r.1)) =
      docs.filter (rt.hasValue groupBy (integerIn r)) := by
    intro r hr
    rw [hbuckets, nil_append, ← filter_evaluated hps]
    congr 1
    refine filter_congr fun p hp => ?_
    rw [Bool.eq_iff_iff, decide_eq_true_eq,
      bucketOf_eq_some_iff hlt hsmall hr (hvalued p hp)]
  have hresults : List.Forall₂ (fun r bucket =>
      result (.double (.ofInt r.1)) (docs.filter (rt.hasValue groupBy (integerIn r))) = .ok bucket ∧
      Document.get bucket "_id" = some (.double (.ofInt r.1))) (ranges ns) ranged := by
    have hkeys : ((ns.map F64.ofInt).dropLast.map F64.display).Nodup := by
      rw [map_dropLast, map_map]
      exact (nodup_display hlt hsmall).sublist (dropLast_sublist _)
    have hall := bucketResults_eq_ok hkeys hranged
    rw [map_dropLast_ranges, forall₂_map_left_iff] at hall
    refine ((forall₂_and_left _ _).mpr ⟨hfilled, hall⟩).imp fun r bucket ⟨hdocs, hres⟩ => ?_
    rw [hdocs] at hres
    exact ⟨hres, get_id_bucketResult hid hres⟩
  cases hdef : Document.get spec "default" with
  | none =>
    rw [hdef] at h
    cases h
    exact ⟨_, [], (append_nil _).symm, hresults, .inl ⟨rfl, .inl rfl⟩⟩
  | some id =>
    simp only [hdef, hothers (by rw [hdef]; rfl)] at h
    split at h
    · next hnil =>
      cases h
      exact ⟨_, [], (append_nil _).symm, hresults, .inl ⟨rfl, .inr hnil⟩⟩
    · next hne =>
      obtain ⟨bucket, hbucket, h⟩ := bind_eq_ok.mp h
      cases h
      exact ⟨ranged, [bucket], rfl, hresults,
        .inr ⟨id, bucket, rfl, hne, rfl, hbucket, get_id_bucketResult hid hbucket⟩⟩

namespace Sample

/-- A string expression is the path of a field. -/
def bucketRuntime : AccumRuntime where
  evaluateExpression doc
    | .string _ => .ok ((doc.get "v").getD .null)
    | expr => .ok expr
  debug _ := ""
  capacity := 100

def valueDocs (vals : List Bson) : List Document := vals.map fun v => [("v", v)]

def bucketSpec : Document :=
  [("groupBy", .string "$v"), ("boundaries", .array [.int32 0, .int64 10, .int32 20]),
    ("default", .string "other")]

def bucketInput : List Document :=
  valueDocs [.int32 1, .string "x", .int64 10, .int32 9, .int64 20]

def bucketOutput : List Document :=
  [[("_id", .double (.ofInt 0)), ("count", .int32 2)],
    [("_id", .double (.ofInt 10)), ("count", .int32 1)],
    [("_id", .string "other"), ("count", .int32 2)]]

end Sample

section

open Sample

theorem bucket_conserves_three : stageBucket bucketRuntime bucketInput (.document bucketSpec) =
      .ok bucketOutput ∧
    ∃ ranged rest : List Document, bucketOutput = ranged ++ rest ∧
      List.Forall₂ (fun r bucket => Document.get bucket "_id" = some (.double (.ofInt r.1)))
        (ranges [0, 10, 20]) ranged := by
  have hout : stageBucket bucketRuntime bucketInput (.document bucketSpec) = .ok bucketOutput := by
    decide +kernel
  have hints : [Bson.int32 0, .int64 10, .int32 20].map bsonToF64 =
      [(0 : ℤ), 10, 20].map fun n => some (F64.ofInt n) := by decide +kernel
  have hvals : ∀ doc ∈ bucketInput, ∀ val,
      bucketRuntime.evaluateExpression doc (.string "$v") = .ok val →
        (integerOf val).isSome ∨ bsonToF64 val = none := by
    intro doc hdoc val hval
    obtain ⟨v, hv, rfl⟩ := mem_map.mp hdoc
    cases hval
    revert v
    decide
  have hgroup : Document.get bucketSpec "groupBy" = some (.string "$v") := rfl
  obtain ⟨-, ranged, rest, hsplit, hranged, -⟩ := bucket_conserves
    hgroup rfl hints (by decide) (by decide) hvals nofun hout
  exact ⟨hout, ranged, rest, hsplit, hranged.imp fun _ _ h => h.2⟩

end

/-! ### `$bucketAuto` -/

structure AutoBucket where
  members : List (F64 × Document)
  min : F64
  max : F64

/-- A bucket ends with the first value of the next, the last one with its last value. -/
def autoBuckets (perBucket : ℕ) : ℕ → List (F64 × Document) → List AutoBucket
  | fuel + 1, first :: others =>
    let chunk := (first :: others).take perBucket
    let rest := (first :: others).drop perBucket
    ⟨chunk, first.1, ((rest.head?.or chunk.getLast?).getD first).1⟩ ::
      autoBuckets perBucket fuel rest
  | _, _ => []

def autoChunks (numBuckets : ℕ) (valued : List (F64 × Document)) : List AutoBucket :=
  let sorted := valued.insertionSort fun a b => floatCmp a.1 b.1 ≠ .gt
  let total := sorted.length
  let perBucket := if 0 < numBuckets then (total + numBuckets - 1) / numBuckets else total
  autoBuckets perBucket total sorted

def pushNumeric (valued : List (F64 × Document)) (p : Bson × Document) : List (F64 × Document) :=
  match bsonToF64 p.1 with
  | some n => valued ++ [(n, p.2)]
  | none => valued

variable (rt) in
def autoResult (output : Option Document) (b : AutoBucket) : Outcome AggregationError Document :=
  bucketResult rt output (.document [("min", .double b.min), ("max", .double b.max)])
    (b.members.map Prod.snd)

variable (rt) in
def stageBucketAuto (docs : List Document) : Bson → Outcome AggregationError (List Document)
  | .document spec =>
    match Document.get spec "groupBy" with
    | none => .error (.missingField "$bucketAuto.groupBy required")
    | some groupBy =>
      match (Document.get spec "buckets").bind integerOf with
      | none => .error (.missingField "$bucketAuto.buckets required")
      | some numBuckets => do
        let valued ← docs.foldlM (fun valued doc => do
          let val ← rt.evaluateExpression doc groupBy
          .ok (pushNumeric valued (val, doc))) []
        (autoChunks (usize numBuckets) valued).mapM (autoResult rt (getDocument spec "output"))
  | _ => .error (.invalidStage "$bucketAuto requires document")

variable (rt) in
/-- The documents with a numeric value. -/
def numericDocs (groupBy : Bson) (docs : List Document) : List (F64 × Document) :=
  docs.filterMap fun doc =>
    match rt.evaluateExpression doc groupBy with
    | .ok val => (bsonToF64 val).map (·, doc)
    | _ => none

def F64.lt (x y : F64) : Bool := x.partialCmp y = some .lt

/-- Every value lies in the range of its bucket. -/
def HonestRanges : List AutoBucket → Prop
  | [] => True
  | [b] => ∀ p ∈ b.members, b.min.le p.1 ∧ p.1.le b.max
  | b :: rest => (∀ p ∈ b.members, b.min.le p.1 ∧ p.1.lt b.max) ∧ HonestRanges rest

/-- No value is `NaN`, and no values that are equal stand on both sides of a cut. -/
def EvenlyCut (perBucket : ℕ) (vals : List F64) : Prop :=
  ∀ x ∈ vals, x.isNaN = false ∧
    ∀ cut, perBucket ∣ cut → ¬ (vals.countP (·.lt x) < cut ∧ cut < vals.countP (·.le x))

lemma F64.lt_iff {x y : F64} :
    x.lt y = true ↔ x.isNaN = false ∧ y.isNaN = false ∧ x.orderKey < y.orderKey := by
  unfold lt partialCmp
  cases x.isNaN <;> cases y.isNaN <;> simp [compare_lt_iff_lt]

lemma flatMap_autoBuckets {per fuel : ℕ} (hper : 0 < per) {vals : List (F64 × Document)}
    (hfuel : vals.length ≤ fuel) : (autoBuckets per fuel vals).flatMap (·.members) = vals := by
  induction fuel generalizing vals with
  | zero => simp_all [autoBuckets]
  | succ fuel ih =>
    cases vals with
    | nil => rfl
    | cons first others =>
      rw [autoBuckets, flatMap_cons, ih, take_append_drop]
      rw [length_drop]
      omega

lemma length_autoBuckets_le {per fuel n : ℕ} {vals : List (F64 × Document)}
    (hlen : vals.length ≤ per * n) : (autoBuckets per fuel vals).length ≤ n := by
  induction fuel generalizing vals n with
  | zero => simp [autoBuckets]
  | succ fuel ih =>
    cases vals with
    | nil => simp [autoBuckets]
    | cons first others =>
      cases n with
      | zero => simp at hlen
      | succ n =>
        rw [autoBuckets, length_cons, Nat.add_le_add_iff_right]
        apply ih
        rw [length_drop]
        rw [Nat.mul_succ] at hlen
        omega

lemma not_honest_of_isNaN {buckets : List AutoBucket} {p : F64 × Document}
    (hp : p ∈ buckets.flatMap (·.members)) (hnan : p.1.isNaN = true) :
    ¬ HonestRanges buckets := by
  have hle : ∀ x : F64, x.le p.1 ≠ true := by
    intro x h
    rw [F64.le_iff, hnan] at h
    exact Bool.noConfusion h.2.1
  induction buckets with
  | nil => cases hp
  | cons b rest ih =>
    rw [flatMap_cons, mem_append] at hp
    cases rest with
    | nil => exact fun h => hle _ (h p (hp.resolve_right (by simp))).1
    | cons c rest =>
      rintro ⟨hb, hrest⟩
      rcases hp with hp | hp
      · exact hle _ (hb p hp).1
      · exact ih hp hrest

section

variable {vals : List (F64 × Document)} (hnan : ∀ p ∈ vals, p.1.isNaN = false)
  (hsorted : vals.Pairwise fun a b => a.1.orderKey ≤ b.1.orderKey)

include hsorted in
lemma orderKey_getElem_le {i j : ℕ} (hij : i ≤ j) (hj : j < vals.length) :
    vals[i].1.orderKey ≤ vals[j].1.orderKey := by
  rcases hij.eq_or_lt with rfl | hlt
  · exact le_rfl
  · exact pairwise_iff_getElem.mp hsorted i j (by omega) hj hlt

include hnan hsorted in
lemma le_getElem {i j : ℕ} (hij : i ≤ j) (hj : j < vals.length) : vals[i].1.le vals[j].1 :=
  F64.le_iff.mpr ⟨hnan _ (getElem_mem _), hnan _ (getElem_mem _),
    orderKey_getElem_le hsorted hij hj⟩

include hnan hsorted in
/-- The range of a chunk that ends before the value at a cut. -/
lemma chunk_honest_iff {per : ℕ} (hper : 0 < per) (hlen : per < vals.length) :
    (∀ p ∈ vals.take per, (vals[0].1.le p.1 = true ∧ p.1.lt vals[per].1 = true)) ↔
      vals[per - 1].1.orderKey < vals[per].1.orderKey := by
  constructor
  · intro h
    have hlast : vals[per - 1] ∈ vals.take per := mem_take_iff_getElem.mpr ⟨per - 1, by omega, rfl⟩
    exact (F64.lt_iff.mp (h _ hlast).2).2.2
  · intro h p hp
    obtain ⟨i, hi, rfl⟩ := mem_take_iff_getElem.mp hp
    have hbefore := orderKey_getElem_le hsorted (show i ≤ per - 1 by omega) (by omega)
    exact ⟨le_getElem hnan hsorted (Nat.zero_le i) (by omega),
      F64.lt_iff.mpr ⟨hnan _ (getElem_mem _), hnan _ (getElem_mem _), by omega⟩⟩

include hnan hsorted in
/-- Ranges of sorted values are honest iff the value before each cut is below that behind it. -/
lemma honest_autoBuckets_iff {per fuel : ℕ} (hper : 0 < per) (hfuel : vals.length ≤ fuel) :
    HonestRanges (autoBuckets per fuel vals) ↔ ∀ i, per ∣ i + 1 → ∀ h : i + 1 < vals.length,
      vals[i].1.orderKey < vals[i + 1].1.orderKey := by
  induction fuel generalizing vals with
  | zero => simp_all [autoBuckets, HonestRanges]
  | succ fuel ih =>
    cases hvals : vals with
    | nil => simp [autoBuckets, HonestRanges]
    | cons first others =>
      rw [autoBuckets, ← hvals]
      have hpos : 0 < vals.length := by simp [hvals]
      have hfirst : first = vals[0] := by simp [hvals]
      by_cases hlen : per < vals.length
      · obtain ⟨fuel, rfl⟩ : ∃ n, fuel = n + 1 := ⟨fuel - 1, by omega⟩
        have hcons := drop_eq_getElem_cons hlen
        have hsplit : HonestRanges (⟨vals.take per, first.1,
            (((vals.drop per).head?.or (vals.take per).getLast?).getD first).1⟩ ::
              autoBuckets per (fuel + 1) (vals.drop per)) ↔
            (∀ p ∈ vals.take per, first.1.le p.1 = true ∧ p.1.lt vals[per].1 = true) ∧
              HonestRanges (autoBuckets per (fuel + 1) (vals.drop per)) := by
          rw [hcons]
          exact Iff.rfl
        have hmore := @ih (vals.drop per) (fun p hp => hnan p (mem_of_mem_drop hp))
          hsorted.drop (by rw [length_drop]; omega)
        rw [hsplit, hmore, hfirst, chunk_honest_iff hnan hsorted hper hlen]
        simp only [getElem_drop, length_drop]
        constructor
        · rintro ⟨hcut, hcuts⟩ i hdvd hi
          have hle := Nat.le_of_dvd (Nat.succ_pos i) hdvd
          rcases hle.eq_or_lt with rfl | hlt
          · exact hcut
          · have hdvd' : per ∣ i - per + 1 := by
              rw [show i - per + 1 = i + 1 - per by omega]
              exact Nat.dvd_sub hdvd (Nat.dvd_refl per)
            have := hcuts (i - per) hdvd' (by omega)
            simpa [show per + (i - per) = i by omega,
              show per + (i - per + 1) = i + 1 by omega] using this
        · intro hcuts
          refine ⟨?_, fun i hdvd hi => ?_⟩
          · have hdvd : per ∣ per - 1 + 1 := (Nat.sub_add_cancel hper).symm ▸ Nat.dvd_refl per
            have := hcuts (per - 1) hdvd (by omega)
            simpa [Nat.sub_add_cancel hper] using this
          · exact hcuts (per + i) ((Nat.dvd_add_right (Nat.dvd_refl per)).mpr hdvd) (by omega)
      · have hall : vals.drop per = [] := drop_eq_nil_iff.mpr (by omega)
        have hone : HonestRanges (⟨vals.take per, first.1,
            (((vals.drop per).head?.or (vals.take per).getLast?).getD first).1⟩ ::
              autoBuckets per fuel (vals.drop per)) ↔
            ∀ p ∈ vals, first.1.le p.1 = true ∧ p.1.le (vals.getLast?.getD first).1 = true := by
          rw [hall, take_of_length_le (by omega)]
          cases fuel <;> exact Iff.rfl
        rw [hone]
        refine iff_of_true (fun p hp => ?_) fun i hdvd hi => ?_
        · obtain ⟨i, hi, rfl⟩ := getElem_of_mem hp
          rw [hfirst, getLast?_eq_getElem?, getElem?_eq_getElem (by omega)]
          exact ⟨le_getElem hnan hsorted (Nat.zero_le i) hi,
            le_getElem hnan hsorted (by omega) (by omega)⟩
        · have := Nat.le_of_dvd (Nat.succ_pos i) hdvd
          omega

include hnan hsorted in
lemma evenlyCut_iff {per : ℕ} : EvenlyCut per (vals.map Prod.fst) ↔
    ∀ i, per ∣ i + 1 → ∀ h : i + 1 < vals.length, vals[i].1.orderKey < vals[i + 1].1.orderKey := by
  have hbelow : ∀ x : F64, x.isNaN = false → ∀ i, ∀ h : i < vals.length,
      (i < (vals.map Prod.fst).countP (·.lt x) ↔ vals[i].1.orderKey < x.orderKey) ∧
      (i < (vals.map Prod.fst).countP (·.le x) ↔ vals[i].1.orderKey ≤ x.orderKey) := by
    intro x hx i h
    have hlt : ∀ p ∈ vals, (p.1.lt x = true ↔ p.1.orderKey < x.orderKey) := fun p hp => by
      simp [F64.lt_iff, hnan p hp, hx]
    have hle : ∀ p ∈ vals, (p.1.le x = true ↔ p.1.orderKey ≤ x.orderKey) := fun p hp => by
      simp [F64.le_iff, hnan p hp, hx]
    rw [← hlt _ (getElem_mem h), ← hle _ (getElem_mem h), countP_map, countP_map]
    refine ⟨lt_countP_iff ((List.Pairwise.and_mem.mp hsorted).imp ?_) h,
      lt_countP_iff ((List.Pairwise.and_mem.mp hsorted).imp ?_) h⟩
    · rintro a b ⟨ha, hb, hab⟩ hlow
      exact (hlt a ha).mpr (hab.trans_lt ((hlt b hb).mp hlow))
    · rintro a b ⟨ha, hb, hab⟩ hlow
      exact (hle a ha).mpr (hab.trans ((hle b hb).mp hlow))
  constructor
  · intro heven i hdvd hi
    by_contra hge
    have hmem : vals[i + 1].1 ∈ vals.map Prod.fst := mem_map_of_mem (getElem_mem hi)
    obtain ⟨hnum, hcut⟩ := heven _ hmem
    apply hcut (i + 1) hdvd
    have hbefore := (hbelow _ hnum i (by omega)).1
    have hbehind := (hbelow _ hnum (i + 1) hi).2
    omega
  · intro hcuts x hx
    obtain ⟨p, hp, rfl⟩ := mem_map.mp hx
    refine ⟨hnan p hp, fun cut hdvd ⟨hlow, hhigh⟩ => ?_⟩
    have hlen : cut < vals.length := by
      have := countP_le_length (p := (·.le p.1)) (l := vals.map Prod.fst)
      rw [length_map] at this
      omega
    obtain ⟨i, rfl⟩ : ∃ i, cut = i + 1 := ⟨cut - 1, by omega⟩
    have hcut := hcuts i hdvd hlen
    have hbefore := (hbelow _ (hnan p hp) i (by omega)).1
    have hbehind := (hbelow _ (hnan p hp) (i + 1) hlen).2
    omega

end

lemma evaluated_numericDocs {groupBy : Bson} {docs : List Document} {ps : List (Bson × Document)}
    (h : docs.mapM (evaluated rt groupBy) = .ok ps) (acc : List (F64 × Document)) :
    ps.foldl pushNumeric acc = acc ++ numericDocs rt groupBy docs := by
  rw [mapM_eq_ok] at h
  induction h generalizing acc with
  | nil => exact (append_nil acc).symm
  | @cons doc p docs ps hp _ ih =>
    obtain ⟨hval, rfl⟩ := evaluated_eq_ok.mp hp
    rw [foldl_cons, ih, numericDocs, numericDocs, filterMap_cons, hval, pushNumeric]
    cases hnum : bsonToF64 p.1 <;> simp [hnum]

lemma EvenlyCut.perm {per : ℕ} {vals vals' : List F64} (hperm : vals.Perm vals')
    (h : EvenlyCut per vals) : EvenlyCut per vals' := by
  intro x hx
  obtain ⟨hnan, hcut⟩ := h x (hperm.mem_iff.mpr hx)
  refine ⟨hnan, fun cut hdvd => ?_⟩
  rw [← hperm.countP_eq, ← hperm.countP_eq]
  exact hcut cut hdvd

/-- Of values that are sorted as far as they are no `NaN`. -/
lemma honest_sorted_iff {per : ℕ} (hper : 0 < per) (valued : List (F64 × Document)) :
    let sorted := valued.insertionSort fun a b => floatCmp a.1 b.1 ≠ .gt
    HonestRanges (autoBuckets per sorted.length sorted) ↔ EvenlyCut per (valued.map Prod.fst) := by
  intro sorted
  have hperm : sorted.Perm valued := perm_insertionSort _ _
  by_cases hnan : ∀ p ∈ valued, p.1.isNaN = false
  · have hmeasured : MeasuredOn {p | p ∈ valued} (fun a b : F64 × Document => floatCmp a.1 b.1)
        (fun p => p.1.orderKey) := fun a ha b hb => floatCmp_of_not_nan (hnan a ha) (hnan b hb)
    have hnan' : ∀ p ∈ sorted, p.1.isNaN = false := fun p hp => hnan p (hperm.mem_iff.mp hp)
    have hsorted := pairwise_key_insertionSort hmeasured
    rw [honest_autoBuckets_iff hnan' hsorted hper le_rfl, ← evenlyCut_iff hnan' hsorted]
    exact ⟨.perm (hperm.map _), .perm (hperm.map _).symm⟩
  · obtain ⟨p, hp, hp'⟩ : ∃ p ∈ valued, p.1.isNaN = true := by simpa using hnan
    refine iff_of_false (not_honest_of_isNaN (p := p) ?_ hp') fun h => ?_
    · rw [flatMap_autoBuckets hper le_rfl]
      exact hperm.mem_iff.mpr hp
    · have := (h p.1 (mem_map_of_mem hp)).1
      rw [hp'] at this
      cases this

lemma autoChunks_spec {n : ℕ} (hn : 0 < n) (valued : List (F64 × Document)) :
    ((autoChunks n valued).flatMap (·.members)).Perm valued ∧
    (autoChunks n valued).length ≤ n ∧
    (HonestRanges (autoChunks n valued) ↔
      EvenlyCut ((valued.length + n - 1) / n) (valued.map Prod.fst)) := by
  have hperm := perm_insertionSort (fun a b : F64 × Document => floatCmp a.1 b.1 ≠ .gt) valued
  have hcover : valued.length ≤ (valued.length + n - 1) / n * n := by
    have hdiv := Nat.div_add_mod (valued.length + n - 1) n
    have hmod := Nat.mod_lt (valued.length + n - 1) hn
    rw [Nat.mul_comm] at hdiv
    omega
  simp only [autoChunks, if_pos hn, hperm.length_eq]
  rcases Nat.eq_zero_or_pos ((valued.length + n - 1) / n) with hzero | hpos
  · rw [hzero, Nat.zero_mul, Nat.le_zero, length_eq_zero_iff] at hcover
    subst hcover
    simp [autoBuckets, HonestRanges, EvenlyCut]
  · refine ⟨?_, length_autoBuckets_le (hperm.length_eq ▸ hcover), ?_⟩
    · rwa [flatMap_autoBuckets hpos hperm.length_eq.le]
    · simpa only [hperm.length_eq] using honest_sorted_iff hpos valued

namespace Sample

def autoSpec : Document := [("groupBy", .string "$v"), ("buckets", .int32 2)]

def autoResults (min₁ max₁ min₂ max₂ : ℤ) : List Document :=
  [[("_id", .document [("min", .double (.ofInt min₁)), ("max", .double (.ofInt max₁))]),
      ("count", .int32 1)],
    [("_id", .document [("min", .double (.ofInt min₂)), ("max", .double (.ofInt max₂))]),
      ("count", .int32 1)]]

end Sample

section

open Sample

end

end

end Smongo

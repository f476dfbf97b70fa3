import Smongo.Aggregation.SortKeys
import Smongo.Aggregation.Spill
import Smongo.Lib.KWayMerge

/-!
# External merge sort

Full buffers are sorted and spilled as runs, which are merged through a heap.
-/

namespace Smongo

open List

def asI32 : Bson → Option Int32
  | .int32 n => some n
  | _ => none

def sortFields (sortDoc : Document) : List (String × Int32) :=
  sortDoc.map fun f => (f.1, (asI32 f.2).getD 1)

def cmpBySortFields (a b : Document) : List (String × Int32) → Ordering
  | [] => .eq
  | (field, dir) :: rest =>
    let cmp := compareBson (getValue a field) (getValue b field)
    let result := if dir < 0 then cmp.swap else cmp
    if result ≠ .eq then result else cmpBySortFields a b rest

lemma cmpBySortFields_eq (sortDoc a b : Document) :
    cmpBySortFields a b (sortFields sortDoc) = compareBySort sortDoc a b := by
  induction sortDoc with
  | nil => rfl
  | cons f sortDoc ih =>
    have hdir : (asI32 f.2).getD 1 < 0 ↔ sortDescending f.2 = true := by
      obtain ⟨field, v⟩ := f
      cases v <;> simp [asI32, sortDescending]
    rw [sortFields, map_cons, cmpBySortFields]
    change _ = Ordering.then (if sortDescending f.2 then _ else _) (compareBySort sortDoc a b)
    simp only [hdir, ← ih, sortFields]
    generalize (if sortDescending f.2 then _ else _ : Ordering) = o
    cases o <;> rfl

section

variable (env : Env) (fromSlice : Bytes → Except String Document)
  (H : BinaryHeap (MergeEntry Document)) (fields : List (String × Int32)) (memoryLimit : ℕ)

structure SortSpill where
  buffer : List Document := []
  bufferBytes : ℕ := 0
  spillRuns : List SpillReader := []

def sortBuffer (buffer : List Document) : List Document :=
  buffer.insertionSort fun a b => cmpBySortFields a b fields ≠ .gt

def spillRun (buffer : List Document) : Outcome AggregationError SpillReader := do
  let writer ← SpillWriter.writeDocs env {} (sortBuffer fields buffer)
  .ok writer.flushAndReopen

def SortSpill.add (st : SortSpill) (doc : Document) : Outcome AggregationError SortSpill :=
  let buffer := st.buffer ++ [doc]
  let bufferBytes := st.bufferBytes + estimateDocBytes env doc
  if memoryLimit ≤ bufferBytes then do
    let run ← spillRun env fields buffer
    .ok { spillRuns := st.spillRuns ++ [run] }
  else .ok { st with buffer := buffer, bufferBytes := bufferBytes }

def SortSpill.collect (input : DocStream) : Outcome AggregationError SortSpill :=
  input.foldlM (fun st result => do
    let doc ← result
    st.add env fields memoryLimit doc) {}

def SortSpill.lastRun (st : SortSpill) : Outcome AggregationError (List SpillReader) :=
  if st.buffer.isEmpty then .ok st.spillRuns
  else do
    let run ← spillRun env fields st.buffer
    .ok (st.spillRuns ++ [run])

def mergeRuns (fuel : ℕ) (runs : List SpillReader) :
    Option (Outcome AggregationError (List Document)) :=
  match fillHeap H (SpillReader.readDoc fromSlice) H.new 0 runs with
  | .ok (h, runs) => mergeLoop H (SpillReader.readDoc fromSlice) fuel h runs []
  | .error e => some (.error e)
  | .panic => some .panic

def SortSpill.finish (fuel : ℕ) (st : SortSpill) :
    Option (Outcome AggregationError (List Document)) :=
  if st.spillRuns.isEmpty then some (.ok (sortBuffer fields st.buffer))
  else
    match st.lastRun env fields with
    | .ok runs => mergeRuns fromSlice H fuel runs
    | .error e => some (.error e)
    | .panic => some .panic

end

def externalSort (env : Env) (fromSlice : Bytes → Except String Document)
    (H : BinaryHeap (MergeEntry Document)) (fuel : ℕ) (input : DocStream) (sortSpec : Bson)
    (memoryLimit : ℕ) : Option (Outcome AggregationError (List Document)) :=
  match sortSpec with
  | .document sortDoc =>
    match SortSpill.collect env (sortFields sortDoc) memoryLimit input with
    | .ok st => st.finish env fromSlice H (sortFields sortDoc) fuel
    | .error e => some (.error e)
    | .panic => some .panic
  | _ => some (.error (.invalidStage "$sort requires document"))

/-! ### The runs hold the input -/

section

variable {env : Env} {fromSlice : Bytes → Except String Document} {sortDoc : Document}
  {docs : List Document} (memoryLimit : ℕ)

lemma sortBuffer_eq (sortDoc : Document) (buffer : List Document) :
    sortBuffer (sortFields sortDoc) buffer = stageSort buffer sortDoc := by
  simp only [sortBuffer, stageSort, cmpBySortFields_eq]

lemma spillReader_sources (fromSlice : Bytes → Except String Document) :
    Sources (SpillReader.readDoc fromSlice) (SpillReader.Holds env fromSlice) where
  nil h := ⟨_, SpillReader.readDoc_nil h, h⟩
  cons h := SpillReader.readDoc_cons h

/-- The documents of `seen` are in the runs, each of which is sorted, and in the buffer. -/
structure SortSpill.Covers (env : Env) (fromSlice : Bytes → Except String Document)
    (sortDoc : Document) (st : SortSpill) (seen : List Document) (rests : List (List Document)) :
    Prop where
  holds : List.Forall₂ (SpillReader.Holds env fromSlice) st.spillRuns rests
  sorted : ∀ rest ∈ rests, rest.Pairwise fun a b => sortKey sortDoc a ≤ sortKey sortDoc b
  perm : (rests.flatten ++ st.buffer).Perm seen

section

variable (hcodec : ∀ doc ∈ docs, ∃ bytes, SpillRoundTrips env fromSlice doc bytes)
  (hnan : ∀ doc ∈ docs, NanFree sortDoc doc)
include hcodec hnan

lemma spillRun_of_roundTrips {buffer : List Document} (hbuffer : ∀ doc ∈ buffer, doc ∈ docs) :
    ∃ run, spillRun env (sortFields sortDoc) buffer = .ok run ∧
      run.Holds env fromSlice (stageSort buffer sortDoc) ∧
      (stageSort buffer sortDoc).Pairwise fun a b => sortKey sortDoc a ≤ sortKey sortDoc b := by
  have hsorted := stageSort_sorted fun doc hdoc => hnan doc (hbuffer doc hdoc)
  have hwritable : ∀ doc ∈ stageSort buffer sortDoc,
      ∃ bytes, SpillRoundTrips env fromSlice doc bytes := fun doc hdoc =>
    hcodec doc (hbuffer doc ((stageSort_perm buffer sortDoc).mem_iff.mp hdoc))
  obtain ⟨w, hwrite, hholds⟩ := SpillWriter.writeDocs_of_roundTrips (w := {}) .nil hwritable
  refine ⟨w.flushAndReopen, ?_, hholds, hsorted⟩
  rw [spillRun, sortBuffer_eq, hwrite]
  rfl

variable {st : SortSpill} {seen : List Document} {rests : List (List Document)}

lemma SortSpill.Covers.spill {buffer : List Document} {run : SpillReader}
    (h : (rests.flatten ++ buffer).Perm seen)
    (hholds : List.Forall₂ (SpillReader.Holds env fromSlice) st.spillRuns rests)
    (hsorted : ∀ rest ∈ rests, rest.Pairwise fun a b => sortKey sortDoc a ≤ sortKey sortDoc b)
    (hbuffer : ∀ doc ∈ buffer, doc ∈ docs)
    (hrun : spillRun env (sortFields sortDoc) buffer = .ok run) :
    Covers env fromSlice sortDoc { spillRuns := st.spillRuns ++ [run] } seen
      (rests ++ [stageSort buffer sortDoc]) := by
  obtain ⟨run', hrun', hholds', hsorted'⟩ := spillRun_of_roundTrips hcodec hnan hbuffer
  rw [hrun, Outcome.ok.injEq] at hrun'
  subst hrun'
  refine ⟨rel_append hholds (.cons hholds' .nil), ?_, ?_⟩
  · intro rest hrest
    rcases mem_append.mp hrest with hrest | hrest
    · exact hsorted rest hrest
    · rw [mem_singleton.mp hrest]
      exact hsorted'
  · rw [append_nil, flatten_append, flatten_singleton]
    exact ((stageSort_perm buffer sortDoc).append_left _).trans h

section

variable (h : st.Covers env fromSlice sortDoc seen rests)
include h

lemma SortSpill.Covers.add
    (hseen : ∀ doc ∈ seen, doc ∈ docs) {doc : Document} (hdoc : doc ∈ docs) :
    ∃ st' rests', st.add env (sortFields sortDoc) memoryLimit doc = .ok st' ∧
      st'.Covers env fromSlice sortDoc (seen ++ [doc]) rests' := by
  have hperm : (rests.flatten ++ (st.buffer ++ [doc])).Perm (seen ++ [doc]) := by
    rw [← append_assoc]
    exact h.perm.append_right _
  rw [SortSpill.add]
  split
  · have hbuffer : ∀ d ∈ st.buffer ++ [doc], d ∈ docs := by
      intro d hd
      rcases mem_append.mp hd with hd | hd
      · exact hseen d (h.perm.mem_iff.mp (mem_append_right _ hd))
      · rw [mem_singleton.mp hd]
        exact hdoc
    obtain ⟨run, hrun, -, -⟩ := spillRun_of_roundTrips hcodec hnan hbuffer
    refine ⟨_, _, ?_, spill hcodec hnan hperm h.holds h.sorted hbuffer hrun⟩
    rw [hrun]
    rfl
  · exact ⟨_, rests, rfl, h.holds, h.sorted, hperm⟩

lemma SortSpill.Covers.collect {rest : List Document} (hseen : ∀ doc ∈ seen ++ rest, doc ∈ docs) :
    ∃ st' rests', (rest.map .ok : DocStream).foldlM (fun st result => do
        let doc ← result
        SortSpill.add env (sortFields sortDoc) memoryLimit st doc) st = .ok st' ∧
      st'.Covers env fromSlice sortDoc (seen ++ rest) rests' := by
  induction rest generalizing st seen rests with
  | nil => exact ⟨st, rests, rfl, by rwa [append_nil]⟩
  | cons doc rest ih =>
    obtain ⟨st₁, rests₁, hadd, hcovers⟩ := h.add memoryLimit hcodec hnan
      (fun d hd => hseen d (mem_append_left _ hd))
      (hseen doc (mem_append_right _ mem_cons_self))
    have hassoc : seen ++ doc :: rest = (seen ++ [doc]) ++ rest := by simp
    rw [hassoc] at hseen ⊢
    obtain ⟨st₂, rests₂, hfold, hcovers'⟩ := ih hcovers hseen
    refine ⟨st₂, rests₂, ?_, hcovers'⟩
    rw [map_cons, foldlM_cons, Outcome.ok_bind, hadd]
    exact hfold

lemma SortSpill.Covers.lastRun (hseen : ∀ doc ∈ seen, doc ∈ docs) :
    ∃ runs rests', st.lastRun env (sortFields sortDoc) = .ok runs ∧
      List.Forall₂ (SpillReader.Holds env fromSlice) runs rests' ∧
      (∀ rest ∈ rests', rest.Pairwise fun a b => sortKey sortDoc a ≤ sortKey sortDoc b) ∧
      rests'.flatten.Perm seen := by
  rw [SortSpill.lastRun]
  split
  · next hempty =>
    have hperm := h.perm
    rw [isEmpty_iff.mp hempty, append_nil] at hperm
    exact ⟨st.spillRuns, rests, rfl, h.holds, h.sorted, hperm⟩
  · have hbuffer : ∀ d ∈ st.buffer, d ∈ docs := fun d hd =>
      hseen d (h.perm.mem_iff.mp (mem_append_right _ hd))
    obtain ⟨run, hrun, -, -⟩ := spillRun_of_roundTrips hcodec hnan hbuffer
    have hcovers := spill hcodec hnan h.perm h.holds h.sorted hbuffer hrun
    have hperm := hcovers.perm
    rw [append_nil] at hperm
    refine ⟨_, _, ?_, hcovers.holds, hcovers.sorted, hperm⟩
    rw [hrun]
    rfl

end

lemma externalSort_of_roundTrips {H : BinaryHeap (MergeEntry Document)}
    (hheap : H.Lawful (MergeEntry.cmp (compareBySort sortDoc))) {fuel : ℕ}
    (hfuel : docs.length < fuel) :
    ∃ out, externalSort env fromSlice H fuel (docs.map .ok) (.document sortDoc) memoryLimit =
        some (.ok out) ∧
      out.Pairwise (fun a b => sortKey sortDoc a ≤ sortKey sortDoc b) ∧ out.Perm docs := by
  have hstart : SortSpill.Covers env fromSlice sortDoc {} [] [] := ⟨.nil, by simp, .refl _⟩
  obtain ⟨st, rests, hcollect, hcovers⟩ := hstart.collect memoryLimit hcodec hnan fun _ h => h
  have hsort : externalSort env fromSlice H fuel (docs.map .ok) (.document sortDoc) memoryLimit =
      st.finish env fromSlice H (sortFields sortDoc) fuel := by
    rw [externalSort, SortSpill.collect, hcollect]
  rw [hsort, SortSpill.finish]
  split
  · next hempty =>
    -- nothing was spilled, and the buffer holds the input
    have hholds := hcovers.holds
    have hperm := hcovers.perm
    rw [isEmpty_iff.mp hempty, forall₂_nil_left_iff] at hholds
    rw [hholds, flatten_nil, nil_append] at hperm
    refine ⟨_, rfl, ?_, ?_⟩
    · rw [sortBuffer_eq]
      exact stageSort_sorted fun doc hdoc => hnan doc (hperm.mem_iff.mp hdoc)
    · rw [sortBuffer_eq]
      exact (stageSort_perm st.buffer sortDoc).trans hperm
  · obtain ⟨runs, rests', hlast, hholds, hsorted, hperm⟩ := hcovers.lastRun hcodec hnan fun _ h => h
    have hnanFree : ∀ rest ∈ rests', ∀ doc ∈ rest, doc ∈ {doc | NanFree sortDoc doc} :=
      fun rest hrest doc hdoc => hnan doc (hperm.mem_iff.mp (mem_flatten_of_mem hrest hdoc))
    obtain ⟨h, runs', hfill, hmerge⟩ := merge_sorts (compareBySort_measured sortDoc)
      (spillReader_sources fromSlice) hheap hholds hnanFree hsorted
    obtain ⟨out, hout, houtSorted, houtPerm⟩ := hmerge fuel (hperm.length_eq.trans_lt hfuel)
    refine ⟨out, ?_, houtSorted, houtPerm.trans hperm⟩
    rw [hlast]
    dsimp only
    rw [mergeRuns, hfill]
    exact hout

end

end

/-- The result is the input in order, at every place equal for the sort to what `stage_sort` has
there. -/
theorem external_sort_sorts {env : Env} {fromSlice : Bytes → Except String Document}
    {H : BinaryHeap (MergeEntry Document)} {sortDoc : Document} {docs : List Document}
    (hheap : H.Lawful (MergeEntry.cmp fun a b => cmpBySortFields a b (sortFields sortDoc)))
    (hcodec : ∀ doc ∈ docs, ∃ bytes, SpillRoundTrips env fromSlice doc bytes)
    (hnan : ∀ doc ∈ docs, NanFree sortDoc doc) (memoryLimit : ℕ) {fuel : ℕ}
    (hfuel : docs.length < fuel) :
    ∃ out, externalSort env fromSlice H fuel (docs.map .ok) (.document sortDoc) memoryLimit =
        some (.ok out) ∧
      out.Perm docs ∧
      out.Pairwise (fun a b => compareBySort sortDoc a b ≠ .gt) ∧
      List.Forall₂ (fun a b => compareBySort sortDoc a b = .eq) out (stageSort docs sortDoc) := by
  have hheap' : H.Lawful (MergeEntry.cmp (compareBySort sortDoc)) := by
    simpa only [cmpBySortFields_eq] using hheap
  have hmeasured := compareBySort_measured sortDoc
  obtain ⟨out, hout, hsorted, hperm⟩ :=
    externalSort_of_roundTrips memoryLimit hcodec hnan hheap' hfuel
  have houtFree : ∀ doc ∈ out, doc ∈ {doc | NanFree sortDoc doc} := fun doc hdoc =>
    hnan doc (hperm.mem_iff.mp hdoc)
  have hsortFree : ∀ doc ∈ stageSort docs sortDoc, doc ∈ {doc | NanFree sortDoc doc} :=
    fun doc hdoc => hnan doc ((stageSort_perm docs sortDoc).mem_iff.mp hdoc)
  refine ⟨out, hout, hperm, ?_, ?_⟩
  · exact (pairwise_cmp_iff (hmeasured.mono houtFree)).mpr hsorted
  · apply forall₂_cmp_of_map_key hmeasured houtFree hsortFree
    exact map_key_eq_of_perm (hperm.trans (stageSort_perm docs sortDoc).symm) hsorted
      (stageSort_sorted hnan)

namespace Sample

def spillDocs : List Document :=
  [[("_id", .int32 1), ("a", .int64 2)], [("_id", .int32 2), ("a", .string "x")],
    [("_id", .int32 3), ("a", .int32 2)], [("_id", .int32 4)]]

def spillEnv : Env := .ofLists spillDocs []

def spillFromSlice : Bytes → Except String Document :=
  lookupBy Prod.snd Prod.fst (encodings id spillDocs)

def spillSort : Document := [("a", .int32 (-1)), ("_id", .int32 1)]

def spillHeap : BinaryHeap (MergeEntry Document) :=
  .ofList (MergeEntry.cmp fun a b => cmpBySortFields a b (sortFields spillSort))

lemma spillDocs_roundTrips :
    ∀ doc ∈ spillDocs, ∃ bytes, SpillRoundTrips spillEnv spillFromSlice doc bytes := by
  intro doc hdoc
  refine ⟨(bsonBytes doc).getD [], ?_, ?_, ?_, ?_, ?_⟩
  all_goals
    revert doc
    decide +kernel

end Sample

section

open Sample

/-- Forty bytes are reached with the second document, so that there are two runs. -/
theorem external_sort_sorts_two_runs :
    ∃ out, externalSort spillEnv spillFromSlice spillHeap 5 (spillDocs.map .ok)
        (.document spillSort) 40 = some (.ok out) ∧
      out.Perm spillDocs ∧
      out.Pairwise (fun a b => compareBySort spillSort a b ≠ .gt) ∧
      List.Forall₂ (fun a b => compareBySort spillSort a b = .eq) out
        (stageSort spillDocs spillSort) :=
  external_sort_sorts (BinaryHeap.lawful_ofList _) spillDocs_roundTrips (by decide) 40
    (by decide)

end

end Smongo

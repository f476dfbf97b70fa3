import Smongo.Aggregation.ExternalSort
import Smongo.Aggregation.Group

/-!
# External grouping

Once the buffer is full, documents go to files by the hash of their keys' texts, and each file is
grouped by itself.
-/

namespace Smongo

open List Outcome

def numPartitions : ℕ := 64

def hashGroupKey (key : String) : ℕ :=
  ((Bytes.utf8 key).foldl (fun (h : UInt64) b => h * 31 + b.toUInt64) 5381).toNat % numPartitions

section

variable (env : Env) (fromSlice : Bytes → Except String Document) (rt : AccumRuntime)

structure GroupSpill where
  buffer : List Document := []
  bufferBytes : ℕ := 0
  partitionWriters : Option (ℕ → SpillWriter) := none

def writeToPartition (idExpr : Bson) (writers : ℕ → SpillWriter) (doc : Document) :
    Outcome AggregationError (ℕ → SpillWriter) := do
  let key ← rt.evaluateExpression doc idExpr
  let i := hashGroupKey (bsonToKeyString rt key)
  let writer ← (writers i).writeDoc env doc
  .ok (Function.update writers i writer)

def GroupSpill.add (idExpr : Bson) (memoryLimit : ℕ) (st : GroupSpill) (doc : Document) :
    Outcome AggregationError GroupSpill :=
  match st.partitionWriters with
  | none =>
    let buffer := st.buffer ++ [doc]
    let bufferBytes := st.bufferBytes + estimateDocBytes env doc
    if memoryLimit ≤ bufferBytes then do
      let writers ← buffer.foldlM (writeToPartition env rt idExpr) fun _ => {}
      .ok ⟨[], bufferBytes, some writers⟩
    else .ok ⟨buffer, bufferBytes, none⟩
  | some writers => do
    let writers ← writeToPartition env rt idExpr writers doc
    .ok { st with partitionWriters := some writers }

variable (order : ℕ → List GroupEntry → List GroupEntry)

def groupPartition (spec : Bson) (writers : ℕ → SpillWriter) (results : List Document) (i : ℕ) :
    Outcome AggregationError (List Document) :=
  if (writers i).docCount = 0 then .ok results
  else do
    let docs ← (writers i).flushAndReopen.readAll fromSlice
    let grouped ← stageGroup rt (order i) docs spec
    .ok (results ++ grouped)

/-- Every call of `stage_group` has a hash table with an order of its own. -/
def externalGroup (input : DocStream) (spec : Bson) (memoryLimit : ℕ) :
    Outcome AggregationError (List Document) :=
  match spec with
  | .document fields =>
    match Document.get fields "_id" with
    | none => .error (.missingField "_id required in $group")
    | some idExpr => do
      let st ← input.foldlM (fun st result => do
        let doc ← result
        GroupSpill.add env rt idExpr memoryLimit st doc) {}
      match st.partitionWriters with
      | none => stageGroup rt (order 0) st.buffer spec
      | some writers =>
        (range numPartitions).foldlM (groupPartition fromSlice rt order spec writers) []
  | _ => .error (.invalidStage "$group requires document")

def putInPartition (writers : ℕ → SpillWriter) (p : Bson × Document) : ℕ → SpillWriter :=
  let i := hashGroupKey (bsonToKeyString rt p.1)
  match (writers i).writeDoc env p.2 with
  | .ok writer => Function.update writers i writer
  | _ => writers

/-- The files that hold the documents by their keys. -/
def partitionFiles (ps : List (Bson × Document)) : ℕ → SpillWriter :=
  ps.foldl (putInPartition env rt) fun _ => {}

def inPartition (ps : List (Bson × Document)) (i : ℕ) : List (Bson × Document) :=
  ps.filter fun p => hashGroupKey (bsonToKeyString rt p.1) = i

/-- The documents are in the buffer, or their keys are computed and they are in the files. -/
def GroupSpill.Covers (idExpr : Bson) (docs : List Document)
    (r : Outcome AggregationError GroupSpill) : Prop :=
  (∃ n, r = .ok ⟨docs, n, none⟩) ∨ ∃ n, r = docs.mapM (evaluated rt idExpr) >>= fun ps =>
    .ok ⟨[], n, some (partitionFiles env rt ps)⟩

end

section

variable {env : Env} {fromSlice : Bytes → Except String Document} {rt : AccumRuntime}
  {idExpr : Bson} {docs : List Document} {ps : List (Bson × Document)}

lemma writeToPartition_eq {doc : Document}
    (hdoc : ∃ bytes, SpillRoundTrips env fromSlice doc bytes) (writers : ℕ → SpillWriter) :
    writeToPartition env rt idExpr writers doc =
      evaluated rt idExpr doc >>= fun p => .ok (putInPartition env rt writers p) := by
  obtain ⟨bytes, hdoc⟩ := hdoc
  simp only [writeToPartition, evaluated, bind_assoc, ok_bind, putInPartition,
    SpillWriter.writeDoc, hdoc.toVec]

lemma foldlM_writeToPartition
    (hcodec : ∀ doc ∈ docs, ∃ bytes, SpillRoundTrips env fromSlice doc bytes)
    (writers : ℕ → SpillWriter) :
    docs.foldlM (writeToPartition env rt idExpr) writers =
      docs.mapM (evaluated rt idExpr) >>= fun ps =>
        .ok (ps.foldl (putInPartition env rt) writers) := by
  induction docs generalizing writers with
  | nil => rfl
  | cons doc docs ih =>
    rw [forall_mem_cons] at hcodec
    rw [foldlM_cons, writeToPartition_eq hcodec.1, mapM_cons]
    simp only [bind_assoc, ok_bind, ih hcodec.2, pure_eq, foldl_cons]

lemma holds_partitionFiles (hps : ∀ p ∈ ps, ∃ bytes, SpillRoundTrips env fromSlice p.2 bytes)
    (i : ℕ) :
    (partitionFiles env rt ps i).flushAndReopen.Holds env fromSlice
      ((inPartition rt ps i).map Prod.snd) := by
  induction ps using reverseRecOn generalizing i with
  | nil => exact .nil
  | append_singleton ps p ih =>
    rw [forall_mem_append, forall_mem_singleton] at hps
    obtain ⟨writer, hwrite, hholds⟩ := SpillWriter.writeDoc_of_roundTrips
      (ih hps.1 (hashGroupKey (bsonToKeyString rt p.1))) hps.2
    rw [partitionFiles, foldl_concat, ← partitionFiles, putInPartition, hwrite, inPartition,
      filter_append, map_append, ← inPartition]
    by_cases hi : i = hashGroupKey (bsonToKeyString rt p.1)
    · subst hi
      simpa using hholds
    · simpa [Function.update_of_ne hi, Ne.symm hi] using ih hps.1 i

lemma GroupSpill.Covers.add {r : Outcome AggregationError GroupSpill} (memoryLimit : ℕ)
    {doc : Document} (hcodec : ∀ d ∈ docs ++ [doc], ∃ bytes, SpillRoundTrips env fromSlice d bytes)
    (h : Covers env rt idExpr docs r) :
    Covers env rt idExpr (docs ++ [doc])
      (r >>= (GroupSpill.add env rt idExpr memoryLimit · doc)) := by
  rcases h with ⟨n, rfl⟩ | ⟨n, rfl⟩
  · rw [ok_bind, GroupSpill.add]
    dsimp only
    split
    · refine .inr ⟨n + estimateDocBytes env doc, ?_⟩
      simp only [foldlM_writeToPartition hcodec, bind_assoc, ok_bind, partitionFiles]
    · exact .inl ⟨_, rfl⟩
  · refine .inr ⟨n, ?_⟩
    simp only [mapM_append, mapM_cons, mapM_nil, bind_assoc, ok_bind,
      pure_eq, GroupSpill.add, writeToPartition_eq (hcodec doc (by simp)), partitionFiles,
      foldl_concat]

lemma GroupSpill.Covers.collect (rt : AccumRuntime) (idExpr : Bson) (memoryLimit : ℕ)
    (hcodec : ∀ doc ∈ docs, ∃ bytes, SpillRoundTrips env fromSlice doc bytes) :
    Covers env rt idExpr docs ((docs.map ok).foldlM (fun st result => do
      let doc ← result
      GroupSpill.add env rt idExpr memoryLimit st doc) {}) := by
  induction docs using reverseRecOn with
  | nil => exact .inl ⟨0, rfl⟩
  | append_singleton docs doc ih =>
    have hadd := (ih fun d hd => hcodec d (mem_append_left _ hd)).add memoryLimit hcodec
    simpa [foldlM_append, -pure_eq] using hadd

lemma stageGroup_eq {fields : Document} (hid : fields.get "_id" = some idExpr)
    (order : List GroupEntry → List GroupEntry) (docs : List Document) :
    stageGroup rt order docs (.document fields) = docs.mapM (evaluated rt idExpr) >>= fun ps =>
      (order (groupPairs rt ps)).mapM (groupResult rt fields) := by
  simp only [stageGroup, hid, groupDocs_eq, bind_assoc, ok_bind]

lemma mapM_inPartition (hps : docs.mapM (evaluated rt idExpr) = .ok ps) (i : ℕ) :
    ((inPartition rt ps i).map Prod.snd).mapM (evaluated rt idExpr) =
      .ok (inPartition rt ps i) := by
  rw [mapM_eq_ok, forall₂_map_left_iff, forall₂_same]
  intro p hp
  exact evaluated_eq_ok.mpr ⟨(evaluated_of_mem hps (mem_of_mem_filter hp)).2, rfl⟩

section

variable {order : ℕ → List GroupEntry → List GroupEntry} (horder : ∀ i l, (order i l).Perm l)
  {fields : Document} (hid : fields.get "_id" = some idExpr) {writers : ℕ → SpillWriter}
  (hps : docs.mapM (evaluated rt idExpr) = .ok ps)
  (hholds : ∀ i, (writers i).flushAndReopen.Holds env fromSlice
    ((inPartition rt ps i).map Prod.snd))
include horder hid hps hholds

lemma groupPartition_eq (results : List Document) (i : ℕ) :
    groupPartition fromSlice rt order (.document fields) writers results i =
      (order i (groupPairs rt (inPartition rt ps i))).mapM (groupResult rt fields) >>= fun out =>
        .ok (results ++ out) := by
  have hcount : (writers i).docCount = (inPartition rt ps i).length := by
    simpa [SpillWriter.flushAndReopen] using (hholds i).remaining
  rw [groupPartition, SpillReader.readAll_of_holds (hholds i), ok_bind, stageGroup_eq hid,
    mapM_inPartition hps, ok_bind]
  split
  · next hzero =>
    rw [eq_nil_of_length_eq_zero (hcount.symm.trans hzero)]
    have hnone : order i (groupPairs rt []) = [] := (horder i []).eq_nil
    simp [hnone]
  · rfl

lemma foldlM_groupPartition (is : List ℕ) (results : List Document) :
    is.foldlM (groupPartition fromSlice rt order (.document fields) writers) results =
      (results ++ ·) <$> (is.flatMap fun i => order i (groupPairs rt (inPartition rt ps i))).mapM
        (groupResult rt fields) := by
  induction is generalizing results with
  | nil => simp [map_eq_pure_bind]
  | cons i is ih =>
    rw [foldlM_cons, groupPartition_eq horder hid hps hholds, flatMap_cons, mapM_append]
    simp only [map_eq_pure_bind, bind_assoc, ok_bind, ih, append_assoc, pure_eq]

end

/-- The groups of the partitions are those of the whole input. -/
lemma partitions_perm {order : ℕ → List GroupEntry → List GroupEntry}
    (horder : ∀ i l, (order i l).Perm l) (ps : List (Bson × Document)) :
    ((range numPartitions).flatMap fun i => order i (groupPairs rt (inPartition rt ps i))).Perm
      (groupPairs rt ps) :=
  (List.Perm.flatMap_left _ fun i _ => horder i _).trans
    (groupAll_partition hashGroupKey (fun _ => Nat.mod_lt _ (by decide)) ps)

/-- Both results are there or none is, and then they are the same up to their order. -/
def SameMultiset (r r' : Outcome AggregationError (List Document)) : Prop :=
  (∀ out, r = .ok out → ∃ out', r' = .ok out' ∧ out.Perm out') ∧
    ∀ out', r' = .ok out' → ∃ out, r = .ok out ∧ out.Perm out'

lemma sameMultiset_mapM {l l' : List GroupEntry} (h : l.Perm l')
    (f : GroupEntry → Outcome AggregationError Document) :
    SameMultiset (l.mapM f) (l'.mapM f) := by
  simp only [SameMultiset, mapM_eq_ok]
  constructor
  · intro out hout
    obtain ⟨out', hout', hperm⟩ := perm_comp_forall₂ h.symm hout
    exact ⟨out', hout', hperm.symm⟩
  · intro out' hout'
    exact perm_comp_forall₂ h hout'

lemma sameMultiset_bind {α : Type} {m : Outcome AggregationError α}
    {f g : α → Outcome AggregationError (List Document)}
    (h : ∀ a, m = .ok a → SameMultiset (f a) (g a)) : SameMultiset (m >>= f) (m >>= g) := by
  cases m with
  | ok a => exact h a rfl
  | error e | panic => exact ⟨nofun, nofun⟩

lemma sameMultiset_error {e e' : AggregationError} : SameMultiset (.error e) (.error e') :=
  ⟨nofun, nofun⟩

/-- Grouping with any memory limit gives the groups of the stage in memory, each accumulated over
its documents in input order. -/
theorem external_group_exact {order : ℕ → List GroupEntry → List GroupEntry}
    {order' : List GroupEntry → List GroupEntry} (horder : ∀ i l, (order i l).Perm l)
    (horder' : ∀ l, (order' l).Perm l)
    (hcodec : ∀ doc ∈ docs, ∃ bytes, SpillRoundTrips env fromSlice doc bytes) (spec : Bson)
    (memoryLimit : ℕ) :
    SameMultiset (externalGroup env fromSlice rt order (docs.map .ok) spec memoryLimit)
      (stageGroup rt order' docs spec) := by
  cases spec with
  | document fields =>
    cases hid : Document.get fields "_id" with
    | none =>
      rw [externalGroup, stageGroup, hid]
      exact sameMultiset_error
    | some idExpr =>
      rw [externalGroup, hid, stageGroup_eq hid]
      dsimp only
      rcases GroupSpill.Covers.collect rt idExpr memoryLimit hcodec with ⟨n, hst⟩ | ⟨n, hst⟩
      · rw [hst, ok_bind, stageGroup_eq hid]
        exact sameMultiset_bind fun ps _ =>
          sameMultiset_mapM ((horder 0 _).trans (horder' _).symm) _
      · rw [hst, bind_assoc]
        refine sameMultiset_bind fun ps hps => ?_
        have hholds := @holds_partitionFiles env fromSlice rt ps fun p hp =>
          hcodec p.2 (evaluated_of_mem hps hp).1
        simp only [ok_bind, foldlM_groupPartition horder hid hps hholds, nil_append, id_map']
        exact sameMultiset_mapM ((partitions_perm horder ps).trans (horder' _).symm) _
  | _ => exact sameMultiset_error

end

section

open Sample

/-- Forty bytes are reached with the second document.  The group of the number two has documents
from before and after that. -/
theorem external_group_exact_spilled : ∃ out,
    externalGroup spillEnv spillFromSlice groupRuntime (fun _ l => l) (spillDocs.map .ok)
        (.document [("_id", .string "$a"), ("ids", .document [("$push", .string "$_id")])]) 40 =
      .ok out ∧
    out.Perm [[("_id", .int64 2), ("ids", .array [.int32 1, .int32 3])],
      [("_id", .string "x"), ("ids", .array [.int32 2])],
      [("_id", .null), ("ids", .array [.int32 4])]] :=
  (external_group_exact (fun _ _ => .refl _) (fun _ => .refl _) spillDocs_roundTrips _ 40).2 _
    (by decide +kernel : stageGroup groupRuntime (fun l => l) spillDocs _ = _)

end

end Smongo

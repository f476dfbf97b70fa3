import Smongo.Aggregation.Pipeline

/-!
# Spill files

Documents are written back to back to a file and read again by their lengths.
-/

namespace Smongo

open List

structure SpillWriter where
  writer : Bytes := []
  docCount : ℕ := 0

structure SpillReader where
  reader : Bytes
  remaining : ℕ

def lengthPrefix (b : Bytes) : ℕ :=
  let n := Bytes.ofBigEndian b.reverse
  if n < 2 ^ 31 then n else 2 ^ 64 - 2 ^ 32 + n

def SpillWriter.flushAndReopen (w : SpillWriter) : SpillReader := ⟨w.writer, w.docCount⟩

section

variable (env : Env) (fromSlice : Bytes → Except String Document)

def SpillWriter.writeDoc (w : SpillWriter) (doc : Document) :
    Outcome AggregationError SpillWriter :=
  match env.toVec doc with
  | .ok bytes => .ok ⟨w.writer ++ bytes, w.docCount + 1⟩
  | .error e => .error (.other ("disk spill: serialize: " ++ e))

namespace SpillReader

/-- No buffer has room for a length of more than `isize::MAX` bytes. -/
def readDoc (r : SpillReader) : Outcome AggregationError (Option Document × SpillReader) :=
  if r.remaining = 0 then .ok (none, r)
  else if r.reader.length < 4 then .ok (none, { r with reader := [] })
  else
    let docLen := lengthPrefix (r.reader.take 4)
    if docLen < 4 ∨ 2 ^ 63 ≤ docLen then .panic
    else if r.reader.length < docLen then
      .error (.other "disk spill: read doc: failed to fill whole buffer")
    else
      match fromSlice (r.reader.take docLen) with
      | .ok doc => .ok (some doc, ⟨r.reader.drop docLen, r.remaining - 1⟩)
      | .error e => .error (.other ("disk spill: deserialize: " ++ e))

def readUpTo : ℕ → SpillReader → Outcome AggregationError (List Document)
  | 0, _ => .ok []
  | n + 1, r => do
    let (read, r) ← r.readDoc fromSlice
    match read with
    | none => .ok []
    | some doc => do
      let docs ← readUpTo n r
      .ok (doc :: docs)

def readAll (r : SpillReader) : Outcome AggregationError (List Document) :=
  readUpTo fromSlice r.remaining r

end SpillReader

/-- `bson::to_vec` and `bson::from_slice` on a document. -/
structure SpillRoundTrips (doc : Document) (bytes : Bytes) : Prop where
  toVec : env.toVec doc = .ok bytes
  fromSlice : fromSlice bytes = .ok doc
  length_lt : bytes.length < 2 ^ 31
  four_le : 4 ≤ bytes.length
  length_eq : lengthPrefix (bytes.take 4) = bytes.length

/-- The documents that are left to read. -/
inductive SpillReader.Holds : SpillReader → List Document → Prop
  | nil : Holds ⟨[], 0⟩ []
  | cons {doc : Document} {bytes : Bytes} {r : SpillReader} {docs : List Document}
      (hdoc : SpillRoundTrips env fromSlice doc bytes) (hrest : Holds r docs) :
      Holds ⟨bytes ++ r.reader, r.remaining + 1⟩ (doc :: docs)

end

variable {env : Env} {fromSlice : Bytes → Except String Document}

namespace SpillReader

variable {r : SpillReader} {docs : List Document}

lemma Holds.remaining (h : Holds env fromSlice r docs) : r.remaining = docs.length := by
  induction h with
  | nil => rfl
  | cons _ _ ih => rw [length_cons, ih]

lemma readDoc_nil (h : Holds env fromSlice r []) : r.readDoc fromSlice = .ok (none, r) := by
  have hnone : r.remaining = 0 := h.remaining
  rw [readDoc, if_pos hnone]

lemma readDoc_cons {doc : Document} (h : Holds env fromSlice r (doc :: docs)) :
    ∃ r', r.readDoc fromSlice = .ok (some doc, r') ∧ Holds env fromSlice r' docs := by
  cases h with
  | @cons _ bytes r _ hdoc hrest =>
    have hfour := hdoc.four_le
    have hlt := hdoc.length_lt
    have htake : (bytes ++ r.reader).take 4 = bytes.take 4 := take_append_of_le_length hfour
    refine ⟨r, ?_, hrest⟩
    rw [readDoc, if_neg (Nat.succ_ne_zero _), if_neg (by rw [length_append]; omega)]
    rw [htake, hdoc.length_eq, if_neg (by omega), if_neg (by rw [length_append]; omega),
      take_left, hdoc.fromSlice, drop_left]
    rfl

section

variable (h : Holds env fromSlice r docs)
include h

lemma readUpTo_of_holds : readUpTo fromSlice docs.length r = .ok docs := by
  induction docs generalizing r with
  | nil => rfl
  | cons doc docs ih =>
    obtain ⟨r', hread, hrest⟩ := readDoc_cons h
    rw [length_cons, readUpTo, hread, Outcome.ok_bind]
    dsimp only
    rw [ih hrest, Outcome.ok_bind]

lemma readAll_of_holds : r.readAll fromSlice = .ok docs := by
  rw [readAll, h.remaining]
  exact readUpTo_of_holds h

lemma Holds.concat {doc : Document} {bytes : Bytes}
    (hdoc : SpillRoundTrips env fromSlice doc bytes) :
    Holds env fromSlice ⟨r.reader ++ bytes, r.remaining + 1⟩ (docs ++ [doc]) := by
  induction h with
  | nil =>
    have hone := Holds.cons hdoc .nil
    rwa [append_nil] at hone
  | cons hfirst _ ih =>
    rw [append_assoc]
    exact .cons hfirst ih

end

end SpillReader

def SpillWriter.writeDocs (env : Env) (w : SpillWriter) (docs : List Document) :
    Outcome AggregationError SpillWriter :=
  docs.foldlM (SpillWriter.writeDoc env) w

section

variable {w : SpillWriter} {written : List Document}
  (h : w.flushAndReopen.Holds env fromSlice written)
include h

lemma SpillWriter.writeDoc_of_roundTrips {doc : Document}
    (hdoc : ∃ bytes, SpillRoundTrips env fromSlice doc bytes) :
    ∃ w', w.writeDoc env doc = .ok w' ∧
      w'.flushAndReopen.Holds env fromSlice (written ++ [doc]) := by
  obtain ⟨bytes, hdoc⟩ := hdoc
  refine ⟨⟨w.writer ++ bytes, w.docCount + 1⟩, ?_, h.concat hdoc⟩
  rw [writeDoc, hdoc.toVec]

lemma SpillWriter.writeDocs_of_roundTrips {docs : List Document}
    (hdocs : ∀ doc ∈ docs, ∃ bytes, SpillRoundTrips env fromSlice doc bytes) :
    ∃ w', w.writeDocs env docs = .ok w' ∧
      w'.flushAndReopen.Holds env fromSlice (written ++ docs) := by
  induction docs generalizing w written with
  | nil => exact ⟨w, rfl, by rwa [append_nil]⟩
  | cons doc docs ih =>
    obtain ⟨w₁, hwrite, hholds⟩ := writeDoc_of_roundTrips h (hdocs doc mem_cons_self)
    obtain ⟨w₂, hwrites, hholds'⟩ := ih hholds fun d hd => hdocs d (mem_cons_of_mem doc hd)
    rw [append_assoc] at hholds'
    refine ⟨w₂, ?_, hholds'⟩
    rw [writeDocs, foldlM_cons, hwrite]
    exact hwrites

end

end Smongo

import Mathlib.Order.Bounds.Defs
import Smongo.Env
import Smongo.Storage.Interface

/-!
# Files of the OPFS backend

A file is a sequence of records with the lengths of key and value in front of them.
-/

namespace Smongo

open List

abbrev OpfsEntry := Bytes × Bytes

def lengthField (bytes : Bytes) : ℕ := Bytes.ofBigEndian (bytes.take 4).reverse

/-- `bytes` is what follows the position of the source. -/
def parseRecords : ℕ → Bytes → List OpfsEntry
  | 0, _ => []
  | fuel + 1, bytes =>
    if bytes.length < 4 then []
    else
      let klen := lengthField bytes
      let bytes := bytes.drop 4
      if bytes.length < klen + 4 then []
      else
        let key := bytes.take klen
        let bytes := bytes.drop klen
        let vlen := lengthField bytes
        let bytes := bytes.drop 4
        if bytes.length < vlen then []
        else (key, bytes.take vlen) :: parseRecords fuel (bytes.drop vlen)

def parseFile (bytes : Bytes) : Except StorageError (List OpfsEntry) :=
  if bytes.isEmpty then .ok [] else .ok (parseRecords (bytes.length + 1) bytes)

def record (e : OpfsEntry) : Bytes :=
  littleEndian 4 e.1.length ++ (e.1 ++ (littleEndian 4 e.2.length ++ e.2))

def serializeFile (entries : List OpfsEntry) : Bytes := entries.flatMap record

/-- The lengths of the initial runs whose records lie inside the file. -/
def wholeRuns (entries : List OpfsEntry) (file : Bytes) : Set ℕ :=
  {m | m ≤ entries.length ∧ serializeFile (entries.take m) <+: file}

variable {entries : List OpfsEntry} {file rest : Bytes} {e : OpfsEntry}

lemma length_littleEndian (w n : ℕ) : (littleEndian w n).length = w := by simp [littleEndian]

lemma lengthField_append {n : ℕ} (hn : n < 256 ^ 4) :
    lengthField (littleEndian 4 n ++ rest) = n := by
  rw [lengthField, take_left' (length_littleEndian 4 n), littleEndian, reverse_reverse,
    Bytes.ofBigEndian_bigEndian, Nat.mod_eq_of_lt hn]

lemma exists_append_of_prefix {a b : Bytes} (h : file <+: a ++ b)
    (hlen : a.length ≤ file.length) : ∃ l, file = a ++ l ∧ l <+: b := by
  obtain ⟨l, rfl⟩ := prefix_of_prefix_length_le (prefix_append a b) h hlen
  exact ⟨l, rfl, (prefix_append_right_inj a).mp h⟩

section

variable (hkey : e.1.length < 256 ^ 4) (hvalue : e.2.length < 256 ^ 4)

include hkey hvalue in
lemma parseRecords_record (fuel : ℕ) :
    parseRecords (fuel + 1) (record e ++ rest) = e :: parseRecords fuel rest := by
  have hlen : (record e ++ rest).length = 4 + (e.1.length + (4 + (e.2.length + rest.length))) := by
    simp only [record, length_append, length_littleEndian]; omega
  rw [parseRecords, if_neg (by omega)]
  simp only [record, append_assoc, lengthField_append hkey, drop_left' (length_littleEndian 4 _),
    drop_left, take_left, lengthField_append hvalue]
  rw [if_neg (by simp only [length_append, length_littleEndian]; omega),
    if_neg (by rw [length_append]; omega)]

include hkey hvalue in
/-- The three places at which a record can be cut. -/
lemma parseRecords_torn (h : file <+: record e) (hlen : file.length < (record e).length)
    (fuel : ℕ) : parseRecords fuel file = [] := by
  cases fuel with
  | zero => rfl
  | succ fuel =>
    rw [parseRecords]
    split_ifs with h4
    · rfl
    obtain ⟨l, rfl, hl⟩ := exists_append_of_prefix h (by rw [length_littleEndian]; omega)
    simp only [lengthField_append hkey, drop_left' (length_littleEndian 4 _)]
    by_cases hk : l.length < e.1.length + 4
    · rw [if_pos hk]
    · rw [if_neg hk]
      obtain ⟨l, rfl, hl'⟩ := exists_append_of_prefix hl (by omega)
      rw [length_append] at hk
      obtain ⟨l, rfl, -⟩ := exists_append_of_prefix hl' (by rw [length_littleEndian]; omega)
      simp only [record, length_append, length_littleEndian] at hlen
      simp only [drop_left, lengthField_append hvalue, drop_left' (length_littleEndian 4 _)]
      rw [if_pos (by omega)]

end

lemma parseRecords_prefix (h : ∀ e ∈ entries, e.1.length < 256 ^ 4 ∧ e.2.length < 256 ^ 4)
    (hfile : file <+: serializeFile entries) {fuel : ℕ} (hfuel : file.length < fuel) :
    ∃ m, IsGreatest (wholeRuns entries file) m ∧ parseRecords fuel file = entries.take m := by
  induction entries generalizing file fuel with
  | nil =>
    obtain rfl := prefix_nil.mp hfile
    refine ⟨0, ⟨⟨le_rfl, prefix_rfl⟩, fun m hm => hm.1⟩, ?_⟩
    cases fuel <;> rfl
  | cons e entries ih =>
    obtain ⟨⟨hkey, hvalue⟩, hrest⟩ := forall_mem_cons.mp h
    rw [serializeFile, flatMap_cons] at hfile
    by_cases hlen : (record e).length ≤ file.length
    · obtain ⟨file, rfl, hfile'⟩ := exists_append_of_prefix hfile hlen
      obtain ⟨fuel, rfl⟩ : ∃ k, fuel = k + 1 := ⟨fuel - 1, by omega⟩
      have hshort : file.length < fuel := by
        simp only [record, length_append, length_littleEndian] at hfuel
        omega
      obtain ⟨m, ⟨⟨hle, hm⟩, hgreatest⟩, hrun⟩ := ih hrest hfile' hshort
      refine ⟨m + 1, ⟨⟨Nat.succ_le_succ hle, ?_⟩, ?_⟩, ?_⟩
      · exact (prefix_append_right_inj _).mpr hm
      · rintro (_ | n) ⟨hn, hwhole⟩
        · exact Nat.zero_le _
        · exact Nat.succ_le_succ
            (hgreatest ⟨Nat.le_of_succ_le_succ hn, (prefix_append_right_inj _).mp hwhole⟩)
      · rw [parseRecords_record hkey hvalue, hrun, take_succ_cons]
    · have htorn : file <+: record e :=
        prefix_of_prefix_length_le hfile (prefix_append _ _) (by omega)
      refine ⟨0, ⟨⟨Nat.zero_le _, nil_prefix⟩, ?_⟩,
        parseRecords_torn hkey hvalue htorn (by omega) fuel⟩
      rintro (_ | n) ⟨-, hwhole⟩
      · exact le_rfl
      · exact absurd (((prefix_append _ _).trans hwhole).length_le) hlen

/-- Every cut of a file parses to the longest run of records that lies inside it. -/
theorem torn_file_parses (h : ∀ e ∈ entries, e.1.length < 2 ^ 32 ∧ e.2.length < 2 ^ 32)
    (hfile : file <+: serializeFile entries) :
    ∃ m, IsGreatest (wholeRuns entries file) m ∧ parseFile file = .ok (entries.take m) := by
  obtain ⟨m, hm, hrun⟩ := parseRecords_prefix h hfile (Nat.lt_succ_self _)
  refine ⟨m, hm, ?_⟩
  rw [parseFile, ← hrun]
  cases file <;> rfl

theorem torn_file_parses_first :
    ∃ m, IsGreatest (wholeRuns [([1], [2]), ([3], [4, 5])] (serializeFile [([1], [2])] ++ [1])) m ∧
      parseFile (serializeFile [([1], [2])] ++ [1]) = .ok ([([1], [2]), ([3], [4, 5])].take m) :=
  torn_file_parses (by decide) (by decide)

end Smongo

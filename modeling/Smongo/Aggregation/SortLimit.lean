import Smongo.Aggregation.ExternalSort
import Smongo.Lib.Selection

/-!
# `$sort` and `$limit` in one

The stage selects documents by their numbers; the selection is a parameter.
-/

namespace Smongo

open List Outcome

def cmpDocs (sortDoc : Document) (docs : List Document) (a b : ℕ) : Ordering :=
  cmpBySortFields (docs.getD a []) (docs.getD b []) (sortFields sortDoc)

section

variable (select : (ℕ → ℕ → Ordering) → ℕ → List ℕ → List ℕ) (sortDoc : Document)
  (docs : List Document) (limit : ℕ)

def keptIndices : List ℕ :=
  let indices := range docs.length
  if limit < indices.length then (select (cmpDocs sortDoc docs) (limit - 1) indices).take limit
  else indices

def sortLimitIndices : List ℕ :=
  (keptIndices select sortDoc docs limit).insertionSort fun a b => cmpDocs sortDoc docs a b ≠ .gt

end

def stageSortLimitStreamBy (select : (ℕ → ℕ → Ordering) → ℕ → List ℕ → List ℕ) (env : Env)
    (options : PipelineOptions) (input : DocStream) (sortSpec limitSpec : Bson) :
    Outcome AggregationError DocStream :=
  match sortSpec, integerOf limitSpec with
  | .document sortDoc, some limit =>
    if usize limit = 0 then .ok []
    else do
      let docs ← collectWithLimit env options input "$sort"
      .ok ((sortLimitIndices select sortDoc docs (usize limit)).map fun i => .ok (docs.getD i []))
  | .document _, none => .error (.invalidStage "$limit requires number")
  | _, _ => .error (.invalidStage "$sort requires document")

def sortSelect (cmp : ℕ → ℕ → Ordering) (_ : ℕ) (l : List ℕ) : List ℕ :=
  l.insertionSort fun a b => cmp a b ≠ .gt

section

variable {sortDoc : Document} {docs : List Document}

lemma map_getD_range (docs : List Document) :
    (range docs.length).map (fun i => docs.getD i []) = docs := by
  apply ext_getElem
  · simp
  · intro i _ hi
    simp [hi]

lemma getD_mem {i : ℕ} (hi : i ∈ range docs.length) : docs.getD i [] ∈ docs := by
  have hlt : i < docs.length := mem_range.mp hi
  rw [getD_eq_getElem?_getD, getElem?_eq_getElem hlt]
  exact getElem_mem hlt

variable (hnan : ∀ doc ∈ docs, NanFree sortDoc doc)
include hnan

lemma cmpDocs_measured : MeasuredOn {i | i ∈ range docs.length} (cmpDocs sortDoc docs)
      fun i => sortKey sortDoc (docs.getD i []) := by
  intro i hi j hj
  rw [cmpDocs, cmpBySortFields_eq]
  exact compareBySort_measured sortDoc _ (hnan _ (getD_mem hi)) _ (hnan _ (getD_mem hj))

section

variable {select : (ℕ → ℕ → Ordering) → ℕ → List ℕ → List ℕ} (hselect : SelectsNth select)
  {limit : ℕ} (hlimit : 0 < limit)
include hselect hlimit

lemma keptIndices_spec :
    (keptIndices select sortDoc docs limit).length = min limit docs.length ∧
      ∃ rest, (keptIndices select sortDoc docs limit ++ rest).Perm (range docs.length) ∧
        ∀ i ∈ keptIndices select sortDoc docs limit, ∀ j ∈ rest,
          sortKey sortDoc (docs.getD i []) ≤ sortKey sortDoc (docs.getD j []) := by
  have hmeasured := cmpDocs_measured hnan
  rw [keptIndices, length_range]
  split
  · next hlt =>
    have hn : limit - 1 < (range docs.length).length := by
      rw [length_range]
      omega
    have hperm := (hselect (cmpDocs sortDoc docs) (limit - 1) _ hn hmeasured.totalOn).1
    have hle := hselect.le hn hmeasured.totalOn
    rw [Nat.sub_add_cancel hlimit] at hle
    refine ⟨?_, drop limit (select (cmpDocs sortDoc docs) (limit - 1) (range docs.length)), ?_, ?_⟩
    · rw [length_take, hperm.length_eq, length_range]
    · rw [take_append_drop]
      exact hperm
    · intro i hi j hj
      apply (hmeasured.le_iff (hperm.mem_iff.mp (mem_of_mem_take hi))
        (hperm.mem_iff.mp (mem_of_mem_drop hj))).mp
      exact hle i hi j hj
  · refine ⟨?_, [], ?_, fun _ _ _ hj => absurd hj not_mem_nil⟩
    · rw [length_range]
      omega
    · rw [append_nil]

lemma sortLimit_docs {out : List Document}
    (hout : out = (sortLimitIndices select sortDoc docs limit).map fun i => docs.getD i []) :
    out.length = min limit docs.length ∧ out.Subperm docs ∧
      out.Pairwise (fun a b => compareBySort sortDoc a b ≠ .gt) ∧
      List.Forall₂ (fun a b => compareBySort sortDoc a b = .eq) out
        ((stageSort docs sortDoc).take limit) := by
  obtain ⟨hlength, rest, hperm, hle⟩ := keptIndices_spec hnan hselect hlimit
  have hkept : ∀ i ∈ keptIndices select sortDoc docs limit, i ∈ range docs.length :=
    fun i hi => hperm.mem_iff.mp (mem_append_left _ hi)
  have hindices : (sortLimitIndices select sortDoc docs limit).Perm
      (keptIndices select sortDoc docs limit) := perm_insertionSort _ _
  have hsorted := pairwise_key_insertionSort ((cmpDocs_measured hnan).mono hkept)
  have hdocs : (((keptIndices select sortDoc docs limit).map fun i => docs.getD i []) ++
      rest.map fun i => docs.getD i []).Perm docs := by
    have hmap := hperm.map fun i => docs.getD i []
    rwa [map_getD_range, map_append] at hmap
  have houtPerm : out.Perm ((keptIndices select sortDoc docs limit).map fun i => docs.getD i []) :=
    hout ▸ hindices.map _
  have houtSub : out.Subperm docs :=
    houtPerm.subperm.trans ((sublist_append_left _ _).subperm.trans hdocs.subperm)
  have houtSorted : out.Pairwise fun a b => sortKey sortDoc a ≤ sortKey sortDoc b := by
    rw [hout, pairwise_map]
    exact hsorted
  have houtFree : ∀ doc ∈ out, doc ∈ {doc | NanFree sortDoc doc} := fun doc hdoc =>
    hnan doc (houtSub.subset hdoc)
  have hlen : out.length = min limit docs.length := by rw [houtPerm.length_eq, length_map, hlength]
  refine ⟨hlen, houtSub, ?_, ?_⟩
  · exact (pairwise_cmp_iff ((compareBySort_measured sortDoc).mono houtFree)).mpr houtSorted
  · apply forall₂_cmp_of_map_key (compareBySort_measured sortDoc) houtFree
    · intro doc hdoc
      exact hnan doc ((stageSort_perm docs sortDoc).mem_iff.mp (mem_of_mem_take hdoc))
    · have hkeys := map_key_take hdocs (fun a ha b hb => by
        obtain ⟨i, hi, rfl⟩ := mem_map.mp ha
        obtain ⟨j, hj, rfl⟩ := mem_map.mp hb
        exact hle i hi j hj) houtPerm houtSorted (stageSort_perm docs sortDoc)
          (stageSort_sorted hnan)
      rw [length_map, hlength, ← (stageSort_perm docs sortDoc).length_eq] at hkeys
      rw [hkeys, ← take_take, take_length]

end

end

lemma collectWithLimit_map_ok (env : Env) (options : PipelineOptions) (docs : List Document)
    (stage : String) :
    collectWithLimit env options (docs.map .ok) stage = .ok docs ∨
      ∃ used limit, options.memoryLimitBytes = some limit ∧ limit < used ∧
        collectWithLimit env options (docs.map .ok) stage =
          .error (.memoryLimitExceeded stage used limit) := by
  rw [collectWithLimit, collectStream_map_ok, ok_bind]
  cases hlimit : options.memoryLimitBytes with
  | none => exact .inl rfl
  | some limit =>
    dsimp only
    split
    · next hlt => exact .inr ⟨_, limit, rfl, hlt, rfl⟩
    · exact .inl rfl

/-- The fused stage returns the first documents of the sorted input, up to ties, if the input fits.
-/
theorem sort_limit_selects {select : (ℕ → ℕ → Ordering) → ℕ → List ℕ → List ℕ}
    (hselect : SelectsNth select) {sortDoc : Document} {docs : List Document}
    (hnan : ∀ doc ∈ docs, NanFree sortDoc doc) {limitSpec : Bson} {limit : Int64}
    (hlimit : integerOf limitSpec = some limit) (hnonneg : 0 ≤ limit.toInt) (env : Env)
    (options : PipelineOptions) :
    (∃ used max, options.memoryLimitBytes = some max ∧ max < used ∧
      stageSortLimitStreamBy select env options (docs.map .ok) (.document sortDoc) limitSpec =
        .error (.memoryLimitExceeded "$sort" used max)) ∨
    ∃ out : List Document,
      stageSortLimitStreamBy select env options (docs.map .ok) (.document sortDoc) limitSpec =
        .ok (out.map .ok) ∧
      out.length = min limit.toInt.toNat docs.length ∧ out.Subperm docs ∧
      out.Pairwise (fun a b => compareBySort sortDoc a b ≠ .gt) ∧
      List.Forall₂ (fun a b => compareBySort sortDoc a b = .eq) out
        ((stageSort docs sortDoc).take limit.toInt.toNat) := by
  simp only [← usize_of_nonneg hnonneg, stageSortLimitStreamBy, hlimit]
  split
  · next hzero =>
    refine .inr ⟨[], rfl, ?_, nil_subperm, .nil, ?_⟩
    · rw [hzero, Nat.zero_min, length_nil]
    · rw [hzero]
      exact .nil
  · next hpos =>
    rcases collectWithLimit_map_ok env options docs "$sort" with
      hdocs | ⟨used, max, hmax, hlt, herr⟩
    · refine .inr ⟨_, ?_, sortLimit_docs hnan hselect (Nat.pos_of_ne_zero hpos) rfl⟩
      rw [hdocs, ok_bind, map_map]
      rfl
    · refine .inl ⟨used, max, hmax, hlt, ?_⟩
      rw [herr]
      rfl

section

open Sample

theorem sort_limit_selects_two : ∃ out : List Document,
      stageSortLimitStreamBy sortSelect spillEnv {} (spillDocs.map .ok) (.document spillSort)
        (.int32 2) = .ok (out.map .ok) ∧
      out.length = 2 ∧ out.Subperm spillDocs ∧
      out.Pairwise (fun a b => compareBySort spillSort a b ≠ .gt) ∧
      List.Forall₂ (fun a b => compareBySort spillSort a b = .eq) out
        ((stageSort spillDocs spillSort).take 2) := by
  have hnan : ∀ doc ∈ spillDocs, NanFree spillSort doc := by decide
  have hlimit : integerOf (.int32 2) = some 2 := rfl
  rcases sort_limit_selects selectsNth_insertionSort hnan hlimit (by decide) spillEnv {} with
    ⟨_, _, hnone, -⟩ | h
  · cases hnone
  · exact h

end

lemma map_sortLimitIndices_sortSelect {sortDoc : Document} {docs : List Document}
    (hnan : ∀ doc ∈ docs, NanFree sortDoc doc) (limit : ℕ) :
    (sortLimitIndices sortSelect sortDoc docs limit).map (fun i => docs.getD i []) =
      (stageSort docs sortDoc).take limit := by
  have hmap : ((range docs.length).insertionSort fun a b =>
      cmpDocs sortDoc docs a b ≠ .gt).map (fun i => docs.getD i []) = stageSort docs sortDoc := by
    rw [map_insertionSort _ (fun a b => compareBySort sortDoc a b ≠ .gt), map_getD_range]
    · rfl
    · intro i _ j _
      rw [cmpDocs, cmpBySortFields_eq]
  have hsorted := pairwise_insertionSort_of_totalOn (cmpDocs_measured hnan).totalOn
  rw [sortLimitIndices, keptIndices, length_range]
  split
  · rw [sortSelect, (hsorted.sublist (take_sublist _ _)).insertionSort_eq, map_take, hmap]
  · next hle =>
    rw [hmap, take_of_length_le]
    rw [(stageSort_perm docs sortDoc).length_eq]
    omega

lemma collectStream_of_collectWithLimit {env : Env} {options : PipelineOptions}
    {input : DocStream} {stage : String} {docs : List Document}
    (h : collectWithLimit env options input stage = .ok docs) : collectStream input = .ok docs := by
  obtain ⟨docs', hcollect, hdocs⟩ := bind_eq_ok.mp h
  rw [hcollect]
  split at hdocs
  · exact hdocs
  · dsimp only at hdocs
    split at hdocs
    · cases hdocs
    · exact hdocs

theorem stageSortLimitStreamBy_sortSelect (env : Env) (options : PipelineOptions)
    {input : DocStream} {sortDoc : Document} (limitSpec : Bson)
    (hnan : ∀ docs, collectStream input = .ok docs → ∀ doc ∈ docs, NanFree sortDoc doc) :
    stageSortLimitStreamBy sortSelect env options input (.document sortDoc) limitSpec =
      stageSortLimitStream env options input (.document sortDoc) limitSpec := by
  unfold stageSortLimitStreamBy stageSortLimitStream
  cases hlimit : integerOf limitSpec with
  | none => rfl
  | some limit =>
    have hzero : usize limit = 0 ↔ limit = 0 := by
      constructor
      · intro h
        exact Int64.toBitVec_inj.mp (BitVec.eq_of_toNat_eq h)
      · rintro rfl
        rfl
    simp only [hzero]
    split
    · rfl
    · cases hdocs : collectWithLimit env options input "$sort" with
      | ok docs =>
        have hfree := hnan docs (collectStream_of_collectWithLimit hdocs)
        rw [ok_bind, ok_bind, ← map_sortLimitIndices_sortSelect hfree, map_map]
        rfl
      | error e | panic => rfl

end Smongo

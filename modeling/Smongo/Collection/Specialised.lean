import Smongo.Collection.AccessPaths
import Smongo.Collection.Unmaintained

/-!
# Bitmap and prefix scans

Both scans read the index table that `create_index` filled, and fetch documents by the ids
in its rows.
-/

namespace Smongo

open Eff List RedbCursor OrderedTable Bytes

namespace BitmapIndex

/-- The bitmap holds the entries: each id has a position of its own, and a value has the positions
of its ids. -/
structure Holds (b : BitmapIndex) (entries : List (Bytes × String)) : Prop where
  length : b.posToId.length = b.nextPos
  position : ∀ id p, b.idToPos id = some p ↔ b.posToId[p]? = some id
  registered : ∀ e ∈ entries, b.idToPos e.2 ≠ none
  mem : ∀ v p, p ∈ b.bitmaps v ↔ ∃ id, (v, id) ∈ entries ∧ b.idToPos id = some p
  nodup : (entries.map Prod.fst).Nodup → ∀ v, (b.bitmaps v).Nodup

variable {b : BitmapIndex} {entries : List (Bytes × String)} {id : String} {v : Bytes} {p : ℕ}

lemma holds_new : new.Holds [] where
  length := rfl
  position id p := by simp [new]
  registered e he := by cases he
  mem v p := by simp [new]
  nodup _ v := nodup_nil

lemma bitmaps_pushPosition (b : BitmapIndex) (v : Bytes) (p : ℕ) (v' : Bytes) :
    (b.pushPosition v p).bitmaps v' = if v' = v then b.bitmaps v' ++ [p] else b.bitmaps v' := rfl

lemma Holds.pushPosition (h : b.Holds entries) (hid : b.idToPos id = some p) :
    (b.pushPosition v p).Holds (entries ++ [(v, id)]) where
  length := h.length
  position := h.position
  registered e he := by
    rcases mem_append.mp he with he | he
    · exact h.registered e he
    · rw [mem_singleton.mp he]
      exact fun hnone => Option.some_ne_none p (hid.symm.trans hnone)
  mem v' p' := by
    rw [bitmaps_pushPosition]
    split
    · next hv =>
      subst hv
      rw [mem_append, mem_singleton, h.mem]
      constructor
      · rintro (⟨id', hmem, hp⟩ | rfl)
        · exact ⟨id', mem_append_left _ hmem, hp⟩
        · exact ⟨id, mem_append_right _ (mem_singleton_self _), hid⟩
      · rintro ⟨id', hmem, hp⟩
        rcases mem_append.mp hmem with hmem | hmem
        · exact .inl ⟨id', hmem, hp⟩
        · cases mem_singleton.mp hmem
          exact .inr (Option.some.inj (hp.symm.trans hid))
    · next hv =>
      rw [h.mem]
      refine exists_congr fun id' => and_congr_left fun _ => ?_
      simp [hv]
  nodup hnodup v' := by
    rw [map_append, nodup_append] at hnodup
    obtain ⟨hentries, -, hne⟩ := hnodup
    rw [bitmaps_pushPosition]
    split
    · next hv =>
      have hnil : b.bitmaps v' = [] := by
        rw [eq_nil_iff_forall_not_mem]
        intro p' hp'
        obtain ⟨id', hmem, -⟩ := (h.mem v' p').mp hp'
        exact hne v' (mem_map_of_mem hmem) v (mem_singleton_self v) hv
      rw [hnil]
      exact nodup_singleton p
    · exact h.nodup hentries v'

lemma Holds.register (h : b.Holds entries) (hid : b.idToPos id = none) : Holds { b with
      nextPos := b.nextPos + 1
      idToPos := fun id' => if id' = id then some b.nextPos else b.idToPos id'
      posToId := b.posToId ++ [id] } entries where
  length := by simp [h.length]
  position id' p := by
    have hnone : b.posToId[p]? ≠ some id := fun hp => by
      rw [← h.position, hid] at hp
      cases hp
    dsimp only
    rw [getElem?_append, h.length]
    by_cases hid' : id' = id
    · subst hid'
      rw [if_pos rfl, Option.some.injEq]
      split
      · next hp => exact iff_of_false (by omega) hnone
      · next hp =>
        rw [getElem?_singleton]
        split
        · exact iff_of_true (by omega) rfl
        · exact iff_of_false (by omega) (by simp)
    · rw [if_neg hid', h.position]
      split
      · exact Iff.rfl
      · next hp =>
        refine iff_of_false ?_ ?_
        · rw [getElem?_eq_none (by rw [h.length]; omega)]
          exact nofun
        · rw [getElem?_singleton]
          split
          · exact fun heq => hid' (Option.some.inj heq).symm
          · exact nofun
  registered e he := by
    dsimp only
    split
    · exact Option.some_ne_none _
    · exact h.registered e he
  mem v p := by
    refine (h.mem v p).trans (exists_congr fun id' => and_congr_right fun hmem => ?_)
    have hne : id' ≠ id := by
      rintro rfl
      exact h.registered _ hmem hid
    dsimp only
    rw [if_neg hne]
  nodup := h.nodup

lemma Holds.insert (h : b.Holds entries) (id : String) (v : Bytes) :
    (b.insert id v).Holds (entries ++ [(v, id)]) := by
  unfold BitmapIndex.insert
  split
  · next existing hid => exact h.pushPosition hid
  · next hid =>
    have hresized : (b.posToId ++ replicate (b.nextPos + 1 - b.posToId.length) "").set
        b.nextPos id = b.posToId ++ [id] := by
      rw [h.length, Nat.add_sub_cancel_left, ← h.length]
      simp
    dsimp only
    rw [hresized]
    exact (h.register hid).pushPosition (if_pos rfl)

def build (entries : List (Bytes × String)) : BitmapIndex :=
  entries.foldl (fun b e => b.insert e.2 e.1) .new

lemma holds_build (entries : List (Bytes × String)) : (build entries).Holds entries := by
  induction entries using reverseRecOn with
  | nil => exact holds_new
  | append_singleton entries e ih =>
    rw [build, foldl_append, foldl_cons, foldl_nil, ← build]
    exact ih.insert e.2 e.1

lemma Holds.mem_positionsToIds (h : b.Holds entries) {positions : List ℕ} :
    id ∈ b.positionsToIds positions ↔ id ≠ "" ∧ ∃ p ∈ positions, b.idToPos id = some p := by
  simp only [positionsToIds, mem_filterMap, Option.filter_eq_some_iff, h.position,
    decide_eq_true_eq]
  constructor
  · rintro ⟨p, hp, hid, hne⟩
    exact ⟨hne, p, hp, hid⟩
  · rintro ⟨hne, p, hp, hid⟩
    exact ⟨p, hp, hid, hne⟩

lemma Holds.nodup_positionsToIds (h : b.Holds entries) {positions : List ℕ}
    (hnodup : positions.Nodup) : (b.positionsToIds positions).Nodup := by
  refine List.Pairwise.filterMap _ ?_ hnodup
  intro p p' hne id hid id' hid' heq
  subst heq
  have hp := (h.position id p).mpr (Option.filter_eq_some_iff.mp hid).1
  have hp' := (h.position id p').mpr (Option.filter_eq_some_iff.mp hid').1
  exact hne (Option.some.inj (hp.symm.trans hp'))

end BitmapIndex

def soughtBytes : Option Bson → Option (List Bytes)
  | some (.string s) => some [utf8 s]
  | some (.int32 n) => some [bigEndian 4 n.toBitVec.toNat]
  | some (.int64 n) => some [bigEndian 8 n.toBitVec.toNat]
  | some (.boolean b) => some [[if b then 0x01 else 0x00]]
  | some (.document d) =>
    match Document.get d "$in" with
    | some (.array arr) => some (arr.filterMap inSeekBytes)
    | _ => none
  | _ => none

lemma bitmapPositions_of_none (b : BitmapIndex) {condition : Option Bson}
    (h : soughtBytes condition = none) : bitmapPositions b condition = none := by
  cases condition with
  | none => rfl
  | some value =>
    cases value with
    | string s | int32 n | int64 n | boolean x => cases h
    | document d =>
      rw [soughtBytes] at h
      rw [bitmapPositions]
      rcases hin : Document.get d "$in" with _ | value
      · rfl
      · rw [hin] at h
        cases value with
        | array branches => cases h
        | _ => rfl
    | _ => rfl

lemma bitmapPositions_of_some {b : BitmapIndex} (hnodup : ∀ v, (b.bitmaps v).Nodup)
    {condition : Option Bson} {vs : List Bytes} (h : soughtBytes condition = some vs) :
    ∃ positions, bitmapPositions b condition = some positions ∧ positions.Nodup ∧
      ∀ p, p ∈ positions ↔ ∃ v ∈ vs, p ∈ b.bitmaps v := by
  have hone : ∀ v, (b.lookup v).Nodup ∧ ∀ p, p ∈ b.lookup v ↔ ∃ v' ∈ [v], p ∈ b.bitmaps v' :=
    fun v => ⟨hnodup v, fun p => by simp [BitmapIndex.lookup]⟩
  unfold soughtBytes at h
  split at h
  · cases h
    exact ⟨_, rfl, hone _⟩
  · cases h
    exact ⟨_, rfl, hone _⟩
  · cases h
    exact ⟨_, rfl, hone _⟩
  · cases h
    exact ⟨_, rfl, hone _⟩
  · split at h
    · next arr harr =>
      cases h
      refine ⟨b.lookupIn (arr.filterMap inSeekBytes), by rw [bitmapPositions, harr],
        nodup_dedup _, fun p => ?_⟩
      simp [BitmapIndex.lookupIn]
    · cases h
  · cases h

lemma exists_soughtIds {entries : List (Bytes × String)} (hkeys : (entries.map Prod.fst).Nodup)
    {condition : Option Bson} {vs : List Bytes} (h : soughtBytes condition = some vs) :
    ∃ positions, bitmapPositions (.build entries) condition = some positions ∧
      ((BitmapIndex.build entries).positionsToIds positions).Nodup ∧
      ∀ id, id ∈ (BitmapIndex.build entries).positionsToIds positions ↔
        id ≠ "" ∧ ∃ v ∈ vs, (v, id) ∈ entries := by
  have hholds := BitmapIndex.holds_build entries
  obtain ⟨positions, hpositions, hnodup, hmem⟩ := bitmapPositions_of_some (hholds.nodup hkeys) h
  refine ⟨positions, hpositions, hholds.nodup_positionsToIds hnodup, fun id => ?_⟩
  rw [hholds.mem_positionsToIds]
  refine and_congr_right fun _ => ⟨?_, ?_⟩
  · rintro ⟨p, hp, hid⟩
    obtain ⟨v, hv, hpv⟩ := (hmem p).mp hp
    obtain ⟨id', hentry, hid'⟩ := (hholds.mem v p).mp hpv
    rw [hholds.position] at hid hid'
    rw [hid] at hid'
    cases hid'
    exact ⟨v, hv, hentry⟩
  · rintro ⟨v, hv, hentry⟩
    obtain ⟨p, hp⟩ := Option.ne_none_iff_exists'.mp (hholds.registered _ hentry)
    exact ⟨p, (hmem p).mpr ⟨v, hv, (hholds.mem v p).mpr ⟨id, hentry, hp⟩⟩, hp⟩

section

variable {env : Env} {c : Handle} {w : RedbWorld} {filter : Document} {indexName : String}

def bitmapEntry (row : Row) : Bytes × String := (row.1, (ofUtf8 row.2).getD "")

lemma reads_readBitmapRow (hids : HoldsIds c w indexName) : Reads w readBitmapRow
      (fun b row => .ok (true, b.insert (bitmapEntry row).2 (bitmapEntry row).1))
      (shown w.session (c.indexTable indexName)) := by
  intro row hrow cursor rest b hat
  obtain ⟨idStr, hid⟩ := hids row hrow
  have hentry : bitmapEntry row = (row.1, idStr) := by
    rw [bitmapEntry, hid, ofUtf8_utf8]
    rfl
  rw [readBitmapRow, bind_of_ok (getKeyRaw_of_at hat), bind_of_ok (getValueStr_of_at hat hid)]
  dsimp only
  rw [hentry]
  rfl

lemma foldRows_ok {β : Type} (f : β → Row → β) (rows : Rows) (acc : β) :
    foldRows (fun acc row => .ok (true, f acc row)) rows acc = .ok (rows.foldl f acc) := by
  induction rows generalizing acc with
  | nil => rfl
  | cons row rows ih => exact ih (f acc row)

lemma scanRows_readBitmapRow (hids : HoldsIds c w indexName) :
    scanRows { tableName := c.indexTable indexName : RedbCursor } .new readBitmapRow w =
      (.ok (.build ((shown w.session (c.indexTable indexName)).map bitmapEntry)), w) := by
  rw [scanRows_eq (reads_readBitmapRow hids), foldRows_ok, BitmapIndex.build, foldl_map]

lemma foldlM_collectById (hkeyed : Keyed env (w.committed c.tableName)) (ids : List String)
    (out : List Document) :
    (ids.foldlM (collectById env c filter) out) w =
      ((ids.filterMap fun id => docAt env (w.committed c.tableName) (utf8 id)).foldlM
        (keepStep env filter) out, w) := by
  apply foldlM_keepStep_filterMap
  · intro id _ hdoc out
    rw [collectById, bind_of_ok (fetchDocByIdStr_apply hkeyed id), hdoc]
    rfl
  · intro id _ doc hdoc out
    rw [collectById, bind_of_ok (fetchDocByIdStr_apply hkeyed id), hdoc]
    exact pushIfPasses_apply out doc w

lemma collectBitmapScan_apply (hkeyed : Keyed env (w.committed c.tableName))
    (hids : HoldsIds c w indexName) {field : String} {positions : List ℕ}
    (hpositions : bitmapPositions (.build ((shown w.session
      (c.indexTable indexName)).map bitmapEntry)) (filter.get field) = some positions) :
    collectBitmapScan env c filter indexName field w =
      (keep env filter (((BitmapIndex.build ((shown w.session
        (c.indexTable indexName)).map bitmapEntry)).positionsToIds positions).filterMap fun id =>
          docAt env (w.committed c.tableName) (utf8 id)), w) := by
  rw [collectBitmapScan, bind_of_ok (attempt_of_ok (openTable_apply (c.indexTable indexName) w))]
  dsimp only
  rw [bind_of_ok (scanRows_readBitmapRow hids), hpositions]
  dsimp only
  rw [foldlM_collectById hkeyed, foldlM_keepStep_nil]

lemma collectBitmapScan_of_none (hids : HoldsIds c w indexName) {field : String}
    (hnone : soughtBytes (filter.get field) = none) :
    collectBitmapScan env c filter indexName field w = collectCollectionScan env c filter w := by
  rw [collectBitmapScan, bind_of_ok (attempt_of_ok (openTable_apply (c.indexTable indexName) w))]
  dsimp only
  rw [bind_of_ok (scanRows_readBitmapRow hids), bitmapPositions_of_none _ hnone]

def soughtPrefix (filter indexKeys : Document) (prefixLength : ℕ) : Bytes :=
  let seekDoc := prefixSeekDoc filter indexKeys
  if seekDoc.isEmpty then [] else truncateKey (extractIndexKey seekDoc indexKeys) prefixLength

lemma collectPrefixIndexScan_apply (hkeyed : Keyed env (w.committed c.tableName))
    (hids : HoldsIds c w indexName) (indexKeys : Document) (prefixLength : ℕ) :
    collectPrefixIndexScan env c filter indexName indexKeys prefixLength w =
      (keep env filter (fetched env c w indexName
        (soughtPrefix filter indexKeys prefixLength)), w) := by
  rw [collectPrefixIndexScan,
    bind_of_ok (attempt_of_ok (openTable_apply (c.indexTable indexName) w)), soughtPrefix]
  dsimp only
  split
  · exact collectIndexScan_apply hkeyed hids
  · rw [seekRows_eq (reads_collectRow hkeyed hids (filter_subset_self _)), foldRows_keepRow,
      foldlM_keepStep_nil, fetched]

end

/-! ### Documents that are hit -/

def ExecutionPlan.specialised : ExecutionPlan → Option String
  | bitmapScan indexName _ => some indexName
  | prefixIndexScan indexName _ _ => some indexName
  | _ => none

/-- The id of the document stands in a row that is sought; a bitmap scan without keys goes through
the collection. -/
def ExecutionPlan.Hits (filter : Document) (idx : Table) (key : Bytes) : ExecutionPlan → Prop
  | bitmapScan _ field => ∀ vs ∈ soughtBytes (filter.get field),
      key ≠ [] ∧ ∃ v ∈ vs, idx.get v = some key
  | prefixIndexScan _ indexKeys prefixLength => ∃ row ∈ idx.rows, row.2 = key ∧
      soughtPrefix filter indexKeys prefixLength <+: row.1
  | _ => False

instance ExecutionPlan.decidableHits (filter : Document) (idx : Table) (key : Bytes) :
    (plan : ExecutionPlan) → Decidable (plan.Hits filter idx key)
  | bitmapScan _ field =>
    inferInstanceAs (Decidable (∀ vs ∈ soughtBytes (filter.get field),
      key ≠ [] ∧ ∃ v ∈ vs, idx.get v = some key))
  | prefixIndexScan _ indexKeys prefixLength =>
    inferInstanceAs (Decidable (∃ row ∈ idx.rows, row.2 = key ∧
      soughtPrefix filter indexKeys prefixLength <+: row.1))
  | collectionScan | indexScan .. | indexSeek .. | coveringIndexScan .. | sortedIndexScan ..
  | vectorIndexSearch .. | textIndexScan .. | geoNear .. | geoCapWithin .. | geoCellCover ..
  | orUnionPlans _ => .isFalse id

section

variable {env : Env} {c : Handle} {w : RedbWorld} {filter : Document} {indexName : String}
  {plan : ExecutionPlan} {t idx : Table}

/-- Fetched documents are the selected ones exactly if each is fetched and the filter does not fail.
-/
lemma keep_keys_iff (hkeyed : Keyed env t) {keys : List Bytes} (hnodup : keys.Nodup) :
    (∃ found reference, keep env filter (keys.filterMap (docAt env t)) = .ok found ∧
      keep env filter (documentsIn env t) = .ok reference ∧ found.Perm reference) ↔
    ∀ key doc, docAt env t key = some doc → (∃ b, evalQuery env doc filter = .ok b) ∧
      (evalQuery env doc filter = .ok true → key ∈ keys) := by
  have hfetched : (keys.filterMap (docAt env t)).Nodup := by
    refine List.Pairwise.filterMap _ ?_ hnodup
    intro key key' hne doc hdoc doc' hdoc' heq
    subst heq
    exact hne ((hkeyed.key_eq hdoc).trans (hkeyed.key_eq hdoc').symm)
  have hmem : ∀ {key doc}, docAt env t key = some doc →
      (doc ∈ keys.filterMap (docAt env t) ↔ key ∈ keys) := by
    intro key doc hdoc
    rw [mem_filterMap]
    constructor
    · rintro ⟨key', hkey', hdoc'⟩
      rwa [hkeyed.key_eq hdoc, ← hkeyed.key_eq hdoc']
    · intro hkey
      exact ⟨key, hkey, hdoc⟩
  simp only [keep_eq_ok]
  constructor
  · rintro ⟨found, reference, ⟨-, rfl⟩, ⟨heval, rfl⟩, hperm⟩ key doc hdoc
    have hstored : doc ∈ documentsIn env t := mem_documentsIn.mpr ⟨key, hdoc⟩
    refine ⟨heval doc hstored, fun htrue => (hmem hdoc).mp ?_⟩
    exact (mem_selected.mp (hperm.mem_iff.mpr (mem_selected.mpr ⟨hstored, htrue⟩))).1
  · intro h
    refine ⟨_, _, ⟨fun doc hdoc => ?_, rfl⟩, ⟨fun doc hdoc => ?_, rfl⟩, ?_⟩
    · obtain ⟨key, -, hdoc⟩ := mem_filterMap.mp hdoc
      exact (h key doc hdoc).1
    · obtain ⟨key, hdoc⟩ := mem_documentsIn.mp hdoc
      exact (h key doc hdoc).1
    · refine (perm_ext_iff_of_nodup (hfetched.filter _)
        (hkeyed.nodup_documentsIn.filter _)).mpr fun doc => ?_
      change doc ∈ selected env filter _ ↔ doc ∈ selected env filter _
      rw [mem_selected, mem_selected, mem_documentsIn]
      refine and_congr_left fun htrue => ⟨fun hdoc => ?_, fun ⟨key, hdoc⟩ => ?_⟩
      · obtain ⟨key, -, hdoc⟩ := mem_filterMap.mp hdoc
        exact ⟨key, hdoc⟩
      · exact (hmem hdoc).mpr ((h key doc hdoc).2 htrue)

lemma mem_map_bitmapEntry (hids : ∀ row ∈ idx.rows, ∃ idStr, row.2 = utf8 idStr) {v : Bytes}
    {id : String} : (v, id) ∈ idx.rows.map bitmapEntry ↔ idx.get v = some (utf8 id) := by
  rw [mem_map, get_eq_some_iff]
  constructor
  · rintro ⟨row, hrow, hentry⟩
    obtain ⟨idStr, hid⟩ := hids row hrow
    rw [bitmapEntry, hid, ofUtf8_utf8] at hentry
    obtain ⟨rfl, rfl⟩ := Prod.ext_iff.mp hentry
    exact (Prod.ext rfl hid : row = (row.1, utf8 idStr)) ▸ hrow
  · intro hrow
    refine ⟨_, hrow, ?_⟩
    rw [bitmapEntry, ofUtf8_utf8]
    rfl

lemma executePlan_specialised (hlegible : Legible env c w) (geo : PlanRunner)
    (hplan : plan.specialised = some indexName)
    (hshown : shown w.session (c.indexTable indexName) = idx.rows)
    (hnodup : (idx.rows.map Prod.snd).Nodup)
    (hids : ∀ row ∈ idx.rows, ∃ idStr, row.2 = utf8 idStr) :
    ((∀ key, plan.Hits filter idx key) ∧
      executePlan env c geo filter plan w = collectCollectionScan env c filter w) ∨
    ∃ keys : List Bytes, keys.Nodup ∧ (∀ key, key ∈ keys ↔ plan.Hits filter idx key) ∧
      executePlan env c geo filter plan w =
        (keep env filter (keys.filterMap (docAt env (w.committed c.tableName))), w) := by
  have hholds : HoldsIds c w indexName := fun row hrow => hids row (hshown ▸ hrow)
  cases plan with
  | bitmapScan name field =>
    cases hplan
    have hkeys : ((idx.rows.map bitmapEntry).map Prod.fst).Nodup := by
      rw [map_map]
      exact pairwise_map.mpr (ne_of_sorted idx.sorted)
    cases hsought : soughtBytes (filter.get field) with
    | none =>
      refine .inl ⟨fun key vs hvs => ?_, collectBitmapScan_of_none hholds hsought⟩
      rw [hsought] at hvs
      cases hvs
    | some vs =>
      obtain ⟨positions, hpositions, hnodup, hmem⟩ := exists_soughtIds hkeys hsought
      refine .inr ⟨_, hnodup.map utf8_injective, fun key => ?_, ?_⟩
      · rw [mem_map]
        constructor
        · rintro ⟨id, hid, rfl⟩ vs' hvs'
          rw [hsought] at hvs'
          cases hvs'
          obtain ⟨hne, v, hv, hentry⟩ := (hmem id).mp hid
          refine ⟨fun hempty => hne ?_, v, hv, (mem_map_bitmapEntry hids).mp hentry⟩
          exact utf8_injective (hempty.trans rfl)
        · intro hhits
          obtain ⟨hne, v, hv, hget⟩ := hhits vs hsought
          obtain ⟨id, rfl⟩ := hids _ (get_eq_some_iff.mp hget)
          refine ⟨id, (hmem id).mpr ⟨?_, v, hv, (mem_map_bitmapEntry hids).mpr hget⟩, rfl⟩
          rintro rfl
          exact hne rfl
      · rw [← hshown] at hpositions ⊢
        rw [executePlan, collectBitmapScan_apply hlegible.committed hholds hpositions,
          filterMap_map]
        rfl
  | prefixIndexScan name indexKeys prefixLength =>
    cases hplan
    refine .inr ⟨(rowsWith (soughtPrefix filter indexKeys prefixLength) idx.rows).map Prod.snd,
      ?_, fun key => ?_, ?_⟩
    · exact hnodup.sublist (filter_sublist.map _)
    · rw [mem_map]
      constructor
      · rintro ⟨row, hrow, hkey⟩
        obtain ⟨hrow, hpre⟩ := mem_rowsWith.mp hrow
        exact ⟨row, hrow, hkey, hpre⟩
      · rintro ⟨row, hrow, hkey, hpre⟩
        exact ⟨row, mem_rowsWith.mpr ⟨hrow, hpre⟩, hkey⟩
    · rw [executePlan, collectPrefixIndexScan_apply hlegible.committed hholds, fetched, hshown,
        filterMap_map]
      rfl
  | _ => cases hplan

lemma planQuery_specialised {geoPlan : Document → IndexSpec → Option QueryPlan}
    (hgeo : ∀ query spec plan, geoPlan query spec = some plan → plan.executionPlan.IsGeo)
    {specs : List IndexSpec}
    (h : (planQuery geoPlan filter specs).executionPlan.specialised = some indexName) :
    ∃ spec ∈ specs, spec.name = indexName ∧ spec.Unmaintained c ∧
      is2dsphereKeys spec.keys = false := by
  rcases planQuery_cases geoPlan filter specs with hscan | ⟨subplans, hunion⟩ | ⟨spec, hmem, hspec⟩
  · rw [hscan] at h
    cases h
  · rw [hunion] at h
    cases h
  · refine ⟨spec, hmem, ?_⟩
    cases hspec with
    | geo hkeys hplan =>
      have hgeo' := hgeo filter spec _ hplan
      generalize (planQuery geoPlan filter specs).executionPlan = plan at h hgeo'
      cases plan <;> first | exact hgeo'.elim | cases h
    | bitmap hkeys htype hplan =>
      rw [hplan] at h
      refine ⟨Option.some.inj h, ?_, hkeys⟩
      rw [IndexSpec.Unmaintained, Handle.Maintains, htype]
      exact id
    | prefixed hkeys htype hplan =>
      rw [hplan] at h
      refine ⟨Option.some.inj h, ?_, hkeys⟩
      rw [IndexSpec.Unmaintained, Handle.Maintains, htype]
      exact c.indexTable_ne_prefixTable spec.name spec.name
    | text htype hplan | vector htype hplan | seek hspec hplan hcost | scan hspec hplan hcost =>
      rw [hplan] at h
      cases h

lemma not_isLeaf_of_specialised (h : plan.specialised = some indexName) :
    ¬ plan.IsLeaf := by
  cases plan <;> first | exact id | cases h

end

section

variable {env : Env} {c : Handle} {w : RedbWorld} {calls : List Call}

/-- A bitmap or prefix scan finds what a collection scan finds iff no filter fails and each selected
document is hit in the index table. -/
theorem specialised_scan_perm_iff (hcodec : env.Codec) (hsep : c.Separate)
    (hgeo : ∀ query spec plan,
      env.evaluate2dspherePlan query spec = some plan → plan.executionPlan.IsGeo)
    (geo : ExecutionPlan → Document → Op RedbSession (List Document)) (hnew : w.New c)
    (hrun : Along (Call.step env c) (fun w call => call.Returns env c w ∧ call.SparesId) w calls)
    (filter : Document) :
    let w' := calls.foldl (Call.step env c) w
    let plan := (planQuery env.evaluate2dspherePlan filter (w'.specs env c)).executionPlan
    ∀ indexName, plan.specialised = some indexName →
      let idx := w'.committed (c.indexTable indexName)
      (∃ spec ∈ w'.specs env c, spec.name = indexName ∧ BuiltIn env c w calls spec idx) ∧
      ((∃ found reference,
          (find env c (fun plan filter => executePlan env c geo filter plan) filter w').1 =
            .ok found ∧
          (collectCollectionScan env c filter w').1 = .ok reference ∧ found.Perm reference) ↔
        ∀ key doc, docAt env (w'.committed c.tableName) key = some doc →
          (∃ b, evalQuery env doc filter = .ok b) ∧
          (evalQuery env doc filter = .ok true → plan.Hits filter idx key)) := by
  intro w' plan indexName hplan idx
  have hreaches : Reaches env c w calls w' := reaches_of_run hcodec hsep hnew hrun
  obtain ⟨spec, hmem, rfl, hspec, hkeys⟩ := planQuery_specialised (c := c) hgeo hplan
  obtain ⟨hbuilt, hnodup, hids⟩ := hreaches.holds spec hmem hspec hkeys
  refine ⟨⟨spec, hmem, rfl, hbuilt⟩, ?_⟩
  have hidle := hreaches.settled.idle
  have hview : w'.view = w'.committed := view_of_idle hidle
  have hlegible : Legible env c w' := by
    refine ⟨?_, hreaches.keyed, ?_⟩
    · rw [hview]
      exact hreaches.keyed
    · rw [hview, shown_of_idle hidle]
  -- listing the indexes fills the cache and leaves the session alone
  let w₁ : World RedbSession := { w' with indexCache := some (w'.specs env c) }
  have hlegible₁ : Legible env c w₁ := ⟨hlegible.keyed, hlegible.committed, hlegible.shown⟩
  have hscan : (collectCollectionScan env c filter w').1 =
      keep env filter (documentsIn env (w'.committed c.tableName)) := by
    rw [collectCollectionScan_apply hlegible, hview]
  rw [find_materialized hreaches.settled.listed (not_isLeaf_of_specialised hplan), hscan]
  rcases executePlan_specialised hlegible₁ geo hplan (shown_of_idle hidle _) hnodup hids with
    ⟨hhits, hexec⟩ | ⟨keys, hkeysNodup, hmemKeys, hexec⟩
  · have hsame : (executePlan env c geo filter plan w₁).1 =
        keep env filter (documentsIn env (w'.committed c.tableName)) := by
      rw [hexec, collectCollectionScan_apply hlegible₁, ← hview]
      rfl
    rw [hsame]
    simp only [keep_eq_ok]
    constructor
    · rintro ⟨found, reference, ⟨heval, -⟩, -⟩ key doc hdoc
      exact ⟨heval doc (mem_documentsIn.mpr ⟨key, hdoc⟩), fun _ => hhits key⟩
    · intro h
      have heval : ∀ doc ∈ documentsIn env (w'.committed c.tableName),
          ∃ b, evalQuery env doc filter = .ok b := by
        intro doc hdoc
        obtain ⟨key, hkey⟩ := mem_documentsIn.mp hdoc
        exact (h key doc hkey).1
      exact ⟨_, _, ⟨heval, rfl⟩, ⟨heval, rfl⟩, .refl _⟩
  · have hsame : (executePlan env c geo filter plan w₁).1 =
        keep env filter (keys.filterMap (docAt env (w'.committed c.tableName))) :=
      congrArg Prod.fst hexec
    rw [hsame, keep_keys_iff hreaches.keyed hkeysNodup]
    simp only [hmemKeys]
    exact Iff.rfl

end

namespace Sample

def prefixed : IndexSpec := ⟨"a_1", [("a", .int32 1)], { indexType := some .prefixed }⟩

def bitmap : IndexSpec := ⟨"a_1", [("a", .int32 1)], { indexType := some .bitmap }⟩

def specialisedEnv : Env := Env.ofLists [doc (.int32 1) (.string "x")] [prefixed, bitmap]

lemma specialised_codec : specialisedEnv.Codec :=
  Env.codec_ofLists (by decide +kernel) (by decide +kernel)

/-- What a query for the document returns after the calls, and what a scan of the collection
returns. -/
def foundAndScanned (calls : List Call) :
    Outcome CollectionError (List Document) × Outcome CollectionError (List Document) :=
  let w := calls.foldl (Call.step specialisedEnv handle) start
  let filter : Document := [("a", .string "x")]
  ((find specialisedEnv handle
      (fun plan filter => executePlan specialisedEnv handle noGeo filter plan) filter w).1,
    (collectCollectionScan specialisedEnv handle filter w).1)

end Sample

section

open Sample

/-- A document that was stored before the prefix index was created. -/
theorem specialised_scan_perm_iff_before :
    let r := foundAndScanned [.statement (insert (.int32 1) (.string "x")), create prefixed]
    ∃ found reference, r.1 = .ok found ∧ r.2 = .ok reference ∧ found.Perm reference := by
  have hrun : Along (Call.step specialisedEnv handle)
      (fun w call => call.Returns specialisedEnv handle w ∧ call.SparesId) start
      [.statement (insert (.int32 1) (.string "x")), create prefixed] :=
    ⟨⟨by decide +kernel, trivial⟩, ⟨by decide +kernel, trivial⟩, trivial⟩
  have hiff := specialised_scan_perm_iff specialised_codec separate
    (fun _ _ _ h => by cases h) noGeo
    start_new hrun [("a", .string "x")]
  obtain ⟨-, hhits⟩ := hiff "a_1" rfl
  unfold foundAndScanned
  dsimp only
  exact hhits.mpr (forall_docAt_iff.mp (by decide +kernel))

/-- A document stored after the prefix index has no row, and a bitmap scan looks for rows without
the id. -/
theorem specialised_scans_miss :
    let after := [create prefixed, .statement (insert (.int32 1) (.string "x"))]
    let before := [.statement (insert (.int32 1) (.string "x")), create bitmap]
    (planQuery specialisedEnv.evaluate2dspherePlan [("a", .string "x")]
        [prefixed]).executionPlan = .prefixIndexScan "a_1" [("a", .int32 1)] 16 ∧
      foundAndScanned after = (.ok [], .ok [doc (.int32 1) (.string "x")]) ∧
      (planQuery specialisedEnv.evaluate2dspherePlan [("a", .string "x")]
        [bitmap]).executionPlan = .bitmapScan "a_1" "a" ∧
      foundAndScanned before = (.ok [], .ok [doc (.int32 1) (.string "x")]) := by
  refine ⟨rfl, by decide +kernel, rfl, by decide +kernel⟩

end

end Smongo

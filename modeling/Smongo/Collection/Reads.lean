import Smongo.Collection.Footprint
import Smongo.Collection.Geo

/-!
# The footprint of queries

Queries look at the data, metadata and index tables of their collection, whatever
the plan, and write nothing.
-/

namespace Smongo

open Eff RedbCursor Bytes StorageCursor Composed

section

variable {S C : Type} [StorageCursor C] [StorageSession S C] (env : Env) (c : Handle)

def countBody (filter : Document) (cursor : C) (count : ℕ) : Op S (Bool × C × ℕ) := do
  let (_, hit) ← readMatch env filter cursor
  pure (true, cursor, if hit then count + 1 else count)

def countDocuments (filter : Document) : Op S ℕ := forRows c.tableName 0 (countBody env filter)

end

section

variable {env : Env} {c : Handle} {P W : String → Prop} {α β : Type}

variable {cursor : RedbCursor}

variable {body : RedbCursor → β → RedbOp (Bool × β)}

lemma uses_loopRows {name : String} (h : P name)
    (hbody : ∀ cursor acc, Uses env c P W (body cursor acc)) (fuel : ℕ)
    (hcursor : cursor.tableName = name) (acc : β) :
    Uses env c P W (loopRows body fuel cursor acc) := by
  induction fuel generalizing cursor acc with
  | zero => exact .pure trivial
  | succ fuel ih =>
    refine (hbody cursor acc).bind fun r _ => .ite ?_ (.pure trivial)
    refine (uses_next (hcursor.symm ▸ h)).bind fun moved hmoved => ?_
    obtain ⟨_ | _, cursor'⟩ := moved
    · exact .pure trivial
    · exact ih (hmoved.trans hcursor) r.2

lemma uses_scanRows (h : P cursor.tableName)
    (hbody : ∀ cursor acc, Uses env c P W (body cursor acc)) (acc : β) :
    Uses env c P W (scanRows cursor acc body) := by
  refine (uses_rowsLeft h).bind fun rows _ => (uses_next h).bind fun moved hmoved => ?_
  obtain ⟨_ | _, cursor'⟩ := moved
  · exact .pure trivial
  · exact uses_loopRows h hbody (rows + 1) hmoved acc

lemma RedbCursor.advanceSeek_congr {s t : RedbSession} (h : RedbSession.SameOn P s t)
    (hcursor : P cursor.tableName) (seekKey : Bytes) (positioned : Bool) :
    advanceSeek s cursor seekKey positioned = advanceSeek t cursor seekKey positioned := by
  have hname : (StorageSession.searchNear (StorageCursor.setKey cursor seekKey) t).2.tableName =
    cursor.tableName := searchNear_tableName
  unfold advanceSeek
  rw [next_congr h hcursor, searchNear_congr h (c := StorageCursor.setKey cursor seekKey) hcursor]
  rcases hfound : StorageSession.searchNear (StorageCursor.setKey cursor seekKey) t with
    ⟨_ | exact, cursor'⟩
  · rfl
  · rw [hfound] at hname
    dsimp only
    rw [next_congr h (hname.symm ▸ hcursor)]

lemma RedbCursor.advanceSeek_tableName {s : RedbSession} {cursor' : RedbCursor} {seekKey : Bytes}
    {positioned : Bool} (h : advanceSeek s cursor seekKey positioned = some cursor') :
    cursor'.tableName = cursor.tableName := by
  unfold advanceSeek at h
  split at h
  · split at h <;> cases h
    next hnext => exact (congrArg (·.2.tableName) hnext).symm.trans next_tableName
  · split at h
    · cases h
    · next hnear =>
      have hname := searchNear_tableName (c := StorageCursor.setKey cursor seekKey) (s := s)
      rw [hnear] at hname
      split at h
      · split at h <;> cases h
        next hnext => exact (congrArg (·.2.tableName) hnext).symm.trans (next_tableName.trans hname)
      · cases h
        exact hname

lemma uses_seekRows (h : P cursor.tableName) (seekKey : Bytes)
    (hbody : ∀ cursor acc, Uses env c P W (body cursor acc)) (acc : β) :
    Uses env c P W (seekRows cursor seekKey acc body) := by
  refine (uses_rowsLeft h).bind fun rows _ => ?_
  refine (uses_look (Q := fun found => ∀ cursor' ∈ found, cursor'.tableName = cursor.tableName)
    (fun s => advanceSeek s cursor seekKey false)
    (fun _ _ hst => advanceSeek_congr hst h seekKey false)
    fun _ _ hfound => advanceSeek_tableName hfound).bind fun found hfound => ?_
  cases found with
  | none => exact .pure trivial
  | some cursor' => exact uses_loopRows h hbody (rows + 1) (hfound cursor' rfl) acc

lemma uses_whilePrefix (seekKey : Bytes)
    (hbody : ∀ cursor acc, Uses env c P W (body cursor acc)) (cursor : RedbCursor) (acc : β) :
    Uses env c P W (whilePrefix seekKey body cursor acc) :=
  (uses_liftStorage _).bind fun _ _ => .ite (hbody cursor acc) (.pure trivial)

lemma uses_passes (filter doc : Document) : Uses env c P W (passes env filter doc) := .ofOutcome _

lemma uses_documentInRow (cursor : RedbCursor) : Uses env c P W (documentInRow env cursor) :=
  (uses_liftStorage _).bind fun _ _ => .ofOutcome _

lemma uses_pushIfPasses (filter : Document) (out : List Document) (doc : Document) :
    Uses env c P W (pushIfPasses env filter out doc) :=
  (uses_passes filter doc).bind fun _ _ => .ite (.pure trivial) (.pure trivial)

lemma uses_keepIds (ids : List String) (filter : Document) (out : List Document)
    (doc : Document) : Uses env c P W (keepIds env ids filter out doc) :=
  (Composed.ofOutcome _).bind fun _ _ =>
    .ite (.ite (.pure trivial) (uses_pushIfPasses filter out doc)) (.pure trivial)

lemma uses_pushUnseen (acc : List String × List Document) (doc : Document) :
    Uses env c P W (pushUnseen env acc doc) :=
  (Composed.ofOutcome _).bind fun _ _ => .ite (.pure trivial) (.pure trivial)

lemma uses_collectCoveredRow (filter indexKeys projection : Document) (cursor : RedbCursor)
    (out : List Document) :
    Uses env c P W (collectCoveredRow env filter indexKeys projection cursor out) := by
  refine (uses_liftStorage _).bind fun indexKeyRaw _ => ?_
  split
  · exact .pure trivial
  · exact (uses_passes _ _).bind fun _ _ =>
      .ite (.ite ((uses_liftStorage _).map) (.pure trivial)) (.pure trivial)

lemma uses_readBitmapRow (cursor : RedbCursor) (bitmap : BitmapIndex) :
    Uses env c P W (readBitmapRow cursor bitmap) :=
  (uses_liftStorage _).bind fun _ _ => (uses_liftStorage _).map

variable (hreads : c.Reads P)
include hreads

lemma uses_fetchDocByIdStr (id : String) : Uses env c P W (fetchDocByIdStr env c id) := by
  refine (uses_openTable c.tableName).bind fun cursor hcursor => ?_
  have hname : P (StorageCursor.setKey cursor (utf8 id)).tableName := hcursor.symm ▸ hreads.data
  refine (uses_search hname).bind fun r _ => ?_
  obtain ⟨_ | _, cursor'⟩ := r
  · exact .pure trivial
  · exact (uses_liftStorage _).bind fun _ _ => (Composed.ofOutcome _).map

lemma uses_documentOfRow (cursor : RedbCursor) : Uses env c P W (documentOfRow env c cursor) :=
  (uses_liftStorage _).bind fun idStr _ => uses_fetchDocByIdStr hreads idStr

variable (filter : Document)

lemma uses_collectRow (cursor : RedbCursor) (out : List Document) :
    Uses env c P W (collectRow env c filter cursor out) := by
  refine (uses_documentOfRow hreads cursor).bind fun found _ => ?_
  cases found with
  | none => exact .pure trivial
  | some doc => exact (uses_pushIfPasses filter out doc).map

lemma uses_collectById (out : List Document) (idStr : String) :
    Uses env c P W (collectById env c filter out idStr) := by
  refine (uses_fetchDocByIdStr hreads idStr).bind fun found _ => ?_
  cases found with
  | none => exact .pure trivial
  | some doc => exact uses_pushIfPasses filter out doc

lemma uses_firstOfRow (cursor : RedbCursor) (acc : Option Document) :
    Uses env c P W (firstOfRow env c filter cursor acc) := by
  refine (uses_documentOfRow hreads cursor).bind fun found _ => ?_
  cases found with
  | none => exact .pure trivial
  | some doc => exact (uses_passes filter doc).bind fun _ _ => .ite (.pure trivial) (.pure trivial)

variable (indexName : String)

section

variable (hbody : ∀ cursor acc, Uses env c P W (body cursor acc)) (acc : β)
include hbody

lemma uses_scanIndex :
    Uses env c P W (do
      let indexCursor ← openTable (c.indexTable indexName)
      scanRows indexCursor acc body) :=
  (uses_openTable _).bind fun _ hcursor =>
    uses_scanRows (hcursor.symm ▸ hreads.index indexName _ (.inl rfl)) hbody acc

lemma uses_seekIndex (seekKey : Bytes) :
    Uses env c P W (do
      let indexCursor ← openTable (c.indexTable indexName)
      seekRows indexCursor seekKey acc (whilePrefix seekKey body)) :=
  (uses_openTable _).bind fun _ hcursor =>
    uses_seekRows (hcursor.symm ▸ hreads.index indexName _ (.inl rfl)) seekKey
      (uses_whilePrefix seekKey hbody) acc

lemma uses_scanData :
    Uses env c P W (do
      let cursor ← openTable c.tableName
      scanRows cursor acc body) :=
  (uses_openTable _).bind fun _ hcursor => uses_scanRows (hcursor.symm ▸ hreads.data) hbody acc

end

lemma uses_collectCollectionScan :
    Uses env c P W (collectCollectionScan env c filter) :=
  uses_scanData hreads (fun cursor out => (uses_documentInRow cursor).bind fun doc _ =>
    (uses_pushIfPasses filter out doc).map) []

lemma uses_collectSortedIndexScan (limit : ℕ) :
    Uses env c P W (collectSortedIndexScan env c filter indexName limit) := by
  refine uses_scanIndex hreads indexName (fun cursor out => ?_) []
  refine (uses_documentOfRow hreads cursor).bind fun found _ => ?_
  cases found with
  | none => exact .pure trivial
  | some doc =>
    have hpush : ∀ holds : Bool, Uses env c P W (if holds then
        pure (decide ((out ++ [doc]).length < limit), out ++ [doc]) else pure (true, out) :
          RedbOp _) := fun _ => .ite (.pure trivial) (.pure trivial)
    exact .ite (hpush true) ((uses_passes filter doc).bind fun holds _ => hpush holds)

lemma uses_collectCoveringIndexScan
    (indexKeys : Document) (seekValues : Option Document) (projection : Document) :
    Uses env c P W
      (collectCoveringIndexScan env c filter indexName indexKeys seekValues projection :
        RedbOp _) := by
  cases seekValues with
  | none =>
    exact uses_scanIndex hreads indexName (uses_collectCoveredRow filter indexKeys projection) []
  | some seekVals =>
    exact uses_seekIndex hreads indexName (uses_collectCoveredRow filter indexKeys projection) [] _

omit hreads in
lemma uses_attempt_openTable (name : String) {f : Except CollectionError RedbCursor → RedbOp α}
    (hf : ∀ cursor : RedbCursor, cursor.tableName = name → Uses env c P W (f (.ok cursor))) :
    Uses env c P W (attempt (openTable name) >>= f) := by
  have hopen : Uses env c P W (attempt (openTable name))
      fun opened : Except CollectionError RedbCursor => opened = .ok { tableName := name } :=
    .pure rfl
  refine hopen.bind fun opened hopened => ?_
  rw [hopened]
  exact hf _ rfl

lemma uses_collectBitmapScan (field : String) :
    Uses env c P W (collectBitmapScan env c filter indexName field) := by
  refine uses_attempt_openTable _ fun cursor hcursor => ?_
  refine (uses_scanRows (hcursor.symm ▸ hreads.index indexName _ (.inl rfl)) uses_readBitmapRow
    .new).bind fun bitmap _ => ?_
  split
  · exact uses_collectCollectionScan hreads filter
  · exact .foldlM _ _ fun out idStr => uses_collectById hreads filter out idStr

lemma uses_collectPrefixIndexScan (indexKeys : Document) (prefixLength : ℕ) :
    Uses env c P W (collectPrefixIndexScan env c filter indexName indexKeys prefixLength :
      RedbOp _) := by
  refine uses_attempt_openTable _ fun cursor hcursor => .ite ?_ ?_
  · exact uses_scanIndex hreads indexName (uses_collectRow hreads filter) []
  · exact uses_seekRows (hcursor.symm ▸ hreads.index indexName _ (.inl rfl)) _
      (uses_whilePrefix _ (uses_collectRow hreads filter)) []

lemma uses_collectTextIndexScan (fields : List String) :
    Uses env c P W (collectTextIndexScan env c filter fields) := by
  unfold collectTextIndexScan
  split
  · exact uses_collectCollectionScan hreads filter
  · exact (uses_collectCollectionScan hreads []).bind fun allDocs _ =>
      .foldlM _ _ fun out doc => uses_keepIds _ _ out doc

lemma uses_collectVectorIndexSearch (field : String) (dimensions : ℕ) (metric : String)
    (efConstruction m : Option ℕ) (indexingMethod : String) :
    Uses env c P W (collectVectorIndexSearch env c filter field dimensions metric efConstruction m
      indexingMethod) := by
  unfold collectVectorIndexSearch
  split
  · exact uses_collectCollectionScan hreads filter
  · exact (uses_collectCollectionScan hreads []).bind fun allDocs _ =>
      .foldlM _ _ fun out doc => uses_keepIds _ _ out doc

omit hreads in
lemma uses_collectCellRow (rmin rmax : ℕ) (cursor : RedbCursor) (seen : List String) :
    Uses env c P W (collectCellRow rmin rmax cursor seen) := by
  refine (uses_liftStorage _).bind fun keyStr _ => ?_
  split
  · exact .pure trivial
  · exact .ite (.pure trivial) (.ite (.pure trivial) ((uses_liftStorage _).map))

variable (geometry : Geometry)

lemma uses_collectIdsGeoCells (indexName : String) (cells : List UInt64) :
    Uses env c P W (collectIdsGeoCells c geometry indexName cells) :=
  (uses_openTable _).bind fun _ hcursor => .foldlM _ _ fun seen cell =>
    uses_seekRows (hcursor.symm ▸ hreads.index indexName _ (.inl rfl)) _
      (uses_collectCellRow (geometry.rangeMin cell) (geometry.rangeMax cell)) seen

lemma uses_scoreById (filter : Document) (field : String) (lon lat : F64)
    (maxDistanceM minDistanceM : Option F64) (scored : List (F64 × Document)) (id : String) :
    Uses env c P W
      (scoreById env c geometry filter field lon lat maxDistanceM minDistanceM scored id :
        RedbOp _) := by
  refine (uses_fetchDocByIdStr hreads id).bind fun found _ => ?_
  cases found with
  | none => exact .pure trivial
  | some doc =>
    refine (uses_passes filter doc).bind fun _ _ => .ite ?_ (.pure trivial)
    split
    · exact .pure trivial
    · exact .ite (.pure trivial) (.ite (.pure trivial) (.pure trivial))

lemma uses_materializeGeoPlan (plan : ExecutionPlan) (filter : Document) :
    Uses env c P W (materializeGeoPlan env c geometry plan filter) := by
  have hcollect : ∀ ids, Uses env c P W (collectIds env c geometry filter ids) :=
    fun ids => .foldlM _ _ fun out idStr => uses_collectById hreads filter out idStr
  unfold materializeGeoPlan
  split
  · exact (uses_collectIdsGeoCells hreads geometry _ _).bind fun ids _ =>
      (foldlM _ _ fun scored id => uses_scoreById hreads geometry filter _ _ _ _ _ scored id).map
  · exact (uses_collectIdsGeoCells hreads geometry _ _).bind fun ids _ => hcollect ids
  · exact (uses_collectIdsGeoCells hreads geometry _ _).bind fun ids _ => hcollect ids
  · exact .fail _

end

section

variable {env : Env} {c : Handle} {P W : String → Prop}

mutual

theorem uses_executePlan (hreads : c.Reads P) (geometry : Geometry) (filter : Document) :
    ∀ plan : ExecutionPlan, Uses env c P W
      (executePlan env c (materializeGeoPlan env c geometry) filter plan)
  | .collectionScan => by
    exact uses_collectCollectionScan hreads filter
  | .indexScan indexName _ => by
    exact uses_scanIndex hreads indexName (uses_collectRow hreads filter) []
  | .indexSeek indexName _ _ => by
    exact uses_seekIndex hreads indexName (uses_collectRow hreads filter) [] _
  | .coveringIndexScan _ _ _ _ => by
    exact uses_collectCoveringIndexScan hreads filter _ _ _ _
  | .sortedIndexScan _ _ _ _ => by
    exact uses_collectSortedIndexScan hreads filter _ _
  | .bitmapScan _ _ => by
    exact uses_collectBitmapScan hreads filter _ _
  | .prefixIndexScan _ _ _ => by
    exact uses_collectPrefixIndexScan hreads filter _ _ _
  | .textIndexScan _ _ => by
    exact uses_collectTextIndexScan hreads filter _
  | .vectorIndexSearch .. => by
    exact uses_collectVectorIndexSearch hreads filter _ _ _ _ _ _
  | .geoNear .. | .geoCapWithin .. | .geoCellCover .. => by
    rw [executePlan]
    exact uses_materializeGeoPlan hreads geometry _ filter
  | .orUnionPlans subplans => by
    exact (uses_executeUnion hreads geometry filter subplans ([], [])).map
termination_by structural plan => plan

theorem uses_executeUnion (hreads : c.Reads P) (geometry : Geometry) (filter : Document) :
    ∀ (plans : List ExecutionPlan) (acc : List String × List Document), Uses env c P W
      (executeUnion env c (materializeGeoPlan env c geometry) filter plans acc)
  | [], acc => by exact .pure trivial
  | sub :: rest, acc => by
    exact (uses_executePlan hreads geometry filter sub).bind fun docs _ =>
      (foldlM docs acc fun acc doc => uses_pushUnseen acc doc).bind fun acc _ =>
        uses_executeUnion hreads geometry filter rest acc
termination_by structural plans => plans

end

def FindCursorState.In (P : String → Prop) : FindCursorState RedbCursor → Prop
  | collectionScan cursor => P cursor.tableName
  | indexScan indexCursor dataCursor | indexSeek indexCursor dataCursor _ _ =>
    P indexCursor.tableName ∧ P dataCursor.tableName
  | materialized _ => True

section

variable (env) {s t : RedbSession} (h : RedbSession.SameOn P s t)
include h

lemma offerByIndexRow_congr (filter : Document) (indexCursor : RedbCursor)
    {dataCursor : RedbCursor} (hdata : P dataCursor.tableName) :
    offerByIndexRow env filter s indexCursor dataCursor =
        offerByIndexRow env filter t indexCursor dataCursor ∧
      (offerByIndexRow env filter s indexCursor dataCursor).2.tableName = dataCursor.tableName := by
  unfold offerByIndexRow
  cases StorageCursor.getValueStr indexCursor with
  | error e => exact ⟨rfl, rfl⟩
  | ok idStr =>
    have hname : (StorageSession.search (StorageCursor.setKey dataCursor (utf8 idStr))
        t).2.tableName = dataCursor.tableName := search_tableName
    dsimp only
    rw [search_congr h (c := StorageCursor.setKey dataCursor (utf8 idStr)) hdata]
    refine ⟨rfl, ?_⟩
    rcases hfound : StorageSession.search (StorageCursor.setKey dataCursor (utf8 idStr)) t
      with ⟨_ | _, cursor⟩ <;> rw [hfound] at hname <;> exact hname

variable {state : FindCursorState RedbCursor}

lemma findStep_congr (filter : Document)
    (hstate : state.In P) : findStep env filter s state = findStep env filter t state ∧
      (findStep env filter s state).2.In P := by
  cases state with
  | materialized docs => cases docs <;> exact ⟨rfl, trivial⟩
  | collectionScan cursor =>
    have hname := next_tableName (c := cursor) (s := t)
    rw [findStep, findStep, next_congr h hstate]
    refine ⟨rfl, ?_⟩
    rcases hmoved : StorageSession.next cursor t with ⟨_ | _, cursor'⟩ <;> rw [hmoved] at hname <;>
      exact (congrArg P hname).mpr hstate
  | indexScan indexCursor dataCursor =>
    have hname := next_tableName (c := indexCursor) (s := t)
    rw [findStep, findStep, next_congr h hstate.1]
    rcases hmoved : StorageSession.next indexCursor t with ⟨_ | _, cursor'⟩ <;> rw [hmoved] at hname
    · exact ⟨rfl, hname.symm ▸ hstate.1, hstate.2⟩
    · obtain ⟨hoffer, hdata⟩ := offerByIndexRow_congr env h filter cursor' hstate.2
      refine ⟨?_, hname.symm ▸ hstate.1, hdata.symm ▸ hstate.2⟩
      dsimp only
      rw [hoffer]
  | indexSeek indexCursor dataCursor seekKey positioned =>
    have hadvance := advanceSeek_congr h hstate.1 seekKey positioned
    simp only [findStep, hadvance]
    cases hfound : advanceSeek t indexCursor seekKey positioned with
    | none => exact ⟨rfl, hstate⟩
    | some cursor' =>
      have hname := advanceSeek_tableName hfound
      obtain ⟨hoffer, hdata⟩ := offerByIndexRow_congr env h filter cursor' hstate.2
      dsimp only
      cases StorageCursor.getKeyRaw cursor' with
      | error e => exact ⟨rfl, hname.symm ▸ hstate.1, hstate.2⟩
      | ok indexKeyRaw =>
        dsimp only
        split
        · refine ⟨?_, hname.symm ▸ hstate.1, hdata.symm ▸ hstate.2⟩
          rw [hoffer]
        · exact ⟨rfl, hname.symm ▸ hstate.1, hstate.2⟩

lemma collectFound_congr (filter : Document) (fuel : ℕ) (hstate : state.In P) :
    collectFound env filter s fuel state = collectFound env filter t fuel state := by
  induction fuel generalizing state with
  | zero => rfl
  | succ fuel ih =>
    obtain ⟨hstep, hin⟩ := findStep_congr env h filter hstate
    rw [collectFound, collectFound, ← hstep]
    rcases hturn : findStep env filter s state with ⟨turn, state'⟩
    rw [hturn] at hin
    cases turn with
    | finished => rfl
    | skip => exact ih hin
    | item r =>
      dsimp only
      rw [ih hin]

omit env in
lemma findFuel_congr (hstate : state.In P) : findFuel s state = findFuel t state := by
  cases state with
  | materialized docs => rfl
  | collectionScan cursor => exact congrArg (· + 1) (rowsLeft_congr h hstate)
  | indexScan indexCursor _ | indexSeek indexCursor _ _ _ =>
    exact congrArg (· + 1) (rowsLeft_congr h hstate.1)

end

variable (hreads : c.Reads P) (geometry : Geometry) (filter : Document)
include hreads

lemma uses_findIntoIter :
    Uses env c P W (findIntoIter env c (materializeGeoPlan env c geometry) filter)
      (FindCursorState.In P) := by
  refine (uses_listIndexes hreads).bind fun specs _ => ?_
  have hindex : ∀ name, P (c.indexTable name) := fun name => hreads.index name _ (.inl rfl)
  split
  · next indexName _ _ _ =>
    exact (uses_openTable _).bind fun _ hi => (uses_openTable _).bind fun _ hd =>
      .pure ⟨hi.symm ▸ hindex indexName, hd.symm ▸ hreads.data⟩
  · next indexName _ _ =>
    exact (uses_openTable _).bind fun _ hi => (uses_openTable _).bind fun _ hd =>
      .pure ⟨hi.symm ▸ hindex indexName, hd.symm ▸ hreads.data⟩
  · refine (uses_openTable _).bind fun cursor hcursor => .pure ?_
    change P cursor.tableName
    exact hcursor.symm ▸ hreads.data
  · exact (uses_executePlan hreads geometry filter _).bind fun _ _ => .pure trivial

lemma uses_find : Uses env c P W (find env c (fun plan filter =>
      executePlan env c (materializeGeoPlan env c geometry) filter plan) filter) := by
  refine (uses_findIntoIter hreads geometry filter).bind fun state hstate => ?_
  refine .prim (.look (fun s => collectFound env filter s (findFuel s state) state)
    (fun s t hst => ?_) fun _ _ _ => trivial)
  rw [findFuel_congr hst hstate, collectFound_congr env hst filter _ hstate]

lemma uses_findOne :
    Uses env c P W (findOne env c (materializeGeoPlan env c geometry) filter :
      RedbOp _) := by
  refine (uses_listIndexes hreads).bind fun specs _ => ?_
  split
  · exact uses_seekIndex hreads _ (uses_firstOfRow hreads filter) none _
  · exact uses_scanIndex hreads _ (uses_firstOfRow hreads filter) none
  · exact uses_scanData hreads (fun cursor _ => (uses_documentInRow cursor).bind fun doc _ =>
      (uses_passes filter doc).bind fun _ _ => .ite (.pure trivial) (.pure trivial)) none
  · exact (uses_executePlan hreads geometry filter _).bind fun _ _ => .pure trivial

lemma uses_findWithOptions (options : FindOptions) :
    Uses env c P W (findWithOptions env c (materializeGeoPlan env c geometry) filter options :
      RedbOp _) :=
  (uses_listIndexes hreads).bind fun _ _ =>
    (uses_executePlan hreads geometry filter _).bind fun _ _ => .ofOutcome _

omit geometry in
lemma uses_countDocuments : Uses env c P W (countDocuments env c filter) :=
  uses_forRows hreads.data (fun cursor _ hcursor => (uses_readMatch filter cursor).bind fun _ _ =>
    .pure hcursor) 0

end

end Smongo

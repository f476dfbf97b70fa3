import Smongo.Collection.Exec
import Smongo.Collection.Seek

/-!
# What the executor's loops collect

On `redb` a loop of the executor is a fold over the rows that its cursor shows.
-/

namespace Smongo

open Eff List RedbCursor Bytes

/-! ### Loops as folds -/

/-- What a loop comes to whose body does `step`: the rows up to the first one at which it does
not go on. -/
def foldRows {β : Type} (step : β → Row → Outcome CollectionError (Bool × β)) :
    Rows → β → Outcome CollectionError β
  | [], acc => .ok acc
  | row :: rows, acc => do
    let (goOn, acc) ← step acc row
    if goOn then foldRows step rows acc else .ok acc

section

variable {β : Type} {w : RedbWorld} {body : RedbCursor → β → RedbOp (Bool × β)}
  {step : β → Row → Outcome CollectionError (Bool × β)}

def Reads (w : RedbWorld) (body : RedbCursor → β → RedbOp (Bool × β))
    (step : β → Row → Outcome CollectionError (Bool × β))
    (rows : Rows) : Prop :=
  ∀ row ∈ rows, ∀ cursor rest acc, RedbCursor.At cursor row rest →
    body cursor acc w = (step acc row, w)

lemma loopRows_eq {row : Row} {rows : Rows} {fuel : ℕ}
    {cursor : RedbCursor} (hbody : Reads w body step (row :: rows))
    (hat : RedbCursor.At cursor row rows) (hfuel : rows.length < fuel) (acc : β) :
    loopRows body fuel cursor acc w = (foldRows step (row :: rows) acc, w) := by
  induction fuel generalizing row rows cursor acc with
  | zero => omega
  | succ fuel ih =>
    have hrow := hbody row mem_cons_self cursor rows acc hat
    rw [loopRows, foldRows]
    cases hstep : step acc row with
    | error e => exact bind_of_error (hstep ▸ hrow)
    | panic => exact bind_of_panic (hstep ▸ hrow)
    | ok r =>
      obtain ⟨goOn, acc'⟩ := r
      rw [bind_of_ok (hstep ▸ hrow)]
      cases goOn with
      | false => rfl
      | true =>
        cases rows with
        | nil => exact bind_of_ok (move_next_nil (hat.left w.session))
        | cons next rows =>
          obtain ⟨cursor', hnext, hat', -⟩ := move_next_cons (hat.left w.session)
          refine (bind_of_ok hnext).trans (ih (fun r hr => ?_) hat' (by simpa using hfuel) acc')
          exact hbody r (mem_cons_of_mem _ hr)

variable {name : String}

lemma read_rowsLeft (w : RedbWorld) (name : String) :
    (read fun w => StorageSession.rowsLeft ({ tableName := name } : RedbCursor) w.session :
      RedbOp ℕ) w = (.ok (shown w.session name).length, w) := by
  rw [← rowsLeft_of_left (left_shown w.session name)]
  rfl

lemma scanRows_eq (hbody : Reads w body step (shown w.session name)) (acc : β) :
    scanRows { tableName := name : RedbCursor } acc body w =
      (foldRows step (shown w.session name) acc, w) := by
  have hleft := left_shown w.session name
  rw [scanRows, bind_of_ok (read_rowsLeft w name)]
  generalize shown w.session name = rows at hleft hbody
  cases rows with
  | nil => exact bind_of_ok (move_next_nil hleft)
  | cons row rows =>
    obtain ⟨cursor', hnext, hat, -⟩ := move_next_cons hleft
    refine (bind_of_ok hnext).trans (loopRows_eq hbody hat ?_ acc)
    rw [length_cons]
    omega

lemma foldRows_whilePrefix (pre : Bytes) (rows : Rows) (acc : β) :
    foldRows (fun acc row => if pre.isPrefixOf row.1 then step acc row else .ok (false, acc))
      rows acc = foldRows step (rows.takeWhile fun r => pre.isPrefixOf r.1) acc := by
  induction rows generalizing acc with
  | nil => rfl
  | cons row rows ih =>
    rw [foldRows, takeWhile_cons]
    split
    · simp only [foldRows, ih]
    · rfl

lemma getKeyRaw_of_at {cursor : RedbCursor} {row : Row} {rest : Rows}
    (hat : RedbCursor.At cursor row rest) :
    (liftStorage (StorageCursor.getKeyRaw cursor)) w = (.ok row.1, w) := by
  rw [hat.getKeyRaw]
  rfl

lemma seekRows_eq {pre : Bytes}
    (hbody : Reads w body step (rowsWith pre (shown w.session name))) (acc : β) :
    seekRows { tableName := name : RedbCursor } pre acc (whilePrefix pre body) w =
      (foldRows step (rowsWith pre (shown w.session name)) acc, w) := by
  let cursor : RedbCursor := { tableName := name }
  have hread : (read fun w => advanceSeek w.session cursor pre false :
      RedbOp (Option RedbCursor)) w = (.ok (advanceSeek w.session cursor pre false), w) :=
    rfl
  rw [seekRows, bind_of_ok (read_rowsLeft w name), bind_of_ok hread]
  rcases advanceSeek_first w.session cursor pre with
    ⟨hnone, hnil⟩ | ⟨cursor', before, row, after, hsome, hat, hshown, hwith⟩
  · have hnil' : rowsWith pre (shown w.session name) = [] := hnil
    rw [hnone, hnil']
    rfl
  · have hshown' : shown w.session name = before ++ row :: after := hshown
    have hwith' : rowsWith pre (shown w.session name) = _ := hwith
    rw [hsome, hwith', ← foldRows_whilePrefix]
    refine loopRows_eq (fun r hr cursor rest acc hat => ?_) hat ?_ acc
    · rw [whilePrefix, bind_of_ok (getKeyRaw_of_at hat)]
      split
      · next hpre =>
        refine hbody r (mem_rowsWith.mpr ⟨?_, isPrefixOf_iff_prefix.mp hpre⟩) cursor rest acc hat
        rw [hshown']
        exact mem_append_right _ hr
      · rfl
    · rw [hshown', length_append, length_cons]
      omega

/-- A body that notes the row on which the cursor stands. -/
def visitRow (cursor : RedbCursor) (seen : Rows) : RedbOp (Bool × Rows) := do
  let key ← liftStorage (StorageCursor.getKeyRaw cursor)
  let value ← liftStorage (StorageCursor.getValueRaw cursor)
  pure (true, seen ++ [(key, value)])

lemma reads_visitRow (w : RedbWorld) (rows : Rows) :
    Reads w visitRow (fun seen row => .ok (true, seen ++ [row])) rows := by
  intro row _ cursor rest seen hat
  rw [visitRow, bind_of_ok (getKeyRaw_of_at hat), getValueRaw_of_at hat]
  rfl

lemma foldRows_visit (rows seen : Rows) :
    foldRows (fun seen row => .ok (true, seen ++ [row])) rows seen = .ok (seen ++ rows) := by
  induction rows generalizing seen with
  | nil => rw [foldRows, append_nil]
  | cons row rows ih =>
    refine (ih (seen ++ [row])).trans ?_
    rw [append_assoc, singleton_append]

/-- A seek loop visits exactly the rows whose key begins with the prefix, each once and in key
order, and the probe finds out whether there is one. -/
theorem prefix_scan_exact (hw : w.session.inTransaction = false) (name : String) (pre : Bytes) :
    (∃ visited : Rows,
      seekRows { tableName := name : RedbCursor } pre [] (whilePrefix pre visitRow) w =
        (.ok visited, w) ∧
      (∀ row, row ∈ visited ↔ row ∈ (w.committed name).rows ∧ pre <+: row.1) ∧
      visited.Pairwise fun a b => a.1 < b.1) ∧
    ∀ cursor : RedbCursor, cursor.tableName = name → ∃ found : Bool,
      indexHasPrefix cursor pre w = (.ok found, w) ∧
        (found = true ↔ ∃ row ∈ (w.committed name).rows, pre <+: row.1) := by
  have hshown := shown_of_idle hw name
  constructor
  · refine ⟨rowsWith pre (w.committed name).rows, ?_, fun row => mem_rowsWith, ?_⟩
    · rw [seekRows_eq (reads_visitRow w _), foldRows_visit, hshown]
      rfl
    · exact (w.committed name).sorted.filter _
  · rintro cursor rfl
    exact ⟨_, indexHasPrefix_apply cursor pre w, by rw [hshown, hasPrefix_eq_true]⟩

section

open Sample

theorem prefix_scan_exact_one : (∃ visited : Rows,
    seekRows { tableName := "t" : RedbCursor } (utf8 "1") []
      (whilePrefix (utf8 "1") visitRow) one = (.ok visited, one) ∧ visited ≠ []) ∧
    indexHasPrefix { tableName := "t" : RedbCursor } (utf8 "2") one = (.ok false, one) := by
  have hidle : one.session.inTransaction = false := rfl
  constructor
  · obtain ⟨⟨visited, hrun, hmem, -⟩, -⟩ := prefix_scan_exact hidle "t" (utf8 "1")
    have hrow : ∃ row ∈ (one.committed "t").rows, utf8 "1" <+: row.1 := by decide +kernel
    obtain ⟨row, hrow⟩ := hrow
    exact ⟨visited, hrun, ne_nil_of_mem ((hmem row).mpr hrow)⟩
  · obtain ⟨found, hrun, hfound⟩ :=
      (prefix_scan_exact hidle "t" (utf8 "2")).2 { tableName := "t" } rfl
    have hnone : ¬ ∃ row ∈ (one.committed "t").rows, utf8 "2" <+: row.1 := by decide +kernel
    rw [hrun, Bool.eq_false_iff.mpr fun htrue => hnone (hfound.mp htrue)]

end

end

section

variable (env : Env) (filter : Document)

def keep (docs : List Document) : Outcome CollectionError (List Document) :=
  FindStep.collect (docs.map (judge env filter))

def keepStep (out : List Document) (doc : Document) : Outcome CollectionError (List Document) := do
  if ← (evalQuery env doc filter).mapError .queryError then .ok (out ++ [doc]) else .ok out

variable {env filter}

lemma pushIfPasses_apply (out : List Document) (doc : Document) (w : RedbWorld) :
    (pushIfPasses env filter out doc) w = (keepStep env filter out doc, w) := by
  unfold pushIfPasses passes keepStep
  cases evalQuery env doc filter with
  | ok holds => cases holds <;> rfl
  | error e | panic => rfl

lemma foldlM_keepStep (docs out : List Document) :
    docs.foldlM (keepStep env filter) out = (do .ok (out ++ (← keep env filter docs))) := by
  induction docs generalizing out with
  | nil => simp [keep, FindStep.collect]
  | cons doc docs ih =>
    rw [foldlM_cons, keep, map_cons, judge, keepStep]
    cases evalQuery env doc filter with
    | error e | panic => rfl
    | ok holds =>
      cases holds with
      | false => exact ih out
      | true =>
        change docs.foldlM (keepStep env filter) (out ++ [doc]) = _
        rw [ih]
        change _ = (do .ok (out ++ (← (do .ok (doc :: (← keep env filter docs))))))
        cases keep env filter docs with
        | ok rest => simp
        | error e | panic => rfl

lemma foldlM_keepStep_nil (docs : List Document) :
    docs.foldlM (keepStep env filter) [] = keep env filter docs := by
  rw [foldlM_keepStep]
  cases keep env filter docs <;> rfl

lemma foldlM_keepStep_filterMap {α : Type} {w : RedbWorld} {xs : List α}
    {f : List Document → α → RedbOp (List Document)} {lead : α → Option Document}
    (hnone : ∀ x ∈ xs, lead x = none → ∀ out, f out x w = (.ok out, w))
    (hsome : ∀ x ∈ xs, ∀ doc, lead x = some doc →
      ∀ out, f out x w = (keepStep env filter out doc, w)) (out : List Document) :
    (xs.foldlM f out) w = ((xs.filterMap lead).foldlM (keepStep env filter) out, w) := by
  induction xs generalizing out with
  | nil => rfl
  | cons x xs ih =>
    have hrest := ih (fun y hy => hnone y (mem_cons_of_mem _ hy))
      (fun y hy => hsome y (mem_cons_of_mem _ hy))
    rw [foldlM_cons, filterMap_cons]
    cases hlead : lead x with
    | none => exact (bind_of_ok (hnone x mem_cons_self hlead out)).trans (hrest out)
    | some doc =>
      have hone := hsome x mem_cons_self doc hlead out
      rw [foldlM_cons]
      cases hstep : keepStep env filter out doc with
      | ok out' => exact (bind_of_ok (hone.trans (by rw [hstep]))).trans (hrest out')
      | error e => exact bind_of_error (hone.trans (by rw [hstep]))
      | panic => exact bind_of_panic (hone.trans (by rw [hstep]))

lemma keep_eq_ok {docs found : List Document} : keep env filter docs = .ok found ↔
    (∀ doc ∈ docs, ∃ b, evalQuery env doc filter = .ok b) ∧ found = selected env filter docs :=
  collect_map_judge

lemma keep_of_ok {docs : List Document}
    (h : ∀ doc ∈ docs, ∃ b, evalQuery env doc filter = .ok b) :
    keep env filter docs = .ok (selected env filter docs) := keep_eq_ok.mpr ⟨h, rfl⟩

end

/-! ### Plans over rows -/

section

variable {env : Env} {c : Handle} {w : RedbWorld} {filter : Document} {indexName : String}

variable (env c w) in
def fetched (indexName : String) (pre : Bytes) : List Document :=
  (rowsWith pre (shown w.session (c.indexTable indexName))).filterMap fun r =>
    docAt env (w.committed c.tableName) r.2

variable (c w) in
def HoldsIds (indexName : String) : Prop :=
  ∀ r ∈ shown w.session (c.indexTable indexName), ∃ idStr, r.2 = utf8 idStr

lemma fetchDocByIdStr_apply (hkeyed : Keyed env (w.committed c.tableName)) (idStr : String) :
    fetchDocByIdStr env c idStr w =
      (.ok (docAt env (w.committed c.tableName) (utf8 idStr)), w) := by
  cases hdoc : docAt env (w.committed c.tableName) (utf8 idStr) with
  | some doc => exact fetchDocByIdStr_of_docAt hdoc
  | none =>
    have hget := hkeyed.docAt_eq_none_iff.mp hdoc
    let cursor : RedbCursor := { tableName := c.tableName, pendingKey := some (utf8 idStr) }
    obtain ⟨e, hsearch⟩ := search_of_get_eq_none (c := cursor) rfl hget
    rw [fetchDocByIdStr, bind_of_ok (openTable_apply c.tableName w)]
    refine (bind_of_ok (move_search cursor w)).trans ?_
    rw [hsearch]
    rfl

variable {cursor : RedbCursor} {row : Row} {rest : Rows}

lemma getValueStr_of_at
    (hat : RedbCursor.At cursor row rest) {idStr : String} (hrow : row.2 = utf8 idStr) :
    (liftStorage (StorageCursor.getValueStr cursor)) w = (.ok idStr, w) := by
  have hvalue := hat.getValueStr hrow
  rw [hvalue]
  rfl

lemma documentOfRow_apply (hkeyed : Keyed env (w.committed c.tableName))
    (hat : RedbCursor.At cursor row rest) (hrow : ∃ idStr, row.2 = utf8 idStr) :
    documentOfRow env c cursor w = (.ok (docAt env (w.committed c.tableName) row.2), w) := by
  obtain ⟨idStr, hrow⟩ := hrow
  rw [documentOfRow, bind_of_ok (getValueStr_of_at hat hrow), fetchDocByIdStr_apply hkeyed, hrow]

variable (env filter) in
def keepRow (docOf : Row → Option Document) (out : List Document) (row : Row) :
    Outcome CollectionError (Bool × List Document) :=
  match docOf row with
  | some doc => do .ok (true, ← keepStep env filter out doc)
  | none => .ok (true, out)

lemma foldRows_keepRow {docOf : Row → Option Document} (rows : Rows) (out : List Document) :
    foldRows (keepRow env filter docOf) rows out =
      (rows.filterMap docOf).foldlM (keepStep env filter) out := by
  induction rows generalizing out with
  | nil => rfl
  | cons row rows ih =>
    rw [foldRows, filterMap_cons, keepRow]
    cases docOf row with
    | none => exact ih out
    | some doc =>
      simp only [foldlM_cons]
      cases keepStep env filter out doc with
      | ok out' => exact ih out'
      | error e | panic => rfl

lemma pushIfPasses_bind (out : List Document) (doc : Document) (w : RedbWorld) :
    (pushIfPasses env filter out doc >>= fun out => pure (true, out)) w =
      ((do .ok (true, ← keepStep env filter out doc)), w) := by
  rw [bind_apply, pushIfPasses_apply]
  cases keepStep env filter out doc <;> rfl

variable (env filter) in
def firstStep (doc : Document) : Outcome CollectionError (Bool × Option Document) := do
  let holds ← (evalQuery env doc filter).mapError .queryError
  .ok (if holds then (false, some doc) else (true, none))

variable (env filter) in
def firstRow (docOf : Row → Option Document) (_ : Option Document)
    (row : Row) : Outcome CollectionError (Bool × Option Document) :=
  match docOf row with
  | some doc => firstStep env filter doc
  | none => .ok (true, none)

lemma foldRows_firstRow {docOf : Row → Option Document} (rows : Rows)
    (h : ∀ doc ∈ rows.filterMap docOf, ∃ b, evalQuery env doc filter = .ok b) :
    foldRows (firstRow env filter docOf) rows none =
      .ok (selected env filter (rows.filterMap docOf)).head? := by
  induction rows with
  | nil => rfl
  | cons row rows ih =>
    rw [foldRows, firstRow]
    rw [filterMap_cons] at h ⊢
    cases hdoc : docOf row with
    | none =>
      rw [hdoc] at h
      exact ih h
    | some doc =>
      rw [hdoc] at h
      obtain ⟨holds, heval⟩ := h doc mem_cons_self
      have hrest := ih fun d hd => h d (mem_cons_of_mem _ hd)
      simp only [firstStep, heval, Outcome.mapError_ok, Outcome.ok_bind]
      cases holds with
      | true => simp [selected, heval]
      | false => simpa [selected, heval] using hrest

lemma firstIfPasses_apply (doc : Document) (w : RedbWorld) :
    (firstIfPasses env filter doc) w = (firstStep env filter doc, w) := by
  unfold firstIfPasses passes firstStep
  cases evalQuery env doc filter with
  | ok holds => cases holds <;> rfl
  | error e | panic => rfl

section

variable (hkeyed : Keyed env (w.committed c.tableName)) (hids : HoldsIds c w indexName)
include hkeyed hids

lemma reads_collectRow {rows : Rows} (hsub : rows ⊆ shown w.session (c.indexTable indexName)) :
    Reads w (collectRow env c filter)
      (keepRow env filter fun row => docAt env (w.committed c.tableName) row.2) rows := by
  intro row hrow cursor rest out hat
  rw [collectRow, bind_of_ok (documentOfRow_apply hkeyed hat (hids row (hsub hrow))), keepRow]
  cases docAt env (w.committed c.tableName) row.2 with
  | none => rfl
  | some doc => exact pushIfPasses_bind out doc w

lemma collectIndexScan_apply : collectIndexScan env c filter indexName w =
    (keep env filter (fetched env c w indexName []), w) := by
  rw [collectIndexScan, bind_of_ok (openTable_apply _ w),
    scanRows_eq (reads_collectRow hkeyed hids (List.Subset.refl _)), foldRows_keepRow,
    foldlM_keepStep_nil, fetched, rowsWith_nil]

lemma collectIndexSeek_apply (indexKeys seekValues : Document) :
    collectIndexSeek env c filter indexName indexKeys seekValues w =
      (keep env filter (fetched env c w indexName (buildSeekPrefix indexKeys seekValues)), w) := by
  rw [collectIndexSeek, bind_of_ok (openTable_apply _ w),
    seekRows_eq (reads_collectRow hkeyed hids (filter_subset_self _)), foldRows_keepRow,
    foldlM_keepStep_nil, fetched]

lemma reads_firstOfRow {rows : Rows} (hsub : rows ⊆ shown w.session (c.indexTable indexName)) :
    Reads w (firstOfRow env c filter)
      (firstRow env filter fun row => docAt env (w.committed c.tableName) row.2) rows := by
  intro row hrow cursor rest out hat
  rw [firstOfRow, bind_of_ok (documentOfRow_apply hkeyed hat (hids row (hsub hrow))), firstRow]
  cases docAt env (w.committed c.tableName) row.2 with
  | none => rfl
  | some doc => exact firstIfPasses_apply doc w

lemma findOneWithIndexScan_apply
    (h : ∀ doc ∈ fetched env c w indexName [], ∃ b, evalQuery env doc filter = .ok b) :
    findOneWithIndexScan env c filter indexName w =
      (.ok (selected env filter (fetched env c w indexName [])).head?, w) := by
  rw [fetched, rowsWith_nil] at h ⊢
  rw [findOneWithIndexScan, bind_of_ok (openTable_apply _ w),
    scanRows_eq (reads_firstOfRow hkeyed hids (List.Subset.refl _)), foldRows_firstRow _ h]

lemma findOneWithIndexSeek_apply (indexKeys seekValues : Document)
    (h : ∀ doc ∈ fetched env c w indexName (buildSeekPrefix indexKeys seekValues),
      ∃ b, evalQuery env doc filter = .ok b) :
    findOneWithIndexSeek env c filter indexName indexKeys seekValues w = (.ok (selected env filter
        (fetched env c w indexName (buildSeekPrefix indexKeys seekValues))).head?, w) := by
  rw [findOneWithIndexSeek, bind_of_ok (openTable_apply _ w),
    seekRows_eq (reads_firstOfRow hkeyed hids (filter_subset_self _)),
    foldRows_firstRow _ h]
  rfl

end

/-- Rows are keyed by ids, among the committed and among the visible ones, and scans show the
latter. -/
structure Legible (env : Env) (c : Handle) (w : RedbWorld) : Prop where
  keyed : Keyed env (w.view c.tableName)
  committed : Keyed env (w.committed c.tableName)
  shown : shown w.session c.tableName = (w.view c.tableName).rows

lemma documentInRow_apply (hat : RedbCursor.At cursor row rest) {doc : Document}
    (hread : env.fromReader row.2 = .ok doc) :
    (documentInRow env cursor) w = (.ok doc, w) := by
  have hraw : (liftStorage (StorageCursor.getValueRaw cursor)) w =
      (.ok row.2, w) := by
    rw [getValueRaw_of_at hat]
    rfl
  have hdoc : deserializeDocument env row.2 = .ok doc := by
    rw [deserializeDocument, hread]
    rfl
  refine (bind_of_ok hraw).trans ?_
  rw [hdoc]
  rfl

lemma Legible.reads (h : Legible env c w) {β : Type} {body : β → Document → RedbOp (Bool × β)}
    {f : β → Row → Outcome CollectionError (Bool × β)}
    (hbody : ∀ acc row doc, docAt env (w.view c.tableName) row.1 = some doc →
      body acc doc w = (f acc row, w)) :
    Reads w (fun cursor acc => documentInRow env cursor >>= body acc) f
      (RedbCursor.shown w.session c.tableName) := by
  intro row hrow cursor rest acc hat
  rw [h.shown] at hrow
  have hget := OrderedTable.get_eq_some_iff.mpr hrow
  obtain ⟨doc, -, hread, -⟩ := h.keyed row.1 row.2 hget
  refine (bind_of_ok (documentInRow_apply hat hread)).trans ?_
  exact hbody acc row doc (docAt_eq_some_iff.mpr ⟨row.2, hget, hread⟩)

lemma collectCollectionScan_apply (h : Legible env c w) : collectCollectionScan env c filter w =
    (keep env filter (documentsIn env (w.view c.tableName)), w) := by
  have hreads := h.reads (f := keepRow env filter fun row => docAt env (w.view c.tableName) row.1)
    fun out row doc hdoc => by
      rw [keepRow, hdoc]
      exact pushIfPasses_bind out doc w
  refine (scanRows_eq hreads []).trans ?_
  rw [foldRows_keepRow, foldlM_keepStep_nil, documentsIn, h.shown]

lemma findOneWithCollectionScan_apply (h : Legible env c w)
    (heval : ∀ doc ∈ documentsIn env (w.view c.tableName), ∃ b, evalQuery env doc filter = .ok b) :
    findOneWithCollectionScan env c filter w =
      (.ok (selected env filter (documentsIn env (w.view c.tableName))).head?, w) := by
  have hreads := h.reads (f := firstRow env filter fun row => docAt env (w.view c.tableName) row.1)
    fun _ row doc hdoc => by
      rw [firstRow, hdoc]
      exact firstIfPasses_apply doc w
  refine (scanRows_eq hreads none).trans ?_
  rw [h.shown, foldRows_firstRow _ heval]
  rfl

end

end Smongo

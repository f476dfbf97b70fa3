import Smongo.Collection.Runs

/-!
# Finding documents through an index

A seek goes through the rows that begin with the seek bytes and fetches their documents.
-/

namespace Smongo

open Eff List OrderedTable RedbCursor Bytes StorageCursor Statement

/-- What the loop returns if its turns come to the given steps. -/
def FindStep.collect : List FindStep → Outcome CollectionError (List Document)
  | [] => .ok []
  | .finished :: _ => .ok []
  | .skip :: steps => collect steps
  | .item r :: steps => do
    let doc ← r
    let docs ← collect steps
    .ok (doc :: docs)

lemma FindStep.collect_cons_congr {step : FindStep} {steps steps' : List FindStep}
    (h : collect steps = collect steps') : collect (step :: steps) = collect (step :: steps') := by
  cases step with
  | finished => rfl
  | skip => exact h
  | item r =>
    dsimp only [collect]
    rw [h]

def judge (env : Env) (filter doc : Document) : FindStep :=
  match evalQuery env doc filter with
  | .ok true => .item (.ok doc)
  | .ok false => .skip
  | .error e => .item (.error (.queryError e))
  | .panic => .item .panic

def fetch (env : Env) (filter : Document) (data : Table) (row : Row) : FindStep :=
  match docAt env data row.2 with
  | some doc => judge env filter doc
  | none => .skip

section

variable {env : Env} {filter : Document} {s : RedbSession}

lemma collectFound_eq_collect {V : FindCursorState RedbCursor → Rows → Prop}
    {step : Row → FindStep}
    (hnil : ∀ state, V state [] → (findStep env filter s state).1 = .finished)
    (hcons : ∀ state row rows, V state (row :: rows) →
      ∃ state', findStep env filter s state = (step row, state') ∧ V state' rows)
    {rows : Rows} {fuel : ℕ} (hfuel : rows.length < fuel)
    {state : FindCursorState RedbCursor} (h : V state rows) :
    collectFound env filter s fuel state = FindStep.collect (rows.map step) := by
  induction rows generalizing fuel state with
  | nil =>
    obtain ⟨fuel, rfl⟩ : ∃ n, fuel = n + 1 := ⟨fuel - 1, by omega⟩
    have hstep := hnil state h
    rw [collectFound]
    rcases hfound : findStep env filter s state with ⟨step', state'⟩
    rw [hfound] at hstep
    cases hstep
    rfl
  | cons row rows ih =>
    obtain ⟨fuel, rfl⟩ : ∃ n, fuel = n + 1 := ⟨fuel - 1, by omega⟩
    obtain ⟨state', hstep, hrest⟩ := hcons state row rows h
    have hih := ih (by simpa using hfuel) hrest
    rw [collectFound, hstep, map_cons]
    cases step row with
    | finished => rfl
    | skip => exact hih
    | item r =>
      dsimp only [FindStep.collect]
      rw [hih]

lemma offerDocument_of_read {bytes : Bytes} {doc : Document}
    (h : env.fromReader bytes = .ok doc) :
    offerDocument env filter (.ok bytes) = judge env filter doc := by
  have hread : deserializeDocument env bytes = .ok doc := by
    rw [deserializeDocument, h]
    rfl
  rw [offerDocument, hread]
  rfl

variable (filter) in
lemma offerByIndexRow_of_at {indexCursor dataCursor : RedbCursor} {row : Row}
    {rest : Rows} (hat : RedbCursor.At indexCursor row rest)
    (hkeyed : Keyed env (s.db.table dataCursor.tableName))
    {idStr : String} (hrow : row.2 = utf8 idStr) :
    ∃ dataCursor', offerByIndexRow env filter s indexCursor dataCursor =
        (fetch env filter (s.db.table dataCursor.tableName) row, dataCursor') ∧
      dataCursor'.tableName = dataCursor.tableName := by
  have hvalue := hat.getValueStr hrow
  let sought : RedbCursor := { dataCursor with pendingKey := some (utf8 idStr) }
  have heff : sought.effectiveKey = .ok (utf8 idStr) := rfl
  cases hget : (s.db.table dataCursor.tableName).get (utf8 idStr) with
  | none =>
    obtain ⟨e, hsearch⟩ := search_of_get_eq_none (c := sought) heff hget
    have hfound : StorageSession.search (StorageCursor.setKey dataCursor (utf8 idStr)) s =
        (.error e, sought) := hsearch
    refine ⟨sought, ?_, rfl⟩
    simp only [offerByIndexRow, hvalue, hfound, fetch, hrow, docAt_eq_none_of_get hget]
  | some bytes =>
    obtain ⟨doc, -, hread, -⟩ := hkeyed _ bytes hget
    let found : RedbCursor :=
      { sought with currentKey := some (utf8 idStr), currentValue := some bytes }
    have hfound : StorageSession.search (StorageCursor.setKey dataCursor (utf8 idStr)) s =
        (.ok (), found) := search_of_get_eq_some (c := sought) heff hget
    have hraw : StorageCursor.getValueRaw found = .ok bytes := rfl
    refine ⟨found, ?_, rfl⟩
    simp only [offerByIndexRow, hvalue, hfound, hraw, offerDocument_of_read hread, fetch, hrow,
      docAt_eq_some_iff.mpr ⟨bytes, hget, hread⟩]

end

/-! ### The rows that are visited -/

section

variable {env : Env} {filter : Document} {s : RedbSession}

def Ahead (s : RedbSession) (cursor : RedbCursor) (seekKey : Bytes) (positioned : Bool)
    (rows : Rows) : Prop :=
  if positioned then
    ∃ left, cursor.Left s left ∧ rows = left.takeWhile fun r => seekKey.isPrefixOf r.1
  else rows = rowsWith seekKey (shown s cursor.tableName)

/-- A seek positions the cursor on the first of the rows that begin with the seek key, if there
is one. -/
lemma advanceSeek_first (s : RedbSession) (cursor : RedbCursor) (seekKey : Bytes) :
    advanceSeek s cursor seekKey false = none ∧ rowsWith seekKey (shown s cursor.tableName) = [] ∨
      ∃ cursor' before row after, advanceSeek s cursor seekKey false = some cursor' ∧
        RedbCursor.At cursor' row after ∧
        shown s cursor.tableName = before ++ row :: after ∧
        rowsWith seekKey (shown s cursor.tableName) =
          (row :: after).takeWhile fun r => seekKey.isPrefixOf r.1 := by
  let sought : RedbCursor := { cursor with pendingKey := some seekKey }
  have hsought : StorageSession.searchNear (StorageCursor.setKey cursor seekKey) s =
      sought.searchNear s := rfl
  have hseek : RedbCursor.Seek (shown s cursor.tableName) seekKey
      (sought.searchNear s) := searchNear_seek (c := sought) s rfl
  have hsorted := shown_sorted s cursor.tableName
  simp only [advanceSeek, Bool.false_eq_true, if_false, hsought]
  generalize shown s cursor.tableName = shown at hseek hsorted ⊢
  generalize sought.searchNear s = result at hseek ⊢
  cases hseek with
  | empty c' hshown => exact .inl ⟨rfl, by rw [hshown]; rfl⟩
  | found before row after sign c' hshown hbefore hrow hsign _ hat =>
    subst hshown
    refine .inr ⟨c', before, row, after, ?_, hat, rfl, rowsWith_of_seek hsorted hbefore hrow⟩
    exact if_neg (by omega)
  | past row c' hshown hat =>
    refine .inl ⟨?_, rowsWith_of_all_lt hshown⟩
    simp [next_of_left_nil (hat.left s)]

variable {rows : Rows} {name : String} {state : FindCursorState RedbCursor}

lemma Ahead.advanceSeek {cursor : RedbCursor} {seekKey : Bytes} {positioned : Bool}
    (h : Ahead s cursor seekKey positioned rows) :
    advanceSeek s cursor seekKey positioned = none ∧ rows = [] ∨
      ∃ cursor' row after, advanceSeek s cursor seekKey positioned = some cursor' ∧
        RedbCursor.At cursor' row after ∧
        rows = (row :: after).takeWhile fun r => seekKey.isPrefixOf r.1 := by
  cases positioned with
  | true =>
    obtain ⟨left, hleft, rfl⟩ := h
    cases left with
    | nil =>
      refine .inl ⟨?_, rfl⟩
      simp only [Smongo.advanceSeek, if_true, next_of_left_nil hleft]
    | cons row after =>
      obtain ⟨cursor', hnext, hat, -⟩ := next_of_left_cons hleft
      refine .inr ⟨cursor', row, after, ?_, hat, rfl⟩
      simp only [Smongo.advanceSeek, if_true, hnext]
  | false =>
    have hrows : rows = rowsWith seekKey (shown s cursor.tableName) := h
    rw [hrows]
    rcases advanceSeek_first s cursor seekKey with
      hnone | ⟨cursor', -, row, after, hsome, hat, -, hrow⟩
    · exact .inl hnone
    · exact .inr ⟨cursor', row, after, hsome, hat, hrow⟩

/-- The state has still to visit `rows`, which hold row keys, and fetches from the table `name`. -/
def Visits (s : RedbSession) (name : String) (rows : Rows) : FindCursorState RedbCursor → Prop
  | .indexScan indexCursor dataCursor => dataCursor.tableName = name ∧ indexCursor.Left s rows
  | .indexSeek indexCursor dataCursor seekKey positioned =>
    dataCursor.tableName = name ∧ Ahead s indexCursor seekKey positioned rows
  | _ => False

lemma Visits.findStep_nil
    (h : Visits s name [] state) : (findStep env filter s state).1 = .finished := by
  cases state with
  | collectionScan cursor | materialized docs => exact h.elim
  | indexScan indexCursor dataCursor =>
    simp only [findStep, next_of_left_nil h.2]
  | indexSeek indexCursor dataCursor seekKey positioned =>
    rcases h.2.advanceSeek with ⟨hnone, -⟩ | ⟨cursor, row, after, hsome, hat, hrows⟩
    · simp only [findStep, hnone]
    · have hrow : seekKey.isPrefixOf row.1 = false := by
        by_contra hpre
        rw [takeWhile_cons, if_pos (by simpa using hpre)] at hrows
        cases hrows
      simp [findStep, hsome, hat.getKeyRaw, hrow]

lemma Visits.findStep_cons {row : Row} (h : Visits s name (row :: rows) state)
    (hkeyed : Keyed env (s.db.table name)) {idStr : String} (hrow : row.2 = utf8 idStr) :
    ∃ state', findStep env filter s state = (fetch env filter (s.db.table name) row, state') ∧
      Visits s name rows state' := by
  cases state with
  | collectionScan cursor | materialized docs => exact h.elim
  | indexScan indexCursor dataCursor =>
    obtain ⟨rfl, hleft⟩ := h
    obtain ⟨cursor, hnext, hat, -⟩ := next_of_left_cons hleft
    obtain ⟨dataCursor', hoffer, hname⟩ := offerByIndexRow_of_at filter hat hkeyed hrow
    refine ⟨.indexScan cursor dataCursor', ?_, hname, hat.left s⟩
    simp only [findStep, hnext, hoffer]
  | indexSeek indexCursor dataCursor seekKey positioned =>
    obtain ⟨rfl, hahead⟩ := h
    rcases hahead.advanceSeek with ⟨-, hrows⟩ | ⟨cursor, first, after, hsome, hat, hrows⟩
    · cases hrows
    · rw [takeWhile_cons] at hrows
      split at hrows
      · next hpre =>
        cases hrows
        obtain ⟨dataCursor', hoffer, hname⟩ := offerByIndexRow_of_at filter hat hkeyed hrow
        refine ⟨.indexSeek cursor dataCursor' seekKey true, ?_, hname, after, hat.left s, rfl⟩
        simp only [findStep, hsome, hat.getKeyRaw, if_pos hpre, hoffer]
      · cases hrows

lemma Visits.collectFound {fuel : ℕ} (h : Visits s name rows state)
    (hkeyed : Keyed env (s.db.table name)) (hrows : ∀ r ∈ rows, ∃ idStr, r.2 = utf8 idStr)
    (hfuel : rows.length < fuel) : Smongo.collectFound env filter s fuel state =
      FindStep.collect (rows.map (fetch env filter (s.db.table name))) := by
  refine collectFound_eq_collect (V := fun state rows => Visits s name rows state ∧
    ∀ r ∈ rows, ∃ idStr, r.2 = utf8 idStr) ?_ ?_ hfuel ⟨h, hrows⟩
  · intro state hstate
    exact hstate.1.findStep_nil
  · rintro state row rows ⟨hstate, hrows⟩
    obtain ⟨idStr, hrow⟩ := hrows row mem_cons_self
    obtain ⟨state', hstep, hrest⟩ := hstate.findStep_cons hkeyed hrow
    exact ⟨state', hstep, hrest, fun r hr => hrows r (mem_cons_of_mem _ hr)⟩

lemma findStep_collection_nil {cursor : RedbCursor} (h : cursor.Left s []) :
    (findStep env filter s (.collectionScan cursor)).1 = .finished := by
  simp only [findStep, next_of_left_nil h]

lemma findStep_collection_cons {cursor : RedbCursor} {row : Row} (h : cursor.Left s (row :: rows)) :
    ∃ cursor' : RedbCursor, findStep env filter s (.collectionScan cursor) =
      (offerDocument env filter (.ok row.2), .collectionScan cursor') ∧ cursor'.Left s rows := by
  obtain ⟨cursor', hnext, hat, -⟩ := next_of_left_cons h
  refine ⟨cursor', ?_, hat.left s⟩
  simp only [findStep, hnext, hat.getValueRaw]

lemma collectFound_collectionScan {cursor : RedbCursor} {fuel : ℕ}
    (h : cursor.Left s rows) (hfuel : rows.length < fuel) :
    collectFound env filter s fuel (.collectionScan cursor) =
      FindStep.collect (rows.map fun r => offerDocument env filter (.ok r.2)) := by
  refine collectFound_eq_collect (V := fun state rows =>
    ∃ cursor : RedbCursor, state = .collectionScan cursor ∧ cursor.Left s rows) ?_ ?_ hfuel
    ⟨cursor, rfl, h⟩
  · rintro state ⟨cursor, rfl, hleft⟩
    exact findStep_collection_nil hleft
  · rintro state row rows ⟨cursor, rfl, hleft⟩
    obtain ⟨cursor', hstep, hleft'⟩ := findStep_collection_cons hleft
    exact ⟨_, hstep, cursor', rfl, hleft'⟩

end

/-! ### What is collected -/

section

variable {env : Env} {filter : Document}

variable (env filter) in
def selected (docs : List Document) : List Document :=
  docs.filter fun doc => evalQuery env doc filter = .ok true

lemma collect_map_judge {docs found : List Document} :
    FindStep.collect (docs.map (judge env filter)) = .ok found ↔
      (∀ doc ∈ docs, ∃ b, evalQuery env doc filter = .ok b) ∧ found = selected env filter docs := by
  induction docs generalizing found with
  | nil => simp [FindStep.collect, selected, eq_comm]
  | cons doc docs ih =>
    rw [map_cons, forall_mem_cons, selected, filter_cons, judge]
    cases heval : evalQuery env doc filter with
    | error e | panic => simp [FindStep.collect]
    | ok b =>
      cases b with
      | false => simpa [FindStep.collect, selected] using ih
      | true =>
        change (FindStep.collect (docs.map (judge env filter)) >>= fun rest =>
          .ok (doc :: rest)) = .ok found ↔ _
        rw [Outcome.bind_eq_ok]
        simp only [ih]
        constructor
        · rintro ⟨rest, ⟨hall, rfl⟩, hfound⟩
          cases hfound
          exact ⟨⟨⟨true, rfl⟩, hall⟩, by simp [selected]⟩
        · rintro ⟨⟨-, hall⟩, rfl⟩
          exact ⟨_, ⟨hall, rfl⟩, by simp [selected]⟩

lemma collect_map_fetch (data : Table) (rows : Rows) :
    FindStep.collect (rows.map (fetch env filter data)) =
      FindStep.collect ((rows.filterMap fun r => docAt env data r.2).map (judge env filter)) := by
  induction rows with
  | nil => rfl
  | cons row rows ih =>
    rw [map_cons, filterMap_cons, fetch]
    cases docAt env data row.2 with
    | none => exact ih
    | some doc => exact FindStep.collect_cons_congr ih

lemma mem_selected {docs : List Document} {doc : Document} :
    doc ∈ selected env filter docs ↔ doc ∈ docs ∧ evalQuery env doc filter = .ok true := by
  rw [selected, mem_filter, decide_eq_true_iff]

variable (env) in
def documentsIn (t : Table) : List Document := t.rows.filterMap fun r => docAt env t r.1

lemma mem_documentsIn {t : Table} {doc : Document} :
    doc ∈ documentsIn env t ↔ ∃ key, docAt env t key = some doc := by
  rw [documentsIn, mem_filterMap]
  constructor
  · rintro ⟨r, -, hdoc⟩
    exact ⟨r.1, hdoc⟩
  · rintro ⟨key, hdoc⟩
    obtain ⟨bytes, hget, -⟩ := docAt_eq_some_iff.mp hdoc
    exact ⟨(key, bytes), get_eq_some_iff.mp hget, hdoc⟩

lemma Keyed.nodup_documentsIn {t : Table} (h : Keyed env t) : (documentsIn env t).Nodup := by
  refine List.Pairwise.filterMap _ ?_ (ne_of_sorted t.sorted)
  intro r r' hne doc hdoc doc' hdoc' heq
  subst heq
  exact hne ((h.key_eq hdoc).trans (h.key_eq hdoc').symm)

section

variable {V C idx : Table} {covers : Document → Bool} {row : Document → Bytes → Bytes} {pre : Bytes}

section

variable (hidx : Derived covers row (docAt env V) idx.get)
include hidx

lemma mem_fetched {doc : Document} :
    doc ∈ (rowsWith pre idx.rows).filterMap (fun r => docAt env C r.2) ↔
      ∃ key d, docAt env V key = some d ∧ covers d ∧ pre <+: row d key ∧
        docAt env C key = some doc := by
  rw [mem_filterMap]
  constructor
  · rintro ⟨r, hr, hdoc⟩
    obtain ⟨hmem, hpre⟩ := mem_rowsWith.mp hr
    obtain ⟨d, hd, hcovers, hrow⟩ := (hidx r.1 r.2).mp (get_eq_some_iff.mpr hmem)
    exact ⟨r.2, d, hd, hcovers, hrow.symm ▸ hpre, hdoc⟩
  · rintro ⟨key, d, hd, hcovers, hpre, hdoc⟩
    have hget := (hidx (row d key) key).mpr ⟨d, hd, hcovers, rfl⟩
    exact ⟨(row d key, key), mem_rowsWith.mpr ⟨get_eq_some_iff.mp hget, hpre⟩, hdoc⟩

lemma nodup_fetched (hC : Keyed env C) :
    ((rowsWith pre idx.rows).filterMap fun r => docAt env C r.2).Nodup := by
  have hrows : (rowsWith pre idx.rows).Nodup := idx.nodup_rows.filter _
  refine List.Pairwise.filterMap _ ?_ (hrows.imp_of_mem (S := fun r r' => r.2 ≠ r'.2) ?_)
  · intro r r' hne doc hdoc doc' hdoc' heq
    subst heq
    exact hne ((hC.key_eq hdoc).trans (hC.key_eq hdoc').symm)
  · intro r r' hr hr' hne hkey
    have hget := get_eq_some_iff.mpr (mem_rowsWith.mp hr).1
    have hget' := get_eq_some_iff.mpr (mem_rowsWith.mp hr').1
    obtain ⟨d, hd, -, hrow⟩ := (hidx r.1 r.2).mp hget
    obtain ⟨d', hd', -, hrow'⟩ := (hidx r'.1 r'.2).mp hget'
    rw [hkey] at hd hrow
    rw [hd] at hd'
    cases hd'
    exact hne (Prod.ext (hrow.symm.trans hrow') hkey)

variable (filter pre) in
/-- Fetching finds the selected documents iff each has a current row behind `pre`, and no outdated
version is selected through one. -/
lemma selected_fetched_perm_iff (hV : Keyed env V) (hC : Keyed env C) :
    (selected env filter ((rowsWith pre idx.rows).filterMap fun r => docAt env C r.2)).Perm
        (selected env filter (documentsIn env V)) ↔
      ∀ key doc, docAt env V key = some doc → (evalQuery env doc filter = .ok true →
          covers doc ∧ pre <+: row doc key ∧ docAt env C key = some doc) ∧
        (covers doc → pre <+: row doc key → ∀ old, docAt env C key = some old →
          evalQuery env old filter = .ok true → old = doc) := by
  have hfetched : ((rowsWith pre idx.rows).filterMap fun r => docAt env C r.2).Nodup :=
    nodup_fetched hidx hC
  -- the key of a document is its id, in either table
  have hkeys : ∀ {key key' doc}, docAt env V key = some doc → docAt env C key' = some doc →
      key' = key := fun h h' => (hC.key_eq h').trans (hV.key_eq h).symm
  rw [selected, selected, perm_ext_iff_of_nodup (hfetched.filter _) (hV.nodup_documentsIn.filter _)]
  change (∀ d, d ∈ selected env filter _ ↔ d ∈ selected env filter _) ↔ _
  simp only [mem_selected, mem_fetched hidx, mem_documentsIn]
  constructor
  · intro hmem key doc hdoc
    refine ⟨fun heval => ?_, fun hcovers hpre old hold heval => ?_⟩
    · obtain ⟨⟨key', d, hd, hcovers, hpre, hdoc'⟩, -⟩ := (hmem doc).mpr ⟨⟨key, hdoc⟩, heval⟩
      obtain rfl := hkeys hdoc hdoc'
      rw [hdoc] at hd
      cases hd
      exact ⟨hcovers, hpre, hdoc'⟩
    · obtain ⟨⟨key', hold'⟩, -⟩ := (hmem old).mp ⟨⟨key, doc, hdoc, hcovers, hpre, hold⟩, heval⟩
      obtain rfl := hkeys hold' hold
      rw [hdoc] at hold'
      exact (Option.some.inj hold').symm
  · intro h doc
    refine and_congr_left fun heval => ⟨?_, ?_⟩
    · rintro ⟨key, d, hd, hcovers, hpre, hdoc⟩
      exact ⟨key, ((h key d hd).2 hcovers hpre doc hdoc heval).symm ▸ hd⟩
    · rintro ⟨key, hdoc⟩
      obtain ⟨hcovers, hpre, hdoc'⟩ := (h key doc hdoc).1 heval
      exact ⟨key, doc, hdoc, hcovers, hpre, hdoc'⟩

end

/-- Each selected document is covered, has such a row and is current, and no such row leads to
another version. -/
def Served (env : Env) (filter : Document) (V C : Table) (covers : Document → Bool)
    (row : Document → Bytes → Bytes) (pre : Bytes) : Prop :=
  ∀ key doc, docAt env V key = some doc →
    (evalQuery env doc filter = .ok true →
      covers doc ∧ pre <+: row doc key ∧ docAt env C key = some doc) ∧
    (covers doc → pre <+: row doc key → ∀ old, docAt env C key = some old →
      ∃ b, evalQuery env old filter = .ok b ∧ (b = true → old = doc))

instance : Decidable (Served env filter V C covers row pre) :=
  have (key : Bytes) (doc : Document) : Decidable
      ((evalQuery env doc filter = .ok true →
        covers doc ∧ pre <+: row doc key ∧ docAt env C key = some doc) ∧
      (covers doc → pre <+: row doc key → ∀ old ∈ docAt env C key,
        ∃ b, evalQuery env old filter = .ok b ∧ (b = true → old = doc))) := inferInstance
  decidable_of_iff _ (forall_docAt_iff (P := fun key doc =>
    (evalQuery env doc filter = .ok true →
      covers doc ∧ pre <+: row doc key ∧ docAt env C key = some doc) ∧
    (covers doc → pre <+: row doc key → ∀ old ∈ docAt env C key,
      ∃ b, evalQuery env old filter = .ok b ∧ (b = true → old = doc))))

lemma served_self : Served env filter V V (fun _ => true) row pre ↔
    ∀ key doc, docAt env V key = some doc →
      (evalQuery env doc filter = .ok true → pre <+: row doc key) ∧
      (pre <+: row doc key → ∃ b, evalQuery env doc filter = .ok b) := by
  refine forall_congr' fun key => forall_congr' fun doc => forall_congr' fun hdoc => ?_
  constructor
  · rintro ⟨hselect, hfail⟩
    refine ⟨fun heval => (hselect heval).2.1, fun hpre => ?_⟩
    obtain ⟨b, heval, -⟩ := hfail rfl hpre doc hdoc
    exact ⟨b, heval⟩
  · rintro ⟨hselect, hfail⟩
    refine ⟨fun heval => ⟨rfl, hselect heval, hdoc⟩, fun _ hpre old hold => ?_⟩
    rw [hdoc] at hold
    cases hold
    obtain ⟨b, heval⟩ := hfail hpre
    exact ⟨b, heval, fun _ => rfl⟩

lemma fetched_perm_iff (hidx : Derived covers row (docAt env V) idx.get)
    (hV : Keyed env V) (hC : Keyed env C) :
    (∃ found, FindStep.collect ((rowsWith pre idx.rows).map (fetch env filter C)) = .ok found ∧
      found.Perm (selected env filter (documentsIn env V))) ↔
      Served env filter V C covers row pre := by
  have hperm := selected_fetched_perm_iff filter pre hidx hV hC
  simp only [collect_map_fetch, collect_map_judge]
  constructor
  · rintro ⟨_, ⟨hall, rfl⟩, hfound⟩ key doc hdoc
    obtain ⟨hselect, hcurrent⟩ := hperm.mp hfound key doc hdoc
    refine ⟨hselect, fun hcovers hpre old hold => ?_⟩
    obtain ⟨b, heval⟩ := hall old ((mem_fetched hidx).mpr ⟨key, doc, hdoc, hcovers, hpre, hold⟩)
    exact ⟨b, heval, fun hb => hcurrent hcovers hpre old hold (hb ▸ heval)⟩
  · intro hserved
    refine ⟨_, ⟨fun doc hdoc => ?_, rfl⟩, hperm.mpr fun key doc hdoc => ?_⟩
    · obtain ⟨key, d, hd, hcovers, hpre, hdoc⟩ := (mem_fetched hidx).mp hdoc
      obtain ⟨b, heval, -⟩ := (hserved key d hd).2 hcovers hpre doc hdoc
      exact ⟨b, heval⟩
    · obtain ⟨hselect, hfetch⟩ := hserved key doc hdoc
      refine ⟨hselect, fun hcovers hpre old hold heval => ?_⟩
      obtain ⟨b, heval', hcurrent⟩ := hfetch hcovers hpre old hold
      rw [heval] at heval'
      cases heval'
      exact hcurrent rfl

end

end

def ExecutionPlan.seekKey : ExecutionPlan → Bytes
  | indexSeek _ indexKeys seekValues => buildSeekPrefix indexKeys seekValues
  | _ => []

section

variable {env : Env} {c : Handle} {w : RedbWorld} {filter : Document}
  {specs : List IndexSpec} {indexName : String} {indexKeys : Document}
  {executePlan : PlanRunner}

lemma rowsWith_nil (rows : Rows) : rowsWith [] rows = rows := by
  rw [rowsWith, filter_eq_self]
  intro r _
  rfl

section

variable (hlisted : listed env c w = .ok specs)
  (hplan : (planQuery env.evaluate2dspherePlan filter specs).executionPlan.reads =
    some (indexName, indexKeys))
include hlisted hplan

variable (executePlan) in
lemma findIter_by_index :
    ∃ state w', findIter env c executePlan filter w = (.ok state, w') ∧ w'.session = w.session ∧
      findFuel w.session state = (shown w.session (c.indexTable indexName)).length + 1 ∧
      Visits w.session c.tableName
        (rowsWith (planQuery env.evaluate2dspherePlan filter specs).executionPlan.seekKey
          (shown w.session (c.indexTable indexName))) state := by
  let indexCursor : RedbCursor := { tableName := c.indexTable indexName }
  let dataCursor : RedbCursor := { tableName := c.tableName }
  have hleft := left_shown w.session (c.indexTable indexName)
  have hfuel : StorageSession.rowsLeft indexCursor w.session + 1 =
      (shown w.session (c.indexTable indexName)).length + 1 :=
    congrArg (· + 1) (rowsLeft_of_left hleft)
  rw [findIter, bind_of_ok (listIndexes_of_listed hlisted)]
  cases hexec : (planQuery env.evaluate2dspherePlan filter specs).executionPlan with
  | indexSeek name keys values =>
    rw [hexec] at hplan
    cases hplan
    exact ⟨.indexSeek indexCursor dataCursor (buildSeekPrefix indexKeys values) false, _, rfl,
      rfl, hfuel, rfl, rfl⟩
  | indexScan name keys =>
    rw [hexec] at hplan
    cases hplan
    refine ⟨.indexScan indexCursor dataCursor, _, rfl, rfl, hfuel, rfl, ?_⟩
    change indexCursor.Left w.session (rowsWith [] _)
    rw [rowsWith_nil]
    exact hleft
  | _ =>
    rw [hexec] at hplan
    cases hplan

lemma find_by_index (hkeyed : Keyed env (w.committed c.tableName))
    (hrows : ∀ r ∈ shown w.session (c.indexTable indexName), ∃ idStr, r.2 = utf8 idStr) :
    (find env c executePlan filter w).1 = FindStep.collect
      ((rowsWith (planQuery env.evaluate2dspherePlan filter specs).executionPlan.seekKey
        (shown w.session (c.indexTable indexName))).map
          (fetch env filter (w.committed c.tableName))) := by
  obtain ⟨state, w', hstate, hsession, hfuel, hvisits⟩ :=
    findIter_by_index executePlan hlisted hplan
  have hread : (read World.session : RedbOp _) w' = (.ok w.session, w') := by
    rw [← hsession]
    rfl
  rw [find, bind_of_ok hstate, bind_of_ok hread, hfuel, ofOutcome_apply]
  refine hvisits.collectFound hkeyed (fun r hr => hrows r (mem_rowsWith.mp hr).1) ?_
  exact Nat.lt_succ_of_le (length_filter_le _ _)

end

variable (filter executePlan) in
lemma find_perm_iff (hlisted : listed env c w = .ok specs) {spec : IndexSpec} (hmem : spec ∈ specs)
    (htree : spec.IsBTree) (hsound : Sound env c specs w.view)
    (hcommitted : Keyed env (w.committed c.tableName))
    (hshown : shown w.session (c.indexTable spec.name) = (w.view (c.indexTable spec.name)).rows)
    (hplan : (planQuery env.evaluate2dspherePlan filter specs).executionPlan.reads =
      some (spec.name, spec.keys)) :
    (∃ found, (find env c executePlan filter w).1 = .ok found ∧
      found.Perm (selected env filter (documentsIn env (w.view c.tableName)))) ↔
    Served env filter (w.view c.tableName) (w.committed c.tableName) (spec.covers env)
      (spec.row env) (planQuery env.evaluate2dspherePlan filter specs).executionPlan.seekKey := by
  have hidx := hsound.derived spec hmem htree
  rw [find_by_index hlisted hplan hcommitted ?_, hshown]
  · exact fetched_perm_iff hidx hsound.keyed hcommitted
  · intro r hr
    rw [hshown] at hr
    obtain ⟨doc, hdoc, -, -⟩ := (hidx r.1 r.2).mp (get_eq_some_iff.mpr hr)
    obtain ⟨bytes, hget, -⟩ := docAt_eq_some_iff.mp hdoc
    obtain ⟨-, idStr, -, -, hkey⟩ := hsound.keyed r.2 bytes hget
    exact ⟨idStr, hkey⟩

/-- A seek returns the selected documents, each once, iff each has a row with the seek bytes in
front and no filter fails behind such a row. -/
theorem find_seek_iff (hcodec : env.Codec) (hsep : c.Separate)
    (hgeo : GeoOnly env.evaluate2dspherePlan)
    (executePlan : ExecutionPlan → Document → Op RedbSession (List Document)) {calls : List Call}
    (hnew : w.New c) (hrun : Along (Call.step env c)
      (fun w call => call.Returns env c w ∧ call.Tidy env c w) w calls) :
    let w' := calls.foldl (Call.step env c) w
    (∀ spec ∈ w'.specs env c, spec.Plain) → ∀ filter indexName indexKeys seekValues,
      (planQuery env.evaluate2dspherePlan filter (w'.specs env c)).executionPlan =
        .indexSeek indexName indexKeys seekValues →
      ((∃ found, (find env c executePlan filter w').1 = .ok found ∧
          found.Perm (selected env filter (documentsIn env (w'.committed c.tableName)))) ↔
        ∀ key doc, docAt env (w'.committed c.tableName) key = some doc →
          (evalQuery env doc filter = .ok true →
            buildSeekPrefix indexKeys seekValues <+: extractIndexKey doc indexKeys ++ key) ∧
          (buildSeekPrefix indexKeys seekValues <+: extractIndexKey doc indexKeys ++ key →
            ∃ b, evalQuery env doc filter = .ok b)) := by
  intro w' hplain filter indexName indexKeys seekValues hplan
  have hstep : InStep env c w' := inStep_of_run hcodec hsep ⟨hnew.settled, hnew.sound⟩ hrun
  have hview : w'.view = w'.committed := view_of_idle hstep.settled.idle
  have hsound : Sound env c (w'.specs env c) w'.view := by
    rw [hview]
    exact ⟨hstep.sound.keyed, fun spec hmem =>
      hstep.sound.derived spec (mem_plain.mpr ⟨hmem, hplain spec hmem⟩)⟩
  obtain ⟨spec, hmem, -, hread⟩ := planQuery_reads hgeo (congrArg ExecutionPlan.reads hplan)
  cases hread
  have hspec := hplain spec hmem
  have hshown : shown w'.session (c.indexTable spec.name) =
      (w'.view (c.indexTable spec.name)).rows := by
    rw [shown_of_idle hstep.settled.idle, hview]
  have hcovers : spec.covers env = fun _ => true := funext hspec.covers
  have hrow : spec.row env = fun doc key => extractIndexKey doc spec.keys ++ key :=
    funext fun doc => funext (hspec.row doc)
  have hiff := find_perm_iff filter executePlan hstep.settled.listed hmem hspec.2.2 hsound
    hstep.sound.keyed hshown (congrArg ExecutionPlan.reads hplan)
  rw [hview, hplan, hcovers, hrow] at hiff
  rw [hiff]
  exact served_self

end

namespace Sample

def findIn (filter : Document) (w : RedbWorld) : Outcome CollectionError (List Document) :=
  (find env handle (fun _ _ => pure []) filter w).1

lemma geoOnly : GeoOnly env.evaluate2dspherePlan := fun _ _ _ h => by cases h

lemma one_tidy : Along (Call.step env handle)
    (fun w call => call.Returns env handle w ∧ call.Tidy env handle w) start
    [create ascending, .statement (insert (.int32 1) (.string "x"))] :=
  indexed_tidy (by decide +kernel) (by decide +kernel) (by decide +kernel)

end Sample

section

open Sample

theorem find_seek_iff_direct : let filter : Document := [("a", .string "x")]
    ∃ found, findIn filter one = .ok found ∧
      found.Perm (selected env filter (documentsIn env (one.committed handle.tableName))) := by
  intro filter
  have hplan : (planQuery env.evaluate2dspherePlan filter (one.specs env handle)).executionPlan =
      .indexSeek "a_1" [("a", .int32 1)] [("a", .string "x")] := by
    rfl
  refine (find_seek_iff codec separate geoOnly _ start_new one_tidy ?_ filter _ _ _ hplan).mpr
    (forall_docAt_iff.mp ?_)
  · decide
  · decide +kernel

/-- `{a: {$eq: "x"}}` is planned as a seek for the encoding of `{$eq: "x"}`, which begins no row. -/
theorem find_eq_misses : let filter : Document := [("a", .document [("$eq", .string "x")])]
    (planQuery env.evaluate2dspherePlan filter (one.specs env handle)).executionPlan =
        .indexSeek "a_1" [("a", .int32 1)] filter ∧
      findIn filter one = .ok [] ∧
      selected env filter (documentsIn env (one.committed handle.tableName)) =
        [doc (.int32 1) (.string "x")] := by
  refine ⟨?_, rfl, rfl⟩
  rfl

end

/-! ### Queries inside a transaction -/

section

variable {env : Env} {c : Handle} {w : RedbWorld} {filter : Document}
  {specs : List IndexSpec} {indexName : String} {indexKeys : Document}
  {executePlan : PlanRunner}

lemma findByScan_ok (hkeyed : Keyed env (w.view c.tableName))
    (hshown : w.rows c = (w.view c.tableName).rows) {found : List Document}
    (h : (findByScan env c filter w).1 = .ok found) :
    found = selected env filter (documentsIn env (w.view c.tableName)) := by
  let cursor : RedbCursor := { tableName := c.tableName }
  have hleft : cursor.Left w.session (w.rows c) := left_shown w.session c.tableName
  have hfuel : findFuel w.session (.collectionScan cursor) = (w.rows c).length + 1 :=
    congrArg (· + 1) (rowsLeft_of_left hleft)
  change collectFound env filter w.session (findFuel w.session (.collectionScan cursor))
    (.collectionScan cursor) = .ok found at h
  rw [hfuel, collectFound_collectionScan hleft (Nat.lt_succ_self _), hshown] at h
  have hsteps : (w.view c.tableName).rows.map (fun r => offerDocument env filter (.ok r.2)) =
      (documentsIn env (w.view c.tableName)).map (judge env filter) := by
    rw [documentsIn, map_filterMap, ← filterMap_eq_map]
    refine filterMap_congr fun r hr => ?_
    have hget := get_eq_some_iff.mpr hr
    obtain ⟨doc, -, hread, -⟩ := hkeyed r.1 r.2 hget
    rw [docAt_eq_some_iff.mpr ⟨r.2, hget, hread⟩]
    exact congrArg some (offerDocument_of_read hread)
  rw [hsteps] at h
  exact (collect_map_judge.mp h).2

def Statement.step (env : Env) (c : Handle) (w : RedbWorld) (st : Statement) :
    RedbWorld := (st.exec env c w).2

/-- Inside a transaction that began in the world `w₀`, with the indexes in step. -/
structure Underway (env : Env) (c : Handle) (w₀ w : RedbWorld) : Prop where
  inTransaction : w.session.inTransaction = true
  db : w.session.db = w₀.session.db
  listed : listed env c w = .ok (w₀.specs env c)
  sound : Sound env c (w₀.specs env c) w.view

lemma underway_of_run (hcodec : env.Codec) (hsep : c.Separate) (hw : Settled env c w)
    (hsound : Sound env c (w.specs env c) w.committed) {statements : List Statement}
    (hrun : Along (step env c) (fun t st => (∃ reply, (st.exec env c t).1 = .ok reply) ∧
      st.Clean env c (w.specs env c) t) w.begin statements) :
    Underway env c w (statements.foldl (step env c) w.begin) := by
  refine hrun.invariant ?_ ⟨rfl, rfl, hw.listed_begin, (view_begin w).symm ▸ hsound⟩
  rintro t st h ⟨⟨reply, hreply⟩, hclean⟩
  have hexec : st.exec env c t = (.ok reply, st.step env c t) := Prod.ext hreply rfl
  obtain ⟨xs, -, hwrote⟩ := exec_performs hsep hw.nodup_names h.inTransaction h.listed hexec
  exact ⟨hwrote.inTransaction, hwrote.db.trans h.db, hwrote.listed,
    (exec_sound hcodec hsep hw.nodup_names h.inTransaction h.listed hexec
      (List.Subset.refl _) h.sound hclean).1⟩

lemma shown_of_isSome {name : String} (h : (w.session.db.tables name).isSome) :
    shown w.session name = (w.view name).rows := by
  obtain ⟨table, htable⟩ := Option.isSome_iff_exists.mp h
  rw [shown, htable]
  rfl

/-- In a transaction of clean statements, an index finds what a scan finds exactly where the
committed documents serve it. -/
theorem find_in_transaction_iff (hcodec : env.Codec) (hsep : c.Separate)
    (executePlan : ExecutionPlan → Document → Op RedbSession (List Document)) (hw : Settled env c w)
    (hsound : Sound env c (w.specs env c) w.committed)
    (hdata : (w.session.db.tables c.tableName).isSome)
    (hindex : ∀ spec ∈ w.specs env c, (w.session.db.tables (c.indexTable spec.name)).isSome)
    {statements : List Statement}
    (hrun : Along (step env c) (fun t st => (∃ reply, (st.exec env c t).1 = .ok reply) ∧
      st.Clean env c (w.specs env c) t) w.begin statements) :
    let w' := statements.foldl (step env c) w.begin
    ∀ filter, ∀ spec ∈ w.specs env c, spec.IsBTree →
      (planQuery env.evaluate2dspherePlan filter (w.specs env c)).executionPlan.reads =
        some (spec.name, spec.keys) → ∀ found, (findByScan env c filter w').1 = .ok found →
      ((∃ found', (find env c executePlan filter w').1 = .ok found' ∧ found'.Perm found) ↔
        Served env filter (w'.view c.tableName) (w.committed c.tableName) (spec.covers env)
          (spec.row env)
          (planQuery env.evaluate2dspherePlan filter (w.specs env c)).executionPlan.seekKey) := by
  intro w' filter spec hmem htree hplan found hscan
  have h : Underway env c w w' := underway_of_run hcodec hsep hw hsound hrun
  have hcommitted : w'.committed = w.committed := by
    funext name
    rw [World.committed, h.db, World.committed]
  have hscan' := findByScan_ok h.sound.keyed (shown_of_isSome (h.db.symm ▸ hdata)) hscan
  rw [hscan', find_perm_iff filter executePlan h.listed hmem htree h.sound
    (hcommitted.symm ▸ hsound.keyed) (shown_of_isSome (h.db.symm ▸ hindex spec hmem)) hplan,
    hcommitted]

end

namespace Sample

lemma insertNumber_clean :
    (insert (.int32 2) (.int64 5)).Clean env handle [ascending] one.begin where
  toTidy := tidy_of_length (n := 1) _ (by decide +kernel) (by decide +kernel)
    (by decide +kernel) (keepsIds_of_sparesId trivial)
  maintainable t ht := by cases ht

end Sample

section

open Sample

theorem find_in_transaction_iff_untouched :
    let w := (insert (.int32 2) (.int64 5)).step env handle one.begin
    let filter : Document := [("a", .string "x")]
    ∃ found, findIn filter w = .ok found ∧ found.Perm [doc (.int32 1) (.string "x")] := by
  intro w filter
  have hw : InStep env handle one :=
    inStep_of_run codec separate ⟨start_new.settled, start_new.sound⟩ one_tidy
  have hplan : (planQuery env.evaluate2dspherePlan filter (one.specs env handle)).executionPlan =
      .indexSeek "a_1" [("a", .int32 1)] [("a", .string "x")] := by
    rfl
  have hrun : Along (step env handle) (fun t st => (∃ reply, (st.exec env handle t).1 = .ok reply) ∧
        st.Clean env handle (one.specs env handle) t) one.begin [insert (.int32 2) (.int64 5)] := by
    exact ⟨⟨⟨.insertOne ⟨.int32 2⟩, rfl⟩, insertNumber_clean⟩, trivial⟩
  have hserved : Served env filter (w.view handle.tableName) (one.committed handle.tableName)
      (ascending.covers env) (ascending.row env)
      (buildSeekPrefix [("a", .int32 1)] [("a", .string "x")]) := by decide +kernel
  refine (find_in_transaction_iff codec separate _ hw.settled ?_ (rfl) ?_ hrun filter ascending
    (by decide) (by decide) (by rw [hplan]; rfl) _ (rfl)).mpr ?_
  · decide +kernel
  · decide +kernel
  · exact hserved

/-- A document inserted in the transaction has no committed row, so that the index plan misses it.
-/
theorem find_misses_inserted : let w := insertSecond.step env handle one.begin
    let filter : Document := [("a", .string "x")]
    (planQuery env.evaluate2dspherePlan filter (one.specs env handle)).executionPlan.reads =
        some ("a_1", [("a", .int32 1)]) ∧
      findIn filter w = .ok [doc (.int32 1) (.string "x")] ∧
      (findByScan env handle filter w).1 =
        .ok [doc (.int32 1) (.string "x"), doc (.int32 2) (.string "x")] := by
  decide +kernel

end

end Smongo

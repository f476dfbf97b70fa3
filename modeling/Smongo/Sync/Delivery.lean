import Smongo.Lib.Effect
import Smongo.Sync.Terms

/-!
# No change is dropped

Whatever happens, every entry up to the checkpoint is accounted for.
-/

namespace Smongo

open Process SyncOp List OrderedTable Option Keeps Except

/-! ### The dead-letter queue -/

section

open SyncStore

variable {χ ρ α : Type} {o : Outside χ ρ} {cfg : SyncConfig} {s : SyncStore ρ} {ns key : String}

variable (o cfg) in
abbrev SyncOp.Keeps (p : SyncOp α) (Q : α → SyncStore ρ → Prop) (s : SyncStore ρ) : Prop :=
  Process.Keeps (SyncStore.answer o) (terms χ cfg.jsonCopy) Q p s

variable (o cfg) in
/-- A thread that promises nothing about its result but keeps the store sound. -/
abbrev SyncOp.Runs (p : SyncOp α) : SyncStore ρ → Prop := p.Keeps o cfg fun _ _ => True

lemma runs_pure {a : α} : (pure a : SyncOp α).Runs o cfg s := pure fun _ _ => trivial

lemma runs_forM {β : Type} {l : List β} {f : β → SyncOp Unit}
    (h : ∀ a ∈ l, ∀ t, Later cfg.jsonCopy s t → (f a).Runs o cfg t) : (l.forM f).Runs o cfg s :=
  (Keeps.forM (fun _ _ _ _ _ => trivial) h).weaken fun _ _ _ => trivial

lemma keeps_request {c : SyncCall} {Q : c.Reply → SyncStore ρ → Prop}
    (howes : s.Owes cfg.jsonCopy c)
    (hQ : ∀ t x r, Later cfg.jsonCopy s t → t.Sound cfg.jsonCopy → (answer o c x t).1 = .ok r →
      ∀ u, Later cfg.jsonCopy (answer o c x t).2 u → Q r u) :
    (request c).Keeps o cfg Q s := by
  intro t x hlater hsound hfresh
  obtain ⟨hsound', hlater'⟩ := sound_answer (o := o) (x := x) hsound (howes.later hlater) hfresh
  exact ⟨hsound', hlater', fun u hu r hr => hQ t x r hlater hsound hr u hu⟩

lemma keeps_call {c : SyncCall} (howes : s.Owes cfg.jsonCopy c) : (request c).Runs o cfg s :=
  keeps_request howes fun _ _ _ _ _ _ _ _ => trivial

lemma keeps_ask (c : OutsideCall) : (ask c).Runs o cfg s := keeps_call trivial

variable {t : SyncStore ρ}

lemma access_eq_ok {x : χ} {value r : α}
    (h : (access o x s t value).1 = .ok r) : r = value ∧ (access o x s t value).2 = t := by
  rw [access] at h ⊢
  cases hfault : o.fault x with
  | some e =>
    rw [hfault] at h
    cases h
  | none =>
    rw [hfault] at h
    exact ⟨(ok.inj h).symm, rfl⟩

lemma keeps_dlqEnqueue (item : String × PyEntry) (errorCode : Option ℤ) (errorMsg : String)
    (permanentlyFailed : Bool) :
    (dlqEnqueue cfg ns item errorCode errorMsg permanentlyFailed).Keeps o cfg
      (fun _ t => t.Accounted cfg.jsonCopy ns item) s := by
  refine bind (keeps_ask .now) fun time s₁ _ => ?_
  refine bind (keeps_ask .letterKey) fun key s₂ _ => ?_
  refine keeps_request rfl fun t x r _ _ hok u hu => ?_
  refine hu.accounted ns item ?_
  rw [answer] at hok ⊢
  rw [(access_eq_ok hok).2]
  exact .inr (.inr ⟨key, _, (get_insert ..).trans (if_pos rfl), Function.update_self .., rfl, rfl⟩)

lemma keeps_dlqRemove (h : s.Written key) : (dlqRemove key).Runs o cfg s :=
  rescue (keeps_call (c := .dlqRemove key) h) fun _ _ _ _ hq => some.inj hq ▸ runs_pure

lemma keeps_retryRow {row : DlqRow} (h : s.Genuine cfg.jsonCopy key row) :
    (retryRow cfg key row).Runs o cfg s := by
  rw [retryRow]
  split
  · exact keeps_call (c := .dlqUpdate ..) h
  · have hnow : SyncOp.now.Keeps o cfg (fun _ t => True ∧ t.Genuine cfg.jsonCopy key row) s :=
      frame (fun _ _ hlater ht => Genuine.later ht hlater) (keeps_ask .now) h
    exact bind hnow fun time t ht => keeps_call (c := .dlqUpdate ..) ht.2

def SyncStore.Reported (s : SyncStore ρ) (ns : String) : OpSource → Prop
  | .oplog key => (ns, key) ∈ s.reported
  | .letter key => s.Written key

lemma SyncStore.Reported.later {copy : PyEntry → PyEntry} {source : OpSource}
    (h : s.Reported ns source) (hlater : Later copy s t) : t.Reported ns source := by
  cases source with
  | oplog key => exact hlater.reported h
  | letter key => exact Written.later h hlater

def Outside.Indexed (o : Outside χ ρ) : Prop :=
  ∀ x ns ops state errors, (o.bulkWrite x ns ops state).1 = .error (.bulkWriteError errors) →
    ∀ e ∈ errors, e.index.isSome

def SyncStore.Wrote (s : SyncStore ρ) (ns : String) (sources : List OpSource) :
    Except PyError Unit → Prop
  | .ok _ => ∀ source ∈ sources, s.Reported ns source
  | .error (.bulkWriteError errors) => ∀ p ∈ sources.zipIdx,
      (errors.any fun e => e.index = some p.2) = false → s.Reported ns p.1
  | .error _ => True

lemma SyncStore.Wrote.later {copy : PyEntry → PyEntry} {sources : List OpSource}
    {r : Except PyError Unit} (h : s.Wrote ns sources r)
    (hlater : Later copy s t) : t.Wrote ns sources r := by
  cases r with
  | ok _ => exact fun source hsource => (h source hsource).later hlater
  | error e =>
    cases e with
    | bulkWriteError errors => exact fun p hp hnone => (h p hp hnone).later hlater
    | _ => trivial

lemma mem_succeeded {errors : List WriteError} (hindexed : ∀ e ∈ errors, e.index.isSome)
    {items : List α} {p : α × ℕ} (hp : p ∈ items.zipIdx)
    (hnone : (errors.any fun e => e.index = some p.2) = false) :
    p.1 ∈ succeeded (.error (.bulkWriteError errors)) items := by
  rw [succeeded, if_pos (all_eq_true.mpr hindexed)]
  refine mem_map_of_mem (mem_filter.mpr ⟨hp, all_eq_true.mpr fun e he => ?_⟩)
  simpa using any_eq_false.mp hnone e he

lemma safe_bulkWrite (hindexed : o.Indexed) (ops : List BulkOp) {sources : List OpSource}
    (hletters : ∀ key, .letter key ∈ sources → ∃ origin, s.issued key = some origin) :
    (bulkWrite ns ops sources).Safe (answer o) (terms χ cfg.jsonCopy)
      (fun r t => t.Wrote ns sources r) s := by
  intro t x hlater hsound hfresh
  obtain ⟨hsound', hlater'⟩ := sound_answer (o := o) (x := x) hsound
    (c := .bulkWrite ns ops sources) trivial hfresh
  refine ⟨hsound', hlater', fun u hu => ?_⟩
  have hdone (source : OpSource) (hsource : source ∈ sources)
      (hmem : source ∈ succeeded (o.bulkWrite x ns ops t.outside).1 sources) :
      u.Reported ns source := by
    refine Reported.later ?_ hu
    cases source with
    | oplog key => exact mem_append_right _ (mem_filterMap.mpr ⟨_, hmem, rfl⟩)
    | letter key =>
      obtain ⟨⟨ns', item⟩, hissued⟩ := hletters key hsource
      have hissued' := hlater.issued key _ hissued
      exact ⟨ns', item, hissued', mem_append_right _ (mem_filterMap.mpr
        ⟨_, hmem, by rw [originOf, hissued']; rfl⟩)⟩
  change u.Wrote ns sources (o.bulkWrite x ns ops t.outside).1
  cases hout : (o.bulkWrite x ns ops t.outside).1 with
  | ok _ =>
    rw [hout] at hdone
    exact fun source hsource => hdone source hsource hsource
  | error e =>
    cases e with
    | bulkWriteError errors =>
      rw [hout] at hdone
      intro p hp hnone
      have hmem := mem_succeeded (hindexed x ns ops t.outside errors hout) hp hnone
      exact hdone p.1 (fst_mem_of_mem_zipIdx hp) hmem
    | _ => trivial

variable {items : List ((String × DlqRow) × BulkOp)}

lemma keeps_removeAll {keys : List α} {f : α → String} (h : ∀ a ∈ keys, s.Written (f a)) :
    (keys.forM fun a => dlqRemove (f a)).Runs o cfg s :=
  runs_forM fun a ha _ hlater => keeps_dlqRemove ((h a ha).later hlater)

lemma safe_writeItems (ns : String) (hindexed : o.Indexed)
    (hitems : ∀ i ∈ items, s.Genuine cfg.jsonCopy i.1.1 i.1.2) :
    (writeItems ns items).Safe (answer o) (terms χ cfg.jsonCopy)
      (fun r t => ∀ errors, r = .error (.bulkWriteError errors) → ∀ p ∈ items.zipIdx,
        (errors.any fun e => e.index = some p.2) = false → t.Written p.1.1.1) s := by
  have hletters (key : String) (hkey : .letter key ∈ items.map fun i => OpSource.letter i.1.1) :
      ∃ origin, s.issued key = some origin := by
    obtain ⟨i, hi, heq⟩ := mem_map.mp hkey
    obtain ⟨item, hissued, -⟩ := hitems i hi
    exact ⟨_, OpSource.letter.inj heq ▸ hissued⟩
  refine Safe.bind (safe_bulkWrite hindexed _ hletters) (fun _ t ht => ?_) fun e t ht errors he =>
    ?_
  · have hwritten (i) (hi : i ∈ items) : t.Written i.1.1 := ht _ (mem_map_of_mem hi)
    have hall : Safe (answer o) (terms χ cfg.jsonCopy) _ _ t := keeps_removeAll hwritten
    refine Safe.frame (A := fun t => ∀ i ∈ items, t.Written i.1.1)
      (fun _ _ hlater h i hi => (h i hi).later hlater) ?_ hall hwritten
    exact fun r u _ hu errors _ p hp _ => hu p.1 (fst_mem_of_mem_zipIdx hp)
  · obtain rfl := error.inj he
    intro p hp hnone
    refine ht (OpSource.letter p.1.1.1, p.2) ?_ hnone
    rw [zipIdx_map]
    exact mem_map.mpr ⟨p, hp, rfl⟩

lemma keeps_retryItems (hindexed : o.Indexed)
    (hitems : ∀ i ∈ items, s.Genuine cfg.jsonCopy i.1.1 i.1.2) :
    (retryItems cfg ns items).Runs o cfg s := by
  have hwrite := Safe.frame (A := fun t => ∀ i ∈ items, t.Genuine cfg.jsonCopy i.1.1 i.1.2)
    (fun _ _ hlater h i hi => (h i hi).later hlater) (fun _ _ => And.intro)
    (safe_writeItems ns hindexed hitems) hitems
  refine Safe.rescue hwrite (fun _ _ _ _ _ => trivial) ?_ nofun
  rintro e t ⟨hwritten, hgenuine⟩ q hq
  have hretry : (items.forM fun i => retryRow cfg i.1.1 i.1.2).Runs o cfg t :=
    runs_forM fun i hi _ hlater => keeps_retryRow ((hgenuine i hi).later hlater)
  cases e with
  | bulkWriteError errors =>
    obtain rfl := some.inj hq
    refine runs_forM fun p hp u hlater => ?_
    split
    · exact keeps_retryRow ((hgenuine p.1 (fst_mem_of_mem_zipIdx hp)).later hlater)
    · next hnone =>
      exact keeps_dlqRemove ((hwritten errors rfl p hp (Bool.not_eq_true _ ▸ hnone)).later hlater)
  | pyMongoError text | osError text => exact some.inj hq ▸ hretry
  | _ => nomatch hq

lemma mem_of_itemMap {rows : List (String × DlqRow)} (h : itemMap rows = .ok items)
    {i : (String × DlqRow) × BulkOp} (hi : i ∈ items) : i.1 ∈ rows := by
  induction rows generalizing items with
  | nil =>
    obtain rfl := ok.inj h
    exact (not_mem_nil hi).elim
  | cons row rows ih =>
    rw [itemMap] at h
    split at h
    · nomatch h
    · exact mem_cons_of_mem _ (ih h hi)
    · cases hrest : itemMap rows with
      | error e =>
        rw [hrest] at h
        nomatch h
      | ok rest =>
        rw [hrest] at h
        obtain rfl := ok.inj h
        rcases mem_cons.mp hi with rfl | hi
        · exact mem_cons_self
        · exact mem_cons_of_mem _ (ih hrest hi)

lemma SyncStore.Sound.genuine (h : s.Sound cfg.jsonCopy) {row : DlqRow}
    (hget : s.dlq.get key = some (some row)) : s.Genuine cfg.jsonCopy key row := by
  cases hissued : s.issued key with
  | none => nomatch hget.symm.trans (h.dlq key hissued)
  | some origin =>
    obtain ⟨hns, hentry⟩ := h.rows key row origin.1 origin.2 hget hissued
    exact ⟨origin.2, hns ▸ hissued, hentry⟩

lemma keeps_dlqScan : SyncOp.dlqScan.Keeps o cfg
    (fun rows t => ∀ r ∈ rows, ∀ row ∈ r.2, t.Genuine cfg.jsonCopy r.1 row) s := by
  refine keeps_request (c := .dlqScan) trivial fun t x rows _ hsound hok u hu r hr row hrow => ?_
  rw [answer] at hok hu
  obtain ⟨rfl, hsame⟩ := access_eq_ok hok
  rw [hsame] at hu
  refine Genuine.later (hsound.genuine ?_) hu
  rw [get_eq_some_iff, ← mem_def.mp hrow]
  exact hr

lemma mem_eligibleRows {time : ℚ} {rows : List (String × Option DlqRow)} {r : String × DlqRow}
    (h : r ∈ eligibleRows time rows) : (r.1, some r.2) ∈ rows := by
  obtain ⟨⟨key, v⟩, hmem, heq⟩ := mem_filterMap.mp h
  obtain ⟨row, hrow, rfl⟩ := map_eq_some_iff.mp heq
  obtain ⟨rfl, -⟩ := filter_eq_some_iff.mp hrow
  exact hmem

lemma keeps_sweepDlq (hindexed : o.Indexed) (tracked : List Tracked) :
    (sweepDlq cfg tracked).Runs o cfg s := by
  refine bind (keeps_ask .now) fun time s₁ _ => ?_
  refine bind keeps_dlqScan fun rows s₂ hrows => ?_
  refine runs_forM fun ns _ s₃ hlater => ?_
  split
  · refine bind (Q := fun items t => ∀ i ∈ items, t.Genuine cfg.jsonCopy i.1.1 i.1.2)
      (ofExcept fun items t hitems ht i hi => ?_) fun items t hitems => ?_
    · have hmem := (mem_filter.mp (mem_of_itemMap hitems hi)).1
      exact ((hrows _ (mem_eligibleRows hmem) _ rfl).later hlater).later ht
    · split
      · exact runs_pure
      · exact keeps_retryItems hindexed hitems
  · exact runs_pure

variable {opEntries : List (String × PyEntry)} {ops : List BulkOp}

lemma keeps_rescue_all {p : SyncOp Unit} (h : p.Runs o cfg s) :
    SyncOp.Keeps o cfg (p.rescue fun _ => some (pure ())) (fun _ _ => True) s :=
  rescue h fun _ _ _ _ hq => some.inj hq ▸ runs_pure

lemma keeps_handleSchemaRejection (entry : PyEntry) :
    (handleSchemaRejection cfg ns entry).Runs o cfg s := by
  have hdone (t : SyncStore ρ) : (pure () : SyncOp Unit).Runs o cfg t := runs_pure
  rw [handleSchemaRejection]
  split
  · exact hdone s
  · exact hdone s
  · split
    · exact hdone s
    · refine keeps_rescue_all (bind (keeps_ask (.findRemote ns entry.docId)) fun found t _ => ?_)
      cases found with
      | some doc => exact keeps_ask (.updateLocal ..)
      | none => exact keeps_ask (.deleteLocal ..)

lemma keeps_recordError (err : WriteError) : (recordError cfg ns opEntries err).Keeps o cfg
    (fun _ t => ∀ i item, err.index = some i → opEntries[i]? = some item →
      t.Accounted cfg.jsonCopy ns item) s := by
  rw [recordError]
  split
  · next hnone =>
    refine pure fun t _ i item hi hitem => ?_
    rw [hi, bind_some, hitem] at hnone
    nomatch hnone
  · next item hitem =>
    refine bind (keeps_dlqEnqueue item _ _ _) fun _ t ht => ?_
    have hrest : (if err.code = some schemaValidationErrorCode then
        handleSchemaRejection cfg ns item.2 else pure ()).Runs o cfg t := by
      split
      · exact keeps_handleSchemaRejection item.2
      · exact runs_pure
    refine (frame (A := fun t => t.Accounted cfg.jsonCopy ns item)
      (fun _ _ hlater h => h.later hlater) hrest ht).weaken
      fun _ u hu i item' hi hitem' => ?_
    rw [hi, bind_some, hitem'] at hitem
    exact some.inj hitem ▸ hu.2

lemma keeps_flushBulk (hindexed : o.Indexed) : (flushBulk cfg ns ops opEntries).Keeps o cfg
    (fun _ t => ∀ item ∈ opEntries, t.Accounted cfg.jsonCopy ns item) s := by
  let sources := opEntries.map fun item => OpSource.oplog item.1
  have hletters (key : String) (hkey : .letter key ∈ sources) :
      ∃ origin, s.issued key = some origin := by
    obtain ⟨item, -, heq⟩ := mem_map.mp hkey
    nomatch heq
  have hwrite : (writeBatch ns ops opEntries).Safe (answer o) (terms χ cfg.jsonCopy)
      (fun r t => t.Wrote ns sources (r.map fun _ => ())) s := by
    refine Safe.bind (safe_bulkWrite hindexed ops hletters) (fun _ t ht => ?_) fun e t ht => ht
    exact fun u hu source hsource => Reported.later (ht source hsource) hu
  refine Safe.rescue hwrite ?_ ?_ nofun
  · intro n t ht a _ item hitem
    exact .inl (ht _ (mem_map_of_mem hitem))
  · intro e t ht q hq
    have hall : SyncOp.Keeps o cfg (do
        opEntries.forM fun item => dlqEnqueue cfg ns item (some (-1)) e.text false
        pure (-1 : ℤ)) (fun _ t => ∀ item ∈ opEntries, t.Accounted cfg.jsonCopy ns item) t := by
      refine bind (forM (A := fun item t => t.Accounted cfg.jsonCopy ns item)
        (fun _ _ _ hlater h => h.later hlater) fun item _ _ _ => keeps_dlqEnqueue item _ _ _)
          fun _ u hu => ?_
      exact pure fun v hv item hitem => hv.accounted ns item (hu item hitem)
    cases e with
    | bulkWriteError errors =>
      obtain rfl := some.inj hq
      have herrors : SyncOp.Keeps o cfg (errors.forM (recordError cfg ns opEntries))
          (fun _ t => ∀ err ∈ errors, ∀ i item, err.index = some i → opEntries[i]? = some item →
            t.Accounted cfg.jsonCopy ns item) t :=
        forM (fun _ _ _ hlater h i item hi hitem => (h i item hi hitem).later hlater)
          fun err _ _ _ => keeps_recordError err
      refine bind (frame (fun _ _ hlater h => Wrote.later h hlater) herrors ht)
        fun _ u hu => pure fun v hv item hitem => hv.accounted ns item ?_
      obtain ⟨i, hi⟩ := mem_iff_getElem?.mp hitem
      cases hany : errors.any fun e => e.index = some i with
      | true =>
        obtain ⟨err, herr, hindex⟩ := any_eq_true.mp hany
        exact hu.1 err herr i item (of_decide_eq_true hindex) hi
      | false =>
        refine .inl (hu.2 (OpSource.oplog item.1, i) ?_ hany)
        rw [mem_zipIdx_iff_getElem?, getElem?_map, hi]
        rfl
    | pyMongoError text | osError text => exact some.inj hq ▸ hall
    | _ => nomatch hq

section

variable {l : PushLoop} {item : String × PyEntry} {rest : List (String × PyEntry)}
  {active : Option SyncFilter} {tr : Tracked} {last : String}

lemma keeps_filterDocument (entry : PyEntry) (payload : Document) :
    (filterDocument ns entry payload).Runs o cfg s := by
  rw [filterDocument]
  split
  · refine rescue (bind (keeps_ask (.getById ..)) fun _ _ _ => runs_pure) fun e t _ q hq => ?_
    split at hq
    · exact some.inj hq ▸ runs_pure
    · nomatch hq
  · exact runs_pure

lemma keeps_isExcluded (entry : PyEntry) : (isExcluded active tr entry).Runs o cfg s := by
  rw [isExcluded]
  split
  · exact runs_pure
  · split
    · refine bind (keeps_filterDocument entry _) fun doc t _ => ?_
      refine bind (ofExcept fun _ _ _ _ => trivial) fun passes u _ => ?_
      split
      · exact bind (ofExcept fun _ _ _ _ => trivial) fun _ _ _ => runs_pure
      · exact runs_pure
    · exact runs_pure

lemma keeps_exclude (item : String × PyEntry) : (exclude ns item.1).Keeps o cfg
    (fun _ t => t.Accounted cfg.jsonCopy ns item) s :=
  keeps_request (c := .exclude ns item.1) trivial fun _ _ _ _ _ _ _ hu =>
    hu.accounted ns item (.inr (.inl (mem_append_right _ mem_cons_self)))

lemma keeps_indexCall {p : SyncOp Unit} (h : p.Runs o cfg s) :
    SyncOp.Keeps o cfg (p.rescue fun e => if e.isPyMongo then some (pure ()) else none)
      (fun _ _ => True) s := by
  refine rescue h fun e t _ q hq => ?_
  split at hq
  · exact some.inj hq ▸ runs_pure
  · nomatch hq

lemma keeps_stageEntry : (stageEntry ns l item).Keeps o cfg
    (fun l' _ => l' = l ∧ ¬item.2.Replicated ∨ ∃ op, l' = l.append op item) s := by
  have happend (op : BulkOp) (t : SyncStore ρ) : (pure (l.append op item) : SyncOp PushLoop).Keeps o
      cfg (fun l' _ => l' = l ∧ ¬item.2.Replicated ∨ ∃ op, l' = l.append op item) t :=
    pure fun _ _ => .inr ⟨op, rfl⟩
  rw [stageEntry]
  split
  · split
    · exact raise _
    · exact happend _ s
  · next hinsert =>
    split
    · split
      · exact raise _
      · exact bind (ofExcept fun _ _ _ _ => trivial) fun op t _ => happend op t
    · next hupdate =>
      split
      · exact bind (keeps_ask (.markDeleted _)) fun _ t _ => happend _ t
      · next hdelete =>
        have hother : ¬item.2.Replicated := fun h => by
          simpa [hinsert, hupdate, hdelete] using h.kind
        have hsame (t : SyncStore ρ) : (pure l : SyncOp PushLoop).Keeps o cfg
            (fun l' _ => l' = l ∧ ¬item.2.Replicated ∨ ∃ op, l' = l.append op item) t :=
          pure fun _ _ => .inl ⟨rfl, hother⟩
        split
        · split
          · exact raise _
          · exact bind (keeps_indexCall (keeps_ask (.createIndex ..))) fun _ t _ => hsame t
        · split
          · exact bind (keeps_indexCall (keeps_ask (.dropIndex ..))) fun _ t _ => hsame t
          · exact hsame s

/-- How far the loop has come: `last` is the last key that was read. -/
structure Progress (copy : PyEntry → PyEntry) (ns last : String) (rest : List (String × PyEntry))
    (l : PushLoop) (s : SyncStore ρ) : Prop where
  covers : s.Covers copy ns last (l.opEntries ++ rest)
  sorted : rest.Pairwise fun a b => a.1 < b.1
  bound : ∀ item ∈ rest, item.1 ≤ last
  lengths : l.ops.length = l.opEntries.length
  lastKey : ∀ key ∈ l.lastKey, key ≤ last
  safeKey : ∀ key ∈ l.safeKey, s.Covers copy ns key []

variable {copy : PyEntry → PyEntry}

section

variable (h : Progress copy ns last rest l s)
include h

lemma Progress.later (hlater : Later copy s t) :
    Progress copy ns last rest l t :=
  { h with
    covers := h.covers.later hlater
    safeKey := fun key hkey => (h.safeKey key hkey).later hlater }

lemma Progress.opEntries_of_isEmpty (hempty : l.ops.isEmpty) : l.opEntries = [] := by
  apply eq_nil_of_length_eq_zero
  rw [← h.lengths, isEmpty_iff.mp hempty, length_nil]

lemma Progress.covers_of_accounted (hle : key ≤ last) (hrest : ∀ item ∈ rest, key < item.1)
    (hbatch : ∀ item ∈ l.opEntries, s.Accounted copy ns item) : s.Covers copy ns key [] := by
  refine h.covers.settle hle fun item hitem _ hkey => ?_
  rcases mem_append.mp hitem with hitem | hitem
  · exact .inl (hbatch item hitem)
  · exact absurd hkey (not_le_of_gt (hrest item hitem))

end

lemma keeps_flushFull (hindexed : o.Indexed) (h : Progress cfg.jsonCopy ns last rest l s)
    (hle : key ≤ last) (hrest : ∀ item ∈ rest, key < item.1) :
    (flushFull cfg ns key l).Keeps o cfg (Progress cfg.jsonCopy ns last rest) s := by
  rw [flushFull]
  split
  · refine bind (frame (A := Progress cfg.jsonCopy ns last rest l)
      (fun _ _ hlater h => h.later hlater) (keeps_flushBulk hindexed) h) ?_
    rintro n t ⟨hbatch, ht⟩
    have hcovers := ht.covers_of_accounted hle hrest hbatch
    refine pure fun u hu => Progress.later ?_ hu
    refine { ht with covers := ?_, lengths := rfl, safeKey := ?_ }
    · refine ht.covers.settle le_rfl fun item hitem _ _ => ?_
      exact (mem_append.mp hitem).imp (hbatch item) id
    · intro key' hkey'
      split at hkey'
      · exact some.inj hkey' ▸ hcovers
      · exact ht.safeKey key' hkey'
  · exact pure fun t ht => h.later ht

lemma keeps_pushEntry (hindexed : o.Indexed)
    (h : Progress cfg.jsonCopy tr.ns last (item :: rest) l s) :
    (pushEntry cfg active tr l item).Keeps o cfg (Progress cfg.jsonCopy tr.ns last rest) s := by
  obtain ⟨hrest, hsorted⟩ := pairwise_cons.mp h.sorted
  have hle : item.1 ≤ last := h.bound item mem_cons_self
  have hbound : ∀ r ∈ rest, r.1 ≤ last := fun r hr => h.bound r (mem_cons_of_mem _ hr)
  have hstable (t u : SyncStore ρ) (hlater : Later cfg.jsonCopy t u)
      (ht : Progress cfg.jsonCopy tr.ns last (item :: rest) l t) :
      Progress cfg.jsonCopy tr.ns last (item :: rest) l u := ht.later hlater
  refine bind (frame hstable (keeps_isExcluded item.2) h) ?_
  rintro excluded t ⟨-, ht⟩
  split
  · refine bind (frame hstable (keeps_exclude item) ht) ?_
    rintro _ u ⟨haccounted, hu⟩
    refine pure fun v hv => Progress.later ?_ hv
    refine ⟨hu.covers.settle le_rfl fun r hr _ _ => ?_, hsorted, hbound, hu.lengths,
      fun key hkey => some.inj hkey ▸ hle, fun key hkey => ?_⟩
    · rw [mem_append, mem_cons] at hr
      rcases hr with hr | rfl | hr
      · exact .inr (mem_append_left _ hr)
      · exact .inl haccounted
      · exact .inr (mem_append_right _ hr)
    · split at hkey
      · next hempty =>
        obtain rfl := some.inj hkey
        refine hu.covers.settle hle fun r hr _ hkey => ?_
        rw [hu.opEntries_of_isEmpty hempty, nil_append] at hr
        rcases mem_cons.mp hr with rfl | hr
        · exact .inl haccounted
        · exact absurd hkey (not_le_of_gt (hrest r hr))
      · exact hu.safeKey key hkey
  · refine bind (frame hstable keeps_stageEntry ht) ?_
    rintro l' u ⟨hstaged, hu⟩
    refine keeps_flushFull hindexed ?_ hle hrest
    rcases hstaged with ⟨rfl, hother⟩ | ⟨op, rfl⟩
    · refine ⟨hu.covers.settle le_rfl fun r hr hrep _ => ?_, hsorted, hbound, hu.lengths,
        fun key hkey => some.inj hkey ▸ hle, hu.safeKey⟩
      rw [mem_append, mem_cons] at hr
      rcases hr with hr | rfl | hr
      · exact .inr (mem_append_left _ hr)
      · exact absurd hrep hother
      · exact .inr (mem_append_right _ hr)
    · refine ⟨?_, hsorted, hbound, ?_, fun key hkey => some.inj hkey ▸ hle, hu.safeKey⟩
      · have happend : l.opEntries ++ [item] ++ rest = l.opEntries ++ item :: rest := by
          rw [append_assoc, singleton_append]
        exact happend ▸ hu.covers
      · simp [PushLoop.append, hu.lengths]

lemma keeps_flushRest (hindexed : o.Indexed) (h : Progress cfg.jsonCopy ns last [] l s) :
    (flushRest cfg ns l).Keeps o cfg
      (fun safeKey t => ∀ key ∈ safeKey, t.Covers cfg.jsonCopy ns key []) s := by
  rw [flushRest]
  split
  · exact pure fun t ht key hkey => (h.safeKey key hkey).later ht
  · refine bind (frame (A := Progress cfg.jsonCopy ns last [] l)
      (fun _ _ hlater h => h.later hlater) (keeps_flushBulk hindexed) h) ?_
    rintro n t ⟨hbatch, ht⟩
    refine pure fun u hu key hkey => Covers.later ?_ hu
    split at hkey
    · exact ht.covers_of_accounted (ht.lastKey key hkey) (fun _ hr => (not_mem_nil hr).elim) hbatch
    · exact ht.safeKey key hkey

end

lemma keeps_advanceCheckpoint {safeKey : Option String}
    (h : ∀ key ∈ safeKey, s.Covers cfg.jsonCopy ns key []) :
    (advanceCheckpoint cfg ns safeKey).Runs o cfg s := by
  rw [advanceCheckpoint]
  split
  · exact runs_pure
  · next key hkey =>
    have hcovers := h key (filter_eq_some_iff.mp hkey).1
    split
    · exact keeps_call (c := .checkpointTruncate ..) ⟨rfl, hcovers⟩
    · exact keeps_call (c := .setCheckpoint ..) ⟨ns, rfl, hcovers⟩

lemma keeps_resetCheckpoints (ns : String) : (resetCheckpoints ns).Runs o cfg s := by
  refine foldlM (I := fun _ _ _ => True) (fun _ _ _ _ _ _ => trivial) ?_ _ trivial
  intro failures name _ t _
  refine rescue (bind (keeps_call (c := .removeCheckpoint name) trivial) fun _ _ _ =>
    runs_pure) fun e u _ q hq => ?_
  exact some.inj hq ▸ runs_pure

lemma keeps_forceFullResync (ns : String) : (forceFullResync ns).Runs o cfg s := by
  refine bind (keeps_resetCheckpoints ns) fun failures t _ => ?_
  split
  · refine bind (Q := fun _ _ => True) (rescue (bind (keeps_ask (.clearLocal ns))
      fun _ _ _ => runs_pure) fun e u _ q hq => ?_) fun cleared u _ => ?_
    · exact some.inj hq ▸ runs_pure
    · split
      · exact keeps_rescue_all (keeps_ask (.pullAll ns))
      · exact runs_pure
  · exact runs_pure

lemma keeps_handleOplogOverflow (ns : String) : (handleOplogOverflow cfg ns).Runs o cfg s := by
  rw [handleOplogOverflow]
  split
  · exact raise _
  · exact keeps_forceFullResync ns

lemma keeps_hasOverflowed (checkpoint : Option String) :
    (hasOverflowed ns checkpoint).Runs o cfg s := by
  cases checkpoint with
  | none => exact runs_pure
  | some c =>
    refine bind (rescue (keeps_ask (.oldestKey ns)) fun e t _ q hq => ?_) fun _ t _ => runs_pure
    exact some.inj hq ▸ runs_pure

lemma keeps_getCheckpoint : (getCheckpoint (checkpointName ns)).Keeps o cfg
    (fun checkpoint t => ∀ c ∈ checkpoint, t.Covers cfg.jsonCopy ns c []) s := by
  refine keeps_request (c := .getCheckpoint _) trivial fun t x r _ hsound hok u hu c hc => ?_
  rw [answer] at hok hu
  obtain ⟨rfl, hsame⟩ := access_eq_ok hok
  rw [hsame] at hu
  exact (hsound.checkpoints ns c hc).later hu

lemma SyncStore.Sound.progress (h : s.Sound cfg.jsonCopy) {checkpoint : Option String}
    (hcheckpoint : ∀ c ∈ checkpoint, s.Covers cfg.jsonCopy ns c [])
    {entries : List (String × PyEntry)} (hentries : entriesAfter checkpoint (s.oplog ns) = entries)
    (hpassed : entries.map Prod.fst ⊆ s.passed ns)
    {last : String × PyEntry} (hlast : entries.getLast? = some last) :
    Progress cfg.jsonCopy ns last.1 entries {} s := by
  have hsorted : entries.Pairwise fun a b => a.1 < b.1 := hentries ▸ (s.oplog ns).sorted.filter _
  obtain ⟨front, rfl⟩ := getLast?_eq_some_iff.mp hlast
  have hlast : last.1 ∈ s.passed ns := hpassed (by simp)
  refine ⟨⟨⟨last.1, hlast, le_rfl⟩, fun item hitem hrep hle => ?_⟩, hsorted, ?_, rfl,
    nofun, nofun⟩
  · rcases h.logged ns item hitem hrep with hdone | hrow
    · exact .inl hdone
    · cases habove : checkpoint.all (· < item.1) with
      | true =>
        refine .inr ?_
        rw [nil_append, ← hentries]
        refine mem_filter.mpr ⟨hrow, Bool.and_eq_true_iff.mpr ⟨habove, ?_⟩⟩
        rw [hrep.external, Bool.not_false]
      | false =>
        cases checkpoint with
        | none => nomatch habove
        | some c =>
          have hbelow : item.1 ≤ c := not_lt.mp (of_decide_eq_false habove)
          exact .inl (((hcheckpoint c rfl).accounted item hitem hrep hbelow).resolve_right
            not_mem_nil)
  · intro item hitem
    rcases mem_append.mp hitem with hitem | hitem
    · exact ((pairwise_append.mp hsorted).2.2 item hitem last mem_cons_self).le
    · rw [mem_singleton.mp hitem]

lemma keeps_readFrom {checkpoint : Option String}
    (h : ∀ c ∈ checkpoint, s.Covers cfg.jsonCopy ns c []) :
    (SyncOp.readFrom ns checkpoint).Keeps o cfg (fun entries t => ∀ last, entries.getLast? = some
      last →
      Progress cfg.jsonCopy ns last.1 entries {} t) s := by
  refine keeps_request (c := .readFrom ..) trivial fun t x r hlater hsound hok u hu last hlast => ?_
  rw [answer] at hok hu
  obtain ⟨rfl, hsame⟩ := access_eq_ok hok
  rw [hsame] at hu
  obtain ⟨hsound, hpass⟩ := hsound.pass _
  refine Progress.later (hsound.progress (fun c hc => ((h c hc).later hlater).later hpass) rfl ?_
    hlast) hu
  simp

lemma keeps_pushNamespace (hindexed : o.Indexed) (active : Option SyncFilter) (tr : Tracked) :
    (pushNamespace cfg active tr).Runs o cfg s := by
  refine bind keeps_getCheckpoint fun checkpoint s₁ hcheckpoint => ?_
  refine bind (frame (A := fun t => ∀ c ∈ checkpoint, t.Covers cfg.jsonCopy tr.ns c [])
    (fun _ _ hlater h c hc => (h c hc).later hlater) (keeps_hasOverflowed checkpoint)
    hcheckpoint) ?_
  rintro overflowed s₂ ⟨-, hcheckpoint⟩
  split
  · exact keeps_handleOplogOverflow tr.ns
  · refine bind (keeps_readFrom hcheckpoint) fun entries s₃ hentries => ?_
    split
    · exact keeps_ask (.pushIndexDefs tr.ns)
    · next hne =>
      obtain ⟨last, hlast⟩ := isSome_iff_exists.mp
        (getLast?_isSome.mpr fun h => hne (isEmpty_iff.mpr h))
      refine bind (foldlM (I := Progress cfg.jsonCopy tr.ns last.1)
        (fun _ _ _ _ hlater h => h.later hlater) (fun _ _ _ _ h => keeps_pushEntry hindexed h)
        entries (hentries last hlast)) fun l s₄ hl => ?_
      refine bind (keeps_flushRest hindexed hl) fun safeKey s₅ hsafe => ?_
      exact bind (keeps_advanceCheckpoint hsafe) fun _ _ _ => keeps_ask (.pushIndexDefs tr.ns)

lemma keeps_push (hindexed : o.Indexed) {active : Option SyncFilter} {tracked : List Tracked}
    {stage : List (SyncOp Unit)} (hstage : stage ∈ push cfg active tracked) {p : SyncOp Unit}
    (hp : p ∈ stage) : p.Runs o cfg s := by
  rw [push] at hstage
  split at hstage
  · rw [mem_singleton.mp hstage] at hp
    rw [mem_singleton.mp hp]
    exact keeps_sweepDlq hindexed tracked
  · split at hstage
    · rw [mem_singleton.mp hstage] at hp
      rw [mem_singleton.mp hp]
      refine bind (keeps_sweepDlq hindexed tracked) fun _ t _ => ?_
      exact runs_forM fun tr _ _ _ => keeps_pushNamespace hindexed active tr
    · rcases mem_cons.mp hstage with rfl | hstage
      · rw [mem_singleton.mp hp]
        exact keeps_sweepDlq hindexed tracked
      · rw [mem_singleton.mp hstage] at hp
        obtain ⟨tr, -, rfl⟩ := mem_map.mp hp
        exact keeps_pushNamespace hindexed active tr

end

namespace SyncSystem

open SyncStore

variable {χ ρ : Type} {o : Outside χ ρ} {cfg : SyncConfig}

/-- What the world around makes possible: no two entries and no two calls of `_dlq_enqueue` get the
same key. -/
def Possible (σ : SyncSystem ρ) : SyncEvent χ ρ → Prop
  | .append ns key _ _ => ∀ item ∈ σ.store.logged ns, item.1 ≠ key
  | .step i _ => ∀ p ∈ σ.threads[i]?, ∀ c ∈ p.next, σ.store.Fresh c
  | _ => True

instance (σ : SyncSystem ρ) : ∀ e : SyncEvent χ ρ, Decidable (σ.Possible e)
  | .append ns key _ _ => inferInstanceAs (Decidable (∀ item ∈ σ.store.logged ns, item.1 ≠ key))
  | .step i _ => inferInstanceAs (Decidable (∀ p ∈ σ.threads[i]?, ∀ c ∈ p.next, σ.store.Fresh c))
  | .begin _ _ | .join | .crash => .isTrue trivial

/-- An entry becomes visible above the stored checkpoint and above what the push cycle under way has
read. -/
def InTime (σ : SyncSystem ρ) : SyncEvent χ ρ → Prop
  | .append ns key _ _ => ∀ k ∈ σ.store.passed ns, k < key
  | _ => True

instance (σ : SyncSystem ρ) : ∀ e : SyncEvent χ ρ, Decidable (σ.InTime e)
  | .append ns key _ _ => inferInstanceAs (Decidable (∀ k ∈ σ.store.passed ns, k < key))
  | .begin _ _ | .step _ _ | .join | .crash => .isTrue trivial

/-- The oplogs may hold anything, but nothing has been pushed yet. -/
structure New (σ : SyncSystem ρ) : Prop where
  logged : ∀ ns, σ.store.logged ns = (σ.store.oplog ns).rows
  checkpoints : ∀ ns, σ.store.checkpoints (checkpointName ns) = none
  passed : ∀ ns, σ.store.passed ns = []
  dlq : σ.store.dlq = .empty
  threads : σ.threads = []
  later : σ.later = []

variable (o cfg) in
/-- The store is sound, and all threads keep to the terms. -/
structure Good (σ : SyncSystem ρ) : Prop where
  sound : σ.store.Sound cfg.jsonCopy
  threads : ∀ p ∈ σ.threads, p.Keeps o cfg (fun _ _ => True) σ.store
  later : ∀ stage ∈ σ.later, ∀ p ∈ stage, p.Keeps o cfg (fun _ _ => True) σ.store

variable {σ : SyncSystem ρ}

lemma New.good (h : σ.New) : σ.Good o cfg where
  sound :=
    { oplog := fun ns item hitem => h.logged ns ▸ hitem
      logged := fun ns item hitem _ => .inr (h.logged ns ▸ hitem)
      checkpoints := fun ns c hc => by
        rw [h.checkpoints ns] at hc
        nomatch hc
      dlq := fun key _ => by rw [h.dlq, get_empty]
      rows := fun key row ns item hget _ => by
        rw [h.dlq, get_empty] at hget
        nomatch hget }
  threads := by
    rw [h.threads]
    exact fun p hp => (not_mem_nil hp).elim
  later := by
    rw [h.later]
    exact fun p hp => (not_mem_nil hp).elim

lemma Good.moved (h : σ.Good o cfg) {store : SyncStore ρ}
    (hsound : store.Sound cfg.jsonCopy) (hlater : Later cfg.jsonCopy σ.store store) :
    Good o cfg { σ with store } where
  sound := hsound
  threads p hp := Safe.later (h.threads p hp) hlater
  later stage hstage p hp := Safe.later (h.later stage hstage p hp) hlater

lemma Good.endCycle (h : σ.Good o cfg) : Good o cfg { store := σ.store.endCycle } where
  sound := h.sound.endCycle
  threads _ hp := (not_mem_nil hp).elim
  later _ hp := (not_mem_nil hp).elim

lemma good_step (hindexed : o.Indexed) (h : σ.Good o cfg)
    {event : SyncEvent χ ρ} (hpossible : σ.Possible event) (htime : σ.InTime event) :
    (σ.step o cfg event).Good o cfg := by
  cases event with
  | append ns key entry outside =>
    obtain ⟨hsound, hlater⟩ := h.sound.append entry outside hpossible htime
    exact h.moved hsound hlater
  | crash => exact h.endCycle
  | begin active tracked =>
    rw [step]
    split
    · split
      · exact h
      · next threads later hpush =>
        refine ⟨h.sound, fun p hp => ?_, fun stage hstage p hp => ?_⟩
        · exact keeps_push hindexed (hpush ▸ mem_cons_self) hp
        · exact keeps_push hindexed (hpush ▸ mem_cons_of_mem _ hstage) hp
    · exact h
  | join =>
    rw [step]
    split
    · split
      · next threads later hlater =>
        split
        · refine ⟨h.sound, fun p hp => ?_, fun stage hstage p hp => ?_⟩
          · exact h.later threads (hlater ▸ mem_cons_self) p hp
          · exact h.later stage (hlater ▸ mem_cons_of_mem _ hstage) p hp
        · exact h.endCycle
      · exact h.endCycle
    · exact h
  | step i x =>
    rw [step]
    split
    · exact h
    · next p hp =>
      have hadmits : p.Admits (terms χ cfg.jsonCopy) σ.store x := by
        cases p with
        | done r => trivial
        | call c next => exact hpossible _ hp c rfl
      obtain ⟨hsound, hlater, hnext⟩ := Safe.turn (h.threads p (mem_of_getElem? hp)) h.sound hadmits
      have hmoved := h.moved hsound hlater
      refine ⟨hmoved.sound, fun q hq => ?_, hmoved.later⟩
      rcases mem_or_eq_of_mem_set hq with hq | rfl
      · exact hmoved.threads q hq
      · exact hnext

lemma Good.nothingDropped (h : σ.Good o cfg) : σ.store.NothingDropped cfg.jsonCopy := by
  intro ns item hitem hrep
  by_cases habove : ∀ checkpoint ∈ σ.store.checkpoints (checkpointName ns), checkpoint < item.1
  · exact .inr habove
  · obtain ⟨c, hbelow⟩ := not_forall.mp habove
    obtain ⟨hc, hbelow⟩ := Classical.not_imp.mp hbelow
    have hle := not_lt.mp hbelow
    exact .inl (((h.sound.checkpoints ns c hc).accounted item hitem hrep hle).resolve_right
      not_mem_nil)

/-- At every moment of every interleaving in which entries become visible in time, each entry is
accounted for or above the checkpoint. -/
theorem push_drops_nothing {σ : SyncSystem ρ} (hindexed : o.Indexed) (hnew : σ.New)
    {events : List (SyncEvent χ ρ)}
    (hrun : Along (step o cfg) (fun σ e => σ.Possible e ∧ σ.InTime e) σ events) :
    (events.foldl (step o cfg) σ).store.NothingDropped cfg.jsonCopy :=
  (Along.invariant (I := Good o cfg) (fun _ _ h hevent => good_step hindexed h hevent.1 hevent.2)
    hnew.good hrun).nothingDropped

end SyncSystem

namespace Sample

def inserted (id : ℤ) : PyEntry where
  op := "insert"
  docId := .int32 (.ofInt id)
  payload := some [("_id", .int32 (.ofInt id))]
  ts := F64.zero

/-- A bulk write succeeds, is refused for its first operation, or fails; the state counts the keys
of the dead-letter queue. -/
def flakyServer : Outside ℕ ℕ where
  fault _ := none
  bulkWrite x _ _ n := match x with
    | 0 => (.ok (), n)
    | 1 => (.error (.bulkWriteError [⟨some 0, some 11000, "duplicate key"⟩]), n)
    | _ => (.error (.pyMongoError "connection refused"), n)
  answer c _ n := match c with
    | .now => (.ok (0 : ℚ), n)
    | .letterKey => (.ok (String.ofList (replicate n 'x')), n + 1)
    | .oldestKey _ => (.error (.attributeError "oldest_key"), n)
    | .getById _ _ | .findRemote _ _ => (.ok none, n)
    | .markDeleted _ | .createIndex _ _ | .dropIndex _ _ | .pushIndexDefs _ | .updateLocal _ _ _
    | .deleteLocal _ _ | .clearLocal _ | .pullAll _ => (.ok (), n)

lemma flakyServer_indexed : flakyServer.Indexed := by
  intro x ns ops n errors h e he
  match x with
  | 0 => nomatch h
  | 1 =>
    obtain rfl := PyError.bulkWriteError.inj (error.inj h)
    rw [mem_singleton.mp he]
    rfl
  | x + 2 => nomatch h

def oneByOne : SyncConfig where
  batchSize := 1
  jsonCopy := id

def twoEntries (ns : String) : OrderedTable String PyEntry :=
  if ns = "db.c" then (empty.insert "1" (inserted 1)).insert "2" (inserted 2)
  else .empty

def twoLogged : SyncSystem ℕ where
  store :=
    { oplog := twoEntries
      logged := fun ns => (twoEntries ns).rows
      passed := fun _ => []
      checkpoints := fun _ => none
      dlq := .empty
      outside := 0
      reported := []
      excluded := []
      issued := fun _ => none }

/-- A new entry comes while the cycle is under way. -/
def failThenSucceed : List (SyncEvent ℕ ℕ) :=
  .begin none [⟨"db.c", none⟩] :: [0, 0, 0, 0, 2, 0].map (.step 0) ++
    .append "db.c" "3" (inserted 3) 0 :: [0, 0, 0, 0, 0].map (.step 0)

/-- The transaction of the entry with the key `15` commits after the push. -/
def lateEntry : List (SyncEvent ℕ ℕ) :=
  .begin none [⟨"db.c", none⟩] :: (replicate 12 0).map (.step 0) ++
    [.join, .append "db.c" "15" (inserted 15) 0]

def afterFailure : SyncStore ℕ :=
  (failThenSucceed.foldl (SyncSystem.step flakyServer oneByOne) twoLogged).store

end Sample

section

open Sample SyncSystem

/-- The entry of the failed batch is below the checkpoint and in the dead-letter queue. -/
theorem push_drops_nothing_after_failure :
    afterFailure.checkpoints "push:db.c" = some "2" ∧ afterFailure.reported = [("db.c", "2")] ∧
      afterFailure.NothingDropped oneByOne.jsonCopy := by
  have hnew : twoLogged.New := ⟨fun _ => rfl, fun _ => rfl, fun _ => rfl, rfl, rfl, rfl⟩
  have hrun : Along (step flakyServer oneByOne) (fun σ e => σ.Possible e ∧ σ.InTime e) twoLogged
      failThenSucceed := by
    decide +kernel
  exact ⟨rfl, rfl, push_drops_nothing flakyServer_indexed hnew hrun⟩

theorem push_drops_late_commit :
    Along (step flakyServer oneByOne) Possible twoLogged lateEntry ∧
      ¬ (lateEntry.foldl (step flakyServer oneByOne) twoLogged).store.NothingDropped id := by
  refine ⟨by decide +kernel, fun h => ?_⟩
  have hlate : ("15", inserted 15) ∈
      (lateEntry.foldl (step flakyServer oneByOne) twoLogged).store.logged "db.c" :=
    mem_cons_of_mem _ (mem_cons_of_mem _ mem_cons_self)
  rcases h "db.c" _ hlate ⟨rfl, by decide⟩ with
    (hreported | hexcluded | ⟨key, row, hget, -⟩) | habove
  · revert hreported
    decide +kernel
  · cases hexcluded
  · cases hget
  · exact absurd (habove "2" rfl) (by decide)

end

end Smongo

import Smongo.Collection.Loops

/-!
# Expiry

`reap_expired` reads index keys as instants and stops at the first one after the cutoff.
-/

namespace Smongo

open Eff List OrderedTable RedbCursor Bytes StorageSession StorageCursor IndexSpec

section

variable {S C : Type} [StorageCursor C] [StorageSession S C] (env : Env) (c : Handle)

def nowEpochMillis (tick : ℕ) : Int64 := Int64.ofNat (env.timeNanos tick / 1000000)

def cutoffMillis (now : Int64) (expireSecs : UInt64) : Int64 := now - expireSecs.toInt64 * 1000

def keyMillis (key : Bytes) : Int64 := Int64.ofNat (ofBigEndian (key.take 8))

def collectExpired (cutoff : Int64) (cursor : C) (ids : List String) :
    Op S (Bool × List String) := do
  let key ← liftStorage (getKeyRaw cursor)
  if 8 ≤ key.length then
    if cutoff < keyMillis key then pure (false, ids)
    else do
      let idStr ← liftStorage (getValueStr cursor)
      pure (true, ids ++ [idStr])
  else pure (true, ids)

def reapDocument (n : ℕ) (idStr : String) : Op S ℕ := do
  let cursor : C ← openTable c.tableName
  let (found, cursor) ← move search (StorageCursor.setKey cursor (utf8 idStr))
  match found with
  | .error _ => pure n
  | .ok () => do
    let docBytes ← liftStorage (getValueRaw cursor)
    let doc ← ofOutcome (deserializeDocument env docBytes)
    removeFromIndexes env c doc
    let (found, cursor) ← move search (StorageCursor.setKey cursor (utf8 idStr))
    match found with
    | .error _ => pure n
    | .ok () => do
      onSession (remove cursor)
      pure (n + 1)

def reapIndex (n : ℕ) (spec : IndexSpec) : Op S ℕ :=
  match spec.options.expireAfterSeconds with
  | none => pure n
  | some expireSecs =>
    if spec.keys.length ≠ 1 then pure n
    else do
      let tick ← draw
      let cursor : C ← openTable (c.indexTable spec.name)
      let ids ← scanRows cursor []
        (collectExpired (cutoffMillis (nowEpochMillis env tick) expireSecs))
      ids.foldlM (reapDocument env c) n

def reapExpired : Op S ℕ := do
  let indexes ← listIndexes env c
  indexes.foldlM (reapIndex env c) 0

end

/-! ### Which keys are read as expired -/

def Late (cutoff : Int64) (key : Bytes) : Prop := 8 ≤ key.length ∧ cutoff < keyMillis key

instance (cutoff : Int64) (key : Bytes) : Decidable (Late cutoff key) :=
  inferInstanceAs (Decidable (_ ∧ _))

lemma ofBigEndian_take_eight_lt (key : Bytes) : ofBigEndian (key.take 8) < 2 ^ 64 :=
  calc ofBigEndian (key.take 8) < 256 ^ (key.take 8).length := ofBigEndian_lt _
    _ ≤ 256 ^ 8 := Nat.pow_le_pow_right (by omega) (length_take_le 8 key)
    _ = 2 ^ 64 := rfl

lemma toInt_keyMillis (key : Bytes) : (keyMillis key).toInt =
    if ofBigEndian (key.take 8) < 2 ^ 63 then (ofBigEndian (key.take 8) : ℤ)
    else ofBigEndian (key.take 8) - 2 ^ 64 := by
  have hlt := ofBigEndian_take_eight_lt key
  have hsize : (Int64.size : ℤ) = 2 ^ 64 := rfl
  rw [keyMillis, Int64.toInt_ofNat', Int.bmod_def, hsize]
  split_ifs <;> omega

/-- Before an instant that is not late the scan stops only for a late one, if it is before the
epoch. -/
lemma not_late_before_iff {cutoff : Int64} {key : Bytes} (hkey : 8 ≤ key.length)
    (hearly : keyMillis key ≤ cutoff) {keys : List Bytes} :
    (∀ key' ∈ keys, key' ≤ key → ¬ Late cutoff key') ↔
      0 ≤ keyMillis key ∨ ∀ key' ∈ keys, 0 ≤ keyMillis key' → ¬ Late cutoff key' := by
  have hlt : ∀ key' : Bytes, 8 ≤ key'.length →
      ofBigEndian (key'.take 8) < ofBigEndian (key.take 8) → key' < key :=
    fun key' hkey' => lt_of_ofBigEndian_take_lt hkey' hkey
  have hgt : ∀ key' : Bytes, 8 ≤ key'.length →
      ofBigEndian (key.take 8) < ofBigEndian (key'.take 8) → key < key' :=
    fun key' hkey' => lt_of_ofBigEndian_take_lt hkey hkey'
  have hbound := ofBigEndian_take_eight_lt key
  rw [Int64.le_iff_toInt_le, toInt_keyMillis] at hearly
  constructor
  · intro h
    by_cases hsign : 0 ≤ keyMillis key
    · exact .inl hsign
    · refine .inr fun key' hmem hsign' hlate => h key' hmem ?_ hlate
      apply le_of_lt
      apply hlt key' hlate.1
      have hbound' := ofBigEndian_take_eight_lt key'
      rw [Int64.le_iff_toInt_le, toInt_keyMillis, Int64.toInt_zero] at hsign
      rw [Int64.le_iff_toInt_le, toInt_keyMillis, Int64.toInt_zero] at hsign'
      split_ifs at hsign hsign' <;> omega
  · rintro hor key' hmem hle hlate
    have hnot : ¬ ofBigEndian (key.take 8) < ofBigEndian (key'.take 8) := fun hlt =>
      absurd (hgt key' hlate.1 hlt) (not_lt.mpr hle)
    have hlate' := hlate.2
    rw [Int64.lt_iff_toInt_lt, toInt_keyMillis] at hlate'
    rcases hor with hsign | hnone
    · rw [Int64.le_iff_toInt_le, toInt_keyMillis, Int64.toInt_zero] at hsign
      split_ifs at hsign hearly hlate' <;> omega
    · refine hnone key' hmem ?_ hlate
      rw [Int64.le_iff_toInt_le, toInt_keyMillis, Int64.toInt_zero]
      split_ifs at hearly hlate' ⊢ <;> omega

def expiredRows (cutoff : Int64) (rows : Rows) : Rows :=
  (rows.takeWhile fun row => ¬ Late cutoff row.1).filter fun row => 8 ≤ row.1.length

lemma mem_expiredRows {cutoff : Int64} {rows : Rows}
    (h : rows.Pairwise fun a b => a.1 < b.1) {row : Row} :
    row ∈ expiredRows cutoff rows ↔ row ∈ rows ∧ 8 ≤ row.1.length ∧ keyMillis row.1 ≤ cutoff ∧
      (0 ≤ keyMillis row.1 ∨ ∀ row' ∈ rows, 0 ≤ keyMillis row'.1 → ¬ Late cutoff row'.1) := by
  have hbefore : (∀ row' ∈ rows, row'.1 ≤ row.1 → ¬ Late cutoff row'.1) ↔
      ∀ key ∈ rows.map Prod.fst, key ≤ row.1 → ¬ Late cutoff key := by simp
  have hall : (∀ row' ∈ rows, 0 ≤ keyMillis row'.1 → ¬ Late cutoff row'.1) ↔
      ∀ key ∈ rows.map Prod.fst, 0 ≤ keyMillis key → ¬ Late cutoff key := by simp
  rw [expiredRows, mem_filter, mem_takeWhile_iff h]
  simp only [decide_eq_true_eq]
  rw [hbefore, hall]
  constructor
  · rintro ⟨⟨hmem, hnone⟩, hlen⟩
    have hearly : keyMillis row.1 ≤ cutoff := by
      refine Int64.not_lt.mp fun hlt => ?_
      exact hnone row.1 (mem_map_of_mem hmem) le_rfl ⟨hlen, hlt⟩
    exact ⟨hmem, hlen, hearly, (not_late_before_iff hlen hearly).mp hnone⟩
  · rintro ⟨hmem, hlen, hearly, hor⟩
    exact ⟨⟨hmem, (not_late_before_iff hlen hearly).mpr hor⟩, hlen⟩

section

variable {w : RedbWorld} (cutoff : Int64)

def expiredStep (ids : List String) (row : Row) : Outcome CollectionError (Bool × List String) :=
  if 8 ≤ row.1.length then
    if cutoff < keyMillis row.1 then .ok (false, ids)
    else
      match ofUtf8 row.2 with
      | some idStr => .ok (true, ids ++ [idStr])
      | none => .error (.storageError (.other "value is not valid UTF-8"))
  else .ok (true, ids)

section

variable {rows : Rows} (hids : ∀ row ∈ rows, ∃ idStr, row.2 = utf8 idStr)
include hids

lemma reads_collectExpired :
    Reads w (collectExpired cutoff) (expiredStep cutoff) rows := by
  intro row hrow cursor rest ids hat
  obtain ⟨idStr, hid⟩ := hids row hrow
  rw [collectExpired, bind_of_ok (getKeyRaw_of_at hat), expiredStep, hid, ofUtf8_utf8]
  split
  · split
    · rfl
    · exact bind_of_ok (getValueStr_of_at hat hid)
  · rfl

lemma foldRows_expiredStep (ids : List String) :
    ∃ ids', foldRows (expiredStep cutoff) rows ids = .ok (ids ++ ids') ∧
      ids'.map utf8 = (expiredRows cutoff rows).map Prod.snd := by
  induction rows generalizing ids with
  | nil => exact ⟨[], by simp [foldRows], rfl⟩
  | cons row rows ih =>
    obtain ⟨idStr, hid⟩ := hids row mem_cons_self
    have hrest := ih fun r hr => hids r (mem_cons_of_mem _ hr)
    rw [foldRows, expiredStep, hid, ofUtf8_utf8, expiredRows]
    by_cases hlen : 8 ≤ row.1.length
    · rw [if_pos hlen]
      by_cases hlate : cutoff < keyMillis row.1
      · have hstop : Late cutoff row.1 := ⟨hlen, hlate⟩
        rw [if_pos hlate]
        exact ⟨[], by simp [Bind.bind, Outcome.bind], by simp [hstop]⟩
      · have hgo : ¬ Late cutoff row.1 := fun h => hlate h.2
        obtain ⟨ids', hfold, hmap⟩ := hrest (ids ++ [idStr])
        rw [if_neg hlate]
        refine ⟨idStr :: ids', ?_, ?_⟩
        · refine Eq.trans ?_ (hfold.trans (by simp))
          rfl
        · rw [expiredRows] at hmap
          simp [hgo, hlen, hid, hmap]
    · have hgo : ¬ Late cutoff row.1 := fun h => hlen h.1
      obtain ⟨ids', hfold, hmap⟩ := hrest ids
      rw [if_neg hlen]
      refine ⟨ids', hfold, ?_⟩
      rw [expiredRows] at hmap
      simp [hgo, hlen, hmap]

end

end

/-! ### Deleting a document -/

/-- Only tables of `P` are written. -/
structure OnlyWrites (P : String → Prop) (w w' : RedbWorld) : Prop where
  inTransaction : w'.session.inTransaction = w.session.inTransaction
  indexCache : w'.indexCache = w.indexCache
  ticks : w'.ticks = w.ticks
  same : ∀ name, ¬ P name → World.SameTable name w w'

def Succeeds (P : String → Prop) (m : RedbOp Unit) : Prop :=
  ∀ w, ∃ w', m w = (.ok (), w') ∧ OnlyWrites P w w'

section

variable {P : String → Prop} {α : Type} {w w' w'' : RedbWorld}

lemma OnlyWrites.refl : OnlyWrites P w w := ⟨rfl, rfl, rfl, fun _ _ => .refl⟩

lemma OnlyWrites.trans (h : OnlyWrites P w w') (h' : OnlyWrites P w' w'') : OnlyWrites P w w'' :=
  ⟨h'.inTransaction.trans h.inTransaction, h'.indexCache.trans h.indexCache,
    h'.ticks.trans h.ticks, fun name hname => (h.same name hname).trans (h'.same name hname)⟩

lemma succeeds_pure : Succeeds P (pure ()) := fun w => ⟨w, rfl, .refl⟩

lemma succeeds_removeIfFound {name : String} (hname : P name) (key : Bytes) :
    Succeeds P (removeIfFound name key) := by
  intro w
  rw [removeIfFound_written]
  refine ⟨_, rfl, ?_⟩
  split
  · refine ⟨RedbSession.inTransaction_doWrite _ _ _, rfl, rfl, fun name' hname' => ?_⟩
    apply World.sameTable_written
    rintro rfl
    exact hname' hname
  · exact .refl

lemma Succeeds.ignoreError {m : RedbOp Unit} (h : Succeeds P m) : Succeeds P (ignoreError m) := by
  intro w
  obtain ⟨w', hrun, hwrites⟩ := h w
  exact ⟨w', bind_of_ok (attempt_of_ok hrun), hwrites⟩

lemma Succeeds.forM {xs : List α} {body : α → RedbOp Unit}
    (h : ∀ x ∈ xs, Succeeds P (body x)) : Succeeds P (xs.forM body) := by
  induction xs with
  | nil => exact succeeds_pure
  | cons x xs ih =>
    intro w
    obtain ⟨w₁, hone, hwrites⟩ := h x mem_cons_self w
    obtain ⟨w₂, hrest, hwrites'⟩ := ih (fun y hy => h y (mem_cons_of_mem _ hy)) w₁
    exact ⟨w₂, (bind_of_ok hone).trans hrest, hwrites.trans hwrites'⟩

end

section

variable {env : Env} {c : Handle} {w w' : RedbWorld} {spec : IndexSpec} {specs : List IndexSpec}

lemma succeeds_removeFromIndexesSingle (doc : Document) (idStr : String) (spec : IndexSpec) :
    Succeeds (fun t => ∃ n, c.OfIndex n t) (removeFromIndexesSingle env c doc idStr spec) := by
  have hindex : ∃ n, c.OfIndex n (c.indexTable spec.name) := ⟨spec.name, .inl rfl⟩
  have htext : ∃ n, c.OfIndex n (c.textTable spec.name) := ⟨spec.name, .inr (.inl rfl)⟩
  have hprefix : ∃ n, c.OfIndex n (c.prefixTable spec.name) := ⟨spec.name, .inr (.inr rfl)⟩
  rw [removeFromIndexesSingle]
  cases resolveIndexType spec.keys spec.options with
  | twoDSphere =>
    cases twodsphereIndexKey env doc spec.keys with
    | none => exact succeeds_pure
    | some key => exact succeeds_removeIfFound hindex key
  | bTree => exact succeeds_removeIfFound hindex _
  | text => exact .forM fun token _ => (succeeds_removeIfFound htext _).ignoreError
  | vectorSearch | bitmap => exact succeeds_pure
  | prefixed => exact (succeeds_removeIfFound hprefix _).ignoreError

lemma removeFromIndexes_ok (hlisted : listed env c w = .ok specs) {doc : Document}
    {idStr : String} (hid : extractIdString env doc = .ok idStr) :
    ∃ w', removeFromIndexes env c doc w = (.ok (), w') ∧
      OnlyWrites (fun t => ∃ n, c.OfIndex n t) { w with indexCache := some specs } w' := by
  have hforM : Succeeds (fun t => ∃ n, c.OfIndex n t)
      (specs.forM (removeFromIndexesSingle env c doc idStr)) :=
    .forM fun spec _ => succeeds_removeFromIndexesSingle doc idStr spec
  obtain ⟨w', hrun, hwrites⟩ := hforM { w with indexCache := some specs }
  refine ⟨w', ?_, hwrites⟩
  rw [removeFromIndexes, bind_of_ok (listIndexes_of_listed hlisted), hid]
  exact hrun

/-- Between deletions: no transaction, the index list at hand, and documents under their ids. -/
structure Reapable (env : Env) (c : Handle) (specs : List IndexSpec) (w : RedbWorld) : Prop where
  idle : w.session.inTransaction = false
  cache : w.indexCache = some specs
  keyed : Keyed env (w.committed c.tableName)

lemma reapDocument_ok (hsep : c.Separate) (h : Reapable env c specs w) (n : ℕ) (idStr : String) :
    ∃ n' w', reapDocument env c n idStr w = (.ok n', w') ∧ Reapable env c specs w' ∧
      w'.committed c.tableName = (w.committed c.tableName).erase (utf8 idStr) := by
  let cursor : RedbCursor := { tableName := c.tableName, pendingKey := some (utf8 idStr) }
  have heff : cursor.effectiveKey = .ok (utf8 idStr) := rfl
  cases hget : (w.committed c.tableName).get (utf8 idStr) with
  | none =>
    obtain ⟨e, hsearch⟩ := search_of_get_eq_none heff hget
    refine ⟨n, w, ?_, h, (erase_of_get_eq_none hget).symm⟩
    rw [reapDocument, bind_of_ok (openTable_apply _ w)]
    refine (bind_of_ok (move_search cursor w)).trans ?_
    rw [hsearch]
    rfl
  | some bytes =>
    obtain ⟨doc, idStr', hread, hid, hkey⟩ := h.keyed _ _ hget
    have hlisted : listed env c w = .ok specs := by rw [listed, h.cache]
    have hw : { w with indexCache := some specs } = w := by rw [← h.cache]
    obtain ⟨w₁, hindexes, hwrites⟩ := removeFromIndexes_ok hlisted hid
    rw [hw] at hwrites
    have hdata := hwrites.same c.tableName fun h => h.elim hsep.data_index
    let found : RedbCursor :=
      { cursor with currentKey := some (utf8 idStr), currentValue := some bytes }
    have heff₁ : found.effectiveKey = .ok (utf8 idStr) := rfl
    have hget₁ : (w₁.committed c.tableName).get (utf8 idStr) = some bytes := by
      rw [hdata.committed, hget]
    have hmove₁ : (move StorageSession.search found) w₁ =
        (.ok (found.search w₁.session), w₁) := rfl
    have hidle₁ : w₁.session.inTransaction = false := hwrites.inTransaction.trans h.idle
    refine ⟨n + 1, w₁.written c.tableName (.del (utf8 idStr)), ?_, ⟨?_, ?_, ?_⟩, ?_⟩
    · rw [reapDocument, bind_of_ok (openTable_apply _ w)]
      refine (bind_of_ok (move_search cursor w)).trans ?_
      rw [search_of_get_eq_some heff hget]
      have hdoc : (ofOutcome (deserializeDocument env bytes)) w =
          (.ok doc, w) := by
        rw [deserializeDocument, hread]
        rfl
      refine (bind_of_ok hdoc).trans ((bind_of_ok hindexes).trans ?_)
      refine (bind_of_ok hmove₁).trans ?_
      rw [search_of_get_eq_some heff₁ hget₁]
      rfl
    · exact doWrite_idle hidle₁ _ _
    · exact hwrites.indexCache.trans h.cache
    · rw [World.written, committed_doWrite hidle₁, Function.update_self, hdata.committed]
      exact h.keyed.erase
    · rw [World.written, committed_doWrite hidle₁, Function.update_self, hdata.committed]
      rfl

lemma reapDocuments_ok (hsep : c.Separate) (h : Reapable env c specs w) (n : ℕ)
    (ids : List String) :
    ∃ n' w', ids.foldlM (reapDocument env c) n w = (.ok n', w') ∧
      ∀ k, (w'.committed c.tableName).get k =
        if k ∈ ids.map utf8 then none else (w.committed c.tableName).get k := by
  induction ids generalizing n w with
  | nil => exact ⟨n, w, rfl, fun k => by simp⟩
  | cons idStr ids ih =>
    obtain ⟨n₁, w₁, hone, h₁, hdata⟩ := reapDocument_ok hsep h n idStr
    obtain ⟨n₂, w₂, hrest, hget⟩ := ih h₁ n₁
    refine ⟨n₂, w₂, ?_, fun k => ?_⟩
    · exact (bind_of_ok hone).trans hrest
    · rw [hget, hdata, get_erase]
      by_cases hk : k = utf8 idStr <;> simp [hk]

def IndexSpec.IsTtl (spec : IndexSpec) : Prop :=
  spec.options.expireAfterSeconds ≠ none ∧ spec.keys.length = 1

lemma reapIndex_of_not_isTtl (h : ¬ spec.IsTtl) (n : ℕ) (w : RedbWorld) :
    reapIndex env c n spec w = (.ok n, w) := by
  rw [reapIndex]
  cases hsecs : spec.options.expireAfterSeconds with
  | none => rfl
  | some secs =>
    have hlen : spec.keys.length ≠ 1 := fun hlen => h ⟨by simp [hsecs], hlen⟩
    dsimp only
    rw [if_pos hlen]
    rfl

lemma foldlM_reapIndex_append (h : ∀ spec ∈ specs, ¬ spec.IsTtl) (rest : List IndexSpec) (n : ℕ)
    (w : RedbWorld) :
    (specs ++ rest).foldlM (reapIndex env c) n w = rest.foldlM (reapIndex env c) n w := by
  induction specs generalizing n with
  | nil => rfl
  | cons spec specs ih =>
    refine (bind_of_ok (reapIndex_of_not_isTtl (h spec mem_cons_self) n w)).trans ?_
    exact ih (fun s hs => h s (mem_cons_of_mem _ hs)) n

def IndexSpec.Expired (spec : IndexSpec) (now : Int64) (doc : Document) : Prop :=
  ∃ field dir secs t, spec.keys = [(field, dir)] ∧ spec.options.expireAfterSeconds = some secs ∧
    getValue doc field = some (.dateTime t) ∧ t.toInt ≤ now.toInt - secs.toNat * 1000

def IndexSpec.instant (env : Env) (spec : IndexSpec) (doc : Document) (key : Bytes) :
    Option Int64 :=
  if spec.covers env doc ∧ 8 ≤ (spec.row env doc key).length then
    some (keyMillis (spec.row env doc key))
  else none

/-- Some document is read as an instant at which the scan stops. -/
def Halts (env : Env) (c : Handle) (spec : IndexSpec) (cutoff : Int64) (w : RedbWorld) : Prop :=
  ∃ k d t, docAt env (w.committed c.tableName) k = some d ∧ spec.instant env d k = some t ∧
    0 ≤ t ∧ cutoff < t

def Reaped (env : Env) (c : Handle) (spec : IndexSpec) (cutoff : Int64) (w : RedbWorld)
    (k : Bytes) (d : Document) : Prop :=
  ∃ t, spec.instant env d k = some t ∧ t ≤ cutoff ∧ (0 ≤ t ∨ ¬ Halts env c spec cutoff w)

lemma IndexSpec.instant_eq_some {doc : Document} {key : Bytes} {t : Int64} :
    spec.instant env doc key = some t ↔ spec.covers env doc ∧
      8 ≤ (spec.row env doc key).length ∧ keyMillis (spec.row env doc key) = t := by
  rw [instant]
  split
  · next h => simp [h]
  · next h =>
    refine iff_of_false (by simp) fun hall => h ⟨hall.1, hall.2.1⟩

section

variable (hderived : Derived (spec.covers env) (spec.row env)
  (docAt env (w.committed c.tableName)) (w.committed (c.indexTable spec.name)).get)
include hderived

lemma mem_expiredRows_iff {cutoff : Int64} {k : Bytes} {d : Document}
    (hd : docAt env (w.committed c.tableName) k = some d) :
    k ∈ (expiredRows cutoff (w.committed (c.indexTable spec.name)).rows).map Prod.snd ↔
      Reaped env c spec cutoff w k d := by
  have hhalts : (∀ row ∈ (w.committed (c.indexTable spec.name)).rows, 0 ≤ keyMillis row.1 →
      ¬ Late cutoff row.1) ↔ ¬ Halts env c spec cutoff w := by
    constructor
    · rintro h ⟨k', d', t, hd', ht, hsign, hlate⟩
      obtain ⟨hcovers, hlen, rfl⟩ := instant_eq_some.mp ht
      have hrow := (hderived _ k').mpr ⟨d', hd', hcovers, rfl⟩
      exact h _ (get_eq_some_iff.mp hrow) hsign ⟨hlen, hlate⟩
    · rintro h ⟨r, k'⟩ hmem hsign ⟨hlen, hlate⟩
      obtain ⟨d', hd', hcovers, rfl⟩ := (hderived r k').mp (get_eq_some_iff.mpr hmem)
      exact h ⟨k', d', _, hd', instant_eq_some.mpr ⟨hcovers, hlen, rfl⟩, hsign, hlate⟩
  rw [mem_map]
  constructor
  · rintro ⟨⟨r, k'⟩, hmem, rfl⟩
    obtain ⟨hrow, hlen, hearly, hor⟩ :=
      (mem_expiredRows (w.committed (c.indexTable spec.name)).sorted).mp hmem
    obtain ⟨d', hd', hcovers, rfl⟩ := (hderived r k').mp (get_eq_some_iff.mpr hrow)
    cases hd.symm.trans hd'
    exact ⟨_, instant_eq_some.mpr ⟨hcovers, hlen, rfl⟩, hearly, hor.imp id hhalts.mp⟩
  · rintro ⟨t, ht, hearly, hor⟩
    obtain ⟨hcovers, hlen, rfl⟩ := instant_eq_some.mp ht
    have hrow := (hderived _ k).mpr ⟨d, hd, hcovers, rfl⟩
    refine ⟨(spec.row env d k, k), ?_, rfl⟩
    exact (mem_expiredRows (w.committed (c.indexTable spec.name)).sorted).mpr
      ⟨get_eq_some_iff.mp hrow, hlen, hearly, hor.imp id hhalts.mpr⟩

lemma reapIndex_ok (hsep : c.Separate) (h : Reapable env c specs w)
    {secs : UInt64} (hsecs : spec.options.expireAfterSeconds = some secs)
    (hlen : spec.keys.length = 1) (n : ℕ) :
    ∃ n' w', reapIndex env c n spec w = (.ok n', w') ∧
      ∀ k d, docAt env (w.committed c.tableName) k = some d →
        ((w'.committed c.tableName).get k = none ↔
          Reaped env c spec (cutoffMillis (nowEpochMillis env w.ticks) secs) w k d) ∧
        ((w'.committed c.tableName).get k = none ∨
          (w'.committed c.tableName).get k = (w.committed c.tableName).get k) := by
  set cutoff := cutoffMillis (nowEpochMillis env w.ticks) secs
  let w₁ : RedbWorld := { w with ticks := w.ticks + 1 }
  have hshown : shown w₁.session (c.indexTable spec.name) =
      (w.committed (c.indexTable spec.name)).rows := shown_of_idle (w := w₁) h.idle _
  have hids : ∀ row ∈ shown w₁.session (c.indexTable spec.name), ∃ idStr, row.2 = utf8 idStr := by
    rintro ⟨r, k⟩ hmem
    rw [hshown] at hmem
    obtain ⟨d, hd, -⟩ := (hderived r k).mp (get_eq_some_iff.mpr hmem)
    obtain ⟨bytes, hget, -⟩ := docAt_eq_some_iff.mp hd
    obtain ⟨-, idStr, -, -, hkey⟩ := h.keyed k bytes hget
    exact ⟨idStr, hkey⟩
  obtain ⟨ids, hfold, hmap⟩ := foldRows_expiredStep cutoff hids []
  have hscan : scanRows ({ tableName := c.indexTable spec.name } : RedbCursor) []
      (collectExpired cutoff) w₁ = (.ok ids, w₁) := by
    rw [scanRows_eq (reads_collectExpired cutoff hids), hfold]
    rfl
  obtain ⟨n', w', hloop, hget⟩ := reapDocuments_ok (w := w₁) hsep ⟨h.idle, h.cache, h.keyed⟩ n ids
  refine ⟨n', w', ?_, fun k d hd => ?_⟩
  · rw [reapIndex, hsecs]
    dsimp only
    rw [if_neg (by simp [hlen])]
    exact (bind_of_ok hscan).trans hloop
  · have hsome : (w₁.committed c.tableName).get k ≠ none := by
      obtain ⟨bytes, hbytes, -⟩ := docAt_eq_some_iff.mp hd
      exact fun hnone => nomatch hbytes.symm.trans hnone
    rw [hget, hmap, hshown, ← mem_expiredRows_iff hderived hd]
    split
    · next hmem => exact ⟨iff_of_true rfl hmem, .inl rfl⟩
    · next hmem => exact ⟨iff_of_false hsome hmem, .inr rfl⟩

end

/-- A document is read as an instant up to the cutoff iff it has expired, as far as the scan gets.
-/
structure TellsExpired (env : Env) (c : Handle) (spec : IndexSpec) (secs : UInt64) (now : Int64)
    (w : RedbWorld) : Prop where
  spares : ∀ k d, docAt env (w.committed c.tableName) k = some d → ¬ spec.Expired now d →
    ∀ t, spec.instant env d k = some t → t ≤ cutoffMillis now secs →
      t < 0 ∧ Halts env c spec (cutoffMillis now secs) w
  reaches : ∀ k d, docAt env (w.committed c.tableName) k = some d → spec.Expired now d →
    ∃ t, spec.instant env d k = some t ∧ t ≤ cutoffMillis now secs ∧
      (0 ≤ t ∨ ¬ Halts env c spec (cutoffMillis now secs) w)

lemma tellsExpired_iff {secs : UInt64} {now : Int64} : TellsExpired env c spec secs now w ↔
      ∀ k d, docAt env (w.committed c.tableName) k = some d →
        (Reaped env c spec (cutoffMillis now secs) w k d ↔ spec.Expired now d) := by
  constructor
  · intro h k d hd
    constructor
    · rintro ⟨t, ht, hearly, hor⟩
      by_contra hnot
      obtain ⟨hsign, hhalts⟩ := h.spares k d hd hnot t ht hearly
      rcases hor with hpos | hgoes
      · exact Int64.not_lt.mpr hpos hsign
      · exact hgoes hhalts
    · exact h.reaches k d hd
  · intro h
    refine ⟨fun k d hd hnot t ht hearly => ?_, fun k d hd => (h k d hd).mpr⟩
    have hspared : ¬ Reaped env c spec (cutoffMillis now secs) w k d := fun hr =>
      hnot ((h k d hd).mp hr)
    constructor
    · exact Int64.not_le.mp fun hpos => hspared ⟨t, ht, hearly, .inl hpos⟩
    · by_contra hgoes
      exact hspared ⟨t, ht, hearly, .inr hgoes⟩

/-- Reaping deletes exactly the expired documents iff the keys of the index tell them from the
others. -/
theorem reap_exact_iff (hsep : c.Separate) (hidle : w.session.inTransaction = false)
    (hlisted : listed env c w = .ok specs) (hnames : (specs.map name).Nodup)
    (hkeyed : Keyed env (w.committed c.tableName)) (hmem : spec ∈ specs)
    (hderived : Derived (spec.covers env) (spec.row env)
      (docAt env (w.committed c.tableName)) (w.committed (c.indexTable spec.name)).get)
    {secs : UInt64} (hsecs : spec.options.expireAfterSeconds = some secs)
    (hlen : spec.keys.length = 1) (honly : ∀ other ∈ specs, other.IsTtl → other = spec) :
    ∃ n w', reapExpired env c w = (.ok n, w') ∧
      ((∀ k d, docAt env (w.committed c.tableName) k = some d →
          (spec.Expired (nowEpochMillis env w.ticks) d → (w'.committed c.tableName).get k = none) ∧
          (¬ spec.Expired (nowEpochMillis env w.ticks) d →
            (w'.committed c.tableName).get k = (w.committed c.tableName).get k)) ↔
        TellsExpired env c spec secs (nowEpochMillis env w.ticks) w) := by
  obtain ⟨before, after, rfl⟩ := append_of_mem hmem
  have hnot : ∀ other ∈ before ++ after, ¬ other.IsTtl := by
    intro other hother httl
    have hnodup : (before ++ spec :: after).Nodup := hnames.of_map _
    have hspec : spec ∉ before ++ after := (nodup_middle.mp hnodup).notMem
    refine hspec (honly other ?_ httl ▸ hother)
    rcases mem_append.mp hother with h | h
    · exact mem_append_left _ h
    · exact mem_append_right _ (mem_cons_of_mem _ h)
  let w₁ : World RedbSession := { w with indexCache := some (before ++ spec :: after) }
  have hw₁ : Reapable env c (before ++ spec :: after) w₁ := ⟨hidle, rfl, hkeyed⟩
  obtain ⟨n, w', hrun, hdata⟩ := reapIndex_ok (w := w₁) hderived hsep hw₁ hsecs hlen 0
  refine ⟨n, w', ?_, ?_⟩
  · rw [reapExpired, bind_of_ok (listIndexes_of_listed hlisted),
      foldlM_reapIndex_append fun s hs => hnot s (mem_append_left _ hs), foldlM_cons]
    refine (bind_of_ok hrun).trans ?_
    rw [← append_nil after, foldlM_reapIndex_append fun s hs => hnot s (mem_append_right _ hs)]
    rfl
  · rw [tellsExpired_iff]
    refine forall₃_congr fun k d hd => ?_
    obtain ⟨hreaped, hsame⟩ := hdata k d hd
    have hstored : (w.committed c.tableName).get k ≠ none := by
      obtain ⟨bytes, hbytes, -⟩ := docAt_eq_some_iff.mp hd
      exact fun hnone => nomatch hbytes.symm.trans hnone
    have hcutoff : Reaped env c spec (cutoffMillis (nowEpochMillis env w.ticks) secs) w k d ↔
        (w'.committed c.tableName).get k = none := hreaped.symm
    rw [hcutoff]
    constructor
    · rintro ⟨hexpired, hspared⟩
      refine ⟨fun hnone => ?_, hexpired⟩
      by_contra hnot
      exact hstored ((hspared hnot).symm.trans hnone)
    · intro hiff
      refine ⟨hiff.mpr, fun hnot => ?_⟩
      exact hsame.resolve_left fun hnone => hnot (hiff.mp hnone)

end

namespace Sample

def hourly : IndexSpec := ⟨"a_1", [("a", .int32 1)], { expireAfterSeconds := some 3600 }⟩

def laterOid : ObjectId := ⟨[6, 1, 0, 0, 0, 0, 0, 0, 0, 0, 0, 2], rfl⟩

def ttlEnv : Env :=
  { Env.ofLists [doc (.objectId oid) (.dateTime 1600000000000),
      doc (.objectId laterOid) (.dateTime 1700000000000), doc (.objectId oid) (.int32 5)]
      [hourly] with timeNanos := fun _ => 1700000000000000000 }

def ttlWorld (docs : List (Bson × Bson)) : RedbWorld :=
  (create hourly :: docs.map fun d => .statement (insert d.1 d.2)).foldl (Call.step ttlEnv handle)
    start

def twoDates : RedbWorld :=
  ttlWorld [(.objectId oid, .dateTime 1600000000000), (.objectId laterOid, .dateTime 1700000000000)]

lemma twoDates_docs : ∀ k d, docAt ttlEnv (twoDates.committed "t") k = some d →
    k = utf8 oid.toHex ∧ d = doc (.objectId oid) (.dateTime 1600000000000) ∨
      k = utf8 laterOid.toHex ∧ d = doc (.objectId laterOid) (.dateTime 1700000000000) :=
  forall_docAt_iff.mp (by decide +kernel)

end Sample

section

open Sample

theorem reap_exact_old_document : (reapExpired ttlEnv handle twoDates).1 = .ok 1 ∧
      TellsExpired ttlEnv handle hourly 3600 1700000000000 twoDates := by
  refine ⟨by decide +kernel, ?_⟩
  have hlisted : listed ttlEnv handle twoDates = .ok [hourly] := by decide +kernel
  obtain ⟨n, w', hrun, hiff⟩ := reap_exact_iff separate (by decide +kernel) hlisted
    (nodup_singleton _) (by decide +kernel) (mem_singleton_self _) (by decide +kernel)
    (rfl : hourly.options.expireAfterSeconds = some 3600) rfl
    fun other hother _ => mem_singleton.mp hother
  have hw' : w' = (reapExpired ttlEnv handle twoDates).2 := (congrArg Prod.snd hrun).symm
  have hold : (w'.committed "t").get (utf8 oid.toHex) = none := by
    rw [hw']
    decide +kernel
  have hnew : (w'.committed "t").get (utf8 laterOid.toHex) =
      (twoDates.committed "t").get (utf8 laterOid.toHex) := by
    rw [hw']
    decide +kernel
  refine hiff.mp fun k d hd => ?_
  rcases twoDates_docs k d hd with ⟨rfl, rfl⟩ | ⟨rfl, rfl⟩
  · refine ⟨fun _ => hold, fun hnot => absurd ?_ hnot⟩
    exact ⟨"a", .int32 1, 3600, 1600000000000, rfl, rfl, rfl, by decide⟩
  · refine ⟨fun hexpired => absurd hexpired ?_, fun _ => hnew⟩
    rintro ⟨field, dir, secs, t, hkeys, hsecs, hvalue, hle⟩
    cases hkeys
    cases hsecs
    cases hvalue
    revert hle
    decide +kernel

/-- The bytes of the number and of the id after it are read as an instant in 1970. -/
theorem reap_deletes_number : let w := ttlWorld [(.objectId oid, .int32 5)]
    docAt ttlEnv (w.committed "t") (utf8 oid.toHex) = some (doc (.objectId oid) (.int32 5)) ∧
      ¬ hourly.Expired 1700000000000 (doc (.objectId oid) (.int32 5)) ∧
      (reapExpired ttlEnv handle w).1 = .ok 1 ∧
      ((reapExpired ttlEnv handle w).2.committed "t").get (utf8 oid.toHex) = none := by
  refine ⟨by decide +kernel, ?_, by decide +kernel, by decide +kernel⟩
  rintro ⟨field, dir, secs, t, hkeys, -, hvalue, -⟩
  cases hkeys
  cases hvalue

end

end Smongo

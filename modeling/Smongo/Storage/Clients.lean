import Smongo.Storage.Overlay

/-!
# Clients of a session

A client opens cursors on one session and calls their operations in any order.
-/

namespace Smongo

open List RedbCursor RedbSession

/-- A call through the `i`-th cursor the client opened. -/
inductive CursorAction
  | openCursor (name : String)
  | setKey (i : ℕ) (key : Bytes)
  | setValue (i : ℕ) (value : Bytes)
  | search (i : ℕ)
  | searchNear (i : ℕ)
  | next (i : ℕ)
  | reset (i : ℕ)
  | insert (i : ℕ)
  | update (i : ℕ)
  | remove (i : ℕ)

structure Client where
  session : RedbSession
  cursors : List RedbCursor

namespace RedbCursor

def putRequest (c : RedbCursor) : Option (String × PendingWrite) :=
  match c.effectiveKey, c.effectiveValue with
  | .ok key, .ok value => some (c.tableName, .put key value)
  | _, _ => none

def delRequest (c : RedbCursor) : Option (String × PendingWrite) :=
  match c.effectiveKey with
  | .ok key => some (c.tableName, .del key)
  | .error _ => none

end RedbCursor

namespace Client

variable (k : Client)

def moveCursor (i : ℕ) (f : RedbCursor → RedbCursor) : Client :=
  { k with cursors := k.cursors.modify i f }

def write (i : ℕ) (f : RedbCursor → Eff RedbSession StorageError Unit) : Client :=
  match k.cursors[i]? with
  | some c => { k with session := (f c k.session).2 }
  | none => k

def step : CursorAction → Client
  | .openCursor name => { k with cursors := k.cursors ++ [{ tableName := name }] }
  | .setKey i key => k.moveCursor i fun c => { c with pendingKey := some key }
  | .setValue i value => k.moveCursor i fun c => { c with pendingValue := some value }
  | .search i => k.moveCursor i fun c => (c.search k.session).2
  | .searchNear i => k.moveCursor i fun c => (c.searchNear k.session).2
  | .next i => k.moveCursor i fun c => (c.next k.session).2
  | .reset i => k.moveCursor i reset
  | .insert i => k.write i insert
  | .update i => k.write i update
  | .remove i => k.write i remove

def requested : CursorAction → Option (String × PendingWrite)
  | .insert i | .update i => k.cursors[i]?.bind putRequest
  | .remove i => k.cursors[i]?.bind delRequest
  | _ => none

def writes : Client → List CursorAction → List (String × PendingWrite)
  | _, [] => []
  | k, a :: as => (k.requested a).toList ++ (k.step a).writes as

end Client

def writesTo (name : String) (ws : List (String × PendingWrite)) : List PendingWrite :=
  (ws.filter fun w => w.1 = name).map Prod.snd

lemma writesTo_append (name : String) (ws vs : List (String × PendingWrite)) :
    writesTo name (ws ++ vs) = writesTo name ws ++ writesTo name vs := by
  simp [writesTo]

namespace Client

variable {k : Client} (s : RedbSession)

def bufferRequest : Option (String × PendingWrite) → RedbSession
  | some (name, op) => s.buffer name op
  | none => s

variable (r : Option (String × PendingWrite))

lemma bufferRequest_inTransaction : (bufferRequest s r).inTransaction = s.inTransaction := by
  cases r <;> rfl

lemma bufferRequest_db : (bufferRequest s r).db = s.db := by cases r <;> rfl

lemma pendingFor_bufferRequest (name : String) :
    (bufferRequest s r).pendingFor name = s.pendingFor name ++ writesTo name r.toList := by
  cases r with
  | none => simp [bufferRequest, writesTo]
  | some w =>
    rw [bufferRequest, pendingFor_buffer]
    by_cases hname : name = w.1
    · simp [hname, writesTo]
    · simp [hname, Ne.symm hname, writesTo]

lemma insert_snd (c : RedbCursor) {s : RedbSession} (h : s.inTransaction = true) :
    (c.insert s).2 = bufferRequest s c.putRequest := by
  unfold RedbCursor.insert RedbCursor.putRequest
  cases c.effectiveKey <;> cases c.effectiveValue <;>
    simp [Eff.bind_apply, bufferRequest, doWrite_of_inTransaction s _ _ h]

lemma remove_snd (c : RedbCursor) {s : RedbSession} (h : s.inTransaction = true) :
    (c.remove s).2 = bufferRequest s c.delRequest := by
  unfold remove delRequest
  cases c.effectiveKey <;> simp [Eff.bind_apply, bufferRequest, doWrite_of_inTransaction s _ _ h]

lemma write_session {i : ℕ} {f : RedbCursor → Eff RedbSession StorageError Unit}
    {request : RedbCursor → Option (String × PendingWrite)}
    (hf : ∀ c, (f c k.session).2 = bufferRequest k.session (request c)) :
    (k.write i f).session = bufferRequest k.session (k.cursors[i]?.bind request) := by
  unfold write
  cases k.cursors[i]? with
  | none => rfl
  | some c => exact hf c

lemma step_session (h : k.session.inTransaction = true) (a : CursorAction) :
    (k.step a).session = bufferRequest k.session (k.requested a) := by
  cases a with
  | insert i | update i => exact write_session fun c => insert_snd c h
  | remove i => exact write_session fun c => remove_snd c h
  | _ => rfl

lemma run_session (h : k.session.inTransaction = true) (actions : List CursorAction) :
    (actions.foldl step k).session.inTransaction = true ∧
      (actions.foldl step k).session.db = k.session.db ∧
      ∀ name, (actions.foldl step k).session.pendingFor name =
        k.session.pendingFor name ++ writesTo name (k.writes actions) := by
  induction actions generalizing k with
  | nil => simp [h, writes, writesTo]
  | cons a actions ih =>
    have hstep := step_session h a
    obtain ⟨htx, hdb, hpending⟩ := ih (k := k.step a)
      (by rw [hstep, bufferRequest_inTransaction, h])
    rw [foldl_cons, writes]
    refine ⟨htx, by rw [hdb, hstep, bufferRequest_db], fun name => ?_⟩
    rw [hpending, hstep, pendingFor_bufferRequest, writesTo_append, append_assoc]

lemma mem_moveCursor {i : ℕ} {f : RedbCursor → RedbCursor} {c : RedbCursor}
    (h : c ∈ (k.moveCursor i f).cursors) : c ∈ k.cursors ∨ ∃ c' ∈ k.cursors, c = f c' := by
  obtain ⟨j, hj⟩ := mem_iff_getElem?.mp h
  rw [moveCursor, getElem?_modify] at hj
  obtain ⟨c', hc', hcc'⟩ := Option.map_eq_some_iff.mp hj
  have hmem : c' ∈ k.cursors := mem_iff_getElem?.mpr ⟨j, hc'⟩
  split at hcc'
  · exact .inr ⟨c', hmem, hcc'.symm⟩
  · exact .inl (hcc' ▸ hmem)

section

variable {P : String → Prop} (hk : ∀ c ∈ k.cursors, P c.tableName)
include hk

lemma step_tables (a : CursorAction) (ha : ∀ name, a = .openCursor name → P name) :
    ∀ c ∈ (k.step a).cursors, P c.tableName := by
  have hmove : ∀ (i : ℕ) (f : RedbCursor → RedbCursor), (∀ c, (f c).tableName = c.tableName) →
      ∀ c ∈ (k.moveCursor i f).cursors, P c.tableName := by
    intro i f hf c hc
    rcases mem_moveCursor hc with hc | ⟨c', hc', rfl⟩
    · exact hk c hc
    · rw [hf]
      exact hk c' hc'
  have hwrite : ∀ (i : ℕ) (f : RedbCursor → Eff RedbSession StorageError Unit),
      (k.write i f).cursors = k.cursors := by
    intro i f
    unfold write
    split <;> rfl
  cases a with
  | openCursor name =>
    intro c hc
    rcases mem_append.mp hc with hc | hc
    · exact hk c hc
    · rw [mem_singleton.mp hc]
      exact ha name rfl
  | setKey i key | setValue i value => exact hmove i _ fun _ => rfl
  | search i => exact hmove i _ fun _ => search_tableName
  | searchNear i => exact hmove i _ fun _ => searchNear_tableName
  | next i => exact hmove i _ fun _ => next_tableName
  | reset i => exact hmove i _ fun _ => rfl
  | insert i => exact (hwrite i insert).symm ▸ hk
  | update i => exact (hwrite i update).symm ▸ hk
  | remove i => exact (hwrite i remove).symm ▸ hk

lemma requested_table {a : CursorAction} {w : String × PendingWrite} (h : k.requested a = some w) :
    P w.1 := by
  have hput : ∀ i : ℕ, k.cursors[i]?.bind putRequest = some w → P w.1 := by
    intro i hi
    obtain ⟨c, hc, hw⟩ := Option.bind_eq_some_iff.mp hi
    have hname : c.tableName = w.1 := by
      unfold putRequest at hw
      split at hw
      · cases hw
        rfl
      · cases hw
    exact hname ▸ hk c (mem_iff_getElem?.mpr ⟨i, hc⟩)
  cases a with
  | insert i | update i => exact hput i h
  | remove i =>
    obtain ⟨c, hc, hw⟩ := Option.bind_eq_some_iff.mp h
    have hname : c.tableName = w.1 := by
      unfold delRequest at hw
      split at hw
      · cases hw
        rfl
      · cases hw
    exact hname ▸ hk c (mem_iff_getElem?.mpr ⟨i, hc⟩)
  | _ => cases h

lemma writes_tables {actions : List CursorAction}
    (ha : ∀ name, .openCursor name ∈ actions → P name) :
    ∀ w ∈ k.writes actions, P w.1 := by
  induction actions generalizing k with
  | nil => simp [writes]
  | cons a actions ih =>
    intro w hw
    rw [writes, mem_append] at hw
    rcases hw with hw | hw
    · exact requested_table hk (Option.mem_toList.mp hw)
    · refine ih (step_tables hk a fun name hname => ha name ?_) (fun name hname => ha name ?_) w hw
      · exact hname ▸ mem_cons_self
      · exact mem_cons_of_mem a hname

end

end Client

namespace RedbCursor

/-- What `next` yields until it fails: the key and value of each row it stops on. -/
def drain : ℕ → RedbCursor → RedbSession →
    List (Except StorageError Bytes × Except StorageError Bytes)
  | 0, _, _ => []
  | fuel + 1, c, s =>
    match c.next s with
    | (.ok (), c') => (c'.getKeyRaw, c'.getValueRaw) :: drain fuel c' s
    | (.error _, _) => []

lemma drain_of_left {fuel : ℕ} {c : RedbCursor} {s : RedbSession} {rows : Rows}
    (h : c.Left s rows) (hfuel : rows.length < fuel) :
    drain fuel c s = rows.map fun r => (.ok r.1, .ok r.2) := by
  induction rows generalizing fuel c with
  | nil =>
    obtain ⟨fuel, rfl⟩ : ∃ n, fuel = n + 1 := ⟨fuel - 1, by omega⟩
    have hnext : c.next s = _ := next_of_left_nil h
    simp only [drain, hnext, map_nil]
  | cons row rows ih =>
    obtain ⟨fuel, rfl⟩ : ∃ n, fuel = n + 1 := ⟨fuel - 1, by omega⟩
    obtain ⟨c', hnext, hat, -⟩ := next_of_left_cons h
    replace hnext : c.next s = _ := hnext
    simp only [drain, hnext, map_cons]
    rw [ih (hat.left s) (by simpa using hfuel), getKeyRaw, getValueRaw, hat.currentKey,
      hat.currentValue]
    rfl

end RedbCursor

/-- Fresh cursors show the committed tables overlaid by the session's writes, through cursors opened
before or in the transaction; commit keeps exactly that, rollback nothing. -/
theorem transaction_overlay (s₀ : RedbSession) (cursors : List RedbCursor)
    (actions : List CursorAction)
    (hcursors : ∀ c ∈ cursors, (s₀.db.tables c.tableName).isSome)
    (hexists : ∀ name, CursorAction.openCursor name ∈ actions → (s₀.db.tables name).isSome) :
    let client : Client := ⟨(beginTransaction s₀).2, cursors⟩
    let s := (actions.foldl Client.step client).session
    let overlaid := fun name =>
      Change.applyAll (s₀.db.table name) (writesTo name (client.writes actions))
    (∀ name fuel, (overlaid name).rows.length < fuel → drain fuel { tableName := name } s =
        (overlaid name).rows.map fun r => (.ok r.1, .ok r.2)) ∧
    (∀ name, (overlaid name).rows.Pairwise fun a b => a.1 < b.1) ∧
    (∀ name, (commitTransaction s).2.db.table name = overlaid name) ∧
    (rollbackTransaction s).2.db.tables = s₀.db.tables := by
  intro client s overlaid
  obtain ⟨htx, hdb, hpending⟩ := Client.run_session (k := client) rfl actions
  have hbegin : ∀ name, client.session.pendingFor name = [] := fun _ => rfl
  have hview : ∀ name, s.view name = overlaid name := by
    intro name
    rw [view, if_pos htx, hpending, hbegin, nil_append, hdb]
    rfl
  -- a table that does not exist is not written, so it shows no row and gets none
  have hshown : ∀ name, shown s name = (overlaid name).rows := by
    intro name
    rw [shown]
    split
    · next hnone =>
      have hnone₀ : s₀.db.tables name = none := by rw [← hnone, hdb]; rfl
      have hwrites : writesTo name (client.writes actions) = [] := by
        simp only [writesTo, map_eq_nil_iff, filter_eq_nil_iff]
        intro w hw hname
        have hsome := Client.writes_tables (k := client) (P := fun n => (s₀.db.tables n).isSome)
          hcursors hexists w hw
        rw [of_decide_eq_true hname, hnone₀] at hsome
        cases hsome
      simp [overlaid, hwrites, Redb.table, hnone₀, OrderedTable.empty]
    · rw [hview]
  refine ⟨fun name fuel hfuel => ?_, fun name => (overlaid name).sorted, fun name => ?_, ?_⟩
  · refine drain_of_left ?_ hfuel
    rw [← hshown]
    exact left_of_entries_none rfl rfl
  · rw [commitTransaction_table_eq_view s name htx, hview]
  · change s.db.tables = s₀.db.tables
    rw [hdb]
    rfl

def twoRows : RedbSession where
  db := ⟨fun name => if name = "t" then some (Change.applyAll .empty [.put [1] [10], .put [2] [20]])
    else none, []⟩
  inTransaction := false
  pendingWrites := .empty
  issued := []

/-- The first cursor was opened, and its key set, before the transaction. -/
def removeAndAdd : List CursorAction :=
  [.openCursor "t", .remove 0, .setKey 1 [3], .setValue 1 [30], .insert 1]

theorem transaction_overlay_removeAndAdd :
    let cursor : RedbCursor := { tableName := "t", pendingKey := some [1] }
    let s := (removeAndAdd.foldl Client.step ⟨(beginTransaction twoRows).2, [cursor]⟩).session
    drain 3 { tableName := "t" } s = [(.ok [2], .ok [20]), (.ok [3], .ok [30])] ∧
      ((commitTransaction s).2.db.table "t").rows = [([2], [20]), ([3], [30])] := by
  intro cursor s
  have hexists : ∀ name, CursorAction.openCursor name ∈ removeAndAdd →
      (twoRows.db.tables name).isSome := by
    intro name hname
    simp only [removeAndAdd, mem_cons, CursorAction.openCursor.injEq, not_mem_nil,
      reduceCtorEq, or_false, or_self] at hname
    subst hname
    decide
  have hcursors : ∀ c ∈ [cursor], (twoRows.db.tables c.tableName).isSome := by decide
  obtain ⟨hdrain, -, hcommit, -⟩ :=
    transaction_overlay twoRows [cursor] removeAndAdd hcursors hexists
  refine ⟨(hdrain "t" 3 (by decide +kernel)).trans (by decide +kernel), ?_⟩
  rw [hcommit]
  decide +kernel

end Smongo

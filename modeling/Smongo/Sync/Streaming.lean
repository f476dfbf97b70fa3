import Smongo.Sync.Polling

/-!
# Pulling from the change stream

The stream is first opened after the last page of the snapshot, at the end of the log as it is
then.
-/

namespace Smongo

open List Option

namespace PullSettings

variable {κ τ : Type} {cfg : PullSettings κ τ}

lemma lastIdOf_cases (cfg : PullSettings κ τ) (page : List Version) (lastId : Bson) :
    lastIdOf (page.filter cfg.passes) lastId = lastId ∨
      ∃ a ∈ page, lastIdOf (page.filter cfg.passes) lastId = rawId a.doc := by
  rw [lastIdOf]
  cases hlast : (page.filter cfg.passes).getLast? with
  | none => exact .inl rfl
  | some a => exact .inr ⟨a, mem_of_mem_filter (mem_of_getLast? hlast), rfl⟩

/-- An event is passed over, or its document is handed over unless the local write raises. -/
def Taken (cfg : PullSettings κ τ) (fault : Option (ℕ × PyError)) (found : Option Version)
    (r : Except PyError (Option (List HandedOver))) : Prop :=
  (r = .ok none ∧ ∃ v, found = some v ∧ cfg.passes v = false) ∨
    (∃ calls, r = .ok (some calls) ∧ (∀ v, found = some v → cfg.passes v = true ∧
      ∃ call ∈ calls, call.version = v)) ∨
    fault ≠ none ∧ ∃ e, r = .error e

lemma taken_takeDocument {fault : Option (ℕ × PyError)} {found : Option Version}
    (hfound : ∀ v, found = some v → cfg.Readable v.doc) (changed : Option (List String)) :
    Taken cfg fault found (cfg.takeDocument fault changed found) := by
  rcases found with _ | v
  · exact .inr (.inl ⟨[], rfl, nofun⟩)
  · obtain ⟨hdoc, b, hb⟩ := hfound v rfl
    have hpasses := passes_eq hb
    rw [takeDocument, if_neg hdoc, hb]
    cases b with
    | false => exact .inl ⟨rfl, v, rfl, hpasses⟩
    | true =>
      rcases fault with _ | ⟨_ | n, e⟩
      · refine .inr (.inl ⟨_, rfl, fun w hw => ?_⟩)
        obtain rfl := some.inj hw
        exact ⟨hpasses, _, mem_singleton_self _, rfl⟩
      · exact .inr (.inr ⟨some_ne_none _, e, rfl⟩)
      · refine .inr (.inl ⟨_, rfl, fun w hw => ?_⟩)
        obtain rfl := some.inj hw
        exact ⟨hpasses, _, mem_singleton_self _, rfl⟩

end PullSettings

variable {κ τ : Type} [LinearOrder κ]

lemma exists_append_filter_lt {α : Type} {f : α → κ} {rows : List α}
    (h : rows.Pairwise fun a b => f a < f b) (c : κ) :
    ∃ before, rows = before ++ rows.filter fun a => c < f a := by
  induction rows with
  | nil => exact ⟨[], rfl⟩
  | cons a rows ih =>
    obtain ⟨hhead, htail⟩ := pairwise_cons.mp h
    by_cases hlt : c < f a
    · refine ⟨[], ?_⟩
      have hall : (a :: rows).filter (fun a => c < f a) = a :: rows := by
        rw [filter_eq_self]
        intro b hb
        rcases mem_cons.mp hb with rfl | hb
        · exact decide_eq_true hlt
        · exact decide_eq_true (hlt.trans (hhead b hb))
      rw [hall, nil_append]
    · obtain ⟨before, hbefore⟩ := ih htail
      refine ⟨a :: before, ?_⟩
      rw [filter_cons_of_neg (by simpa using hlt), cons_append, ← hbefore]

namespace PullSettings

/-- The server compares ids of this kind with each other, and none of them is `null`. -/
structure Regular (cfg : PullSettings κ τ) (ids : Bson → Prop) : Prop where
  ne_null : ∀ a, ids a → a ≠ .null
  gt_iff : ∀ a b, ids a → ids b → (cfg.gt a b = true ↔ cfg.key a < cfg.key b)

def Rejects (cfg : PullSettings κ τ) (remote : OrderedTable κ Version) (change : RemoteChange) :
    Prop :=
  ∃ v, cfg.fullDocument remote change = some v ∧ cfg.passes v = false

end PullSettings

namespace PullState

open PullSettings

def cursor (s : PullState κ τ) : Option Bson :=
  match s.phase with
  | .paging lastId => if lastId = .null then none else some lastId
  | _ => s.page

def Ahead (cfg : PullSettings κ τ) (s : PullState κ τ) (k : κ) : Prop :=
  s.init = false ∧ s.phase ≠ .pagesRead ∧ ∀ id ∈ s.cursor, cfg.key id < k

/-- The version is in a page, or behind the token, that is still to be read. -/
structure Awaits (cfg : PullSettings κ τ) (s : PullState κ τ) (v : Version) : Prop where
  ahead : s.token = none → s.Ahead cfg (cfg.key (rawId v.doc))
  behind : ∀ t ∈ s.token, t ≤ v.number
  unread : ∀ p k, s.token ≠ none → s.phase = .watching p k → p ≤ v.number

def reading (s : PullState κ τ) : ℕ :=
  s.token.getD (match s.phase with
    | .watching p _ => p
    | _ => s.log.length)

/-- No batch consists of rejected documents or events only. -/
structure Moves (cfg : PullSettings κ τ) (s : PullState κ τ) : Prop where
  pages : s.init = false → Snapshot.PagesMove cfg.nsFilter cfg.active cfg.batchSize
    ((versions s.remote).map Version.doc)
  log : ∀ i, s.reading ≤ i → i + cfg.batchSize ≤ s.log.length →
    ∃ j change, i ≤ j ∧ j < i + cfg.batchSize ∧ s.log[j]? = some change ∧
      ¬ cfg.Rejects s.remote change

inductive StreamPhase (cfg : PullSettings κ τ) (ids : Bson → Prop) (s : PullState κ τ) :
    PullPhase τ → Prop
  | idle : StreamPhase cfg ids s .idle
  | polling : StreamPhase cfg ids s .polling
  | polled (found : List Version) (lastTs : τ) : StreamPhase cfg ids s (.polled found lastTs)
  | paging (lastId : Bson) (hinit : s.init = false) (hids : lastId ≠ .null → ids lastId)
      (hpage : ∀ id ∈ s.page, lastId ≠ .null ∧ cfg.key id ≤ cfg.key lastId) :
      StreamPhase cfg ids s (.paging lastId)
  | pagesRead (hinit : s.init = false) : StreamPhase cfg ids s .pagesRead
  | opening (hinit : s.init = true) : StreamPhase cfg ids s .opening
  | watching (position processed : ℕ) (hinit : s.init = true) (hlog : position ≤ s.log.length)
      (htoken : ∀ t ∈ s.token, t ≤ position ∧ position ≤ t + processed) :
      StreamPhase cfg ids s (.watching position processed)

structure Streams (cfg : PullSettings κ τ) (ids : Bson → Prop) (s : PullState κ τ) : Prop where
  recorded : cfg.Recorded s
  regular : ∀ v ∈ versions s.remote, ids (rawId v.doc)
  page : ∀ id ∈ s.page, ids id
  token : ∀ t ∈ s.token, s.init = true ∧ t ≤ s.log.length
  phase : StreamPhase cfg ids s s.phase
  awaits : ∀ v ∈ versions s.remote, cfg.passes v = true → s.Handed v ∨ s.Awaits cfg v
  moves : s.Moves cfg

variable {cfg : PullSettings κ τ} {ids : Bson → Prop} {s s' : PullState κ τ} {v : Version}

lemma Moves.onward (h : s.Moves cfg) (honward : Onward s s')
    (hinit : s'.init = false → s.init = false) (hreading : s.reading ≤ s'.reading) :
    s'.Moves cfg := by
  constructor
  · intro hs'
    rw [honward.remote]
    exact h.pages (hinit hs')
  · intro i hi hlog
    rw [honward.log] at hlog
    rw [honward.log, honward.remote]
    exact h.log i (hreading.trans hi) hlog

lemma Streams.reading_le (h : s.Streams cfg ids) : s.reading ≤ s.log.length := by
  rw [reading]
  have hphase := h.phase
  cases htoken : s.token with
  | some t => exact (h.token t htoken).2
  | none =>
    generalize s.phase = phase at hphase
    cases hphase with
    | watching p k hinit hlog htoken => exact hlog
    | idle | polling | polled _ _ | paging _ _ _ _ | pagesRead _ | opening _ => exact Nat.le_refl _

lemma Awaits.token_ne_none (h : s.Awaits cfg v) (hinit : s.init = true) : s.token ≠ none :=
  fun hnone => absurd (h.ahead hnone).1 (by simp [hinit])

lemma Streams.next (h : s.Streams cfg ids) (honward : Onward s s') (hpage : ∀ id ∈ s'.page, ids id)
    (htoken : ∀ t ∈ s'.token, s'.init = true ∧ t ≤ s.log.length)
    (hphase : StreamPhase cfg ids s' s'.phase) (hinit : s'.init = false → s.init = false)
    (hawaits : ∀ v ∈ versions s.remote, cfg.passes v = true → s.Awaits cfg v →
      s'.Handed v ∨ s'.Awaits cfg v)
    (hreading : s.reading ≤ s'.reading) : s'.Streams cfg ids := by
  refine ⟨h.recorded.onward honward, ?_, hpage, ?_, hphase, fun v hv hpasses => ?_,
    h.moves.onward honward hinit hreading⟩
  · rw [honward.remote]; exact h.regular
  · rw [honward.log]; exact htoken
  · rw [honward.remote] at hv
    exact (h.awaits v hv hpasses).elim (fun hold => .inl (hold.onward honward))
      (hawaits v hv hpasses)

lemma moves_of_short (hdocs : (versions s.remote).length < cfg.batchSize)
    (hlog : s.log.length < cfg.batchSize) : s.Moves cfg := by
  constructor
  · intro _ before window after hdocuments hlength
    have htotal := congrArg length hdocuments
    rw [length_map, length_append, length_append, hlength] at htotal
    omega
  · omega

lemma streams_new (ids : Bson → Prop) (hbatch : 0 < cfg.batchSize) : Streams cfg ids {} :=
  ⟨recorded_new cfg, fun v hv => absurd hv (not_mem_versions_empty v),
    fun id hid => absurd hid (not_mem_none id), fun t ht => absurd ht (not_mem_none t),
    .idle, fun v hv => absurd hv (not_mem_versions_empty v), moves_of_short hbatch hbatch⟩

def Resting : PullPhase τ → Prop
  | .idle | .polling | .polled _ _ => True
  | _ => False

variable {phase : PullPhase τ} {lastId : Bson} {position processed : ℕ}

lemma Streams.paging (h : s.Streams cfg ids) (hphase : s.phase = .paging lastId) :
    s.init = false ∧ (lastId ≠ .null → ids lastId) ∧
      ∀ id ∈ s.page, lastId ≠ .null ∧ cfg.key id ≤ cfg.key lastId := by
  have hstream := h.phase
  rw [hphase] at hstream
  cases hstream with
  | paging _ hinit hlast hpage => exact ⟨hinit, hlast, hpage⟩

lemma Streams.watching (h : s.Streams cfg ids) (hphase : s.phase = .watching position processed) :
    s.init = true ∧ position ≤ s.log.length ∧
      ∀ t ∈ s.token, t ≤ position ∧ position ≤ t + processed := by
  have hstream := h.phase
  rw [hphase] at hstream
  cases hstream with
  | watching _ _ hinit hlog htoken => exact ⟨hinit, hlog, htoken⟩

lemma Resting.of_aborted (h : Aborted phase) : Resting phase := by
  cases phase with
  | idle | polling => trivial
  | paging _ | pagesRead | opening | watching _ _ | polled _ _ => exact h.elim

section

variable (h : s.Streams cfg ids) (honward : Onward s s') (hinit : s'.init = s.init)
  (hpage : s'.page = s.page) (htoken : s'.token = s.token)
include h honward hinit hpage htoken

lemma Streams.rest (hphase : Resting s'.phase) : s'.Streams cfg ids := by
  have hcursor : s'.cursor = s.page := by
    rw [cursor, ← hpage]
    generalize s'.phase = phase at hphase
    cases phase with
    | idle | polling | polled _ _ => rfl
    | paging _ | pagesRead | opening | watching _ _ => exact hphase.elim
  have hnotRead : s'.phase ≠ .pagesRead := by
    intro heq
    rw [heq] at hphase
    exact hphase
  have hnotWatching : ∀ p k, s'.phase ≠ .watching p k := by
    intro p k heq
    rw [heq] at hphase
    exact hphase
  refine h.next honward (hpage ▸ h.page) (fun t ht => ?_) ?_ (by rw [hinit]; exact id)
    (fun v hv hpasses hawaits => .inr ⟨fun hnone => ?_, ?_, ?_⟩) ?_
  · rw [htoken] at ht
    rw [hinit]
    exact h.token t ht
  · generalize s'.phase = phase at hphase
    cases phase with
    | idle => exact .idle
    | polling => exact .polling
    | polled found lastTs => exact .polled found lastTs
    | paging _ | pagesRead | opening | watching _ _ => exact hphase.elim
  · rw [htoken] at hnone
    obtain ⟨hfalse, hne, hcur⟩ := hawaits.ahead hnone
    refine ⟨hinit.trans hfalse, hnotRead, ?_⟩
    rw [hcursor]
    intro id hid
    rw [cursor] at hcur
    have hphase := h.phase
    generalize s.phase = phase at hphase hcur hne
    cases hphase with
    | idle | polling | polled _ _ | opening _ | watching _ _ _ _ _ => exact hcur id hid
    | pagesRead _ => exact absurd rfl hne
    | paging lastId _ _ hlast =>
      obtain ⟨hnull, hle⟩ := hlast id hid
      dsimp only at hcur
      rw [if_neg hnull] at hcur
      exact lt_of_le_of_lt hle (hcur lastId rfl)
  · rw [htoken]; exact hawaits.behind
  · exact fun p k _ heq => absurd heq (hnotWatching p k)
  · cases hs : s.token with
    | some t => rw [reading, reading, htoken, hs]; exact Nat.le_refl _
    | none =>
      have hreading : s'.reading = s.log.length := by
        rw [reading, htoken, hs, honward.log]
        generalize s'.phase = phase at hphase
        cases phase with
        | idle | polling | polled _ _ => rfl
        | paging _ | pagesRead | opening | watching _ _ => exact hphase.elim
      rw [hreading]
      exact h.reading_le

lemma Streams.failed (e : PyError) : (failed s' e).Streams cfg ids := by
  obtain ⟨phase, hphase, heq⟩ := failed_eq s' e
  rw [heq]
  exact h.rest (honward.phase phase) hinit hpage htoken (.of_aborted hphase)

end

lemma StreamPhase.mono (h : StreamPhase cfg ids s phase)
    (hinit : s'.init = s.init) (hpage : s'.page = s.page) (htoken : s'.token = s.token)
    (hlog : s.log.length ≤ s'.log.length) : StreamPhase cfg ids s' phase := by
  cases h with
  | idle => exact .idle
  | polling => exact .polling
  | polled found lastTs => exact .polled found lastTs
  | paging lastId hfalse hids hlast =>
    exact .paging lastId (hinit.trans hfalse) hids (hpage ▸ hlast)
  | pagesRead hfalse => exact .pagesRead (hinit.trans hfalse)
  | opening htrue => exact .opening (hinit.trans htrue)
  | watching p k htrue hp ht =>
    exact .watching p k (hinit.trans htrue) (hp.trans hlog) (htoken ▸ ht)

section

variable (h : s.Streams cfg ids)
include h

lemma Streams.goOn (hphase : StreamPhase cfg ids s phase)
    (hawaits : ∀ v ∈ versions s.remote, cfg.passes v = true → s.Awaits cfg v →
      Awaits cfg { s with phase := phase } v)
    (hreading : s.reading ≤ reading { s with phase := phase }) :
    Streams cfg ids { s with phase := phase } := by
  exact h.next ((Onward.refl s).phase phase) h.page h.token
    (hphase.mono rfl rfl rfl (Nat.le_refl _)) id
    (fun v hv hpasses ha => .inr (hawaits v hv hpasses ha)) hreading

lemma Streams.beginPull (hmode : cfg.useChangeStream = true) (hreg : cfg.Regular ids)
    (hidle : s.phase = .idle) (hreread : s.init = false → ∀ id ∈ s.page, cfg.reread id = id) :
    (cfg.beginPull s).Streams cfg ids := by
  rw [PullSettings.beginPull, if_pos hmode]
  by_cases hinit : s.init = true
  · rw [if_pos hinit]
    refine h.goOn (.opening hinit) (fun v _ _ hawaits => ?_) ?_
    · exact ⟨fun hnone => absurd hnone (hawaits.token_ne_none hinit), hawaits.behind,
        fun _ _ _ h => by cases h⟩
    · rw [reading, reading, hidle]
  · rw [if_neg hinit]
    rw [Bool.not_eq_true] at hinit
    -- the checkpoint of the page is read back as it was
    have hresumed :
      (if cfg.resumedId s = .null then none else some (cfg.resumedId s)) = s.page := by
      rw [resumedId]
      cases hpage : s.page with
      | none => exact if_pos rfl
      | some id =>
        rw [map_some, getD_some, hreread hinit id hpage]
        exact if_neg (hreg.ne_null id (h.page id hpage))
    refine h.goOn (.paging _ hinit (fun hnull => ?_) fun id hid => ?_) (fun v _ _ hawaits => ?_) ?_
    · rw [if_neg hnull] at hresumed
      exact h.page _ hresumed.symm
    · rw [← hresumed] at hid
      split_ifs at hid with hnull
      · cases hid
      · obtain rfl := some.inj hid
        exact ⟨hnull, le_refl _⟩
    · refine ⟨fun hnone => ⟨hinit, fun h => (by cases h), ?_⟩, hawaits.behind,
        fun _ _ _ h => by cases h⟩
      have hcur := (hawaits.ahead hnone).2.2
      rw [cursor, hidle] at hcur
      rw [cursor]
      dsimp only
      rw [hresumed]
      exact hcur
    · rw [reading, reading, hidle]

lemma Streams.saveInit (hphase : s.phase = .pagesRead) (fault : Option PullFault) :
    (saveInit fault s).Streams cfg ids := by
  rcases saving_cases fault s { s with init := true, phase := .opening } with heq | ⟨e, heq⟩
  · rw [PullSettings.saveInit, heq]
    refine h.next ⟨rfl, rfl, List.Subset.refl _⟩ h.page (fun t ht => ⟨rfl, (h.token t ht).2⟩)
      (.opening rfl) nofun (fun v hv hpasses hawaits => .inr
        ⟨fun hnone => absurd hphase (hawaits.ahead hnone).2.1, hawaits.behind,
          nofun⟩) ?_
    rw [reading, reading, hphase]
  · rw [PullSettings.saveInit, heq]
    exact h.failed (.refl s) rfl rfl rfl e

lemma Streams.openStream (hphase : s.phase = .opening) :
    (openStream s).Streams cfg ids := by
  have hinit : s.init = true := by
    have hstream := h.phase
    rw [hphase] at hstream
    cases hstream with
    | opening hinit => exact hinit
  refine h.goOn (.watching _ _ hinit ?_ ?_) (fun v _ _ hawaits => ⟨fun hnone => ?_, hawaits.behind,
    ?_⟩) ?_
  · cases ht : s.token with
    | none => exact Nat.le_refl _
    | some t => exact (h.token t ht).2
  · intro t ht
    rw [ht]
    exact ⟨Nat.le_refl _, Nat.le_refl _⟩
  · exact absurd hnone (hawaits.token_ne_none hinit)
  · intro p k hsome hwatching
    obtain ⟨rfl, rfl⟩ := PullPhase.watching.inj hwatching
    obtain ⟨t, ht⟩ := ne_none_iff_exists'.mp hsome
    rw [ht]
    exact hawaits.behind t ht
  · rw [reading, reading, hphase]
    cases s.token <;> exact Nat.le_refl _

end

lemma sorted_versions (h : cfg.Recorded s) :
    (versions s.remote).Pairwise fun v w => cfg.key (rawId v.doc) < cfg.key (rawId w.doc) := by
  rw [versions, pairwise_map]
  refine s.remote.sorted.imp_of_mem fun {a b} ha hb hlt => ?_
  rw [h.key a.1 a.2 (OrderedTable.get_eq_some_iff.mpr ha),
    h.key b.1 b.2 (OrderedTable.get_eq_some_iff.mpr hb)]
  exact hlt

section

variable (hreg : cfg.Regular ids) (h : s.Streams cfg ids)
include hreg h

lemma findAfter_eq (hnull : lastId ≠ .null) (hlast : ids lastId) :
    cfg.findAfter s.remote lastId =
      (versions s.remote).filter fun v => cfg.key lastId < cfg.key (rawId v.doc) := by
  rw [findAfter, if_pos hnull]
  apply filter_congr
  intro v hv
  rw [Bool.eq_iff_iff, decide_eq_true_eq]
  exact hreg.gt_iff lastId _ hlast (h.regular v hv)

lemma mem_findAfter (hlast : lastId ≠ .null → ids lastId) :
    v ∈ cfg.findAfter s.remote lastId ↔
      v ∈ versions s.remote ∧ (lastId ≠ .null → cfg.key lastId < cfg.key (rawId v.doc)) := by
  by_cases hnull : lastId = .null
  · rw [findAfter, if_neg (not_not.mpr hnull)]
    exact ⟨fun hv => ⟨hv, fun hne => absurd hnull hne⟩, And.left⟩
  · rw [findAfter_eq hreg h hnull (hlast hnull), mem_filter, decide_eq_true_eq]
    exact ⟨fun hv => ⟨hv.1, fun _ => hv.2⟩, fun hv => ⟨hv.1, hv.2 hnull⟩⟩

lemma exists_append_findAfter (hlast : lastId ≠ .null → ids lastId) :
    ∃ before, versions s.remote = before ++ cfg.findAfter s.remote lastId := by
  by_cases hnull : lastId = .null
  · exact ⟨[], by rw [findAfter, if_neg (not_not.mpr hnull), nil_append]⟩
  · rw [findAfter_eq hreg h hnull (hlast hnull)]
    exact exists_append_filter_lt (sorted_versions h.recorded) _

end

lemma exists_append_limit (n : ℕ) (found : List Version) :
    ∃ rest, found = limit n found ++ rest ∧ ((limit n found).length < n → rest = []) := by
  rw [limit]
  split_ifs with hn
  · exact ⟨[], (append_nil _).symm, fun _ => rfl⟩
  · refine ⟨found.drop n, (take_append_drop n found).symm, fun hlt => ?_⟩
    rw [length_take] at hlt
    exact drop_eq_nil_of_le (by omega)

structure PageSplit (cfg : PullSettings κ τ) (ids : Bson → Prop) (s : PullState κ τ)
    (lastId next : Bson) (page rest : List Version) : Prop where
  found : cfg.findAfter s.remote lastId = page ++ rest
  full : page.length < cfg.batchSize → rest = []
  ids : next ≠ .null → ids next
  le : lastId ≠ .null → next ≠ .null ∧ cfg.key lastId ≤ cfg.key next
  lt : next ≠ .null → ∀ v ∈ rest, cfg.key next < cfg.key (rawId v.doc)

lemma exists_pageSplit (hreg : cfg.Regular ids) (h : s.Streams cfg ids)
    (hlast : lastId ≠ .null → ids lastId) :
    ∃ rest, PageSplit cfg ids s lastId
      (lastIdOf ((cfg.pageAfter s.remote lastId).filter cfg.passes) lastId)
      (cfg.pageAfter s.remote lastId) rest := by
  obtain ⟨rest, hfound, hfull⟩ := exists_append_limit cfg.batchSize (cfg.findAfter s.remote lastId)
  change _ = cfg.pageAfter s.remote lastId ++ rest at hfound
  have hmem : ∀ v ∈ cfg.pageAfter s.remote lastId ++ rest, v ∈ versions s.remote ∧
      (lastId ≠ .null → cfg.key lastId < cfg.key (rawId v.doc)) := by
    intro v hv
    rw [← hfound] at hv
    exact (mem_findAfter hreg h hlast).mp hv
  have hsorted : (cfg.pageAfter s.remote lastId ++ rest).Pairwise
      fun v w => cfg.key (rawId v.doc) < cfg.key (rawId w.doc) := by
    obtain ⟨before, hbefore⟩ := exists_append_findAfter hreg h hlast
    have hall := sorted_versions h.recorded
    rw [hbefore, pairwise_append] at hall
    rw [← hfound]
    exact hall.2.1
  refine ⟨rest, hfound, hfull, ?_, ?_, ?_⟩
  · rcases cfg.lastIdOf_cases (cfg.pageAfter s.remote lastId) lastId with heq | ⟨a, ha, heq⟩
    · rw [heq]; exact hlast
    · rw [heq]
      exact fun _ => h.regular a (hmem a (mem_append_left _ ha)).1
  · intro hnull
    rcases cfg.lastIdOf_cases (cfg.pageAfter s.remote lastId) lastId with heq | ⟨a, ha, heq⟩
    · rw [heq]; exact ⟨hnull, le_refl _⟩
    · rw [heq]
      have hav := hmem a (mem_append_left _ ha)
      exact ⟨hreg.ne_null _ (h.regular a hav.1), le_of_lt (hav.2 hnull)⟩
  · intro hnull v hv
    rcases cfg.lastIdOf_cases (cfg.pageAfter s.remote lastId) lastId with heq | ⟨a, ha, heq⟩
    · rw [heq] at hnull ⊢
      exact (hmem v (mem_append_right _ hv)).2 hnull
    · rw [heq]
      exact (pairwise_append.mp hsorted).2.2 a ha v hv

section

variable (h : s.Streams cfg ids) (hphase : s.phase = .paging lastId) (hreg : cfg.Regular ids)
  (fault : Option PullFault)
include h hphase hreg fault

lemma Streams.savePage {next : Bson} {page rest : List Version}
    (hsplit : PageSplit cfg ids s lastId next page rest) :
    (cfg.savePage fault page next (cfg.handAll page s)).Streams cfg ids := by
  obtain ⟨hinit, hlast, hpage⟩ := h.paging hphase
  have hnone : s.token = none := by
    cases htoken : s.token with
    | none => rfl
    | some t => exact absurd (h.token t htoken).1 (by simp [hinit])
  -- the state after the page, whatever became of the checkpoint
  have hnext : ∀ s' : PullState κ τ, Onward s s' → s'.handed = (cfg.handAll page s).handed →
      s'.init = s.init → s'.token = s.token → s'.phase = cfg.nextPhase page next →
      (∀ id ∈ s'.page, ids id) → (∀ id ∈ s'.page, next ≠ .null ∧ cfg.key id ≤ cfg.key next) →
      s'.Streams cfg ids := by
    intro s' honward hhanded hinit' htoken' hphase' hids' hpage'
    rw [hnone] at htoken'
    have hnot (t) (ht : t ∈ s'.token) : False := not_mem_none t (htoken' ▸ ht)
    refine h.next honward hids' (fun t ht => (hnot t ht).elim) ?_ (by rw [hinit']; exact id)
      (fun v hv hpasses hawaits => ?_) ?_
    · rw [hphase', nextPhase]
      split_ifs
      · exact .pagesRead (hinit'.trans hinit)
      · exact .paging next (hinit'.trans hinit) hsplit.ids hpage'
    · have hcur := (hawaits.ahead hnone).2.2
      rw [cursor, hphase] at hcur
      have hmem : v ∈ page ++ rest := by
        rw [← hsplit.found, mem_findAfter hreg h hlast]
        refine ⟨hv, fun hnull => hcur lastId ?_⟩
        exact if_neg hnull
      rcases mem_append.mp hmem with hin | hrest
      · exact .inl (handed_append hin hpasses hhanded)
      · have hmore : ¬ page.length < cfg.batchSize := by
          intro hlt
          rw [hsplit.full hlt] at hrest
          cases hrest
        rw [nextPhase, if_neg hmore] at hphase'
        refine .inr ⟨fun _ => ⟨hinit'.trans hinit, ?_, ?_⟩, fun t ht => (hnot t ht).elim, ?_⟩
        · rw [hphase']
          exact nofun
        · rw [cursor, hphase']
          intro id hid
          dsimp only at hid
          split_ifs at hid with hnull
          · cases hid
          · obtain rfl := some.inj hid
            exact hsplit.lt hnull v hrest
        · rw [hphase']
          exact nofun
    · have hreading : s'.reading = s.log.length := by
        rw [reading, htoken', hphase', nextPhase, ← honward.log]
        split_ifs <;> rfl
      rw [hreading]
      exact h.reading_le
  rw [PullSettings.savePage]
  split_ifs with hsave
  · rcases saving_cases fault (cfg.handAll page s) { cfg.handAll page s with
        page := some next
        phase := cfg.nextPhase page next } with heq | ⟨e, heq⟩
    · rw [heq]
      refine hnext _ ⟨rfl, rfl, subset_append_left _ _⟩ rfl rfl rfl rfl ?_ ?_
      · intro id hid
        obtain rfl := some.inj hid
        exact hsplit.ids hsave.2
      · intro id hid
        obtain rfl := some.inj hid
        exact ⟨hsave.2, le_refl _⟩
    · rw [heq]
      exact h.failed (.hand s _) rfl rfl rfl e
  · refine hnext _ ⟨rfl, rfl, subset_append_left _ _⟩ rfl rfl rfl rfl h.page ?_
    intro id hid
    obtain ⟨hnull, hle⟩ := hpage id hid
    exact ⟨(hsplit.le hnull).1, hle.trans (hsplit.le hnull).2⟩

lemma Streams.readPage :
    (cfg.readPage fault lastId s).Streams cfg ids := by
  rcases readPage_cases cfg fault lastId s with heq | ⟨calls, e, heq⟩
  · obtain ⟨rest, hsplit⟩ := exists_pageSplit hreg h (h.paging hphase).2.1
    rw [heq]
    exact h.savePage hphase hreg fault hsplit
  · rw [heq]
    exact h.failed (.hand s calls) rfl rfl rfl e

end

lemma taken_takeChange {remote : OrderedTable κ Version} {change : RemoteChange}
    (hfound : ∀ v, cfg.fullDocument remote change = some v → cfg.Readable v.doc)
    (fault : Option (ℕ × PyError)) :
    Taken cfg fault (cfg.fullDocument remote change) (cfg.takeChange fault remote change) := by
  cases change with
  | insert v | replace v | update id updated removed => exact taken_takeDocument hfound _
  | delete id =>
    have hnothing : ∀ v, cfg.fullDocument remote (.delete id) = some v → cfg.passes v = true ∧
        ∃ call ∈ ([] : List HandedOver), call.version = v := nofun
    rw [takeChange]
    split_ifs
    · rcases fault with _ | ⟨_ | n, e⟩
      · exact .inr (.inl ⟨[], rfl, hnothing⟩)
      · exact .inr (.inr ⟨some_ne_none _, e, rfl⟩)
      · exact .inr (.inl ⟨[], rfl, hnothing⟩)
    · exact .inr (.inl ⟨[], rfl, hnothing⟩)

section

variable (h : s.Streams cfg ids) (hphase : s.phase = .watching position processed)
include h hphase

lemma Streams.closeStream (fault : Option PullFault) :
    (cfg.closeStream fault position processed s).Streams cfg ids := by
  have hrest : Streams cfg ids { s with phase := .idle } :=
    h.rest ((Onward.refl s).phase _) rfl rfl rfl trivial
  rw [PullSettings.closeStream]
  split_ifs
  · rcases saving_cases fault s { s with token := some position, phase := .idle } with
      heq | ⟨e, heq⟩
    · rw [heq]
      obtain ⟨hinit, hlog, htoken⟩ := h.watching hphase
      refine h.next ⟨rfl, rfl, List.Subset.refl _⟩ h.page (fun t ht => ?_) .idle id
        (fun v hv hpasses hawaits => .inr ⟨fun hnone => absurd hnone (some_ne_none _),
          fun t ht => ?_, fun _ _ _ h => by cases h⟩) ?_
      · obtain rfl := some.inj ht
        exact ⟨hinit, hlog⟩
      · obtain rfl := some.inj ht
        exact hawaits.unread position processed (hawaits.token_ne_none hinit) hphase
      · rw [reading, hphase]
        cases ht : s.token with
        | none => exact Nat.le_refl _
        | some t => exact (htoken t ht).1
    · rw [heq]
      exact h.failed (.refl s) rfl rfl rfl e
  · exact hrest

lemma Streams.readChange {change : RemoteChange} (hchange : s.log[position]? = some change)
    (fault : Option PullFault) :
    (cfg.readChange fault position processed change s).Streams cfg ids := by
  obtain ⟨hinit, -, htoken⟩ := h.watching hphase
  have hlog : position + 1 ≤ s.log.length := (List.getElem?_eq_some_iff.mp hchange).1
  -- a version that is not that of the event is further on
  have hlater : ∀ v ∈ versions s.remote, s.Awaits cfg v →
      s.token ≠ none ∧ (cfg.fullDocument s.remote change = some v ∨ position + 1 ≤ v.number) := by
    intro v hv hawaits
    have hsome := hawaits.token_ne_none hinit
    refine ⟨hsome, ?_⟩
    rcases Nat.eq_or_lt_of_le (hawaits.unread position processed hsome hphase) with heq | hlt
    · obtain ⟨change', hchange', hfull⟩ := h.recorded.event v hv
      rw [← heq, hchange] at hchange'
      obtain rfl := some.inj hchange'
      exact .inl hfull
    · exact .inr hlt
  rw [PullSettings.readChange]
  rcases taken_takeChange (h.recorded.readable change (mem_of_getElem? hchange))
    (fault.bind PullFault.inLocalWrite) with
      ⟨heq, w, hw, hfails⟩ | ⟨calls, heq, hcalls⟩ | ⟨-, e, heq⟩
  · rw [heq]
    refine h.goOn (.watching _ _ hinit hlog fun t ht => ?_) (fun v hv hpasses hawaits => ?_) ?_
    · have := htoken t ht
      omega
    · obtain ⟨hsome, hfull | hlt⟩ := hlater v hv hawaits
      · rw [hw] at hfull
        obtain rfl := some.inj hfull
        rw [hfails] at hpasses
        cases hpasses
      · refine ⟨fun hnone => absurd hnone hsome, hawaits.behind, fun p k _ hwatching => ?_⟩
        obtain ⟨rfl, rfl⟩ := PullPhase.watching.inj hwatching
        exact hlt
    · rw [reading, reading, hphase]
      cases s.token with
      | none => exact Nat.le_succ _
      | some t => exact Nat.le_refl _
  · rw [heq]
    dsimp only
    rcases saving_cases fault { s with handed := s.handed ++ calls } { s with
        handed := s.handed ++ calls
        token := some (position + 1)
        phase := .watching (position + 1) (processed + 1) } with hsaved | ⟨e, hsaved⟩
    · rw [hsaved]
      refine h.next ⟨rfl, rfl, subset_append_left _ _⟩ h.page (fun t ht => ?_)
        (.watching _ _ hinit hlog fun t ht => ?_) id (fun v hv hpasses hawaits => ?_) ?_
      · obtain rfl := some.inj ht
        exact ⟨hinit, hlog⟩
      · obtain rfl := some.inj ht
        exact ⟨Nat.le_refl _, Nat.le_add_right _ _⟩
      · obtain ⟨-, hfull | hlt⟩ := hlater v hv hawaits
        · obtain ⟨-, call, hcall, hversion⟩ := hcalls v hfull
          exact .inl ⟨call, mem_append_right _ hcall, hversion⟩
        · refine .inr ⟨fun hnone => absurd hnone (some_ne_none _), fun t ht => ?_,
            fun p k _ hwatching => ?_⟩
          · obtain rfl := some.inj ht
            exact hlt
          · obtain ⟨rfl, rfl⟩ := PullPhase.watching.inj hwatching
            exact hlt
      · rw [reading, hphase]
        cases ht : s.token with
        | none => exact Nat.le_succ _
        | some t => exact (htoken t ht).1.trans (Nat.le_succ _)
    · rw [hsaved]
      exact h.failed (.hand s calls) rfl rfl rfl e
  · rw [heq]
    exact h.failed (.refl s) rfl rfl rfl e

lemma Streams.watch (fault : Option PullFault) :
    (cfg.watch fault position processed s).Streams cfg ids := by
  rw [PullSettings.watch]
  split_ifs
  · cases hchange : s.log[position]? with
    | none => exact h.closeStream hphase fault
    | some change => exact h.readChange hphase hchange fault
  · exact h.closeStream hphase fault

end

lemma Streams.turn [LinearOrder τ] (hmode : cfg.useChangeStream = true)
    (hreg : cfg.Regular ids) (h : s.Streams cfg ids)
    (hreread : s.phase = .idle → s.init = false → ∀ id ∈ s.page, cfg.reread id = id)
    (fault : Option PullFault) : (cfg.turn fault s).Streams cfg ids := by
  rcases turn_cases cfg fault s with heq | heq | ⟨phase, hphase, heq⟩
  · rw [heq, answered]
    cases hphase : s.phase with
    | idle => exact h.beginPull hmode hreg hphase (hreread hphase)
    | paging lastId => exact h.readPage hphase hreg fault
    | pagesRead => exact h.saveInit hphase fault
    | opening => exact h.openStream hphase
    | watching position processed => exact h.watch hphase fault
    | polling =>
      refine h.rest ((Onward.refl s).phase _) rfl rfl rfl ?_
      change Resting (if _ then _ else _)
      split_ifs <;> trivial
    | polled found lastTs =>
      dsimp only
      obtain ⟨calls, ts, heq⟩ := handFound_eq cfg fault found lastTs s
      rw [heq]
      exact h.rest ⟨rfl, rfl, subset_append_left _ _⟩ rfl rfl rfl trivial
  · rw [heq]; exact h
  · rw [heq]; exact h.rest ((Onward.refl s).phase phase) rfl rfl rfl (.of_aborted hphase)

def StillReads (cfg : PullSettings κ τ) (s : PullState κ τ) (id : Bson) : Prop :=
  s.token ≠ none ∨ s.Ahead cfg (cfg.key id)

lemma Streams.write (h : s.Streams cfg ids) {doc : Document} (hdoc : cfg.Readable doc)
    (hids : ids (rawId doc)) (described : Option (List String × List String))
    (hreads : cfg.passes ⟨doc, s.log.length⟩ = true → s.StillReads cfg (rawId doc))
    (hmoves : (cfg.write doc described s).Moves cfg) :
    (cfg.write doc described s).Streams cfg ids := by
  have hlog : s.log.length ≤ (cfg.write doc described s).log.length := by
    rw [PullSettings.write, length_append]
    exact Nat.le_add_right _ _
  refine ⟨h.recorded.write hdoc described, fun v hv => ?_, h.page, fun t ht => ?_,
    h.phase.mono rfl rfl rfl hlog, fun v hv hpasses => ?_, hmoves⟩
  · rcases mem_versions_write hv with rfl | hv
    · exact hids
    · exact h.regular v hv
  · exact ⟨(h.token t ht).1, (h.token t ht).2.trans hlog⟩
  · rcases mem_versions_write hv with rfl | hv
    · refine .inr ⟨fun hnone => (hreads hpasses).resolve_left (not_not.mpr hnone),
        fun t ht => (h.token t ht).2, fun p k _ hwatching => (h.watching hwatching).2.1⟩
    · refine (h.awaits v hv hpasses).imp id fun hawaits => ?_
      exact ⟨hawaits.ahead, hawaits.behind, hawaits.unread⟩

lemma Streams.delete (h : s.Streams cfg ids) (id : Bson)
    (hmoves : (cfg.delete id s).Moves cfg) : (cfg.delete id s).Streams cfg ids := by
  have hrecorded := h.recorded.delete id
  rcases delete_cases cfg id s with heq | heq
  · rw [heq]; exact h
  · rw [heq] at hrecorded hmoves ⊢
    have hlog : s.log.length ≤ (s.log ++ [RemoteChange.delete id]).length := by
      rw [length_append]
      exact Nat.le_add_right _ _
    refine ⟨hrecorded, fun v hv => h.regular v (mem_versions_erase hv), h.page,
      fun t ht => ⟨(h.token t ht).1, (h.token t ht).2.trans hlog⟩, h.phase.mono rfl rfl rfl hlog,
      fun v hv hpasses => ?_, hmoves⟩
    refine (h.awaits v (mem_versions_erase hv) hpasses).imp (fun hold => hold) fun hawaits => ?_
    exact ⟨hawaits.ahead, hawaits.behind, hawaits.unread⟩

end PullState

end Smongo

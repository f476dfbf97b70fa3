import Mathlib.Dynamics.PeriodicPts.Defs
import Mathlib.Tactic.IntervalCases
import Smongo.Sync.Streaming

/-!
# The pull catches up

Once nothing is written and nothing fails any more, the pull hands over all that is still missing.
-/

namespace Smongo

open List

variable {κ τ : Type} [LinearOrder κ]

namespace PullState

open PullSettings

variable {cfg : PullSettings κ τ} {ids : Bson → Prop} {s : PullState κ τ} {v : Version}

/-- The pull has passed over the events behind the token since it has opened the stream, and
would pass over them again. -/
def Fresh (cfg : PullSettings κ τ) (s : PullState κ τ) (t position processed : ℕ) : Prop :=
  position = t + processed ∧ ∀ i change, t ≤ i → i < position → s.log[i]? = some change →
    cfg.Rejects s.remote change

open Classical in
noncomputable def stepsToToken (cfg : PullSettings κ τ) (s : PullState κ τ) (t : ℕ) : ℕ :=
  match s.phase with
  | .watching position processed =>
    if s.Fresh cfg t position processed then cfg.batchSize - processed
    else cfg.batchSize + 3 + (cfg.batchSize - processed)
  | .opening => cfg.batchSize + 1
  | .idle => cfg.batchSize + 2
  | .polled _ _ => cfg.batchSize + 3
  | .polling => cfg.batchSize + 4
  | _ => 0

def stepsToPages (cfg : PullSettings κ τ) (s : PullState κ τ) : ℕ :=
  match s.phase with
  | .paging lastId => (cfg.findAfter s.remote lastId).length
  | .idle => (versions s.remote).length + 1
  | .polled _ _ => (versions s.remote).length + 2
  | .polling => (versions s.remote).length + 3
  | _ => 0

noncomputable def streamRank (cfg : PullSettings κ τ) (s : PullState κ τ) : ℕ :=
  match s.token with
  | none => s.stepsToPages cfg
  | some t => (s.log.length - t) * (2 * cfg.batchSize + 5) + s.stepsToToken cfg t

lemma stepsToToken_lt (cfg : PullSettings κ τ) (s : PullState κ τ) (t : ℕ) :
    s.stepsToToken cfg t < 2 * cfg.batchSize + 5 := by
  rw [stepsToToken]
  cases s.phase with
  | watching position processed =>
    dsimp only
    split_ifs <;> omega
  | idle | paging _ | pagesRead | opening | polling | polled _ _ => dsimp only; omega

def Resumable (cfg : PullSettings κ τ) (s : PullState κ τ) : Prop :=
  s.init = false → Resting s.phase → ∀ id ∈ s.page, cfg.reread id = id

lemma Streams.exists_awaits (h : s.Streams cfg ids) (hmissing : ¬ s.Complete cfg) :
    ∃ v ∈ versions s.remote, cfg.passes v = true ∧ s.Awaits cfg v := by
  simp only [Complete, not_forall] at hmissing
  obtain ⟨v, hv, hpasses, hnot⟩ := hmissing
  exact ⟨v, hv, hpasses, (h.awaits v hv hpasses).resolve_left hnot⟩

lemma length_findAfter_le (cfg : PullSettings κ τ) (remote : OrderedTable κ Version)
    (lastId : Bson) : (cfg.findAfter remote lastId).length ≤ (versions remote).length := by
  rw [findAfter]
  split_ifs
  · exact length_filter_le _ _
  · exact Nat.le_refl _

variable {lastId : Bson} {t p k : ℕ}

lemma length_findAfter_lt (hreg : cfg.Regular ids) (h : s.Streams cfg ids)
    (hlast : lastId ≠ .null → ids lastId) {a : Version} (ha : a ∈ cfg.findAfter s.remote lastId) :
    (cfg.findAfter s.remote (rawId a.doc)).length < (cfg.findAfter s.remote lastId).length := by
  obtain ⟨hmem, hlt⟩ := (mem_findAfter hreg h hlast).mp ha
  have hids := h.regular a hmem
  have hfilter : cfg.findAfter s.remote (rawId a.doc) = (cfg.findAfter s.remote lastId).filter
      fun v => cfg.key (rawId a.doc) < cfg.key (rawId v.doc) := by
    rw [findAfter_eq hreg h (hreg.ne_null _ hids) hids]
    by_cases hnull : lastId = .null
    · rw [findAfter, if_neg (not_not.mpr hnull)]
    · rw [findAfter_eq hreg h hnull (hlast hnull), filter_filter]
      apply filter_congr
      intro v _
      rw [Bool.eq_iff_iff, Bool.and_eq_true, decide_eq_true_eq, decide_eq_true_eq]
      exact ⟨fun hv => ⟨hv, (hlt hnull).trans hv⟩, And.left⟩
  rw [hfilter, length_filter_lt_length_iff_exists]
  exact ⟨a, ha, by simp⟩

lemma Moves.exists_last (h : s.Moves cfg) (hinit : s.init = false) {before rest : List Version}
    (hversions : versions s.remote = before ++ (cfg.pageAfter s.remote lastId ++ rest))
    (hfull : ¬ (cfg.pageAfter s.remote lastId).length < cfg.batchSize) :
    ∃ a ∈ cfg.pageAfter s.remote lastId,
      lastIdOf ((cfg.pageAfter s.remote lastId).filter cfg.passes) lastId = rawId a.doc := by
  have hmove := h.pages hinit
  by_cases hzero : cfg.batchSize = 0
  · rw [hzero] at hmove
    obtain ⟨d, hd, -⟩ := hmove [] [] _ (nil_append _).symm rfl
    cases hd
  · have hlength : (cfg.pageAfter s.remote lastId).length = cfg.batchSize := by
      rw [pageAfter, limit, if_neg hzero, length_take] at hfull ⊢
      omega
    obtain ⟨d, hd, -⟩ := hmove (before.map Version.doc)
      ((cfg.pageAfter s.remote lastId).map Version.doc) (rest.map Version.doc)
      (by rw [hversions, map_append, map_append, append_assoc])
      (by rw [length_map, hlength])
    rw [filter_map, getLast?_map] at hd
    obtain ⟨a, ha, rfl⟩ := Option.map_eq_some_iff.mp hd
    refine ⟨a, mem_of_mem_filter (mem_of_getLast? ha), ?_⟩
    rw [lastIdOf]
    rw [show (cfg.pageAfter s.remote lastId).filter cfg.passes =
      (cfg.pageAfter s.remote lastId).filter
        (Snapshot.accepted cfg.nsFilter cfg.active ∘ Version.doc) from rfl, ha]
    rfl

lemma streamRank_none (hnone : s.token = none) : s.streamRank cfg = s.stepsToPages cfg := by
  rw [streamRank, hnone]

lemma stepsToPages_paging (hphase : s.phase = .paging lastId) :
    s.stepsToPages cfg = (cfg.findAfter s.remote lastId).length := by
  rw [stepsToPages, hphase]

lemma Streams.complete_of_pagesRead (h : s.Streams cfg ids) (hnone : s.token = none)
    (hphase : s.phase = .pagesRead) : s.Complete cfg := by
  intro v hv hpasses
  refine (h.awaits v hv hpasses).resolve_right fun hawaits => ?_
  exact (hawaits.ahead hnone).2.1 hphase

lemma pageRead_none (cfg : PullSettings κ τ) (lastId : Bson) (s : PullState κ τ) :
    (cfg.pageRead none lastId s).phase = cfg.nextPhase (cfg.pageAfter s.remote lastId)
        (lastIdOf ((cfg.pageAfter s.remote lastId).filter cfg.passes) lastId) ∧
      (cfg.pageRead none lastId s).token = s.token ∧
      (cfg.pageRead none lastId s).remote = s.remote := by
  rw [pageRead, savePage]
  split_ifs <;> exact ⟨rfl, rfl, rfl⟩

lemma mem_of_mem_pageAfter {remote : OrderedTable κ Version}
    (hv : v ∈ cfg.pageAfter remote lastId) : v ∈ versions remote := by
  have hfound : v ∈ cfg.findAfter remote lastId := by
    rw [pageAfter, limit] at hv
    split_ifs at hv
    · exact hv
    · exact mem_of_mem_take hv
  rw [findAfter] at hfound
  split_ifs at hfound
  · exact mem_of_mem_filter hfound
  · exact hfound

lemma Streams.readPage_none (h : s.Streams cfg ids) :
    cfg.readPage none lastId s = cfg.pageRead none lastId s :=
  readPage_eq (handOver_snd fun _ hv => (h.recorded.readable_of_mem (mem_of_mem_pageAfter hv)).2)

lemma Streams.progress_paging (hreg : cfg.Regular ids) (h : s.Streams cfg ids)
    (hphase : s.phase = .paging lastId) (hinit : s.init = false) (hnone : s.token = none)
    (hlast : lastId ≠ .null → ids lastId) (hnext : (cfg.readPage none lastId s).Streams cfg ids) :
    (cfg.readPage none lastId s).Complete cfg ∨
      (cfg.readPage none lastId s).streamRank cfg < s.streamRank cfg := by
  obtain ⟨rest, hsplit⟩ := exists_pageSplit hreg h hlast
  obtain ⟨before, hbefore⟩ := exists_append_findAfter hreg h hlast
  rw [hsplit.found] at hbefore
  rw [h.readPage_none] at hnext ⊢
  obtain ⟨hphase', htoken', hremote'⟩ := pageRead_none cfg lastId s
  rw [nextPhase] at hphase'
  split_ifs at hphase' with hfull
  · exact .inl (hnext.complete_of_pagesRead (htoken'.trans hnone) hphase')
  · right
    obtain ⟨a, ha, heq⟩ := h.moves.exists_last hinit hbefore hfull
    rw [streamRank_none (htoken'.trans hnone), streamRank_none hnone,
      stepsToPages_paging hphase', stepsToPages_paging hphase, hremote', heq]
    apply length_findAfter_lt hreg h hlast
    rw [hsplit.found]
    exact mem_append_left _ ha

lemma streamRank_some (hsome : s.token = some t) : s.streamRank cfg =
      (s.log.length - t) * (2 * cfg.batchSize + 5) + s.stepsToToken cfg t := by
  rw [streamRank, hsome]

lemma stepsToToken_of_fresh (hphase : s.phase = .watching p k)
    (hfresh : s.Fresh cfg t p k) : s.stepsToToken cfg t = cfg.batchSize - k := by
  rw [stepsToToken, hphase]
  exact if_pos hfresh

lemma stepsToToken_of_not_fresh (hphase : s.phase = .watching p k)
    (hfresh : ¬ s.Fresh cfg t p k) :
    s.stepsToToken cfg t = cfg.batchSize + 3 + (cfg.batchSize - k) := by
  rw [stepsToToken, hphase]
  exact if_neg hfresh

lemma streamRank_lt_of_token {s' : PullState κ τ} {t' : ℕ} (hlog : s'.log = s.log)
    (hsome : s.token = some t) (hsome' : s'.token = some t') (hlt : t < t')
    (hle : t' ≤ s.log.length) : s'.streamRank cfg < s.streamRank cfg := by
  rw [streamRank_some hsome, streamRank_some hsome', hlog]
  have hsteps := stepsToToken_lt cfg s' t'
  have hleft : s.log.length - t' + 1 ≤ s.log.length - t := by omega
  calc (s.log.length - t') * (2 * cfg.batchSize + 5) + s'.stepsToToken cfg t'
      < (s.log.length - t' + 1) * (2 * cfg.batchSize + 5) := by
        rw [Nat.add_mul, Nat.one_mul]
        exact Nat.add_lt_add_left hsteps _
    _ ≤ (s.log.length - t) * (2 * cfg.batchSize + 5) := Nat.mul_le_mul_right _ hleft
    _ ≤ _ := Nat.le_add_right _ _

lemma streamRank_lt_of_steps (hsome : s.token = some t) (s' : PullState κ τ)
    (hlog : s'.log = s.log) (htoken : s'.token = s.token)
    (hlt : s'.stepsToToken cfg t < s.stepsToToken cfg t) :
    s'.streamRank cfg < s.streamRank cfg := by
  rw [streamRank_some hsome, streamRank_some (htoken.trans hsome), hlog]
  exact Nat.add_lt_add_left hlt _

lemma fresh_succ_iff {change : RemoteChange} (hchange : s.log[p]? = some change)
    (hrejects : cfg.Rejects s.remote change) :
    s.Fresh cfg t (p + 1) (k + 1) ↔ s.Fresh cfg t p k := by
  constructor
  · rintro ⟨hp, hall⟩
    exact ⟨by omega, fun i c hi hlt => hall i c hi (Nat.lt_succ_of_lt hlt)⟩
  · rintro ⟨hp, hall⟩
    refine ⟨by omega, fun i c hi hlt hc => ?_⟩
    rcases Nat.lt_or_eq_of_le (Nat.le_of_lt_succ hlt) with hlt | rfl
    · exact hall i c hi hlt hc
    · rw [hchange] at hc
      obtain rfl := Option.some.inj hc
      exact hrejects

lemma Streams.not_fresh (h : s.Streams cfg ids) (hsome : s.token = some t)
    (hp : p ≤ s.log.length) (hk : cfg.batchSize ≤ k) : ¬ s.Fresh cfg t p k := by
  rintro ⟨hposition, hall⟩
  have hreading : s.reading = t := by rw [reading, hsome, Option.getD_some]
  obtain ⟨j, change, hj, hlt, hchange, hnot⟩ := h.moves.log t (le_of_eq hreading) (by omega)
  exact hnot (hall j change hj (by omega) hchange)

lemma Streams.progress_watching (h : s.Streams cfg ids)
    (hphase : s.phase = .watching p k) (hsome : s.token = some t) (hlt : p < s.log.length) :
    (cfg.watch none p k s).streamRank cfg < s.streamRank cfg := by
  obtain ⟨htoken, hprocessed⟩ := (h.watching hphase).2.2 t hsome
  rw [PullSettings.watch]
  split_ifs with hk
  · obtain ⟨change, hchange⟩ : ∃ change, s.log[p]? = some change := ⟨_, getElem?_eq_getElem hlt⟩
    rw [hchange]
    dsimp only
    rw [PullSettings.readChange, Option.bind_none]
    rcases taken_takeChange (h.recorded.readable change (mem_of_getElem? hchange)) none with
      ⟨heq, hrejects⟩ | ⟨calls, heq, -⟩ | ⟨hne, -⟩
    · rw [heq]
      refine streamRank_lt_of_steps hsome _ rfl rfl ?_
      have hiff := fresh_succ_iff (t := t) (k := k) hchange hrejects
      by_cases hfresh : s.Fresh cfg t p k
      · rw [stepsToToken_of_fresh hphase hfresh]
        refine lt_of_eq_of_lt (stepsToToken_of_fresh rfl (hiff.mpr hfresh)) ?_
        omega
      · rw [stepsToToken_of_not_fresh hphase hfresh]
        refine lt_of_eq_of_lt (stepsToToken_of_not_fresh rfl (mt hiff.mp hfresh)) ?_
        omega
    · rw [heq]
      exact streamRank_lt_of_token rfl hsome rfl (Nat.lt_succ_of_le htoken) hlt
    · exact absurd rfl hne
  · have hbatch := Nat.le_of_not_lt hk
    have hzero : ¬ (k = 0 ∧ cfg.givesToken = true) := by
      rintro ⟨rfl, -⟩
      refine h.not_fresh hsome (Nat.le_of_lt hlt) hbatch ⟨by omega, fun i _ hi hip => ?_⟩
      omega
    rw [PullSettings.closeStream, if_neg hzero]
    refine streamRank_lt_of_steps hsome _ rfl rfl ?_
    rw [stepsToToken_of_not_fresh hphase (h.not_fresh hsome (Nat.le_of_lt hlt) hbatch)]
    rw [stepsToToken]
    dsimp only
    omega

lemma init_watch_none (cfg : PullSettings κ τ) (position processed : ℕ) (s : PullState κ τ) :
    (cfg.watch none position processed s).init = s.init := by
  rw [watch]
  split_ifs
  · cases s.log[position]? with
    | none =>
      rw [closeStream]
      split_ifs <;> rfl
    | some change =>
      dsimp only
      rw [readChange]
      rcases cfg.takeChange (none.bind PullFault.inLocalWrite) s.remote change with
        e | _ | calls <;> rfl
  · rw [closeStream]
    split_ifs <;> rfl

variable [LinearOrder τ]

section

variable (hmode : cfg.useChangeStream = true) (h : s.Streams cfg ids) (hmissing : ¬ s.Complete cfg)
include hmode h hmissing

lemma Streams.progress_none (hreg : cfg.Regular ids) (hresumable : s.Resumable cfg)
    (hnone : s.token = none) :
    (cfg.turn none s).Complete cfg ∨ (cfg.turn none s).streamRank cfg < s.streamRank cfg := by
  obtain ⟨v, hv, hpasses, hawaits⟩ := h.exists_awaits hmissing
  obtain ⟨hinit, hread, -⟩ := hawaits.ahead hnone
  have hturn : (cfg.turn none s).Streams cfg ids := by
    refine h.turn hmode hreg (fun hidle hfalse => hresumable hfalse ?_) none
    rw [hidle]
    trivial
  rw [show cfg.turn none s = cfg.answered none s from rfl, answered] at hturn ⊢
  rw [streamRank_none hnone, stepsToPages]
  have hphase := h.phase
  generalize hp : s.phase = phase at hphase hread hturn ⊢
  cases hphase with
  | idle =>
    right
    rw [PullSettings.beginPull, if_pos hmode, hinit, if_neg Bool.false_ne_true]
    refine lt_of_eq_of_lt (streamRank_none hnone) ?_
    exact Nat.lt_succ_of_le (length_findAfter_le _ _ _)
  | polling =>
    right
    refine lt_of_eq_of_lt (streamRank_none hnone) ?_
    rw [stepsToPages, poll]
    split_ifs <;> dsimp only <;> omega
  | polled found lastTs =>
    right
    dsimp only
    obtain ⟨calls, ts, heq⟩ := handFound_eq cfg none found lastTs s
    rw [heq]
    refine lt_of_eq_of_lt (streamRank_none hnone) ?_
    exact Nat.lt_succ_self _
  | paging lastId _ hlast _ =>
    have hprogress := h.progress_paging hreg hp hinit hnone hlast hturn
    rw [streamRank_none hnone, stepsToPages, hp] at hprogress
    exact hprogress
  | pagesRead _ => exact absurd rfl hread
  | opening htrue | watching _ _ htrue _ _ => exact absurd htrue (by simp [hinit])

lemma Streams.progress_some (hsome : s.token = some t) :
    (cfg.turn none s).streamRank cfg < s.streamRank cfg := by
  obtain ⟨v, hv, hpasses, hawaits⟩ := h.exists_awaits hmissing
  have hinit := (h.token t hsome).1
  rw [show cfg.turn none s = cfg.answered none s from rfl, answered]
  have hphase := h.phase
  generalize hp : s.phase = phase at hphase ⊢
  cases hphase with
  | idle =>
    rw [PullSettings.beginPull, if_pos hmode, hinit, if_pos rfl]
    refine streamRank_lt_of_steps hsome _ rfl rfl ?_
    rw [stepsToToken, stepsToToken, hp]
    exact Nat.lt_succ_self _
  | polling =>
    refine streamRank_lt_of_steps hsome _ rfl rfl ?_
    rw [stepsToToken, stepsToToken, hp, poll]
    split_ifs <;> dsimp only <;> omega
  | polled found lastTs =>
    dsimp only
    obtain ⟨calls, ts, heq⟩ := handFound_eq cfg none found lastTs s
    rw [heq]
    refine streamRank_lt_of_steps hsome _ rfl rfl ?_
    rw [stepsToToken, stepsToToken, hp]
    exact Nat.lt_succ_self _
  | paging _ hfalse _ _ | pagesRead hfalse => exact absurd hfalse (by simp [hinit])
  | opening _ =>
    rw [PullSettings.openStream, hsome, Option.getD_some]
    refine streamRank_lt_of_steps hsome _ rfl hsome.symm ?_
    have hfresh : s.Fresh cfg t t 0 := ⟨rfl, fun i _ hi hlt => absurd hlt (Nat.not_lt.mpr hi)⟩
    refine lt_of_eq_of_lt (stepsToToken_of_fresh rfl hfresh) ?_
    rw [stepsToToken, hp]
    exact Nat.lt_succ_self _
  | watching p k _ _ _ =>
    apply h.progress_watching hp hsome
    have hunread := hawaits.unread p k (by rw [hsome]; exact Option.some_ne_none t) hp
    exact lt_of_le_of_lt hunread (h.recorded.number_lt hv)

lemma Streams.progress (hreg : cfg.Regular ids) (hresumable : s.Resumable cfg) :
    (cfg.turn none s).Complete cfg ∨ (cfg.turn none s).streamRank cfg < s.streamRank cfg := by
  cases htoken : s.token with
  | none => exact h.progress_none hmode hmissing hreg hresumable htoken
  | some t => exact .inr (h.progress_some hmode hmissing htoken)

end

lemma Streams.resumable_turn (h : s.Streams cfg ids) (hresumable : s.Resumable cfg) :
    (cfg.turn none s).Resumable cfg := by
  rw [show cfg.turn none s = cfg.answered none s from rfl, answered]
  have hphase := h.phase
  generalize hp : s.phase = phase at hphase ⊢
  have hrest : Resting phase → s.init = false → ∀ id ∈ s.page, cfg.reread id = id :=
    fun hresting hfalse => hresumable hfalse (hp ▸ hresting)
  cases hphase with
  | idle | polling => exact fun hfalse _ => hrest trivial hfalse
  | polled found lastTs =>
    dsimp only
    obtain ⟨calls, ts, heq⟩ := handFound_eq cfg none found lastTs s
    rw [heq]
    exact fun hfalse _ => hrest trivial hfalse
  | paging lastId hfalse hlast hpage =>
    dsimp only
    rw [h.readPage_none]
    intro _ hresting
    rw [(pageRead_none cfg _ _).1, nextPhase] at hresting
    split_ifs at hresting <;> exact hresting.elim
  | pagesRead _ => exact fun h => by cases h
  | opening htrue => exact fun hfalse _ => absurd (htrue.symm.trans hfalse) (by simp)
  | watching p k htrue _ _ =>
    intro hfalse
    rw [init_watch_none, htrue] at hfalse
    cases hfalse

/-- While the pull polls, a written document gets a time that no checkpoint has reached.  While it
streams, a document is written before the snapshot comes to its id or after the first token, and no
batch is rejected as a whole. -/
def Guarded (cfg : PullSettings κ τ) (ids : Bson → Prop) (s : PullState κ τ) : PullEvent → Prop
  | .write doc described =>
    cfg.Readable doc ∧ (cfg.useChangeStream = false → cfg.passes ⟨doc, s.log.length⟩ = true →
        ∃ t, cfg.lastModified doc = some t ∧ s.ceiling cfg < t) ∧
      (cfg.useChangeStream = true → ids (rawId doc) ∧
        (cfg.passes ⟨doc, s.log.length⟩ = true → s.StillReads cfg (rawId doc)) ∧
        (cfg.write doc described s).Moves cfg)
  | .delete id => cfg.useChangeStream = true → (cfg.delete id s).Moves cfg
  | .turn fault => cfg.useChangeStream = true → (cfg.turn fault s).Resumable cfg

lemma Polls.step (hmode : cfg.useChangeStream = false) (h : s.Polls cfg) {event : PullEvent}
    (hguard : s.Guarded cfg ids event) : (cfg.step s event).Polls cfg := by
  cases event with
  | write doc described => exact h.write hguard.1 described (hguard.2.1 hmode)
  | delete id => exact h.delete id
  | turn fault => exact h.turn hmode fault

lemma Streams.step (hmode : cfg.useChangeStream = true) (hreg : cfg.Regular ids)
    (h : s.Streams cfg ids ∧ s.Resumable cfg) {event : PullEvent}
    (hguard : s.Guarded cfg ids event) :
    (cfg.step s event).Streams cfg ids ∧ (cfg.step s event).Resumable cfg := by
  cases event with
  | write doc described =>
    obtain ⟨hids, hreads, hmoves⟩ := hguard.2.2 hmode
    exact ⟨h.1.write hguard.1 hids described hreads hmoves, h.2⟩
  | delete id =>
    refine ⟨h.1.delete id (hguard hmode), ?_⟩
    change (cfg.delete id s).Resumable cfg
    rcases delete_cases cfg id s with heq | heq
    · rw [heq]; exact h.2
    · rw [heq]; exact h.2
  | turn fault =>
    refine ⟨h.1.turn hmode hreg (fun hidle hfalse => h.2 hfalse ?_) fault, hguard hmode⟩
    rw [hidle]
    trivial

end PullState

open PullState

variable [LinearOrder τ]

/-- After a guarded run, without faults and writes, every last version is handed over. -/
theorem pull_catches_up (cfg : PullSettings κ τ) (ids : Bson → Prop) (hreg : cfg.Regular ids)
    (hbatch : cfg.useChangeStream = true → 0 < cfg.batchSize) (events : List PullEvent)
    (hrun : Along cfg.step (Guarded cfg ids) {} events) :
    ∃ n, ∀ m, n ≤ m → ((cfg.turn none)^[m] (events.foldl cfg.step {})).Complete cfg := by
  have hstays : ∀ s : PullState κ τ, s.Complete cfg → (cfg.turn none s).Complete cfg :=
    fun s hs => hs.onward (PullSettings.onward_turn none s)
  cases hmode : cfg.useChangeStream with
  | false =>
    have hpolls : Polls cfg (events.foldl cfg.step {}) :=
      Along.invariant (fun s event h hguard => h.step hmode hguard) (polls_new cfg) hrun
    exact eventually_of_rank (I := Polls cfg) (pollRank cfg) (fun s h => h.turn hmode none)
      (fun s h hmissing => h.progress hmode hmissing) hpolls hstays
  | true =>
    have hstreams : Streams cfg ids (events.foldl cfg.step {}) ∧
        Resumable cfg (events.foldl cfg.step {}) :=
      Along.invariant (I := fun s => Streams cfg ids s ∧ Resumable cfg s)
        (fun s event h hguard => Streams.step hmode hreg h hguard)
        ⟨streams_new ids (hbatch hmode), fun _ _ id hid => absurd hid (Option.not_mem_none id)⟩ hrun
    refine eventually_of_rank (I := fun s => Streams cfg ids s ∧ Resumable cfg s)
      (streamRank cfg) (fun s h => ⟨?_, h.1.resumable_turn h.2⟩)
      (fun s h hmissing => h.1.progress hmode hmissing hreg h.2) hstreams hstays
    refine h.1.turn hmode hreg (fun hidle hfalse => h.2 hfalse ?_) none
    rw [hidle]
    trivial

instance (s : PullState κ τ) (v : Version) : Decidable (s.Handed v) :=
  inferInstanceAs (Decidable (∃ call ∈ s.handed, call.version = v))

instance (cfg : PullSettings κ τ) (s : PullState κ τ) : Decidable (s.Complete cfg) :=
  inferInstanceAs (Decidable (∀ v ∈ PullSettings.versions s.remote, cfg.passes v = true →
    s.Handed v))

namespace Sample

def numberOf : Bson → Option ℕ
  | .int32 n => some n.toInt.toNat
  | _ => none

def isInt32 (id : Bson) : Prop := ∃ n, id = .int32 n

def pullSettings (useChangeStream : Bool) : PullSettings ℕ ℕ where
  useChangeStream := useChangeStream
  key := idPlace
  gt a b := idPlace a < idPlace b
  reread := id
  number := numberOf
  zero := 0

lemma regular_pullSettings (b : Bool) : (pullSettings b).Regular isInt32 := by
  constructor
  · rintro a ⟨n, rfl⟩ hnull
    cases hnull
  · exact fun a b _ _ => decide_eq_true_iff

def remoteDoc (id time : Int32) : Document := [("_id", .int32 id), ("_lastModified", .int32 time)]

def pullRun (first last : ℕ) (events : List PullEvent) : List PullEvent :=
  .write (remoteDoc 1 1) none :: replicate first (.turn none) ++ events ++
    replicate last (.turn none)

lemma guarded_turn (b : Bool) (s : PullState ℕ ℕ) (fault : Option PullFault) :
    s.Guarded (pullSettings b) isInt32 (.turn fault) :=
  fun _ _ _ _ _ => rfl

def missedByPolling : PullState ℕ ℕ :=
  (pullRun 3 0 [.write (remoteDoc 2 1) none]).foldl (pullSettings false).step {}

def missedByStream : PullState ℕ ℕ :=
  (pullRun 2 3 [.write (remoteDoc 1 2) none]).foldl (pullSettings true).step {}

end Sample

section

open Sample

theorem pull_catches_up_twice : (∃ n, ∀ m, n ≤ m → (((pullSettings false).turn none)^[m]
        ((pullRun 3 0 [.write (remoteDoc 2 2) none]).foldl (pullSettings false).step {})).Complete
          (pullSettings false)) ∧
      ∃ n, ∀ m, n ≤ m → (((pullSettings true).turn none)^[m]
        ((pullRun 5 0 [.write (remoteDoc 1 2) none]).foldl (pullSettings true).step {})).Complete
          (pullSettings true) := by
  constructor
  · refine pull_catches_up _ isInt32 (regular_pullSettings false) nofun _ ?_
    refine ⟨⟨⟨by decide, true, rfl⟩, fun _ _ => ⟨1, rfl, by decide⟩, nofun⟩,
      guarded_turn _ _ _, guarded_turn _ _ _, guarded_turn _ _ _, ?_, trivial⟩
    exact ⟨⟨by decide, true, rfl⟩, fun _ _ => ⟨2, rfl, by decide⟩, nofun⟩
  · refine pull_catches_up _ isInt32 (regular_pullSettings true) (fun _ => by decide) _ ?_
    refine ⟨⟨⟨by decide, true, rfl⟩, nofun, fun _ => ⟨⟨1, rfl⟩, ?_, ?_⟩⟩,
      guarded_turn _ _ _, guarded_turn _ _ _, guarded_turn _ _ _, guarded_turn _ _ _,
      guarded_turn _ _ _, ⟨⟨by decide, true, rfl⟩, nofun, fun _ => ⟨⟨1, rfl⟩, ?_,
        ?_⟩⟩,
      trivial⟩
    · exact fun _ => .inr ⟨rfl, nofun, fun id hid => absurd hid
        (Option.not_mem_none id)⟩
    · exact moves_of_short (by decide) (by decide)
    · exact fun _ => .inl (by decide)
    · exact moves_of_short (by decide) (by decide)

/-- A second document gets the time of a pulled one; a document changes after its page was read. -/
theorem pull_misses_writes : (¬ ∃ m, (((pullSettings false).turn none)^[m] missedByPolling).Complete
        (pullSettings false)) ∧
      ¬ ∃ m, (((pullSettings true).turn none)^[m] missedByStream).Complete (pullSettings true) := by
  -- without a write the pull goes round in a circle
  have hpoll : Function.IsPeriodicPt ((pullSettings false).turn none) 2 missedByPolling := rfl
  have hstream : Function.IsPeriodicPt ((pullSettings true).turn none) 3 missedByStream := rfl
  constructor
  · rintro ⟨m, hm⟩
    have hlt := Nat.mod_lt m Nat.zero_lt_two
    rw [← hpoll.iterate_mod_apply] at hm
    revert hm
    interval_cases m % 2 <;> decide +kernel
  · rintro ⟨m, hm⟩
    have hlt := Nat.mod_lt m (Nat.zero_lt_succ 2)
    rw [← hstream.iterate_mod_apply] at hm
    revert hm
    interval_cases m % 3 <;> decide +kernel

end

end Smongo

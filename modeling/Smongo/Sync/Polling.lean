import Smongo.Lib.Effect
import Smongo.Sync.Pull

/-!
# Polling for modified documents

A poll asks for the documents modified after the checkpoint, and moves it.
-/

namespace Smongo

open List

lemma PullSettings.le_newest {κ τ : Type} [LinearOrder τ] (cfg : PullSettings κ τ) (lastTs : τ)
    (handed : List Version) : lastTs ≤ cfg.newest lastTs handed := by
  induction handed generalizing lastTs with
  | nil => exact le_refl _
  | cons v handed ih =>
    rw [newest, foldl_cons]
    refine le_trans ?_ (ih _)
    split_ifs with hlt
    · exact le_of_lt hlt
    · exact le_refl _

variable {κ τ : Type} [LinearOrder κ]

namespace PullState

variable {cfg : PullSettings κ τ} {s : PullState κ τ}

def Reads (cfg : PullSettings κ τ) (s : PullState κ τ) (found : List Version) : Prop :=
  ∀ v ∈ PullSettings.versions s.remote, cfg.passes v = true → s.Handed v ∨ v ∈ found

open Classical in
noncomputable def pollRank (cfg : PullSettings κ τ) (s : PullState κ τ) : ℕ :=
  match s.phase with
  | .polled found _ => if s.Reads cfg found then 0 else 3
  | .polling => 1
  | _ => 2

lemma beginPull_of_polling (hmode : cfg.useChangeStream = false) (s : PullState κ τ) :
    cfg.beginPull s = { s with phase := .polling } := by
  rw [PullSettings.beginPull, hmode]
  rfl

lemma pollRank_idle (hp : s.phase = .idle) : s.pollRank cfg = 2 := by rw [pollRank, hp]

lemma pollRank_polling (hp : s.phase = .polling) : s.pollRank cfg = 1 := by rw [pollRank, hp]

section

variable {found : List Version} {lastTs : τ} (hp : s.phase = .polled found lastTs)
include hp

lemma pollRank_of_reads (hreads : s.Reads cfg found) : s.pollRank cfg = 0 := by
  rw [pollRank, hp]
  exact if_pos hreads

lemma pollRank_of_not_reads (hreads : ¬ s.Reads cfg found) :
    s.pollRank cfg = 3 := by
  rw [pollRank, hp]
  exact if_neg hreads

end

end PullState

variable [LinearOrder τ]

namespace PullState

def ceiling (cfg : PullSettings κ τ) (s : PullState κ τ) : τ :=
  match s.phase with
  | .polled found lastTs => cfg.newest lastTs (found.filter cfg.passes)
  | _ => s.pullTs.getD cfg.zero

def AwaitsPoll (cfg : PullSettings κ τ) (s : PullState κ τ) (v : Version) : Prop :=
  ∃ t, cfg.lastModified v.doc = some t ∧ s.pullTs.getD cfg.zero < t ∧
    ∀ found lastTs, s.phase = .polled found lastTs → v ∈ found ∨ s.ceiling cfg < t

inductive PollPhase (cfg : PullSettings κ τ) (lastTs : τ) : PullPhase τ → Prop
  | idle : PollPhase cfg lastTs .idle
  | polling : PollPhase cfg lastTs .polling
  | polled (found : List Version) (hfound : ∀ v ∈ found, ∃ b, cfg.accepts v.doc = .ok b) :
      PollPhase cfg lastTs (.polled found lastTs)

structure Polls (cfg : PullSettings κ τ) (s : PullState κ τ) : Prop where
  recorded : cfg.Recorded s
  phase : PollPhase cfg (s.pullTs.getD cfg.zero) s.phase
  awaits : ∀ v ∈ PullSettings.versions s.remote, cfg.passes v = true →
    s.Handed v ∨ s.AwaitsPoll cfg v

variable {cfg : PullSettings κ τ} {s : PullState κ τ} {v : Version}

lemma Polls.le_ceiling (h : s.Polls cfg) : s.pullTs.getD cfg.zero ≤ s.ceiling cfg := by
  rw [ceiling]
  have hphase := h.phase
  generalize s.phase = phase at hphase
  cases hphase with
  | idle | polling => exact le_refl _
  | polled found hfound => exact cfg.le_newest _ _

lemma AwaitsPoll.phase {s' : PullState κ τ} (h : s.AwaitsPoll cfg v)
    (hts : s'.pullTs = s.pullTs) (hphase : ∀ found lastTs, s'.phase ≠ .polled found lastTs) :
    s'.AwaitsPoll cfg v := by
  obtain ⟨t, ht, hlt, -⟩ := h
  refine ⟨t, ht, ?_, fun found lastTs hpolled => absurd hpolled (hphase found lastTs)⟩
  rw [hts]
  exact hlt

end PullState

namespace PullSettings

open PullState

variable {cfg : PullSettings κ τ} {s : PullState κ τ} {v : Version}

lemma mem_findNewer {remote : OrderedTable κ Version} {lastTs : τ} :
    v ∈ cfg.findNewer remote lastTs ↔
      v ∈ versions remote ∧ ∃ t, cfg.lastModified v.doc = some t ∧ lastTs < t := by
  rw [findNewer, mem_insertionSort, mem_filter, Option.any_eq_true]
  simp only [decide_eq_true_eq]

end PullSettings

namespace PullState

open PullSettings

variable {cfg : PullSettings κ τ} {s : PullState κ τ} {v : Version}

lemma polls_new (cfg : PullSettings κ τ) : Polls cfg {} :=
  ⟨recorded_new cfg, .idle, fun v hv => absurd hv (not_mem_versions_empty v)⟩

lemma Polls.abort (h : s.Polls cfg) {s' : PullState κ τ} (honward : Onward s s')
    (hts : s'.pullTs = s.pullTs) (hphase : Aborted s'.phase) : s'.Polls cfg := by
  have hnot : ∀ found lastTs, s'.phase ≠ .polled found lastTs := by
    intro found lastTs heq
    rw [heq] at hphase
    exact hphase
  refine ⟨h.recorded.onward honward, ?_, fun v hv hpasses => ?_⟩
  · generalize s'.phase = phase at hphase
    cases phase with
    | idle => exact .idle
    | polling => exact .polling
    | paging _ | pagesRead | opening | watching _ _ | polled _ _ => exact hphase.elim
  · rw [honward.remote] at hv
    exact (h.awaits v hv hpasses).imp (·.onward honward) (·.phase hts hnot)

lemma Polls.poll (h : s.Polls cfg) : (cfg.poll s).Polls cfg := by
  refine ⟨h.recorded.onward ((Onward.refl s).phase _), ?_, fun v hv hpasses => ?_⟩
  · change PollPhase cfg _ (if _ then _ else _)
    split_ifs with hnil
    · exact .idle
    · refine .polled _ fun v hv => ?_
      exact (h.recorded.readable_of_mem (mem_findNewer.mp hv).1).2
  · refine (h.awaits v hv hpasses).imp id fun hawaits => ?_
    obtain ⟨t, ht, hlt, -⟩ := hawaits
    refine ⟨t, ht, hlt, fun found lastTs hpolled => .inl ?_⟩
    change (if cfg.findNewer s.remote (s.pullTs.getD cfg.zero) = [] then PullPhase.idle
      else .polled (cfg.findNewer s.remote (s.pullTs.getD cfg.zero)) (s.pullTs.getD cfg.zero)) =
        .polled found lastTs at hpolled
    split_ifs at hpolled
    obtain ⟨rfl, rfl⟩ := PullPhase.polled.inj hpolled
    exact mem_findNewer.mpr ⟨hv, t, ht, hlt⟩

lemma Polls.handFound (h : s.Polls cfg) (fault : Option PullFault) {found : List Version}
    {lastTs : τ} (hphase : s.phase = .polled found lastTs) :
    (cfg.handFound fault found lastTs s).Polls cfg := by
  rcases handFound_cases cfg fault found lastTs s with heq | ⟨calls, heq⟩
  · rw [heq]
    refine ⟨h.recorded.onward ⟨rfl, rfl, subset_append_left _ _⟩, .idle, fun v hv hpasses => ?_⟩
    rcases h.awaits v hv hpasses with hhanded | ⟨t, ht, -, hfound⟩
    · exact .inl (hhanded.onward ⟨rfl, rfl, subset_append_left _ _⟩)
    · rcases hfound found lastTs hphase with hmem | hlt
      · exact .inl (handed_append hmem hpasses rfl)
      · rw [ceiling, hphase] at hlt
        exact .inr ⟨t, ht, hlt, nofun⟩
  · rw [heq]
    exact h.abort ⟨rfl, rfl, subset_append_left _ _⟩ rfl trivial

lemma Polls.turn (hmode : cfg.useChangeStream = false) (h : s.Polls cfg)
    (fault : Option PullFault) : (cfg.turn fault s).Polls cfg := by
  rcases turn_cases cfg fault s with heq | heq | ⟨phase, hphase, heq⟩
  · rw [heq, answered]
    have hphase := h.phase
    generalize hp : s.phase = phase at hphase
    cases hphase with
    | idle =>
      rw [beginPull_of_polling hmode]
      exact h.abort ((Onward.refl s).phase _) rfl trivial
    | polling => exact h.poll
    | polled found hfound => exact h.handFound fault hp
  · rw [heq]; exact h
  · rw [heq]; exact h.abort ((Onward.refl s).phase phase) rfl hphase

lemma Polls.write (h : s.Polls cfg) {doc : Document} (hdoc : cfg.Readable doc)
    (described : Option (List String × List String))
    (hnewer : cfg.passes ⟨doc, s.log.length⟩ = true →
      ∃ t, cfg.lastModified doc = some t ∧ s.ceiling cfg < t) :
    (cfg.write doc described s).Polls cfg := by
  refine ⟨h.recorded.write hdoc described, h.phase, fun v hv hpasses => ?_⟩
  rcases mem_versions_write hv with rfl | hv
  · obtain ⟨t, ht, hlt⟩ := hnewer hpasses
    exact .inr ⟨t, ht, lt_of_le_of_lt h.le_ceiling hlt, fun _ _ _ => .inr hlt⟩
  · exact h.awaits v hv hpasses

lemma Polls.delete (h : s.Polls cfg) (id : Bson) : (cfg.delete id s).Polls cfg := by
  have hrecorded := h.recorded.delete id
  rcases delete_cases cfg id s with heq | heq
  · rw [heq]; exact h
  · rw [heq] at hrecorded ⊢
    exact ⟨hrecorded, h.phase, fun v hv hpasses => h.awaits v (mem_versions_erase hv) hpasses⟩

lemma Polls.progress (hmode : cfg.useChangeStream = false) (h : s.Polls cfg)
    (hmissing : ¬ s.Complete cfg) :
    (cfg.turn none s).Complete cfg ∨ (cfg.turn none s).pollRank cfg < s.pollRank cfg := by
  have hturn : cfg.turn none s = cfg.answered none s := rfl
  rw [hturn, answered]
  have hphase := h.phase
  generalize hp : s.phase = phase at hphase
  cases hphase with
  | idle =>
    right
    rw [beginPull_of_polling hmode, pollRank_idle hp, pollRank_polling rfl]
    decide
  | polling =>
    right
    have hreads : s.Reads cfg (cfg.findNewer s.remote (s.pullTs.getD cfg.zero)) := by
      intro v hv hpasses
      refine (h.awaits v hv hpasses).imp id fun hawaits => ?_
      obtain ⟨t, ht, hlt, -⟩ := hawaits
      exact mem_findNewer.mpr ⟨hv, t, ht, hlt⟩
    have hfound : cfg.findNewer s.remote (s.pullTs.getD cfg.zero) ≠ [] := by
      intro hnil
      rw [hnil] at hreads
      exact hmissing fun v hv hpasses => (hreads v hv hpasses).resolve_right not_mem_nil
    rw [PullSettings.poll, pollRank_polling hp]
    simp only [if_neg hfound]
    exact lt_of_eq_of_lt (pollRank_of_reads rfl hreads) Nat.zero_lt_one
  | polled found hfound =>
    dsimp only
    rw [handFound_none _ s hfound]
    by_cases hreads : s.Reads cfg found
    · left
      intro v hv hpasses
      rcases hreads v hv hpasses with hhanded | hmem
      · exact hhanded.onward ⟨rfl, rfl, subset_append_left _ _⟩
      · exact handed_append hmem hpasses rfl
    · right
      rw [pollRank_of_not_reads hp hreads, pollRank_idle rfl]
      decide

end PullState

end Smongo

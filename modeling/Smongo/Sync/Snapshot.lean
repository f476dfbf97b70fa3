import Smongo.Lib.Paging
import Smongo.Sync.Push
import Mathlib.Order.Nat

/-!
# The initial snapshot

Before it opens a change stream, a pull reads the remote collection once, page by page in
the order of the ids.
-/

namespace Smongo

open List

variable {ι : Type} [LinearOrder ι]

/-- How the server orders the ids: only the least of all keys comes before `null`. -/
structure IdOrder (ι : Type) [LinearOrder ι] where
  key : Bson → ι
  below_null : ∀ v, key v < key .null → v = .minKey

def rawId (doc : Document) : Bson := (doc.get "_id").getD .null

structure RemoteCollection (ord : IdOrder ι) where
  documents : List Document
  sorted : documents.Pairwise fun d e => ord.key (rawId d) < ord.key (rawId e)

variable {ord : IdOrder ι}

def RemoteCollection.findAfter (remote : RemoteCollection ord) (lastId : Bson) : List Document :=
  if lastId ≠ .null then remote.documents.filter fun d => ord.key lastId < ord.key (rawId d)
  else remote.documents

def accepts (nsFilter active : Option SyncFilter) (doc : Document) : Except PyError Bool :=
  match passesFilter nsFilter doc with
  | .ok true => passesFilter active doc
  | r => r

/-- The variables of the loop, and what it has handed to `_upsert_remote_doc`. -/
structure Snapshot where
  lastId : Bson := .null
  handed : List Document := []
  page : Option Bson := none

namespace Snapshot

variable (nsFilter active : Option SyncFilter)

def readPage : List Document → Snapshot → Except PyError Snapshot
  | [], s => .ok s
  | rdoc :: page, s =>
    match accepts nsFilter active rdoc with
    | .error e => .error e
    | .ok false => readPage page s
    | .ok true => readPage page { s with lastId := rawId rdoc, handed := s.handed ++ [rdoc] }

def savePage (page : List Document) (s : Snapshot) : Snapshot :=
  if page ≠ [] ∧ s.lastId ≠ .null then { s with page := some s.lastId } else s

def loop (remote : RemoteCollection ord) (pageSize : ℕ) :
    ℕ → Snapshot → Option (Except PyError (List Document))
  | 0, _ => none
  | fuel + 1, s =>
    let page := (remote.findAfter s.lastId).take pageSize
    match readPage nsFilter active page s with
    | .error e => some (.error e)
    | .ok s =>
      let s := savePage page s
      if page.length < pageSize then some (.ok s.handed) else loop remote pageSize fuel s

def reader (ord : IdOrder ι) (pageSize : ℕ) : Paging.Reader Document ι PyError where
  key := fun d => ord.key (rawId d)
  marked := fun d => rawId d ≠ .null
  accept := accepts nsFilter active
  size := pageSize

def state (ord : IdOrder ι) (s : Snapshot) : Paging.State Document ι where
  cursor := if s.lastId ≠ .null then some (ord.key s.lastId) else none
  handed := s.handed

variable {nsFilter active} {pageSize : ℕ} (remote : RemoteCollection ord)

lemma behind_state (s : Snapshot) :
    (reader nsFilter active ord pageSize).behind (s.state ord).cursor remote.documents =
      remote.findAfter s.lastId := by
  rw [Paging.Reader.behind, state, RemoteCollection.findAfter]
  by_cases h : s.lastId = .null
  · simp [h]
  · simp [h, reader]

variable (page : List Document)

lemma work_state (s : Snapshot) : (reader nsFilter active ord pageSize).work page (s.state ord) =
      (readPage nsFilter active page s).map (state ord) := by
  induction page generalizing s with
  | nil => rfl
  | cons rdoc page ih =>
    rw [readPage, Paging.Reader.work]
    rw [show (reader nsFilter active ord pageSize).accept = accepts nsFilter active from rfl]
    cases accepts nsFilter active rdoc with
    | error e => rfl
    | ok b =>
      cases b with
      | false => exact ih s
      | true =>
        rw [← ih]
        refine congrArg _ (congrArg (Paging.State.mk · _) ?_)
        simp [Paging.Reader.mark, reader]

lemma state_savePage (s : Snapshot) : (savePage page s).state ord = s.state ord := by
  rw [savePage]
  split_ifs <;> rfl

lemma handed_savePage (s : Snapshot) : (savePage page s).handed = s.handed := by
  rw [savePage]
  split_ifs <;> rfl

lemma loop_eq_run (fuel : ℕ) (s : Snapshot) : loop nsFilter active remote pageSize fuel s =
      (reader nsFilter active ord pageSize).run remote.documents fuel (s.state ord) := by
  induction fuel generalizing s with
  | zero => rfl
  | succ fuel ih =>
    rw [loop, Paging.Reader.run]
    rw [behind_state, work_state]
    rw [show (reader nsFilter active ord pageSize).size = pageSize from rfl]
    cases readPage nsFilter active ((remote.findAfter s.lastId).take pageSize) s with
    | error e => rfl
    | ok s =>
      dsimp only [Except.map]
      rw [ih, state_savePage, handed_savePage]
      rfl

lemma markedBehindSecond :
    (reader nsFilter active ord pageSize).MarkedBehindSecond remote.documents := by
  intro before d after hdocs hnull
  have hid : rawId d = .null := by simpa [reader] using hnull
  have hsorted := remote.sorted
  rw [hdocs, pairwise_append] at hsorted
  have hmin : ∀ c ∈ before, rawId c = .minKey := by
    intro c hc
    apply ord.below_null
    rw [← hid]
    exact hsorted.2.2 c hc d mem_cons_self
  rcases before with _ | ⟨a, _ | ⟨b, rest⟩⟩
  · exact Nat.zero_le _
  · exact Nat.le_refl _
  · have hlt := (pairwise_cons.mp hsorted.1).1 b mem_cons_self
    rw [hmin a mem_cons_self, hmin b (mem_cons_of_mem _ mem_cons_self)] at hlt
    exact absurd hlt (lt_irrefl _)

def accepted (nsFilter active : Option SyncFilter) (doc : Document) : Bool :=
  match accepts nsFilter active doc with
  | .ok b => b
  | .error _ => false

lemma accepted_reader (doc : Document) :
    (reader nsFilter active ord pageSize).accepted doc = accepted nsFilter active doc := by
  rw [Paging.Reader.accepted, accepted]
  rw [show (reader nsFilter active ord pageSize).accept = accepts nsFilter active from rfl]
  cases accepts nsFilter active doc <;> rfl

/-- In every window of the size of a page there is an accepted document, and the last of these
has an id. -/
def PagesMove (nsFilter active : Option SyncFilter) (pageSize : ℕ) (documents : List Document) :
    Prop :=
  ∀ before window after, documents = before ++ window ++ after → window.length = pageSize →
    ∃ d, (window.filter (accepted nsFilter active)).getLast? = some d ∧ rawId d ≠ .null

/-- The documents that pass are handed over, each once, iff no filter raises and the pages move the
id. -/
theorem snapshot_complete_iff (nsFilter active : Option SyncFilter)
    (remote : RemoteCollection ord) (pageSize : ℕ) :
    (∃ queries, loop nsFilter active remote pageSize queries {} =
        some (.ok (remote.documents.filter (accepted nsFilter active)))) ↔
      (∀ d ∈ remote.documents, ∃ b, accepts nsFilter active d = .ok b) ∧
        PagesMove nsFilter active pageSize remote.documents := by
  have hiff := Paging.Reader.run_eq_iff (r := reader nsFilter active ord pageSize)
    remote.sorted (markedBehindSecond remote)
  have hrun : ∀ queries, loop nsFilter active remote pageSize queries {} =
      (reader nsFilter active ord pageSize).run remote.documents queries ⟨none, []⟩ :=
    fun queries => loop_eq_run remote queries {}
  have haccepted : (reader nsFilter active ord pageSize).accepted = accepted nsFilter active :=
    funext accepted_reader
  simp only [hrun]
  rw [← haccepted, hiff]
  simp only [Paging.Reader.Windows, Paging.Reader.Moves, PagesMove, haccepted]
  simp only [reader, decide_eq_true_eq]

end Snapshot

namespace Sample

def idPlace : Bson → ℕ
  | .minKey => 0
  | .null => 1
  | .int32 n => n.toInt.toNat + 2
  | _ => 2

def idOrder : IdOrder ℕ where
  key := idPlace
  below_null := by
    intro v h
    cases v with
    | minKey => rfl
    | _ => exact absurd h (by simp [idPlace])

def thirdOnly : SyncFilter := fun doc => .ok (doc.get "_id" = some (.int32 3))

def threeRemote : RemoteCollection idOrder where
  documents := [[("_id", .int32 1)], [("_id", .int32 2)], [("_id", .int32 3)]]
  sorted := by decide

end Sample

section

open Sample

/-- The filter rejects both documents of the first page, and the loop reads that page for ever. -/
theorem snapshot_never_ends :
    (∃ d ∈ threeRemote.documents, Snapshot.accepted none (some thirdOnly) d = true) ∧
      ¬ ∃ queries, Snapshot.loop none (some thirdOnly) threeRemote 2 queries {} ≠ none := by
  refine ⟨by decide, ?_⟩
  rintro ⟨queries, hends⟩
  apply hends
  clear hends
  induction queries with
  | zero => rfl
  | succ queries ih =>
    have hturn : Snapshot.loop none (some thirdOnly) threeRemote 2 (queries + 1) {} =
        Snapshot.loop none (some thirdOnly) threeRemote 2 queries {} := rfl
    rw [hturn, ih]

end

end Smongo

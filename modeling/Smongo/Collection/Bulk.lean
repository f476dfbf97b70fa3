import Smongo.Collection.Loops

/-!
# Bulk writes

`update_many` and `delete_many` walk over the rows as they were while they write to them.
-/

namespace Smongo

open Eff List Function Statement

section

variable {env : Env} {c : Handle} {specs : List IndexSpec} {w w' : RedbWorld}
  {filter : Document} {t t' : Table}

def DocWrite.stored : DocWrite → Option Document
  | insert doc => some doc
  | replace _ _ new => some new
  | delete _ _ => none

lemma DocWrite.Data.docAt (hcodec : env.Codec) {x : DocWrite} (h : x.Data env t t') :
    docAt env t' = update (docAt env t) (x.key env) x.stored := by
  cases x with
  | insert doc | replace key old new =>
    obtain ⟨bytes, hbytes, rfl⟩ := h
    exact docAt_insert hcodec hbytes
  | delete key old =>
    have hdata : t' = t.erase key := h
    rw [hdata]
    exact docAt_erase

lemma WroteAll.docAt_map (hcodec : env.Codec) {ts : List (Bytes × Document)}
    {write : Bytes × Document → DocWrite} (hkey : ∀ m ∈ ts, (write m).key env = m.1)
    (hnodup : (ts.map Prod.fst).Nodup) (h : WroteAll env c specs (ts.map write) w w') :
    (∀ m ∈ ts, docAt env (w'.view c.tableName) m.1 = (write m).stored) ∧ ∀ key ∉ ts.map Prod.fst,
        docAt env (w'.view c.tableName) key = docAt env (w.view c.tableName) key := by
  induction ts generalizing w with
  | nil =>
    refine ⟨nofun, fun key _ => ?_⟩
    rw [Still.data h]
  | cons m ts ih =>
    obtain ⟨w₁, hone, hrest⟩ := h
    rw [map_cons, nodup_cons] at hnodup
    obtain ⟨hnotMem, hnodup⟩ := hnodup
    obtain ⟨hmem, hother⟩ := ih (fun m' hm' => hkey m' (mem_cons_of_mem _ hm')) hnodup hrest
    have hfirst := hone.data.docAt hcodec
    rw [hkey m mem_cons_self] at hfirst
    constructor
    · intro m' hm'
      rcases mem_cons.mp hm' with rfl | hm'
      · rw [hother _ hnotMem, hfirst, update_self]
      · exact hmem m' hm'
    · intro key hnot
      rw [map_cons, mem_cons, not_or] at hnot
      rw [hother key hnot.2, hfirst, update_of_ne hnot.1]

lemma reduceOption_map_ite {α β : Type} (p : α → Prop) [DecidablePred p] (g : α → β)
    (xs : List α) :
    (xs.map fun x => if p x then none else some (g x)).reduceOption =
      (xs.filter fun x => ¬ p x).map g := by
  induction xs with
  | nil => rfl
  | cons x xs ih =>
    by_cases h : p x
    · simp [h, ih]
    · simp [h, ih]

lemma exists_updated {update : Document} {ts : List (Bytes × Document)}
    {xs : List (Option DocWrite)} (h : List.Forall₂ (UpdatesTo env update) ts xs)
    (hnodup : (ts.map Prod.fst).Nodup) :
    ∃ news : Bytes → Document,
      (∀ m ∈ ts, ∃ tick, applyUpdate env tick m.2 update = .ok (news m.1)) ∧
      xs = ts.map fun m => if (news m.1).eq m.2 = true then none
        else some (.replace m.1 m.2 (news m.1)) := by
  induction h with
  | nil => exact ⟨fun _ => [], nofun, rfl⟩
  | @cons m x ts xs hx _ ih =>
    rw [map_cons, nodup_cons] at hnodup
    obtain ⟨hnotMem, hnodup⟩ := hnodup
    obtain ⟨news, hnews, rfl⟩ := ih hnodup
    obtain ⟨tick, new, happly, rfl⟩ := hx
    have hne : ∀ m' ∈ ts, Function.update news m.1 new m'.1 = news m'.1 := by
      intro m' hm'
      apply update_of_ne
      intro heq
      exact hnotMem (heq ▸ mem_map_of_mem hm')
    refine ⟨Function.update news m.1 new, ?_, ?_⟩
    · intro m' hm'
      rcases mem_cons.mp hm' with rfl | hm'
      · exact ⟨tick, by rw [update_self, happly]⟩
      · rw [hne m' hm']
        exact hnews m' hm'
    · rw [map_cons, update_self]
      congr 1
      apply map_congr_left
      intro m' hm'
      rw [hne m' hm']

variable (env) in
lemma nodup_hits (filter : Document) (t : Table) :
    ((hits env filter t.rows).map Prod.fst).Nodup := by
  refine (hits_keys_sublist filter t.rows).nodup ?_
  refine List.Pairwise.map _ ?_ t.sorted
  intro a b hab heq
  exact absurd hab (heq ▸ lt_irrefl (α := Bytes) b.1)

lemma mem_hits_rows {key : Bytes} {doc : Document} : (key, doc) ∈ hits env filter t.rows ↔
    docAt env t key = some doc ∧ evalQuery env doc filter = .ok true := by
  rw [mem_hits, docAt_eq_some_iff]
  constructor
  · rintro ⟨bytes, hrow, hread, heval⟩
    exact ⟨⟨bytes, OrderedTable.get_eq_some_iff.mpr hrow, hread⟩, heval⟩
  · rintro ⟨⟨bytes, hget, hread⟩, heval⟩
    exact ⟨bytes, OrderedTable.get_eq_some_iff.mp hget, hread, heval⟩

lemma key_notMem_hits {key : Bytes} {doc : Document} (hdoc : docAt env t key = some doc)
    (heval : evalQuery env doc filter ≠ .ok true) :
    key ∉ (hits env filter t.rows).map Prod.fst := by
  intro hmem
  obtain ⟨⟨key', doc'⟩, hhit, rfl⟩ := mem_map.mp hmem
  obtain ⟨hdoc', heval'⟩ := mem_hits_rows.mp hhit
  rw [hdoc] at hdoc'
  cases hdoc'
  exact heval heval'

end

/-! ### What the calls should do -/

section

variable {env : Env} {c : Handle} {specs : List IndexSpec} {w w' : RedbWorld}
  {filter update : Document} {t t' : Table} {news : Bytes → Document}

/-- Each matching document has its new version, the others are as they were, and the counts are
right. -/
structure UpdatedOnce (env : Env) (filter : Document) (news : Bytes → Document) (t t' : Table)
    (result : UpdateResult) : Prop where
  updated : ∀ key old, docAt env t key = some old → evalQuery env old filter = .ok true →
    docAt env t' key = some (news key)
  others : ∀ key doc, docAt env t key = some doc → evalQuery env doc filter ≠ .ok true →
    docAt env t' key = some doc
  matchedCount : result.matchedCount = (hits env filter t.rows).length
  modifiedCount : result.modifiedCount =
    ((hits env filter t.rows).filter fun m => docAt env t' m.1 ≠ some m.2).length

/-- The documents that matched are gone, the others are as they were. -/
structure DeletedOnce (env : Env) (filter : Document) (t t' : Table) (result : DeleteResult) :
    Prop where
  stored : ∀ key doc, docAt env t' key = some doc ↔
    docAt env t key = some doc ∧ evalQuery env doc filter ≠ .ok true
  deletedCount : result.deletedCount = (hits env filter t.rows).length

def leftBehind (news : Bytes → Document) (m : Bytes × Document) : Document :=
  if (news m.1).eq m.2 = true then m.2 else news m.1

/-- The count of changed documents is right iff the crate tells the versions of each apart. -/
lemma modified_iff {ms : List (Bytes × Document)}
    (hleft : ∀ m ∈ ms, docAt env t' m.1 = some (leftBehind news m)) :
    ((∀ m ∈ ms, docAt env t' m.1 = some (news m.1)) ∧
      (ms.filter fun m => ¬ (news m.1).eq m.2 = true).length =
        (ms.filter fun m => docAt env t' m.1 ≠ some m.2).length) ↔
      ∀ m ∈ ms, ((news m.1).eq m.2 = true ↔ news m.1 = m.2) := by
  have hchanged : (ms.filter fun m => docAt env t' m.1 ≠ some m.2) =
      (ms.filter fun m => ¬ (news m.1).eq m.2 = true).filter fun m => news m.1 ≠ m.2 := by
    rw [filter_filter]
    apply filter_congr
    intro m hm
    rw [hleft m hm, leftBehind]
    by_cases heq : (news m.1).eq m.2 = true <;> simp [heq]
  rw [hchanged, eq_comm, length_filter_eq_length_iff]
  simp only [mem_filter, decide_eq_true_iff]
  constructor
  · rintro ⟨hnew, hcount⟩ m hm
    constructor
    · intro heq
      have hsame := (hnew m hm).symm.trans (hleft m hm)
      rwa [leftBehind, if_pos heq, Option.some.injEq] at hsame
    · intro hsame
      by_contra hne
      exact hcount m ⟨hm, hne⟩ hsame
  · intro h
    constructor
    · intro m hm
      rw [hleft m hm, leftBehind]
      split
      · next heq => rw [(h m hm).mp heq]
      · rfl
    · rintro m ⟨hm, hne⟩ hsame
      exact hne ((h m hm).mpr hsame)

lemma exists_batch {α : Type} {f : RedbOp α} {a : α}
    (hlisted : listed env c w = .ok specs) (hrun : withBatchedWrite f w = (.ok a, w')) :
    ∃ w₀ w₁, f w₀ = (.ok a, w₁) ∧ w₀.session.inTransaction = true ∧
      listed env c w₀ = .ok specs ∧ w₀.view = w.view ∧ w₀.rows c = w.rows c ∧ w₀.ticks = w.ticks ∧
      (w₁.session.inTransaction = true → w'.view = w₁.view) := by
  cases hw : w.session.inTransaction with
  | true =>
    rw [withBatchedWrite_of_inTransaction f hw] at hrun
    exact ⟨w, w', hrun, hw, hlisted, rfl, rfl, rfl, fun _ => rfl⟩
  | false =>
    rw [withBatchedWrite_of_not_inTransaction f hw] at hrun
    rcases hbatch : f w.begin with ⟨b | e | _, w₁⟩ <;> rw [hbatch] at hrun <;> cases hrun
    refine ⟨w.begin, w₁, hbatch, rfl, ?_, ?_, ?_, rfl, fun hw₁ => ?_⟩
    · rw [← hlisted]
      unfold listed
      rw [shown_begin, shown_of_idle hw]
      rfl
    · rw [view_begin, view_of_idle hw]
    · rw [World.rows, World.rows, shown_begin, shown_of_idle hw]
    · have hcommitted := committed_commit (w := w₁.uncached) hw₁
      exact (view_of_idle rfl).trans hcommitted

variable (env c w filter update) in
lemma upserts_eq (options : UpdateOptions) : upserts env c w filter update options = [] ∨
      hits env filter (w.rows c) = [] ∧ ∃ doc, upserts env c w filter update options = [doc] := by
  unfold upserts
  split
  · next h =>
    split
    · next doc _ => exact .inr ⟨h.2, doc, rfl⟩
    · exact .inl rfl
  · exact .inl rfl

lemma WroteAll.docAt_leftBehind (hcodec : env.Codec) {ms : List (Bytes × Document)}
    (hnodup : (ms.map Prod.fst).Nodup)
    (hms : ∀ m ∈ ms, docAt env (w.view c.tableName) m.1 = some m.2)
    (h : WroteAll env c specs ((ms.filter fun m => ¬ (news m.1).eq m.2 = true).map
      fun m => .replace m.1 m.2 (news m.1)) w w') :
    (∀ m ∈ ms, docAt env (w'.view c.tableName) m.1 = some (leftBehind news m)) ∧
      ∀ key ∉ ms.map Prod.fst,
        docAt env (w'.view c.tableName) key = docAt env (w.view c.tableName) key := by
  have hsub := filter_sublist (p := fun m => ¬ (news m.1).eq m.2 = true) (l := ms)
  obtain ⟨hwritten, hother⟩ := h.docAt_map hcodec (fun _ _ => rfl)
    ((hsub.map Prod.fst).nodup hnodup)
  refine ⟨fun m hm => ?_, fun key hkey => hother key fun h => hkey ((hsub.map Prod.fst).subset h)⟩
  unfold leftBehind
  split
  · next heq =>
    rw [hother m.1 ?_, hms m hm]
    intro hmem
    obtain ⟨m', hm', hkey⟩ := mem_map.mp hmem
    obtain ⟨hm', hne⟩ := mem_filter.mp hm'
    cases inj_on_of_nodup_map hnodup hm' hm hkey
    exact of_decide_eq_true hne heq
  · next hne => exact hwritten m (mem_filter.mpr ⟨hm, decide_eq_true hne⟩)

lemma upserts_others_iff {options : UpdateOptions} (hcodec : env.Codec)
    {w₁ : RedbWorld} (hrows : w.rows c = (w.view c.tableName).rows)
    (hw₁ : ∀ key ∉ (hits env filter (w.view c.tableName).rows).map Prod.fst,
      docAt env (w₁.view c.tableName) key = docAt env (w.view c.tableName) key)
    (h : WroteAll env c specs ((upserts env c w filter update options).map .insert) w₁ w') :
    (∀ m ∈ hits env filter (w.view c.tableName).rows,
      docAt env (w'.view c.tableName) m.1 = docAt env (w₁.view c.tableName) m.1) ∧
    ((∀ key doc, docAt env (w.view c.tableName) key = some doc →
        evalQuery env doc filter ≠ .ok true → docAt env (w'.view c.tableName) key = some doc) ↔
      ∀ doc ∈ upserts env c w filter update options, ∀ stored,
        docAt env (w.view c.tableName) (idKey env doc) = some stored → stored = doc) := by
  rcases upserts_eq env c w filter update options with hnone | ⟨hempty, new, hnew⟩
  · rw [hnone] at h ⊢
    have hsame := Still.data h
    rw [hsame]
    refine ⟨fun _ _ => rfl, nofun, fun _ key doc hdoc heval => ?_⟩
    rw [hw₁ key (key_notMem_hits hdoc heval), hdoc]
  · rw [hrows] at hempty
    rw [hnew] at h ⊢
    rw [hempty] at hw₁
    obtain ⟨w₂, hone, hstill⟩ := h
    have hdata := hone.data.docAt hcodec
    have hkey : (DocWrite.insert new).key env = idKey env new := rfl
    rw [Still.data hstill, hdata, hempty, hkey]
    refine ⟨nofun, ?_⟩
    constructor
    · intro hothers doc hdoc stored hstored
      obtain rfl := mem_singleton.mp hdoc
      have heval : evalQuery env stored filter ≠ .ok true := by
        intro heval
        have hmem := mem_hits_rows.mpr ⟨hstored, heval⟩
        rw [hempty] at hmem
        cases hmem
      have hkept := hothers _ stored hstored heval
      rw [update_self] at hkept
      exact (Option.some.inj hkept).symm
    · intro hfree key doc hdoc _
      rw [Function.update_apply]
      split
      · next heq =>
        rw [hfree new mem_cons_self doc (heq ▸ hdoc)]
        rfl
      · rw [hw₁ key not_mem_nil, hdoc]

lemma deleteInner_wrote (hsep : c.Separate) (hnames : (specs.map IndexSpec.name).Nodup)
    (hw : w.session.inTransaction = true) (hlisted : listed env c w = .ok specs)
    {internal : Bool} {result : DeleteResult}
    (hrun : deleteInner env c false filter internal w = (.ok result, w')) :
    result.deletedCount = (hits env filter (w.rows c)).length ∧
      WroteAll env c specs ((hits env filter (w.rows c)).map fun m => .delete m.1 m.2) w w' := by
  have hlooped := deleteInner_looped hsep hnames hw hlisted hrun
  rw [chosen, if_neg Bool.false_ne_true] at hlooped
  obtain ⟨xs, hacts, -, hwrote⟩ := hlooped.wrote
  have hxs : (hits env filter (w.rows c)).map (fun m => some (DocWrite.delete m.1 m.2)) = xs := by
    rw [← forall₂_eq_eq_eq, forall₂_map_left_iff]
    exact hacts.imp fun _ _ h => h.symm
  have hdeletes : xs.reduceOption = (hits env filter (w.rows c)).map
      fun m => .delete m.1 m.2 := by
    rw [← hxs, reduceOption, filterMap_map]
    exact congrFun filterMap_eq_map _
  rw [hdeletes] at hwrote
  exact ⟨hlooped.count, hwrote⟩

section

variable (hcodec : env.Codec) (hsep : c.Separate) (hnames : (specs.map IndexSpec.name).Nodup)
  (hlisted : listed env c w = .ok specs) (hlegible : Legible env c w)
include hcodec hsep hnames hlisted hlegible

lemma deleteMany_deleted {internal : Bool} {result : DeleteResult}
    (hrun : deleteMany env c filter internal w = (.ok result, w')) :
    DeletedOnce env filter (w.view c.tableName) (w'.view c.tableName) result := by
  obtain ⟨w₀, w₁, hinner, hw₀, hlisted₀, hview₀, hrows₀, -, hview⟩ := exists_batch hlisted hrun
  obtain ⟨hcount, hwrote⟩ := deleteInner_wrote hsep hnames hw₀ hlisted₀ hinner
  rw [hrows₀, World.rows, hlegible.shown] at hcount hwrote
  rw [hview hwrote.inTransaction]
  obtain ⟨hgone, hother⟩ := hwrote.docAt_map hcodec (fun _ _ => rfl)
    (nodup_hits env filter (w.view c.tableName))
  rw [hview₀] at hother
  refine ⟨fun key doc => ?_, hcount⟩
  constructor
  · intro hdoc
    have hkey : key ∉ (hits env filter (w.view c.tableName).rows).map Prod.fst := by
      intro hmem
      obtain ⟨m, hm, rfl⟩ := mem_map.mp hmem
      rw [hgone m hm] at hdoc
      cases hdoc
    have hstored := (hother key hkey).symm.trans hdoc
    refine ⟨hstored, fun heval => hkey ?_⟩
    exact mem_map_of_mem (f := Prod.fst) (mem_hits_rows.mpr ⟨hstored, heval⟩)
  · rintro ⟨hdoc, heval⟩
    rw [hother key (key_notMem_hits hdoc heval), hdoc]

/-- A `delete_many` is exact; an `update_many` iff changed versions are told apart and no upsert
takes the place of a document. -/
theorem bulk_writes_exact : (∀ filter update options result w',
      updateMany env c filter update options w = (.ok result, w') →
      ∃ news : Bytes → Document, (∀ m ∈ hits env filter (w.view c.tableName).rows,
          (∃ tick, applyUpdate env tick m.2 update = .ok (news m.1)) ∧
          docAt env (w'.view c.tableName) m.1 = some (leftBehind news m)) ∧
        (UpdatedOnce env filter news (w.view c.tableName) (w'.view c.tableName) result ↔
          (∀ m ∈ hits env filter (w.view c.tableName).rows,
            ((news m.1).eq m.2 = true ↔ news m.1 = m.2)) ∧
          ∀ doc ∈ upserts env c w filter update options, ∀ stored,
            docAt env (w.view c.tableName) (idKey env doc) = some stored → stored = doc)) ∧
    ∀ filter internal result w', deleteMany env c filter internal w = (.ok result, w') →
      DeletedOnce env filter (w.view c.tableName) (w'.view c.tableName) result := by
  refine ⟨fun filter update options result w' hrun => ?_,
    fun _ _ _ _ hrun => deleteMany_deleted hcodec hsep hnames hlisted hlegible hrun⟩
  obtain ⟨w₀, w₂, hinner, hw₀, hlisted₀, hview₀, hrows₀, hticks₀, hview⟩ :=
    exists_batch hlisted hrun
  obtain ⟨w₁, hlooped, -, hupserts⟩ := updateInner_looped hsep hnames hw₀ hlisted₀ hinner
  have hsame : upserts env c w₀ filter update options = upserts env c w filter update options := by
    unfold upserts
    rw [hrows₀, hticks₀]
  rw [hsame] at hupserts
  rw [chosen, if_neg Bool.false_ne_true, hrows₀, World.rows, hlegible.shown] at hlooped
  rw [hview hupserts.inTransaction]
  obtain ⟨xs, hacts, hmodified, hwrote⟩ := hlooped.wrote
  have hnodup := nodup_hits env filter (w.view c.tableName)
  obtain ⟨news, hnews, rfl⟩ := exists_updated hacts hnodup
  rw [reduceOption_map_ite] at hmodified hwrote
  rw [length_map] at hmodified
  have hms : ∀ m ∈ hits env filter (w.view c.tableName).rows,
      docAt env (w₀.view c.tableName) m.1 = some m.2 := by
    intro m hm
    rw [hview₀]
    exact (mem_hits_rows.mp hm).1
  obtain ⟨hleft, hother⟩ := hwrote.docAt_leftBehind hcodec hnodup hms
  rw [hview₀] at hother
  obtain ⟨hkept, hothers⟩ := upserts_others_iff hcodec hlegible.shown hother hupserts
  have hleft' : ∀ m ∈ hits env filter (w.view c.tableName).rows,
      docAt env (w₂.view c.tableName) m.1 = some (leftBehind news m) := by
    intro m hm
    rw [hkept m hm, hleft m hm]
  refine ⟨news, fun m hm => ⟨hnews m hm, hleft' m hm⟩, ?_⟩
  rw [← modified_iff hleft', ← hothers]
  constructor
  · intro h
    refine ⟨⟨fun m hm => ?_, ?_⟩, h.others⟩
    · obtain ⟨hdoc, heval⟩ := mem_hits_rows.mp hm
      exact h.updated m.1 m.2 hdoc heval
    · rw [← h.modifiedCount]
      exact hmodified.symm
  · rintro ⟨⟨hupdated, hcount⟩, hothers⟩
    exact {
      updated := fun key old hdoc heval => hupdated _ (mem_hits_rows.mpr ⟨hdoc, heval⟩)
      others := hothers
      matchedCount := hlooped.count
      modifiedCount := hmodified.trans hcount }

end

end

namespace Sample

def setAll (value : Bson) : Document := [("$set", .document [("a", value)])]

def nanEnv : Env := Env.ofLists [doc (.int32 1) (.double .nan)] []

def nanWorld : RedbWorld :=
  [.statement (insert (.int32 1) (.double .nan))].foldl (Call.step nanEnv handle) start

end Sample

section

open Sample

/-- An update that takes effect. -/
theorem bulk_writes_exact_set : let r := updateMany env handle [] (setAll (.string "y")) {} one
    ∃ news, r.1 = .ok ⟨1, 1, none⟩ ∧ UpdatedOnce env [] news (one.view handle.tableName)
      (r.2.view handle.tableName) ⟨1, 1, none⟩ := by
  have hlisted : listed env handle one = .ok [ascending] := rfl
  have hlegible : Legible env handle one :=
    ⟨by decide, by decide, by decide⟩
  have hresult : (updateMany env handle [] (setAll (.string "y")) {} one).1 = .ok ⟨1, 1, none⟩ := by
    decide +kernel
  obtain ⟨news, hnews, hiff⟩ := (bulk_writes_exact codec separate (by decide) hlisted hlegible).1
    [] (setAll (.string "y")) {} ⟨1, 1, none⟩ _ (Prod.ext hresult rfl)
  obtain ⟨⟨tick, happly⟩, -⟩ := hnews _ mem_cons_self
  have hnew : applyUpdate env tick (doc (.int32 1) (.string "x")) (setAll (.string "y")) =
      .ok (doc (.int32 1) (.string "y")) := rfl
  have hsame := Outcome.ok.inj (hnew.symm.trans happly)
  refine ⟨news, hresult, hiff.mpr ⟨fun m hm => ?_, nofun⟩⟩
  rw [mem_singleton.mp hm, ← hsame]
  decide +kernel

/-- A NaN is not equal to itself: the document is counted as modified and has not changed. -/
theorem nan_counted_as_modified :
    let r := updateMany nanEnv handle [] (setAll (.double .nan)) {} nanWorld
    r.1 = .ok ⟨1, 1, none⟩ ∧
      (r.2.view handle.tableName).rows = (nanWorld.view handle.tableName).rows ∧
      (nanWorld.view handle.tableName).rows.length = 1 := by
  decide +kernel

end

end Smongo

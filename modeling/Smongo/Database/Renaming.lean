import Smongo.Database.Dropping

/-!
# Crashes during `rename_collection`

Each table is renamed in a transaction of its own, and a crash can come between any two.
-/

namespace Smongo

open Eff List Option Function RedbSession Redb

def IndexSuffix (suffix : String) : Prop :=
  suffix = ".indexes_metadata" ∨
    ∃ name, suffix = ".idx_" ++ name ∨ suffix = ".ftx_" ++ name ∨ suffix = ".pfx_" ++ name

lemma Handle.satellite_iff {c : Handle} {t : String} :
    c.Satellite t ↔ ∃ suffix, IndexSuffix suffix ∧ t = c.collectionName ++ suffix := by
  constructor
  · rintro (rfl | ⟨name, rfl | rfl | rfl⟩)
    · exact ⟨_, .inl rfl, rfl⟩
    · exact ⟨_, .inr ⟨name, .inl rfl⟩, String.append_assoc⟩
    · exact ⟨_, .inr ⟨name, .inr (.inl rfl)⟩, String.append_assoc⟩
    · exact ⟨_, .inr ⟨name, .inr (.inr rfl)⟩, String.append_assoc⟩
  · rintro ⟨suffix, rfl | ⟨name, rfl | rfl | rfl⟩, rfl⟩
    · exact .inl rfl
    · exact .inr ⟨name, .inl String.append_assoc.symm⟩
    · exact .inr ⟨name, .inr (.inl String.append_assoc.symm)⟩
    · exact .inr ⟨name, .inr (.inr String.append_assoc.symm)⟩

namespace Redb

def states (db : Redb) : List (String → Option Table) := db.tables :: db.history

def Passed (before after : Redb) (tables : String → Option Table) : Prop :=
  ∃ db : Redb, before.states <:+ db.states ∧ db.states <:+ after.states ∧ db.tables = tables

variable {before : Redb} {tables : String → Option Table}

lemma suffix_transact (db : Redb) (next : String → Option Table) :
    db.states <:+ (db.transact next).states := suffix_cons _ _

lemma Passed.self : Passed before before tables ↔ tables = before.tables := by
  constructor
  · rintro ⟨db, hbefore, hafter, rfl⟩
    have hstates := hbefore.eq_of_length_le hafter.length_le
    exact (cons.inj hstates).1.symm
  · rintro rfl
    exact ⟨before, suffix_refl _, suffix_refl _, rfl⟩

lemma passed_transact {next : String → Option Table} :
    Passed before (before.transact next) tables ↔ tables = before.tables ∨ tables = next := by
  constructor
  · rintro ⟨db, hbefore, hafter, rfl⟩
    rcases suffix_cons_iff.mp hafter with hstates | hsuffix
    · exact .inr (cons.inj hstates).1
    · exact .inl (Passed.self.mp ⟨db, hbefore, hsuffix, rfl⟩)
  · rintro (rfl | rfl)
    · exact ⟨before, suffix_refl _, suffix_cons _ _, rfl⟩
    · exact ⟨before.transact tables, suffix_cons _ _, suffix_refl _, rfl⟩

def moved (tables : String → Option Table) (src dst : String) : String → Option Table :=
  update (writeTable tables dst
    (((tables src).getD .empty).rows.map fun r => Change.put r.1 r.2)) src none

lemma moved_src (src dst : String) : moved tables src dst src = none := update_self ..

variable {src dst : String}

lemma moved_of_ne {t : String} (hsrc : t ≠ src) (hdst : t ≠ dst) :
    moved tables src dst t = tables t := by
  rw [moved, update_of_ne hsrc, writeTable, update_of_ne hdst]

lemma moved_dst (h : dst ≠ src) :
    moved tables src dst dst = some (Change.applyAll ((tables dst).getD .empty)
      (((tables src).getD .empty).rows.map fun r => Change.put r.1 r.2)) := by
  rw [moved, update_of_ne h, writeTable, update_self]

lemma moved_dst_eq_iff (h : dst ≠ src) {rows : Table} (hsrc : tables src = some rows) :
    moved tables src dst dst = some rows ↔
      ∀ key, ((tables dst).getD .empty).get key ≠ none → rows.get key ≠ none := by
  have hget : ∀ key, (Change.applyAll ((tables dst).getD .empty)
      (rows.rows.map fun r => Change.put r.1 r.2)).get key =
      (rows.get key).or (((tables dst).getD .empty).get key) :=
    Change.get_applyAll_put _ rows
  rw [moved_dst h, hsrc, getD_some]
  constructor
  · intro heq key hkey hnone
    have hrows := hget key
    rw [show Change.applyAll _ _ = rows from some.inj heq, hnone, none_or] at hrows
    exact hkey hrows.symm
  · intro hkeys
    refine congrArg some (OrderedTable.ext_get fun key => ?_)
    rw [hget]
    cases hrow : rows.get key with
    | some value => rfl
    | none =>
      by_contra hsome
      exact hkeys key hsome hrow

end Redb

def RedbSession.moveTable (s : RedbSession) (src dst : String) : RedbSession :=
  { s with db := s.db.transact (moved s.db.tables src dst) }

lemma RedbSession.renameTable_apply {src dst : String} (h : src ≠ dst) (s : RedbSession) :
    renameTable src dst s = (.ok (), s.moveTable src dst) := by
  rw [renameTable, if_neg h]
  rfl

namespace Database

section

variable {src dst : String}

lemma childName_ne (h : src ≠ dst) (suffix : String) :
    src ++ "." ++ suffix ≠ dst ++ "." ++ suffix := by
  intro heq
  rw [String.append_assoc, String.append_assoc] at heq
  exact h ((String.append_left_inj _).mp heq)

variable {t : String} {ts : List String}

lemma renameSatellite_of_none (ht : stripPrefix t (src ++ ".") = none)
    (s : RedbSession) : renameSatellite src dst t s = (.ok (), s) := by
  rw [renameSatellite, ht]
  rfl

lemma renameSatellite_of_some (h : src ≠ dst) {suffix : String}
    (ht : stripPrefix t (src ++ ".") = some suffix) (s : RedbSession) :
    renameSatellite src dst t s = (.ok (), s.moveTable t (dst ++ "." ++ suffix)) := by
  have hne : t ≠ dst ++ "." ++ suffix := by
    rw [stripPrefix_eq_some_iff.mp ht]
    exact childName_ne h suffix
  rw [renameSatellite, ht]
  exact bind_of_ok (attempt_of_ok (renameTable_apply hne s))

lemma forM_renameSatellite_of_none
    (hts : ∀ t ∈ ts, stripPrefix t (src ++ ".") = none) (s : RedbSession) :
    ts.forM (renameSatellite src dst) s = (.ok (), s) := by
  induction ts with
  | nil => rfl
  | cons t ts ih =>
    refine (bind_of_ok (renameSatellite_of_none (hts t mem_cons_self) s)).trans ?_
    exact ih fun u hu => hts u (mem_cons_of_mem t hu)

lemma forM_renameSatellite_cons {s s' : RedbSession}
    (h : renameSatellite src dst t s = (.ok (), s')) :
    (t :: ts).forM (renameSatellite src dst) s = ts.forM (renameSatellite src dst) s' :=
  bind_of_ok h

lemma forM_renameSatellite_states (h : src ≠ dst) (ts : List String) (s : RedbSession) :
    s.db.states <:+ (ts.forM (renameSatellite src dst) s).2.db.states := by
  induction ts generalizing s with
  | nil => exact suffix_refl _
  | cons t ts ih =>
    cases ht : stripPrefix t (src ++ ".") with
    | none =>
      rw [forM_renameSatellite_cons (renameSatellite_of_none ht s)]
      exact ih s
    | some suffix =>
      rw [forM_renameSatellite_cons (renameSatellite_of_some h ht s)]
      exact (suffix_transact s.db _).trans (ih (s.moveTable t (dst ++ "." ++ suffix)))

lemma exists_passed_renameSatellite (h : src ≠ dst) (ht : t ∈ ts)
    (hchild : stripPrefix t (src ++ ".") ≠ none) (s : RedbSession) :
    ∃ u ∈ ts, ∃ suffix, stripPrefix u (src ++ ".") = some suffix ∧
      s.db.Passed (ts.forM (renameSatellite src dst) s).2.db
        (moved s.db.tables u (dst ++ "." ++ suffix)) := by
  induction ts with
  | nil => exact absurd ht not_mem_nil
  | cons v ts ih =>
    cases hv : stripPrefix v (src ++ ".") with
    | none =>
      have hne : t ≠ v := fun heq => hchild (heq ▸ hv)
      obtain ⟨u, hu, suffix, hsuffix, hpassed⟩ := ih (mem_of_ne_of_mem hne ht)
      rw [forM_renameSatellite_cons (renameSatellite_of_none hv s)]
      exact ⟨u, mem_cons_of_mem v hu, suffix, hsuffix, hpassed⟩
    | some suffix =>
      rw [forM_renameSatellite_cons (renameSatellite_of_some h hv s)]
      exact ⟨v, mem_cons_self, suffix, hv, (s.moveTable v (dst ++ "." ++ suffix)).db,
        suffix_transact s.db _, forM_renameSatellite_states h ts _, rfl⟩

end

variable {d : Database} {all : List String} {src dst : String} {db : Redb}

lemma renameCollection_of_still (h : d.tableName src ∉ all ∨ d.tableName src = d.tableName dst) :
    (d.renameCollection all src dst db).2 = db := by
  unfold renameCollection
  by_cases hsrc : d.tableName src ∈ all
  · have hsame := h.resolve_left fun hnot => hnot hsrc
    have hfail : ∃ e, renameTable (d.tableName src) (d.tableName dst)
        ⟨db, false, .empty, []⟩ = (.error e, ⟨db, false, .empty, []⟩) := by
      rw [renameTable, if_pos hsame]
      exact ⟨_, rfl⟩
    obtain ⟨e, hfail⟩ := hfail
    rw [if_pos hsrc]
    change (((renameTable (d.tableName src) (d.tableName dst) >>= fun _ =>
      all.forM (renameSatellite (d.tableName src) (d.tableName dst))) :
        Eff RedbSession StorageError Unit) ⟨db, false, .empty, []⟩).2.db = db
    rw [bind_of_error hfail]
  · rw [if_neg hsrc]
    rfl

section

variable (hsrc : d.tableName src ∈ all) (hne : d.tableName src ≠ d.tableName dst)
include hsrc hne

lemma renameCollection_of_moved :
    (d.renameCollection all src dst db).2 =
      (all.forM (renameSatellite (d.tableName src) (d.tableName dst))
        (moveTable ⟨db, false, .empty, []⟩ (d.tableName src) (d.tableName dst))).2.db := by
  unfold renameCollection
  rw [if_pos hsrc]
  change (((renameTable (d.tableName src) (d.tableName dst) >>= fun _ =>
    all.forM (renameSatellite (d.tableName src) (d.tableName dst))) :
      Eff RedbSession StorageError Unit) ⟨db, false, .empty, []⟩).2.db = _
  rw [bind_of_ok (renameTable_apply hne _)]

variable (db) in
lemma renameCollection_passed :
    db.Passed (d.renameCollection all src dst db).2
      (moved db.tables (d.tableName src) (d.tableName dst)) := by
  rw [renameCollection_of_moved hsrc hne]
  let first := moveTable ⟨db, false, .empty, []⟩ (d.tableName src) (d.tableName dst)
  exact ⟨first.db, suffix_transact db _, forM_renameSatellite_states hne all first, rfl⟩

end

/-! ### All or nothing -/

/-- The new collection has exactly the tables of the old one, which is gone, and nothing else has
changed. -/
structure Renamed (d : Database) (src dst : String) (old new : String → Option Table) : Prop where
  documents : new (d.tableName dst) = old (d.tableName src)
  indexes : ∀ suffix, IndexSuffix suffix → new (dst ++ suffix) = old (src ++ suffix)
  gone : ∀ t, (d.handle src).Owns t → new t = none
  others : ∀ t, ¬ (d.handle src).Owns t → ¬ (d.handle dst).Owns t → new t = old t

/-- After a crash the database is the old or the renamed one, and no table mixes rows. -/
structure RenamesAtomically (d : Database) (src dst : String) (before after : Redb) : Prop where
  atomic : ∀ tables, before.Passed after tables →
    tables = before.tables ∨ Renamed d src dst before.tables tables
  unmixed : ∀ tables, before.Passed after tables →
    (tables (d.tableName dst) = before.tables (d.tableName dst) ∨
      tables (d.tableName dst) = before.tables (d.tableName src)) ∧
    ∀ suffix, IndexSuffix suffix → tables (dst ++ suffix) = before.tables (dst ++ suffix) ∨
      tables (dst ++ suffix) = before.tables (src ++ suffix)

lemma RenamesAtomically.of_atomic {before after : Redb}
    (h : ∀ tables, before.Passed after tables →
      tables = before.tables ∨ Renamed d src dst before.tables tables) :
    RenamesAtomically d src dst before after := by
  refine ⟨h, fun tables hpassed => ?_⟩
  rcases h tables hpassed with rfl | hrenamed
  · exact ⟨.inl rfl, fun _ _ => .inl rfl⟩
  · exact ⟨.inr hrenamed.documents, fun suffix hsuffix => .inr (hrenamed.indexes suffix hsuffix)⟩

lemma renamed_moved_iff {rows : Table} (hsrc : db.tables (d.tableName src) = some rows)
    (hne : d.tableName src ≠ d.tableName dst) :
    Renamed d src dst db.tables (moved db.tables (d.tableName src) (d.tableName dst)) ↔
      (∀ key, (db.table (d.tableName dst)).get key ≠ none → rows.get key ≠ none) ∧
      ∀ suffix, IndexSuffix suffix →
        moved db.tables (d.tableName src) (d.tableName dst) (src ++ suffix) = none ∧
        moved db.tables (d.tableName src) (d.tableName dst) (dst ++ suffix) =
          db.tables (src ++ suffix) := by
  have hdocuments := moved_dst_eq_iff (Ne.symm hne) hsrc
  constructor
  · intro h
    refine ⟨hdocuments.mp (h.documents.trans hsrc), fun suffix hsuffix => ⟨?_, ?_⟩⟩
    · exact h.gone _ (.inr (Handle.satellite_iff.mpr ⟨suffix, hsuffix, rfl⟩))
    · exact h.indexes suffix hsuffix
  · rintro ⟨hkeys, hindexes⟩
    refine ⟨(hdocuments.mpr hkeys).trans hsrc.symm, fun suffix hsuffix =>
      (hindexes suffix hsuffix).2,
      fun t howns => ?_, fun t hsrc' hdst' => ?_⟩
    · rcases howns with rfl | hsat
      · exact moved_src ..
      · obtain ⟨suffix, hsuffix, rfl⟩ := Handle.satellite_iff.mp hsat
        exact (hindexes suffix hsuffix).1
    · exact moved_of_ne (fun heq => hsrc' (.inl heq)) fun heq => hdst' (.inl heq)

lemma not_renamed_of_child (hsrc : (db.tables (d.tableName src)).isSome) {t suffix : String}
    (hchild : t = d.tableName src ++ "." ++ suffix) (hsome : (db.tables t).isSome)
    {first second : String → Option Table}
    (hfirst : first = moved db.tables (d.tableName src) (d.tableName dst))
    (hsecond : second = moved first t (d.tableName dst ++ "." ++ suffix))
    (h₁ : Renamed d src dst db.tables first) : ¬ Renamed d src dst db.tables second := by
  intro h₂
  have hnone : second t = none := by
    rw [hsecond]
    exact moved_src ..
  have hlonger : t ≠ d.tableName src := by
    rw [hchild]
    intro heq
    have hlength := congrArg (fun s => s.toList.length) heq
    simp at hlength
  have hdst : t ≠ d.tableName dst := by
    intro heq
    rw [heq, h₂.documents] at hnone
    rw [hnone] at hsrc
    cases hsrc
  have hkept : first t = db.tables t := by
    rw [hfirst]
    exact moved_of_ne hlonger hdst
  by_cases hown : (d.handle src).Owns t
  · rw [← hkept, h₁.gone t hown] at hsome
    cases hsome
  · by_cases hother : (d.handle dst).Owns t
    · obtain ⟨suffix', hsuffix', ht⟩ := Handle.satellite_iff.mp (hother.resolve_left hdst)
      have hboth : first t = second t := by
        rw [ht]
        exact (h₁.indexes suffix' hsuffix').trans (h₂.indexes suffix' hsuffix').symm
      rw [← hkept, hboth, hnone] at hsome
      cases hsome
    · rw [← h₂.others t hown hother, hnone] at hsome
      cases hsome

/-- A rename is atomic and mixes nothing iff there is nothing to rename, or one table moves to a
name whose keys it has. -/
theorem rename_collection_atomic (hall : db.Lists all) :
    RenamesAtomically d src dst db (d.renameCollection all src dst db).2 ↔
      (d.tableName src ∉ all ∨ d.tableName src = d.tableName dst) ∨
      (∀ t ∈ all, startsWith (d.tableName src ++ ".") t = false) ∧
      (∀ key, (db.table (d.tableName dst)).get key ≠ none →
        (db.table (d.tableName src)).get key ≠ none) ∧
      ∀ suffix, IndexSuffix suffix →
        moved db.tables (d.tableName src) (d.tableName dst) (src ++ suffix) = none ∧
        moved db.tables (d.tableName src) (d.tableName dst) (dst ++ suffix) =
          db.tables (src ++ suffix) := by
  by_cases hstill : d.tableName src ∉ all ∨ d.tableName src = d.tableName dst
  · rw [renameCollection_of_still hstill]
    exact iff_of_true (.of_atomic fun tables hpassed => .inl (Redb.Passed.self.mp hpassed))
      (.inl hstill)
  · obtain ⟨hsrc, hne⟩ := not_or.mp hstill
    rw [not_not] at hsrc
    have hsome := (hall _).mp hsrc
    obtain ⟨rows, hrows⟩ := isSome_iff_exists.mp hsome
    have htable : db.table (d.tableName src) = rows := by
      rw [table, hrows]
      rfl
    have hpassed := renameCollection_passed db hsrc hne
    rw [renameCollection_of_moved hsrc hne] at hpassed ⊢
    rw [or_iff_right hstill, htable, ← renamed_moved_iff hrows hne]
    set first := moveTable ⟨db, false, .empty, []⟩ (d.tableName src) (d.tableName dst)
    have hsuffix : db.states <:+ first.db.states := suffix_transact db _
    constructor
    · intro h
      have hchanged : first.db.tables ≠ db.tables := fun heq => by
        rw [← heq, show first.db.tables (d.tableName src) = none from moved_src ..] at hsome
        cases hsome
      have h₁ := (h.atomic _ hpassed).resolve_left hchanged
      refine ⟨fun t ht => ?_, h₁⟩
      by_contra hchild
      rw [Bool.not_eq_false, startsWith_iff] at hchild
      obtain ⟨suffix, hchild⟩ := hchild
      have hstrip := stripPrefix_eq_some_iff.mpr hchild
      -- the first table that moves along leads to a state that is neither
      obtain ⟨u, hu, suffix', hsuffix', v, hfirst, hlast, hv⟩ :=
        exists_passed_renameSatellite hne ht (by rw [hstrip]; exact some_ne_none _) first
      have hsome' := (hall u).mp hu
      have hchanged' : v.tables ≠ db.tables := fun heq => by
        rw [← heq, hv, moved_src] at hsome'
        cases hsome'
      have h₂ := (h.atomic _ ⟨v, hsuffix.trans hfirst, hlast, rfl⟩).resolve_left hchanged'
      exact not_renamed_of_child hsome (stripPrefix_eq_some_iff.mp hsuffix') hsome' rfl hv h₁ h₂
    · rintro ⟨hchild, h₁⟩
      have hnone : ∀ t ∈ all, stripPrefix t (d.tableName src ++ ".") = none := by
        intro t ht
        rw [eq_none_iff_forall_not_mem]
        intro suffix hsuffix'
        have hstarts := startsWith_iff.mpr ⟨suffix, stripPrefix_eq_some_iff.mp hsuffix'⟩
        rw [hchild t ht] at hstarts
        cases hstarts
      rw [forM_renameSatellite_of_none hnone]
      refine .of_atomic fun tables hpassed => ?_
      rcases passed_transact.mp hpassed with rfl | rfl
      · exact .inl rfl
      · exact .inr h₁

end Database

namespace Sample

def postsTables : List (String × Table) := [("users", sampleRow), ("posts", sampleRow)]

def membersTables : List (String × Table) :=
  [("users", sampleRow), ("members", OrderedTable.empty.insert [2] [2])]

def renameUsers (tables : List (String × Table)) : Outcome DatabaseError Unit × Redb :=
  plainDb.renameCollection (tables.map Prod.fst) "users" "members" (.ofTables tables)

end Sample

section

open Sample

theorem rename_collection_atomic_posts :
    plainDb.RenamesAtomically "users" "members" (.ofTables postsTables)
      (renameUsers postsTables).2 := by
  have hlists := lists_ofTables postsTables
  refine (Database.rename_collection_atomic hlists).mpr (.inr ⟨by decide, ?_, ?_⟩)
  · exact fun key hkey => absurd rfl hkey
  · intro suffix hsuffix
    have hdot : ∃ rest, suffix.toList = '.' :: rest := by
      rcases hsuffix with rfl | ⟨name, rfl | rfl | rfl⟩
      · exact ⟨_, rfl⟩
      all_goals exact ⟨_, by simp; rfl⟩
    obtain ⟨rest, hrest⟩ := hdot
    have hother : ∀ name u, u ∈ ["users", "members", "posts"] → name ∈ ["users", "members"] →
        name ++ suffix ≠ u := by
      intro name u hu hname heq
      have hlist := congrArg String.toList heq
      rw [String.toList_append, hrest] at hlist
      simp only [mem_cons, not_mem_nil, or_false] at hu hname
      rcases hu with rfl | rfl | rfl <;> rcases hname with rfl | rfl <;> simp at hlist
    have hnone : ∀ name ∈ ["users", "members"],
        (ofTables postsTables).tables (name ++ suffix) = none := by
      intro name hname
      rw [← not_isSome_iff_eq_none, ← hlists]
      intro hmem
      have hsub : postsTables.map Prod.fst ⊆ ["users", "members", "posts"] := by decide
      exact hother name _ (hsub hmem) hname rfl
    have hmoved : ∀ name ∈ ["users", "members"],
        moved (ofTables postsTables).tables (plainDb.tableName "users")
          (plainDb.tableName "members") (name ++ suffix) = none := by
      intro name hname
      rw [moved_of_ne (hother name _ (by decide) hname) (hother name _ (by decide) hname)]
      exact hnone name hname
    exact ⟨hmoved _ (by decide), (hmoved _ (by decide)).trans (hnone _ (by decide)).symm⟩

/-- A crash leaves the index behind, and rows of an existing collection are mixed with the renamed
ones. -/
theorem rename_collection_not_atomic : ((renameUsers usersTables).1 = .ok () ∧
      ¬ plainDb.RenamesAtomically "users" "members" (.ofTables usersTables)
        (renameUsers usersTables).2) ∧
    (renameUsers membersTables).1 = .ok () ∧
      ¬ plainDb.RenamesAtomically "users" "members" (.ofTables membersTables)
        (renameUsers membersTables).2 := by
  have hpassed : ∀ tables : List (String × Table), "users" ∈ tables.map Prod.fst →
      (ofTables tables).Passed (renameUsers tables).2
        (moved (ofTables tables).tables "users" "members") := by
    intro tables hmem
    exact Database.renameCollection_passed _ hmem (by decide)
  refine ⟨⟨by decide, fun h => ?_⟩, by decide, fun h => ?_⟩
  · rcases h.atomic _ (hpassed usersTables (by decide)) with hold | hrenamed
    · have husers := congrFun hold "users"
      revert husers
      decide
    · have hgone := hrenamed.gone "users.indexes_metadata" (.inr (.inl rfl))
      revert hgone
      decide
  · have hmixed := (h.unmixed _ (hpassed membersTables (by decide))).1
    revert hmixed
    decide

end

end Smongo

import Smongo.Collection.Effects
import Smongo.Lib.DerivedIndex

/-!
# Documents, row keys and index rows

Documents are stored under the strings of their ids, and B-tree indexes are derived from them.
-/

namespace Smongo

open List OrderedTable Function IndexSpec Statement

def docAt (env : Env) (t : Table) (key : Bytes) : Option Document :=
  (t.get key).bind fun bytes => (env.fromReader bytes).toOption

def Keyed (env : Env) (t : Table) : Prop :=
  ∀ key bytes, t.get key = some bytes → ∃ doc idStr, env.fromReader bytes = .ok doc ∧
    extractIdString env doc = .ok idStr ∧ key = Bytes.utf8 idStr

section

variable {env : Env} {t : Table} {key : Bytes} {doc : Document}

lemma docAt_eq_some_iff :
    docAt env t key = some doc ↔
      ∃ bytes, t.get key = some bytes ∧ env.fromReader bytes = .ok doc := by
  unfold docAt
  rw [Option.bind_eq_some_iff]
  refine exists_congr fun bytes => and_congr_right fun _ => ?_
  cases env.fromReader bytes <;> simp [Except.toOption]

lemma docAt_eq_none_of_get (h : t.get key = none) : docAt env t key = none := by
  rw [docAt, h]
  rfl

lemma Keyed.key_eq (h : Keyed env t) (hdoc : docAt env t key = some doc) :
    key = idKey env doc := by
  obtain ⟨bytes, hget, hread⟩ := docAt_eq_some_iff.mp hdoc
  obtain ⟨doc', idStr, hread', hid, hkey⟩ := h key bytes hget
  rw [hread] at hread'
  cases hread'
  rw [hkey, idKey_of_extractIdString hid]

lemma Keyed.docAt_eq_none_iff (h : Keyed env t) : docAt env t key = none ↔ t.get key = none := by
  refine ⟨fun hnone => ?_, docAt_eq_none_of_get⟩
  by_contra hsome
  obtain ⟨bytes, hget⟩ := Option.ne_none_iff_exists'.mp hsome
  obtain ⟨doc, -, hread, -⟩ := h key bytes hget
  rw [docAt_eq_some_iff.mpr ⟨bytes, hget, hread⟩] at hnone
  cases hnone

lemma forall_docAt_iff {P : Bytes → Document → Prop} :
    (∀ r ∈ t.rows, ∀ doc ∈ docAt env t r.1, P r.1 doc) ↔
      ∀ key doc, docAt env t key = some doc → P key doc := by
  constructor
  · intro h key doc hdoc
    obtain ⟨bytes, hget, -⟩ := docAt_eq_some_iff.mp hdoc
    exact h (key, bytes) (get_eq_some_iff.mp hget) doc hdoc
  · intro h r _ doc hdoc
    exact h r.1 doc hdoc

lemma exists_docAt_iff {P : Bytes → Document → Prop} :
    (∃ r ∈ t.rows, ∃ doc ∈ docAt env t r.1, P r.1 doc) ↔
      ∃ key doc, docAt env t key = some doc ∧ P key doc := by
  constructor
  · rintro ⟨r, -, doc, hdoc, hP⟩
    exact ⟨r.1, doc, hdoc, hP⟩
  · rintro ⟨key, doc, hdoc, hP⟩
    obtain ⟨bytes, hget, -⟩ := docAt_eq_some_iff.mp hdoc
    exact ⟨(key, bytes), get_eq_some_iff.mp hget, doc, hdoc, hP⟩

variable (env) in
def rowKeyed (r : Row) : Bool :=
  match env.fromReader r.2 with
  | .ok doc =>
    match extractIdString env doc with
    | .ok idStr => r.1 = Bytes.utf8 idStr
    | _ => false
  | .error _ => false

lemma rowKeyed_iff {r : Row} : rowKeyed env r = true ↔ ∃ doc idStr,
    env.fromReader r.2 = .ok doc ∧ extractIdString env doc = .ok idStr ∧
      r.1 = Bytes.utf8 idStr := by
  unfold rowKeyed
  cases env.fromReader r.2 with
  | error e => simp
  | ok doc => cases hid : extractIdString env doc <;> simp [hid]

lemma keyed_iff : (∀ r ∈ t.rows, rowKeyed env r = true) ↔ Keyed env t := by
  constructor
  · intro h key bytes hget
    exact rowKeyed_iff.mp (h (key, bytes) (get_eq_some_iff.mp hget))
  · intro h r hr
    exact rowKeyed_iff.mpr (h r.1 r.2 (get_eq_some_iff.mpr hr))

instance : Decidable (Keyed env t) := decidable_of_iff _ keyed_iff

lemma derived_iff {p : Document → Bool} {row : Document → Bytes → Bytes} {idx : Table} :
    ((∀ r ∈ idx.rows, ∃ d ∈ docAt env t r.2, p d ∧ row d r.2 = r.1) ∧
      ∀ r ∈ t.rows, ∀ d ∈ docAt env t r.1, p d → idx.get (row d r.1) = some r.1) ↔
    Derived p row (docAt env t) idx.get := by
  constructor
  · rintro ⟨hsound, hcomplete⟩ r key
    constructor
    · intro hget
      obtain ⟨d, hd, hp, hrow⟩ := hsound (r, key) (get_eq_some_iff.mp hget)
      exact ⟨d, hd, hp, hrow⟩
    · rintro ⟨d, hd, hp, rfl⟩
      exact forall_docAt_iff (P := fun k d => p d → idx.get (row d k) = some k).mp hcomplete
        key d hd hp
  · intro h
    constructor
    · intro r hr
      obtain ⟨d, hd, hp, hrow⟩ := (h r.1 r.2).mp (get_eq_some_iff.mpr hr)
      exact ⟨d, hd, hp, hrow⟩
    · intro r _ d hd hp
      exact (h (row d r.1) r.1).mpr ⟨d, hd, hp, rfl⟩

instance {p : Document → Bool} {row : Document → Bytes → Bytes} {idx : Table} :
    Decidable (Derived p row (docAt env t) idx.get) := decidable_of_iff _ derived_iff

variable (hcodec : env.Codec)
include hcodec

lemma docAt_insert {bytes : Bytes} (hbytes : env.toWriter doc = .ok bytes) :
    docAt env (t.insert key bytes) = update (docAt env t) key (some doc) := by
  funext key'
  rw [Function.update_apply]
  unfold docAt
  rw [get_insert]
  by_cases hkey : key' = key
  · rw [if_pos hkey, if_pos hkey]
    simp [hcodec.document hbytes, Except.toOption]
  · rw [if_neg hkey, if_neg hkey]

omit hcodec in
lemma docAt_erase : docAt env (t.erase key) = update (docAt env t) key none := by
  funext key'
  rw [Function.update_apply]
  unfold docAt
  rw [get_erase]
  by_cases hkey : key' = key
  · rw [if_pos hkey, if_pos hkey]
    rfl
  · rw [if_neg hkey, if_neg hkey]

lemma Keyed.insert (h : Keyed env t) {bytes : Bytes} (hbytes : env.toWriter doc = .ok bytes)
    {idStr : String} (hid : extractIdString env doc = .ok idStr) (hkey : key = Bytes.utf8 idStr) :
    Keyed env (t.insert key bytes) := by
  intro key' bytes' hget
  rw [get_insert] at hget
  by_cases hkey' : key' = key
  · rw [if_pos hkey'] at hget
    cases hget
    exact ⟨doc, idStr, hcodec.document hbytes, hid, hkey'.trans hkey⟩
  · rw [if_neg hkey'] at hget
    exact h key' bytes' hget

omit hcodec in
lemma Keyed.erase (h : Keyed env t) : Keyed env (t.erase key) := by
  intro key' bytes' hget
  rw [get_erase] at hget
  by_cases hkey' : key' = key
  · rw [if_pos hkey'] at hget
    cases hget
  · rw [if_neg hkey'] at hget
    exact h key' bytes' hget

end

/-! ### Document writes -/

namespace DocWrite

def key (env : Env) : DocWrite → Bytes
  | insert doc => idKey env doc
  | replace key _ _ => key
  | delete key _ => key

def Ready (env : Env) (t : Table) : DocWrite → Prop
  | insert _ => True
  | replace key old _ => docAt env t key = some old
  | delete key old => docAt env t key = some old

def KeepsId (env : Env) : DocWrite → Prop
  | insert _ => True
  | replace _ old new => idKey env new = idKey env old
  | delete _ _ => True

variable {env : Env} {t t' : Table} {x : DocWrite}

lemma Data.get_of_ne (h : x.Data env t t') {key : Bytes} (hkey : key ≠ x.key env) :
    t'.get key = t.get key := by
  cases x with
  | insert doc | replace key' old new =>
    obtain ⟨bytes, -, rfl⟩ := h
    rw [get_insert]
    exact if_neg hkey
  | delete key' old =>
    have hdata : t' = t.erase key' := h
    rw [hdata, get_erase]
    exact if_neg hkey

lemma Data.keyed (h : x.Data env t t') (hcodec : env.Codec) (ht : Keyed env t)
    (hready : x.Ready env t) (hid : x.HasId env) (hkeeps : x.KeepsId env) : Keyed env t' := by
  cases x with
  | insert doc =>
    obtain ⟨bytes, hbytes, rfl⟩ := h
    obtain ⟨idStr, hid⟩ := hid
    exact ht.insert hcodec hbytes hid (idKey_of_extractIdString hid)
  | replace key old new =>
    obtain ⟨bytes, hbytes, rfl⟩ := h
    obtain ⟨-, idStr, hid⟩ := hid
    refine ht.insert hcodec hbytes hid ?_
    have hkeep : idKey env new = idKey env old := hkeeps
    rw [ht.key_eq hready, ← hkeep, idKey_of_extractIdString hid]
  | delete key old =>
    have hdata : t' = t.erase key := h
    rw [hdata]
    exact ht.erase

/-- A row that has to go is committed, and a kept key stays on its side of the partial filter. -/
def Maintainable (env : Env) (spec : IndexSpec) (committed : Table) : DocWrite → Prop
  | insert _ => True
  | replace key old new =>
    if specIndexKey env old spec = specIndexKey env new spec then
      spec.covers env old = spec.covers env new
    else spec.covers env old → (committed.get (spec.row env old key)).isSome
  | delete key old => spec.covers env old → (committed.get (spec.row env old key)).isSome

def RowFree (env : Env) (spec : IndexSpec) (t : Table) : DocWrite → Prop
  | insert doc => ∀ k d, docAt env t k = some d →
      spec.row env d k ≠ spec.row env doc (idKey env doc)
  | replace key old new => ∀ k d, k ≠ key → docAt env t k = some d →
      spec.row env d k ≠ spec.row env old key ∧ spec.row env d k ≠ spec.row env new key
  | delete key old => ∀ k d, k ≠ key → docAt env t k = some d →
      spec.row env d k ≠ spec.row env old key

section

variable {spec : IndexSpec} {committed idx : Table} {data : Bytes → Option Document}
  {key : Bytes} {doc : Document} (h : Derived (spec.covers env) (spec.row env) data idx.get)
include h

lemma derived_added (hkey : data key = none)
    (hfree : ∀ k d, data k = some d → spec.row env d k ≠ spec.row env doc key) :
    Derived (spec.covers env) (spec.row env) (update data key (some doc))
      (spec.added env doc key idx).get := by
  unfold added
  split
  · next hcovers =>
    have hget : (idx.insert (spec.row env doc key) key).get =
        update idx.get (spec.row env doc key) (some key) := by
      funext r
      rw [get_insert, Function.update_apply]
      split_ifs <;> rfl
    rw [hget]
    exact h.insert hkey hcovers hfree
  · next hcovers =>
    refine h.keep fun r => ?_
    simp [hkey, hcovers]

lemma derived_removed (hkey : data key = some doc)
    (hfound : spec.covers env doc → (committed.get (spec.row env doc key)).isSome)
    (hfree : ∀ k d, k ≠ key → data k = some d → spec.row env d k ≠ spec.row env doc key) :
    Derived (spec.covers env) (spec.row env) (update data key none)
      (spec.removed env committed doc key idx).get := by
  unfold removed
  split
  · have hget : (idx.erase (spec.row env doc key)).get =
        update idx.get (spec.row env doc key) none := by
      funext r
      rw [get_erase, Function.update_apply]
      split_ifs <;> rfl
    rw [hget]
    exact h.erase hkey hfree
  · next hnotFound =>
    have hcovers : ¬ spec.covers env doc := fun hcovers => hnotFound (hfound hcovers)
    refine h.keep fun r => ?_
    simp [hkey, hcovers]

end

lemma Data.derived (h : x.Data env t t') (hcodec : env.Codec) (ht : Keyed env t)
    (hready : x.Ready env t) (hkeeps : x.KeepsId env) {spec : IndexSpec} {committed idx : Table}
    (hnew : ∀ doc, x = .insert doc → t.get (idKey env doc) = none)
    (hmaintainable : x.Maintainable env spec committed) (hfree : x.RowFree env spec t)
    (hidx : Derived (spec.covers env) (spec.row env) (docAt env t) idx.get) :
    Derived (spec.covers env) (spec.row env) (docAt env t')
      (x.index env spec committed idx).get := by
  cases x with
  | insert doc =>
    obtain ⟨bytes, hbytes, rfl⟩ := h
    rw [docAt_insert hcodec hbytes, index]
    exact derived_added hidx (docAt_eq_none_of_get (hnew doc rfl)) hfree
  | replace key old new =>
    obtain ⟨bytes, hbytes, rfl⟩ := h
    have hkey := ht.key_eq hready
    have hkeep : idKey env new = idKey env old := hkeeps
    have hold : docAt env t key = some old := hready
    rw [docAt_insert hcodec hbytes, index, changed, hkeep, ← hkey]
    change (if specIndexKey env old spec = specIndexKey env new spec then _ else _) at hmaintainable
    split at hmaintainable
    · next hsame =>
      rw [if_pos ⟨hsame, rfl⟩]
      refine hidx.keep fun r => ?_
      simp [hold, hmaintainable, row, hsame]
    · next hdiff =>
      rw [if_neg fun h => hdiff h.1]
      -- the old row goes and then the new one comes
      have hremoved := derived_removed hidx hold hmaintainable fun k d hk hd => (hfree k d hk hd).1
      have hfreeNew : ∀ k d, update (docAt env t) key none k = some d →
          spec.row env d k ≠ spec.row env new key := by
        intro k d hd
        rw [Function.update_apply] at hd
        split at hd
        · cases hd
        · next hk => exact (hfree k d hk hd).2
      have hadded := derived_added hremoved (by rw [update_self]) hfreeNew
      rwa [update_idem] at hadded
  | delete key old =>
    have hdata : t' = t.erase key := h
    rw [hdata, docAt_erase, index, ← ht.key_eq hready]
    exact derived_removed hidx hready hmaintainable hfree

def Fresh (env : Env) (t : Table) : DocWrite → Prop
  | insert doc => t.get (idKey env doc) = none
  | replace _ _ _ => True
  | delete _ _ => True

def Within (env : Env) (W : Bytes → Document → Prop) : DocWrite → Prop
  | insert doc => W (idKey env doc) doc
  | replace key _ new => W key new
  | delete _ _ => True

lemma Ready.congr (h : x.Ready env t) (hget : t'.get (x.key env) = t.get (x.key env)) :
    x.Ready env t' := by
  cases x with
  | insert doc => trivial
  | replace key old new | delete key old =>
    have hold : docAt env t key = some old := h
    rw [docAt, ← show t'.get key = t.get key from hget] at hold
    exact hold

lemma Fresh.congr (h : x.Fresh env t) (hget : t'.get (x.key env) = t.get (x.key env)) :
    x.Fresh env t' := by
  cases x with
  | insert doc => exact hget.trans h
  | replace key old new | delete key old => trivial

lemma Data.stored_within (h : x.Data env t t') (hcodec : env.Codec) {W : Bytes → Document → Prop}
    (hx : x.Within env W) (hstored : ∀ k d, docAt env t k = some d → W k d) :
    ∀ k d, docAt env t' k = some d → W k d := by
  intro k d hd
  cases x with
  | insert doc | replace key old new =>
    obtain ⟨bytes, hbytes, rfl⟩ := h
    rw [docAt_insert hcodec hbytes, Function.update_apply] at hd
    split at hd
    · next hk =>
      cases hd
      exact hk ▸ hx
    · exact hstored k d hd
  | delete key old =>
    have hdata : t' = t.erase key := h
    rw [hdata, docAt_erase, Function.update_apply] at hd
    split at hd
    · cases hd
    · exact hstored k d hd

end DocWrite

def Apart (env : Env) (specs : List IndexSpec) (W : Bytes → Document → Prop) : Prop :=
  ∀ spec ∈ specs, spec.IsBTree → ∀ k d k' d', W k d → W k' d' → k ≠ k' →
    spec.row env d k ≠ spec.row env d' k'

lemma apart_of_length {env : Env} {W : Bytes → Document → Prop} {n : ℕ}
    (h : ∀ k d, W k d → k.length = n) (specs : List IndexSpec) : Apart env specs W := by
  intro spec _ _ k d k' d' hd hd' hne hrow
  exact hne (append_inj_right' hrow ((h k d hd).trans (h k' d' hd').symm))

lemma Apart.rowFree {env : Env} {specs : List IndexSpec} {W : Bytes → Document → Prop}
    (h : Apart env specs W) {t : Table} (hstored : ∀ k d, docAt env t k = some d → W k d)
    {x : DocWrite} (hx : x.Within env W) (hready : x.Ready env t) (hfresh : x.Fresh env t)
    {spec : IndexSpec} (hmem : spec ∈ specs) (htree : spec.IsBTree) : x.RowFree env spec t := by
  cases x with
  | insert doc =>
    intro k d hd
    refine h spec hmem htree k d _ doc (hstored k d hd) hx ?_
    rintro rfl
    rw [docAt_eq_none_of_get hfresh] at hd
    cases hd
  | replace key old new =>
    intro k d hk hd
    have hold := hstored key old hready
    exact ⟨h spec hmem htree k d key old (hstored k d hd) hold hk,
      h spec hmem htree k d key new (hstored k d hd) hx hk⟩
  | delete key old =>
    intro k d hk hd
    exact h spec hmem htree k d key old (hstored k d hd) (hstored key old hready) hk

/-- In the tables, documents are stored under their ids and B-tree indexes are derived from the
documents. -/
structure Sound (env : Env) (c : Handle) (specs : List IndexSpec) (tables : String → Table) :
    Prop where
  keyed : Keyed env (tables c.tableName)
  derived : ∀ spec ∈ specs, spec.IsBTree → Derived (spec.covers env) (spec.row env)
    (docAt env (tables c.tableName)) (tables (c.indexTable spec.name)).get

instance (env : Env) (c : Handle) (specs : List IndexSpec) (tables : String → Table) :
    Decidable (Sound env c specs tables) :=
  decidable_of_iff (Keyed env (tables c.tableName) ∧ ∀ spec ∈ specs, spec.IsBTree →
    Derived (spec.covers env) (spec.row env) (docAt env (tables c.tableName))
      (tables (c.indexTable spec.name)).get)
    ⟨fun h => ⟨h.1, h.2⟩, fun h => ⟨h.keyed, h.derived⟩⟩

section

variable {env : Env} {c : Handle} {specs kept : List IndexSpec} {w w' : RedbWorld}
  {x : DocWrite} {xs : List DocWrite}

lemma Still.sound (h : Still env c specs w w') (hs : Sound env c kept w.view) :
    Sound env c kept w'.view where
  keyed := h.data ▸ hs.keyed
  derived spec hmem htree := by
    rw [h.data, h.index]
    exact hs.derived spec hmem htree

lemma WroteAll.keyed (hcodec : env.Codec) (h : WroteAll env c specs xs w w')
    (hw : Keyed env (w.view c.tableName))
    (hkeys : xs.Pairwise fun x y => x.key env ≠ y.key env ∨ ∃ doc, y = .insert doc)
    (hxs : ∀ x ∈ xs, x.Ready env (w.view c.tableName) ∧ x.KeepsId env) :
    Keyed env (w'.view c.tableName) := by
  induction xs generalizing w with
  | nil =>
    have hstill : Still env c specs w w' := h
    rw [hstill.data]
    exact hw
  | cons x xs ih =>
    obtain ⟨w₁, hx, hrest⟩ := h
    obtain ⟨hhead, htail⟩ := pairwise_cons.mp hkeys
    obtain ⟨hready, hkeeps⟩ := hxs x mem_cons_self
    refine ih hrest (hx.data.keyed hcodec hw hready hx.hasId hkeeps) htail fun y hy => ?_
    obtain ⟨hready', hkeeps'⟩ := hxs y (mem_cons_of_mem x hy)
    refine ⟨?_, hkeeps'⟩
    rcases hhead y hy with hne | ⟨doc, rfl⟩
    · exact hready'.congr (hx.data.get_of_ne hne.symm)
    · trivial

lemma WroteAll.sound (hcodec : env.Codec) (hkept : kept ⊆ specs) {W : Bytes → Document → Prop}
    (hapart : Apart env kept W) (h : WroteAll env c specs xs w w') (hs : Sound env c kept w.view)
    (hstored : ∀ k d, docAt env (w.view c.tableName) k = some d → W k d)
    (hkeys : (xs.map (DocWrite.key env)).Nodup)
    (hxs : ∀ x ∈ xs, x.Ready env (w.view c.tableName) ∧ x.Fresh env (w.view c.tableName) ∧
      x.KeepsId env ∧ x.Within env W ∧ ∀ spec ∈ kept, spec.IsBTree →
        x.Maintainable env spec (w.committed (c.indexTable spec.name))) :
    Sound env c kept w'.view ∧ ∀ k d, docAt env (w'.view c.tableName) k = some d → W k d := by
  induction xs generalizing w with
  | nil =>
    have hstill : Still env c specs w w' := h
    exact ⟨hstill.sound hs, hstill.data ▸ hstored⟩
  | cons x xs ih =>
    obtain ⟨w₁, hx, hrest⟩ := h
    obtain ⟨hhead, htail⟩ := nodup_cons.mp hkeys
    obtain ⟨hready, hfresh, hkeeps, hwithin, hmaintainable⟩ := hxs x mem_cons_self
    have hs₁ : Sound env c kept w₁.view := by
      refine ⟨hx.data.keyed hcodec hs.keyed hready hx.hasId hkeeps, fun spec hmem htree => ?_⟩
      rw [hx.index.bTree spec (hkept hmem) htree]
      refine hx.data.derived hcodec hs.keyed hready hkeeps ?_ (hmaintainable spec hmem htree)
        (hapart.rowFree hstored hwithin hready hfresh hmem htree) (hs.derived spec hmem htree)
      rintro doc rfl
      exact hfresh
    refine ih hrest hs₁ (hx.data.stored_within hcodec hwithin hstored) htail fun y hy => ?_
    obtain ⟨hready', hfresh', hkeeps', hwithin', hmaintainable'⟩ := hxs y (mem_cons_of_mem x hy)
    have hne : y.key env ≠ x.key env := fun heq => hhead (heq ▸ mem_map_of_mem hy)
    have hget := hx.data.get_of_ne hne
    refine ⟨hready'.congr hget, hfresh'.congr hget, hkeeps', hwithin', fun spec hmem htree => ?_⟩
    rw [World.committed, hx.db]
    exact hmaintainable' spec hmem htree

end

section

variable {env : Env} {c : Handle} {specs kept : List IndexSpec} {w w' : RedbWorld} {st : Statement}

lemma mem_hits {filter : Document} {rows : Rows} {t : Bytes × Document} :
    t ∈ hits env filter rows ↔ ∃ bytes, (t.1, bytes) ∈ rows ∧ env.fromReader bytes = .ok t.2 ∧
      evalQuery env t.2 filter = .ok true := by
  rw [hits, mem_filterMap]
  constructor
  · rintro ⟨⟨key, bytes⟩, hmem, heq⟩
    split at heq
    · next doc hdoc =>
      split at heq
      · next hit =>
        cases heq
        exact ⟨bytes, hmem, hdoc, hit⟩
      · cases heq
    · cases heq
  · rintro ⟨bytes, hmem, hdoc, hit⟩
    exact ⟨(t.1, bytes), hmem, by simp [hdoc, hit]⟩

lemma hits_keys_sublist (filter : Document) (rows : Rows) :
    ((hits env filter rows).map Prod.fst).Sublist (rows.map Prod.fst) := by
  induction rows with
  | nil => exact .refl _
  | cons row rows ih =>
    rw [hits, filterMap_cons]
    split
    · exact ih.trans (sublist_cons_self _ _)
    · next t ht =>
      have hkey : t.1 = row.1 := by
        split at ht
        · split at ht <;> cases ht
          rfl
        · cases ht
      rw [map_cons, map_cons, hkey]
      exact ih.cons_cons row.1

lemma get_of_mem_rows {row : Row} (h : row ∈ w.rows c) :
    (w.view c.tableName).get row.1 = some row.2 := by
  unfold World.rows RedbCursor.shown at h
  split at h
  · cases h
  · exact get_eq_some_iff.mpr h

namespace Statement

variable (env c w) in
lemma targets_sublist (st : Statement) : ∃ filter,
    (st.targets env c w).Sublist (hits env filter (w.rows c)) := by
  cases st with
  | insertOne document internal | insertMany documents internal => exact ⟨[], nil_sublist _⟩
  | updateOne filter update options => exact ⟨filter, take_sublist 1 _⟩
  | updateMany filter update options => exact ⟨filter, .refl _⟩
  | deleteOne filter internal => exact ⟨filter, take_sublist 1 _⟩
  | deleteMany filter internal => exact ⟨filter, .refl _⟩

lemma docAt_of_mem_targets {t : Bytes × Document} (h : t ∈ st.targets env c w) :
    docAt env (w.view c.tableName) t.1 = some t.2 := by
  obtain ⟨filter, hsub⟩ := st.targets_sublist env c w
  obtain ⟨bytes, hrow, hread, -⟩ := mem_hits.mp (hsub.subset h)
  exact docAt_eq_some_iff.mpr ⟨bytes, get_of_mem_rows hrow, hread⟩

lemma nodup_targets (st : Statement) : ((st.targets env c w).map Prod.fst).Nodup := by
  obtain ⟨filter, hsub⟩ := st.targets_sublist env c w
  have hrows : ((w.rows c).map Prod.fst).Nodup := by
    refine List.Pairwise.map _ ?_ (RedbCursor.shown_sorted w.session c.tableName)
    intro a b hab heq
    exact absurd hab (heq ▸ lt_irrefl (α := Bytes) b.1)
  exact ((hsub.map Prod.fst).trans (hits_keys_sublist filter _)).nodup hrows

lemma Touches.cases {t : Bytes × Document} {x : DocWrite} (h : st.Touches env t x) :
    (∃ new, x = .replace t.1 t.2 new) ∨ x = .delete t.1 t.2 := by
  cases st with
  | insertOne document internal | insertMany documents internal => exact h.elim
  | updateOne filter update options | updateMany filter update options =>
    obtain ⟨tick, new, -, hx⟩ := h
    exact .inl ⟨new, hx⟩
  | deleteOne filter internal | deleteMany filter internal => exact .inr h

lemma Touches.facts {t : Bytes × Document} {x : DocWrite} (h : st.Touches env t x) (table : Table)
    (ht : docAt env table t.1 = some t.2) :
    x.key env = t.1 ∧ x.Ready env table ∧ x.Fresh env table := by
  rcases h.cases with ⟨new, rfl⟩ | rfl
  · exact ⟨rfl, ht, trivial⟩
  · exact ⟨rfl, ht, trivial⟩

section

variable {ts : List (Bytes × Document)} {ys : List DocWrite}
  (h : List.Forall₂ (fun t x => st.Touches env t x) ts ys)
include h

lemma touched_keys (hts : ∀ t ∈ ts, t ∈ st.targets env c w) :
    ys.map (DocWrite.key env) = ts.map Prod.fst := by
  induction h with
  | nil => rfl
  | cons hx _ ih =>
    have hfacts := hx.facts _ (docAt_of_mem_targets (hts _ mem_cons_self))
    rw [map_cons, map_cons, hfacts.1, ih fun t ht => hts t (mem_cons_of_mem _ ht)]

lemma touched_mem {y : DocWrite} (hy : y ∈ ys) :
    ∃ t ∈ ts, st.Touches env t y := by
  induction h with
  | nil => cases hy
  | cons hx _ ih =>
    rcases mem_cons.mp hy with rfl | hy
    · exact ⟨_, mem_cons_self, hx⟩
    · obtain ⟨t, ht, hty⟩ := ih hy
      exact ⟨t, mem_cons_of_mem _ ht, hty⟩

end

def KeepsIds (env : Env) (c : Handle) (w : RedbWorld) (st : Statement) : Prop :=
  ∀ t ∈ st.targets env c w, ∀ x, st.Touches env t x → x.KeepsId env

def SparesId : Statement → Prop
  | updateOne _ update _ => Untouched "_id" update
  | updateMany _ update _ => Untouched "_id" update
  | _ => True

lemma idKey_of_applyUpdate {tick : ℕ} {update old new : Document}
    (h : Untouched "_id" update) (hnew : applyUpdate env tick old update = .ok new) :
    idKey env new = idKey env old := by
  rw [idKey, applyUpdateImpl_get h hnew, idKey]

lemma keepsIds_of_sparesId (h : st.SparesId) : st.KeepsIds env c w := by
  intro t ht x hx
  cases st with
  | insertOne document internal | insertMany documents internal => exact hx.elim
  | updateOne filter update options | updateMany filter update options =>
    obtain ⟨tick, new, hnew, rfl⟩ := hx
    exact idKey_of_applyUpdate h hnew
  | deleteOne filter internal | deleteMany filter internal =>
    cases hx
    trivial

def Pair (env : Env) (c : Handle) (w : RedbWorld) (st : Statement) (k : Bytes)
    (d : Document) : Prop :=
  docAt env (w.view c.tableName) k = some d ∨
    (∃ t ∈ st.targets env c w, ∃ old, st.Touches env t (.replace k old d)) ∨
    d ∈ st.inserts env c w ∧ k = idKey env d

/-- Inserts use ids that are not taken, updates keep ids, and no two documents share a row. -/
structure Tidy (env : Env) (c : Handle) (specs : List IndexSpec) (w : RedbWorld)
    (st : Statement) : Prop where
  fresh : ∀ doc ∈ st.inserts env c w, (w.view c.tableName).get (idKey env doc) = none
  distinct : ((st.inserts env c w).map (idKey env)).Nodup
  keepsIds : st.KeepsIds env c w
  apart : Apart env specs (st.Pair env c w)

/-- With id strings of one length, inserts under new ids and updates that keep ids are tidy. -/
lemma tidy_of_length {n : ℕ} (specs : List IndexSpec)
    (hstored : ∀ r ∈ (w.view c.tableName).rows, r.1.length = n)
    (hinserts : ∀ doc ∈ st.inserts env c w, (w.view c.tableName).get (idKey env doc) = none ∧
      (idKey env doc).length = n)
    (hdistinct : ((st.inserts env c w).map (idKey env)).Nodup) (hkeeps : st.KeepsIds env c w) :
    st.Tidy env c specs w where
  fresh doc hdoc := (hinserts doc hdoc).1
  distinct := hdistinct
  keepsIds := hkeeps
  apart := by
    have hlength : ∀ k d, docAt env (w.view c.tableName) k = some d → k.length = n := by
      intro k d hd
      obtain ⟨bytes, hget, -⟩ := docAt_eq_some_iff.mp hd
      exact hstored (k, bytes) (get_eq_some_iff.mp hget)
    refine apart_of_length (n := n) (fun k d hpair => ?_) specs
    rcases hpair with hd | ⟨t, ht, old, htouch⟩ | ⟨hd, rfl⟩
    · exact hlength k d hd
    · rcases htouch.cases with ⟨new, hx⟩ | hx
      · cases hx
        exact hlength t.1 t.2 (docAt_of_mem_targets ht)
      · cases hx
    · exact (hinserts d hd).2

/-- A tidy statement for which index maintenance finds what it has to remove. -/
structure Clean (env : Env) (c : Handle) (specs : List IndexSpec) (w : RedbWorld)
    (st : Statement) : Prop extends Tidy env c specs w st where
  maintainable : ∀ t ∈ st.targets env c w, ∀ x, st.Touches env t x → ∀ spec ∈ specs,
    spec.IsBTree → x.Maintainable env spec (w.committed (c.indexTable spec.name))

section

variable (hcodec : env.Codec) (hsep : c.Separate) (hnames : (specs.map name).Nodup)
  (hw : w.session.inTransaction = true) (hlisted : listed env c w = .ok specs) {reply : Reply}
  (hrun : st.exec env c w = (.ok reply, w'))
include hcodec hsep hnames hw hlisted hrun

lemma exec_keyed (hkeyed : Keyed env (w.view c.tableName)) (hkeeps : st.KeepsIds env c w) :
    Keyed env (w'.view c.tableName) := by
  obtain ⟨xs, ⟨ts, ys, hsub, hacts, rfl⟩, hwrote⟩ := exec_performs hsep hnames hw hlisted hrun
  refine hwrote.keyed hcodec hkeyed ?_ fun x hx => ?_
  · have hys : (ys.map (DocWrite.key env)).Nodup := by
      rw [touched_keys hacts fun t ht => hsub.subset ht]
      exact (hsub.map Prod.fst).nodup st.nodup_targets
    refine pairwise_append.mpr ⟨(pairwise_map.mp hys).imp .inl, ?_, ?_⟩
    · exact pairwise_map.mpr (pairwise_of_forall fun _ doc => .inr ⟨doc, rfl⟩)
    · intro x _ y hy
      obtain ⟨doc, -, rfl⟩ := mem_map.mp hy
      exact .inr ⟨doc, rfl⟩
  · rcases mem_append.mp hx with hx | hx
    · obtain ⟨t, ht, htouch⟩ := touched_mem hacts hx
      have htarget := hsub.subset ht
      exact ⟨(htouch.facts _ (docAt_of_mem_targets htarget)).2.1, hkeeps t htarget x htouch⟩
    · obtain ⟨doc, -, rfl⟩ := mem_map.mp hx
      exact ⟨trivial, trivial⟩

lemma exec_sound (hkept : kept ⊆ specs) (hs : Sound env c kept w.view)
    (hclean : st.Clean env c kept w) : Sound env c kept w'.view ∧
      ∀ k d, docAt env (w'.view c.tableName) k = some d → st.Pair env c w k d := by
  obtain ⟨xs, ⟨ts, ys, hsub, hacts, rfl⟩, hwrote⟩ := exec_performs hsep hnames hw hlisted hrun
  refine hwrote.sound hcodec hkept hclean.apart hs (fun k d hd => .inl hd) ?_ fun x hx => ?_
  · have hkeys := touched_keys hacts fun t ht => hsub.subset ht
    rw [map_append, map_map, hkeys]
    refine nodup_append'.mpr ⟨(hsub.map Prod.fst).nodup st.nodup_targets, hclean.distinct, ?_⟩
    -- the key of a target is taken, the key of an inserted document is not
    intro key hkey hkey'
    obtain ⟨t, ht, rfl⟩ := mem_map.mp hkey
    obtain ⟨doc, hdoc, hkeyEq⟩ := mem_map.mp hkey'
    have hnone : docAt env _ _ = none := docAt_eq_none_of_get (hclean.fresh doc hdoc)
    rw [show idKey env doc = t.1 from hkeyEq, docAt_of_mem_targets (hsub.subset ht)] at hnone
    cases hnone
  · rcases mem_append.mp hx with hx | hx
    · obtain ⟨t, ht, htouch⟩ := touched_mem hacts hx
      have htarget := hsub.subset ht
      obtain ⟨-, hready, hfresh⟩ := htouch.facts _ (docAt_of_mem_targets htarget)
      refine ⟨hready, hfresh, hclean.keepsIds t htarget x htouch, ?_,
        hclean.maintainable t htarget x htouch⟩
      rcases htouch.cases with ⟨new, rfl⟩ | rfl
      · exact .inr (.inl ⟨t, htarget, t.2, htouch⟩)
      · trivial
    · obtain ⟨doc, hdoc, rfl⟩ := mem_map.mp hx
      exact ⟨trivial, hclean.fresh doc hdoc, trivial, .inr (.inr ⟨hdoc, rfl⟩), fun _ _ _ => trivial⟩

end

end Statement

lemma view_begin (w : RedbWorld) : w.begin.view = w.committed := rfl

lemma committed_commit (hw : w.session.inTransaction = true) : w.commit.committed = w.view := by
  funext name
  exact w.session.commitTransaction_table_eq_view name hw

/-- A transaction of clean statements commits documents and B-tree indexes that are in step. -/
theorem transaction_keeps_indexes {α : Type} (hcodec : env.Codec) (hsep : c.Separate)
    (hnames : (specs.map name).Nodup) (hlisted : listed env c w.begin = .ok specs)
    (hsound : Sound env c specs w.committed) (closure : Script Statement Reply CollectionError α)
    (hprop : closure.Propagates) (hclean : closure.Guarded (exec env c)
      (fun w st => st.Clean env c specs w) w.begin) {a : α}
    (hrun : withTransaction (closure.run (exec env c)) w = (.ok a, w')) :
    Sound env c specs w'.committed := by
  rw [withTransaction_eq] at hrun
  rcases hclosure : closure.run (exec env c) w.begin with ⟨b | e | _, w₁⟩ <;>
    rw [hclosure] at hrun <;> cases hrun
  -- inside the transaction the session's view is sound after every statement
  have hinv := closure.run_invariant (I := fun w => w.session.inTransaction = true ∧
      listed env c w = .ok specs ∧ Sound env c specs w.view) ?_ hprop
    ⟨rfl, hlisted, (view_begin w).symm ▸ hsound⟩ hclean hclosure
  · obtain ⟨htx, -, hsound₁⟩ := hinv
    rw [committed_commit htx]
    exact hsound₁
  · rintro w st reply w' ⟨htx, hlisted, hsound⟩ hclean hexec
    obtain ⟨xs, -, hwrote⟩ := exec_performs hsep hnames htx hlisted hexec
    exact ⟨hwrote.inTransaction, hwrote.listed, (exec_sound hcodec hsep hnames htx
      hlisted hexec (List.Subset.refl specs) hsound hclean).1⟩

end

namespace Sample

def one : RedbWorld := indexed ascending (.int32 1) (.string "x")

def setA (value : String) : Statement := set (.int32 1) "a" (.string value)

def insertSecond : Statement := insert (.int32 2) (.string "x")

lemma insertSecond_clean : insertSecond.Clean env handle [ascending] one.begin where
  toTidy := tidy_of_length (n := 1) _ (by decide) (by decide)
    (by decide) (keepsIds_of_sparesId trivial)
  maintainable t ht := by cases ht

lemma setA_clean (value : String) {w : RedbWorld}
    (hkeys : ∀ r ∈ (w.view "t").rows, r.1.length = 1)
    (htargets : ∀ t ∈ (setA value).targets env handle w,
      ((w.committed "t.idx_a_1").get (ascending.row env t.2 t.1)).isSome) :
    (setA value).Clean env handle [ascending] w where
  toTidy := tidy_of_length (n := 1) _ hkeys nofun .nil
    (keepsIds_of_sparesId (untouched_set (by decide) _))
  maintainable t ht x hx spec hspec _ := by
    rw [mem_singleton] at hspec
    subst hspec
    obtain ⟨tick, new, -, rfl⟩ := hx
    change (if _ then ascending.covers env t.2 = ascending.covers env new
      else ascending.covers env t.2 → _)
    split
    · rfl
    · exact fun _ => htargets t ht

end Sample

section

open Sample

theorem transaction_keeps_indexes_insert_update :
    let closure : Script Statement Reply CollectionError Unit :=
      .inOrder [insertSecond, setA "y"] (.ok ())
    let result := withTransaction (closure.run (exec env handle)) one
    result.1 = .ok () ∧ Sound env handle [ascending] result.2.committed := by
  intro closure result
  have hok : result.1 = .ok () := rfl
  refine ⟨hok, ?_⟩
  refine transaction_keeps_indexes codec separate (by decide)
    (by decide) (by decide) closure (Script.propagates_inOrder _ _) ?_
    (Prod.ext hok rfl)
  refine Script.guarded_inOrder ⟨insertSecond_clean, ?_, trivial⟩
  exact setA_clean "y" (by decide) (by decide)

/-- The second update of a document does not find the row that the first one added, and leaves
it behind. -/
theorem second_update_leaves_row :
    let closure : Script Statement Reply CollectionError Unit :=
      .inOrder [setA "y", setA "z"] (.ok ())
    let result := withTransaction (closure.run (exec env handle)) one
    Sound env handle [ascending] one.committed ∧ result.1 = .ok () ∧
      ¬ Sound env handle [ascending] result.2.committed := by
  decide +kernel

end

end Smongo

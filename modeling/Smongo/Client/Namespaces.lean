import Smongo.Client.Transactions
import Smongo.Collection.Locality

/-!
# Namespaces

The names of a collection's tables are its own name, alone or with a dot and more behind it.
-/

namespace Smongo

open Eff List

namespace LocalCollection

variable (coll : LocalCollection)

def Shows (table : String) : Prop :=
  table = coll.name ∨ table = coll.handle.metadataTable ∨ ∃ name, coll.handle.OfIndex name table

def Touches (table : String) : Prop := table = coll.name ∨ coll.IndexTable table

def Apart (coll₁ coll₂ : LocalCollection) : Prop :=
  ∀ table, coll₁.Touches table → ¬coll₂.Shows table

lemma reads_handle : coll.handle.Reads coll.Shows :=
  ⟨.inl rfl, .inr (.inl rfl), fun name _ ht => .inr (.inr ⟨name, ht⟩)⟩

lemma reads_viewHandle : coll.viewHandle.Reads coll.Shows :=
  ⟨.inl rfl, .inr (.inl rfl), fun name _ ht => .inr (.inr ⟨name, ht⟩)⟩

lemma touches_index (name t : String)
    (ht : coll.handle.OfIndex name t) : coll.Touches t := .inr (.inr (.inl ⟨name, ht⟩))

lemma touches_oplog : coll.handle.OplogIn coll.Touches := by
  intro cfg hcfg
  cases hcfg
  exact .inr (.inr (.inr rfl))

def Under (name table : String) : Prop := table = name ∨ startsWith (name ++ ".") table = true

instance (name table : String) : Decidable (Under name table) := inferInstanceAs (Decidable (_ ∨ _))

lemma under_append (name kind rest : String) : Under name (name ++ ("." ++ kind) ++ rest) :=
  .inr (startsWith_iff.mpr ⟨kind ++ rest, by simp only [String.append_assoc]⟩)

lemma under_ofIndex {coll : LocalCollection} {name t : String}
    (h : coll.handle.OfIndex name t) : Under coll.name t := by
  rcases h with rfl | rfl | rfl
  · exact under_append coll.name "idx_" name
  · exact under_append coll.name "ftx_" name
  · exact under_append coll.name "pfx_" name

lemma under_metadataTable : Under coll.name coll.handle.metadataTable := by
  have h := under_append coll.name "indexes_metadata" ""
  rwa [String.append_empty] at h

lemma Shows.under {coll : LocalCollection} {t : String} (h : coll.Shows t) :
    Under coll.name t := by
  rcases h with rfl | rfl | ⟨name, hname⟩
  · exact .inl rfl
  · exact under_metadataTable coll
  · exact under_ofIndex hname

lemma Under.comparable {a b t : String} (ha : Under a t) (hb : Under b t) :
    Under a b ∨ Under b a := by
  rcases ha with rfl | ha
  · exact .inr hb
  rcases hb with rfl | hb
  · exact .inl (.inr ha)
  have hdot : ∀ {x y : String}, x.toList ++ ['.'] <+: y.toList ++ ['.'] → Under x y := by
    intro x y h
    rcases prefix_concat_iff.mp h with heq | hpre
    · exact .inl (String.toList_inj.mp (append_cancel_right heq)).symm
    · refine .inr ( isPrefixOf_iff_prefix.mpr ?_)
      rwa [String.toList_append]
  unfold startsWith at ha hb
  rw [ isPrefixOf_iff_prefix, String.toList_append] at ha hb
  exact ( prefix_or_prefix_of_prefix ha hb).imp hdot hdot

/-- Different names are apart, unless one continues the other after a dot or names an oplog. -/
lemma apart_of_names {coll₁ coll₂ : LocalCollection} (h₁ : ¬Under coll₁.name coll₂.name)
    (h₂ : ¬Under coll₂.name coll₁.name) (hoplog : ¬Under coll₂.name coll₁.oplogTable) :
    coll₁.Apart coll₂ := by
  have hnot : ∀ t, Under coll₁.name t → ¬coll₂.Shows t := by
    intro t ht hshows
    rcases ht.comparable hshows.under with h | h
    · exact h₁ h
    · exact h₂ h
  rintro t (rfl | rfl | ⟨name, hname⟩ | rfl)
  · exact hnot _ (.inl rfl)
  · exact hnot _ (under_metadataTable coll₁)
  · exact hnot _ (under_ofIndex hname)
  · exact fun hshows => hoplog hshows.under

end LocalCollection

def keeping (P : String → Prop) : Frame RedbWorld where
  rel w w' := RedbSession.SameOn (fun name => ¬P name) w.session w'.session
  refl w := .refl w.session
  trans h h' := h.trans h'

lemma admits_keeping (env : Env) (c : Handle) (P : String → Prop) :
    Admits env c P (keeping P) where
  draw w := .refl w.session
  list w _ _ _ := .refl w.session
  notify w _ _ _ _ := .refl w.session
  write w name op hname := by
    have hne : ∀ name', ¬P name' → name' ≠ name := fun name' hname' h => hname' (h ▸ hname)
    simp only [RedbSession.doWrite, modify_apply]
    split
    · refine ⟨rfl, fun _ _ => rfl, fun name' hname' => ?_⟩
      rw [OrderedTable.get_insert, if_neg (hne name' hname')]
    · refine ⟨rfl, fun name' hname' => ?_, fun _ _ => rfl⟩
      exact (Function.update_of_ne (hne name' hname') _ _).symm

namespace LocalClient

variable {env : Env} {geometry : Geometry} {k k' : LocalClient} {coll : LocalCollection} {α : Type}
  {P W : String → Prop}

def current (k : LocalClient) : RedbSession :=
  match k.txnSlot with
  | some ts => k.session ts
  | none => ⟨k.db, false, .empty, []⟩

/-- The clients differ at most in tables outside `P` and, as long as there is nothing to write, in
the fresh values to come. -/
structure SameOn (P W : String → Prop) (k k' : LocalClient) : Prop where
  slot : k.txnSlot.isSome = k'.txnSlot.isSome
  session : RedbSession.SameOn P k.current k'.current
  ticks : ∀ name, W name → k.ticks = k'.ticks

lemma SameOn.refl (k : LocalClient) : SameOn P W k k := ⟨rfl, .refl _, fun _ _ => rfl⟩

lemma SameOn.trans {k'' : LocalClient} (h : SameOn P W k k') (h' : SameOn P W k' k'') :
    SameOn P W k k'' where
  slot := h.slot.trans h'.slot
  session := h.session.trans h'.session
  ticks name hname := (h.ticks name hname).trans (h'.ticks name hname)

lemma respects_openEngine (c : Handle) :
    Respects (World.SameOn P W) (openEngine c) := by
  refine (respects_createTable _).bind fun _ _ => ?_
  cases c.oplog with
  | none => exact .pure trivial
  | some cfg => exact respects_createTable _

lemma respects_onEngine {m : RedbOp α} (hm : Respects (World.SameOn P W) m)
    (hk : k.txnSlot = none) (hk' : k'.txnSlot = none) (h : SameOn P W k k') :
    (onEngine coll m k).1 = (onEngine coll m k').1 ∧
      SameOn P W (onEngine coll m k).2 (onEngine coll m k').2 := by
  have hsession := h.session
  rw [current, current, hk, hk'] at hsession
  obtain ⟨-, hopen, -⟩ := respects_openEngine coll.handle _ _
    (⟨hsession, rfl, h.ticks⟩ : World.SameOn P W (k.db.world k.ticks) (k'.db.world k'.ticks))
  obtain ⟨houtcome, hend, -⟩ := hm _ _ hopen
  rw [onEngine_of_none hk, onEngine_of_none hk']
  refine ⟨congrArg (Outcome.mapError ClientError.collectionError) houtcome, h.slot, ?_, hend.ticks⟩
  rw [current, current, hk, hk']
  exact ⟨rfl, hend.session.tables, fun _ _ => rfl⟩

lemma respects_onView {m : RedbOp α} (hm : Respects (World.SameOn P W) m)
    {ts ts' : TransactionSession} (hk : k.txnSlot = some ts) (hk' : k'.txnSlot = some ts')
    (h : SameOn P W k k') :
    (onView coll ts m k).1 = (onView coll ts' m k').1 ∧
      SameOn P W (onView coll ts m k).2 (onView coll ts' m k').2 := by
  have hsession := h.session
  rw [current, current, hk, hk'] at hsession
  obtain ⟨houtcome, hend, -⟩ := ((respects_createTable _).bind fun _ _ => hm) _ _
    (⟨hsession, rfl, h.ticks⟩ :
      World.SameOn P W ⟨k.session ts, none, k.ticks, {}⟩ ⟨k'.session ts', none, k'.ticks, {}⟩)
  exact ⟨congrArg (Outcome.mapError ClientError.collectionError) houtcome, rfl, hend.session,
    hend.ticks⟩

lemma respects_route {view engine : RedbOp α} (refusal : Option String)
    (hview : Respects (World.SameOn P W) view) (hengine : Respects (World.SameOn P W) engine) :
    Respects (SameOn P W) (route coll refusal view engine) := by
  intro k k' h
  have hslot := h.slot
  cases hk : k.txnSlot with
  | none =>
    cases hk' : k'.txnSlot with
    | none =>
      rw [route_of_none hk, route_of_none hk']
      obtain ⟨houtcome, hend⟩ := respects_onEngine hengine hk hk' h
      exact ⟨houtcome, hend, fun _ _ => trivial⟩
    | some ts' => rw [hk, hk'] at hslot; cases hslot
  | some ts =>
    cases hk' : k'.txnSlot with
    | none => rw [hk, hk'] at hslot; cases hslot
    | some ts' =>
      rw [route, route, hk, hk']
      cases refusal with
      | some msg => exact ⟨rfl, h, fun _ _ => trivial⟩
      | none =>
        obtain ⟨houtcome, hend⟩ := respects_onView hview hk hk' h
        exact ⟨houtcome, hend, fun _ _ => trivial⟩

lemma onEngineOnly_eq_route (call : String) (coll : LocalCollection) (m : RedbOp α) :
    onEngineOnly call coll m =
      route coll (some (call ++ " not supported during multi-document transaction")) m m := by
  funext k
  rw [onEngineOnly, route]

lemma respects_query (env : Env) (geometry : Geometry) (coll : LocalCollection) (q : Query) :
    Respects (SameOn coll.Shows fun _ => False) (query env geometry coll q) :=
  respects_route _ (q.uses_execView coll.reads_viewHandle).respects
    (q.uses_exec coll.reads_handle).respects

section

variable (env coll)

lemma respects_listIndexes :
    Respects (SameOn coll.Shows fun _ => False) (listIndexes env coll) := by
  rw [listIndexes, onEngineOnly_eq_route]
  have hlist : Uses env coll.handle coll.Shows (fun _ => False)
    (Smongo.listIndexes env coll.handle) :=
    uses_listIndexes coll.reads_handle
  exact respects_route _ hlist.respects hlist.respects

lemma respects_validate {R : LocalClient → LocalClient → Prop} (doc : Document) :
    Respects R (validate env coll doc) := by
  unfold validate
  split
  · exact .pure trivial
  · refine .ite (.pure trivial) ?_
    split
    · exact .pure trivial
    · exact .fail _

lemma respects_write (st : Statement) :
    Respects (SameOn coll.Shows fun _ => True) (write env coll st) := by
  refine (Respects.forM _ fun doc _ => respects_validate env coll doc).bind fun _ _ => ?_
  refine respects_route _ ?_ ?_
  · exact (uses_execView coll.reads_viewHandle (fun _ => trivial) trivial st).respects
  · exact st.respects_exec coll.reads_handle (fun _ _ _ => trivial) (fun _ _ => trivial) trivial

lemma respects_createIndex (keys : Document) (options : Option IndexOptions) :
    Respects (SameOn coll.Shows fun _ => True) (createIndex env coll keys options) := by
  rw [createIndex, onEngineOnly_eq_route]
  have hcreate : Respects (World.SameOn coll.Shows fun _ => True)
      (Smongo.createIndex env coll.handle keys options) :=
    Smongo.respects_createIndex coll.reads_handle (fun _ _ _ => trivial)
      (fun _ _ => trivial) trivial
      keys options
  exact respects_route _ hcreate hcreate

end

/-! ### Calls on the first collection -/

inductive CollectionChange
  | write (st : Statement)
  | createIndex (keys : Document) (options : Option IndexOptions)
  | dropIndex (name : String)

def perform (env : Env) (coll : LocalCollection) (k : LocalClient) : CollectionChange → LocalClient
  | .write st => (write env coll st k).2
  | .createIndex keys options => (createIndex env coll keys options k).2
  | .dropIndex name => (dropIndex env coll name k).2

lemma moves_openEngine (coll : LocalCollection) :
    Moves (sparing coll.Touches) (openEngine coll.handle) :=
  (moves_createTable (.inl rfl)).bind fun _ _ => moves_createTable (coll.touches_oplog _ rfl)

lemma onEngine_sameOn {m : RedbOp α} (hk : k.txnSlot = none)
    (hm : Moves (sparing coll.Touches) m) :
    SameOn (fun name => ¬coll.Touches name) (fun _ => False) k (onEngine coll m k).2 := by
  rw [onEngine_of_none hk]
  refine ⟨rfl, ?_, fun _ h => h.elim⟩
  rw [current, current, hk]
  refine ⟨rfl, fun name hname => ?_, fun _ _ => rfl⟩
  obtain ⟨hopen, hpending⟩ := (moves_openEngine coll (k.db.world k.ticks)).1 name hname rfl
  exact (((hm (k.engineWorld coll)).1 name hname hpending).1.trans hopen).symm

lemma onView_sameOn {ts : TransactionSession} {m : RedbOp α} (hk : k.txnSlot = some ts)
    (hm : Uses env coll.viewHandle (fun _ => True) coll.Touches m) :
    SameOn (fun name => ¬coll.Touches name) (fun _ => False) k (onView coll ts m k).2 := by
  have hcreate : Moves (keeping coll.Touches)
      (onSession (StorageSession.createTable coll.viewHandle.tableName)) := by
    refine fun w => ⟨⟨rfl, fun name hname => ?_, fun _ _ => rfl⟩, fun _ _ => trivial⟩
    exact (Function.update_of_ne (fun h => hname (.inl h)) _ _).symm
  have hmoves := hcreate.bind fun _ _ => (admits_keeping env coll.viewHandle _).moves hm
  refine ⟨by rw [hk]; rfl, ?_, fun _ h => h.elim⟩
  rw [current, hk]
  exact (hmoves ⟨k.session ts, none, k.ticks, {}⟩).1

lemma route_sameOn (env : Env) (refusal : Option String) {view engine : RedbOp α}
    (hview : refusal = none → Uses env coll.viewHandle (fun _ => True) coll.Touches view)
    (hengine : Moves (sparing coll.Touches) engine) (k : LocalClient) :
    SameOn (fun name => ¬coll.Touches name) (fun _ => False) k
      (route coll refusal view engine k).2 := by
  cases hk : k.txnSlot with
  | none =>
    rw [route_of_none hk]
    exact onEngine_sameOn hk hengine
  | some ts =>
    rw [route, hk]
    cases refusal with
    | some msg => exact .refl k
    | none => exact onView_sameOn hk (hview rfl)

lemma perform_sameOn (env : Env) (coll : LocalCollection) (k : LocalClient)
    (change : CollectionChange) :
    SameOn (fun name => ¬coll.Touches name) (fun _ => False) k (perform env coll k change) := by
  cases change with
  | write st =>
    rcases write_cases env coll k st with h | ⟨e, h⟩
    · rw [perform, h]
      refine route_sameOn env _ (fun _ => ?_) ?_ k
      · exact uses_execView coll.viewHandle.reads_all
          (fun name => coll.touches_index name _ (.inl rfl)) (.inl rfl) st
      · exact st.moves_exec coll.touches_index (.inl rfl) coll.touches_oplog
    · rw [perform, h]
      exact .refl k
  | createIndex keys options =>
    rw [perform, createIndex, onEngineOnly_eq_route]
    exact route_sameOn env (some _) nofun
      (moves_createIndex coll.touches_index (.inr (.inl rfl)) coll.touches_oplog keys options) k
  | dropIndex name =>
    rw [perform, dropIndex, onEngineOnly_eq_route]
    exact route_sameOn env (some _) nofun
      (moves_dropIndex coll.touches_index (.inr (.inl rfl)) coll.touches_oplog 2 name) k

lemma foldl_perform_sameOn (env : Env) (coll : LocalCollection) (k : LocalClient)
    (changes : List CollectionChange) :
    SameOn (fun name => ¬coll.Touches name) (fun _ => False) k
      (changes.foldl (perform env coll) k) := by
  induction changes generalizing k with
  | nil => exact .refl k
  | cons change changes ih => exact (perform_sameOn env coll k change).trans (ih _)

/-- Calls on a collection apart from another one go as before, whatever is done through that. -/
theorem namespaces_isolated (env : Env) (geometry : Geometry) {coll₁ coll₂ : LocalCollection}
    (hapart : coll₁.Apart coll₂) (k : LocalClient) (changes : List CollectionChange) :
    let k' := changes.foldl (perform env coll₁) k
    (∀ q, (query env geometry coll₂ q k').1 = (query env geometry coll₂ q k).1) ∧
    (listIndexes env coll₂ k').1 = (listIndexes env coll₂ k).1 ∧
    (∀ st, (write env coll₂ st k').1 = (write env coll₂ st { k with ticks := k'.ticks }).1) ∧
    ∀ keys options, (createIndex env coll₂ keys options k').1 =
      (createIndex env coll₂ keys options { k with ticks := k'.ticks }).1 := by
  intro k'
  have hsession : RedbSession.SameOn coll₂.Shows k.current k'.current :=
    (foldl_perform_sameOn env coll₁ k changes).session.mono fun name hshows htouches =>
      hapart name htouches hshows
  have hslot := (foldl_perform_sameOn env coll₁ k changes).slot
  have hreading : SameOn coll₂.Shows (fun _ => False) k k' := ⟨hslot, hsession, fun _ h => h.elim⟩
  have hwriting : SameOn coll₂.Shows (fun _ => True) { k with ticks := k'.ticks } k' :=
    ⟨hslot, hsession, fun _ _ => rfl⟩
  refine ⟨fun q => ?_, ?_, fun st => ?_, fun keys options => ?_⟩
  · exact (respects_query env geometry coll₂ q _ _ hreading).1.symm
  · exact (respects_listIndexes env coll₂ _ _ hreading).1.symm
  · exact (respects_write env coll₂ st _ _ hwriting).1.symm
  · exact (respects_createIndex env coll₂ keys options _ _ hwriting).1.symm

def access (env : Env) (geometry : Geometry) (c : Handle) :
    Statement ⊕ Query → RedbOp (Reply ⊕ Answer)
  | .inl st => .inl <$> st.exec env c
  | .inr q => .inr <$> q.exec env geometry c

/-- A program on a collection does the same in worlds that differ in tables of others. -/
theorem program_local (env : Env) (geometry : Geometry) {c : Handle} {P : String → Prop}
    (hreads : c.Reads P) (program : Script (Statement ⊕ Query) (Reply ⊕ Answer) CollectionError α)
    {w w' : RedbWorld} (h : World.SameOn P (fun _ => True) w w') :
    let run := program.run (access env geometry c)
    (run w).1 = (run w').1 ∧ World.SameOn P (fun _ => True) (run w).2 (run w').2 := by
  have haccess : ∀ i, Respects (World.SameOn P fun _ => True) (access env geometry c i) := by
    rintro (st | q)
    · exact (st.respects_exec hreads (fun _ _ _ => trivial) (fun _ _ => trivial) trivial).map
    · exact (q.uses_exec hreads).respects.map
  obtain ⟨houtcome, hsame, -⟩ := program.run_respects haccess w w' h
  exact ⟨houtcome, hsame⟩

end LocalClient

namespace Sample

def shopOrders : LocalCollection := { dbName := "shop", name := "orders" }

def archiveUsers : LocalCollection := { dbName := "archive", name := "users" }

abbrev oneUser : LocalClient :=
  [LocalClient.CollectionChange.write (insert (.int32 1) (.string "x"))].foldl
    (LocalClient.perform loggedEnv shopUsers) emptyClient

end Sample

namespace LocalClient

section

open Sample

theorem namespaces_isolated_orders :
    shopUsers.Apart shopOrders ∧ (oneUser.db.table "users").rows.length = 1 ∧
    (∀ q, (query loggedEnv flat shopOrders q oneUser).1 =
      (query loggedEnv flat shopOrders q emptyClient).1) ∧
    (listIndexes loggedEnv shopOrders oneUser).1 =
      (listIndexes loggedEnv shopOrders emptyClient).1 := by
  have hapart : shopUsers.Apart shopOrders :=
    LocalCollection.apart_of_names (by decide) (by decide) (by decide)
  obtain ⟨hquery, hlist, -⟩ := namespaces_isolated loggedEnv flat hapart emptyClient
    [.write (insert (.int32 1) (.string "x"))]
  exact ⟨hapart, by decide +kernel, hquery, hlist⟩

theorem program_local_users :
    let bare : RedbWorld := { start with session.db := ⟨fun _ => none, []⟩ }
    let run := Script.run (access env flat shopUsers.handle)
      (.call (.inl (insert (.int32 1) (.string "x"))) .done)
    (run start).1 = (run bare).1 := by
  intro bare run
  have hsame : World.SameOn shopUsers.Shows (fun _ => True) start bare :=
    ⟨⟨rfl, fun name hname => if_neg fun h => absurd (h ▸ hname.under) (by decide), fun _ _ => rfl⟩,
      rfl, fun _ _ => rfl⟩
  exact (program_local env flat shopUsers.reads_handle _ hsame).1

/-- A document inserted into `shop.users` is in `archive.users`. -/
theorem namespaces_not_isolated :
    (shopUsers.dbName, shopUsers.name) ≠ (archiveUsers.dbName, archiveUsers.name) ∧
    (query loggedEnv flat archiveUsers (.countDocuments []) emptyClient).1 = .ok (.count 0) ∧
    (query loggedEnv flat archiveUsers (.countDocuments []) oneUser).1 = .ok (.count 1) := by
  exact ⟨by decide, by decide +kernel, by decide +kernel⟩

end

end LocalClient

end Smongo

import Smongo.Lib.Effect
import Smongo.Sync.Store

/-!
# Detecting remote deletes

A pull deletes the local documents that the remote collection does not have.
-/

namespace Smongo

open Process List Keeps

inductive DetectCall
  | localIds
  | findIds (batch : List Bson)
  | isTombstoned (id : Bson)
  | deleteLocal (id : Bson)

def DetectCall.Reply : DetectCall → Type
  | localIds | findIds _ => List Bson
  | isTombstoned _ => Bool
  | deleteLocal _ => Unit

abbrev DetectOp := Process DetectCall DetectCall.Reply PyError

structure DetectConfig where
  enabled : Bool := true
  intervalCycles : ℤ := 5
  batchSize : ℤ := 1000
  same : Bson → Bson → Bool
  str : Bson → String

namespace DetectOp

def request (c : DetectCall) : DetectOp c.Reply := perform c

def localIds : DetectOp (List Bson) := request .localIds

def findIds (batch : List Bson) : DetectOp (List Bson) := request (.findIds batch)

def isTombstoned (id : Bson) : DetectOp Bool := request (.isTombstoned id)

def deleteLocal (id : Bson) : DetectOp Unit := request (.deleteLocal id)

end DetectOp

open DetectOp

def PyError.isAttributeOrType : PyError → Bool
  | .attributeError _ | .typeError _ => true
  | _ => false

def PyError.isRuntimeOrOs : PyError → Bool
  | .runtimeError _ | .osError _ => true
  | _ => false

def batchesOf (size : ℤ) (ids : List Bson) : Except PyError (List (List Bson)) :=
  match size with
  | .ofNat 0 => .error (.exception "range() arg 3 must not be zero")
  | .ofNat (n + 1) => .ok ((range ((ids.length + n) / (n + 1))).map fun i =>
      (ids.drop (i * (n + 1))).take (n + 1))
  | .negSucc _ => .ok []

def findBatches : List (List Bson) → DetectOp (Option (List Bson))
  | [] => pure (some [])
  | batch :: rest => do
    let found ← (do let ids ← findIds batch; pure (some ids)).rescue fun e =>
      if e.isPyMongo || e.isOs || e.isAttributeOrType then some (pure none) else none
    match found with
    | none => pure none
    | some ids => do
      match ← findBatches rest with
      | none => pure none
      | some more => pure (some (ids ++ more))

def removeDeleted (id : Bson) : DetectOp Unit := do
  if ← isTombstoned id then pure ()
  else (deleteLocal id).rescue fun e => if e.isRuntimeOrOs then some (pure ()) else none

def deletedIds (same : Bson → Bson → Bool) (localIds remoteIds : List Bson) : List Bson :=
  localIds.eraseDups.filter fun id => !remoteIds.any (same id)

def detectRemoteDeletes (cfg : DetectConfig) (cycleCount : ℤ) : DetectOp Unit :=
  if !cfg.enabled then pure ()
  else if 1 < cfg.intervalCycles ∧ cycleCount % cfg.intervalCycles ≠ 0 then pure ()
  else do
    let loaded ← (do let ids ← localIds; pure (some ids)).rescue fun _ => some (pure none)
    match loaded with
    | none => pure ()
    | some ids =>
      if ids.isEmpty then pure ()
      else do
        let batches ← done (batchesOf cfg.batchSize ids)
        match ← findBatches batches with
        | none => pure ()
        | some remoteIds => (deletedIds cfg.same ids remoteIds).forM removeDeleted

structure Sides where
  localIds : List Bson
  remoteIds : List Bson
  /-- The texts of the ids with a tombstone. -/
  tombstones : List String
  /-- The ids that the remote collection has ever had. -/
  met : List Bson
  /-- The ids that the node has pulled, or of which the server has reported the push. -/
  synced : List Bson
  /-- The ids of the documents that the detection has deleted. -/
  destroyed : List Bson

namespace Sides

def answer (str : Bson → String) :
    (c : DetectCall) → Option PyError → Sides → Except PyError c.Reply × Sides
  | _, some e, s => (.error e, s)
  | .localIds, none, s => (.ok s.localIds, s)
  | .findIds batch, none, s => (.ok (s.remoteIds.filter (· ∈ batch)), s)
  | .isTombstoned id, none, s => (.ok (decide (str id ∈ s.tombstones)), s)
  | .deleteLocal id, none, s =>
    (.ok (), { s with
      localIds := s.localIds.filter (· ≠ id)
      destroyed := if id ∈ s.localIds then s.destroyed ++ [id] else s.destroyed })

end Sides

structure DetectSystem where
  sides : Sides
  threads : List (DetectOp Unit) := []

inductive DetectEvent
  | insertLocal (id : Bson)
  | deleteLocal (id : Bson)
  | markDeleted (id : Bson)
  | expire (text : String)
  /-- A document is put into the remote collection, perhaps by the node. -/
  | insertRemote (id : Bson) (reported : Bool)
  | deleteRemote (id : Bson)
  /-- A document that was read from the remote collection is taken over. -/
  | pull (id : Bson)
  | detect (cycleCount : ℤ)
  /-- The next call of a detection is answered, or fails. -/
  | turn (thread : ℕ) (fault : Option PyError)

namespace DetectSystem

variable (cfg : DetectConfig)

def step (σ : DetectSystem) : DetectEvent → DetectSystem
  | .insertLocal id => { σ with sides.localIds := σ.sides.localIds ++ [id] }
  | .deleteLocal id => { σ with sides.localIds := σ.sides.localIds.filter (· ≠ id) }
  | .markDeleted id => { σ with sides.tombstones := σ.sides.tombstones ++ [cfg.str id] }
  | .expire text => { σ with sides.tombstones := σ.sides.tombstones.filter (· ≠ text) }
  | .insertRemote id reported =>
    { σ with
      sides.remoteIds := σ.sides.remoteIds ++ [id]
      sides.met := σ.sides.met ++ [id]
      sides.synced := if reported then σ.sides.synced ++ [id] else σ.sides.synced }
  | .deleteRemote id => { σ with sides.remoteIds := σ.sides.remoteIds.filter (· ≠ id) }
  | .pull id =>
    if id ∈ σ.sides.met then
      { σ with
        sides.localIds := σ.sides.localIds ++ [id]
        sides.synced := σ.sides.synced ++ [id] }
    else σ
  | .detect cycleCount => { σ with threads := σ.threads ++ [detectRemoteDeletes cfg cycleCount] }
  | .turn i fault =>
    match σ.threads[i]? with
    | none => σ
    | some p =>
      let out := p.turn (Sides.answer cfg.str) fault σ.sides
      { sides := out.2, threads := σ.threads.set i out.1 }

end DetectSystem

namespace Sides

def Known (str : Bson → String) (s : Sides) (id : Bson) : Prop :=
  id ∈ s.synced ∨ str id ∈ s.tombstones

structure Sound (s : Sides) : Prop where
  synced : s.synced ⊆ s.met
  destroyed : s.destroyed ⊆ s.met

/-- While a detection runs, nothing that was known is forgotten. -/
structure Later (s t : Sides) : Prop where
  met : s.met ⊆ t.met
  synced : s.synced ⊆ t.synced
  tombstones : s.tombstones ⊆ t.tombstones

def Admitted (str : Bson → String) (s : Sides) : DetectCall → Prop
  | .localIds => ∀ id ∈ s.localIds, s.Known str id
  | _ => True

instance (str : Bson → String) (s : Sides) (id : Bson) : Decidable (s.Known str id) :=
  inferInstanceAs (Decidable (_ ∨ _))

instance (str : Bson → String) (s : Sides) : ∀ c, Decidable (s.Admitted str c)
  | .localIds => inferInstanceAs (Decidable (∀ id ∈ s.localIds, s.Known str id))
  | .findIds _ | .isTombstoned _ | .deleteLocal _ => .isTrue trivial

def terms (str : Bson → String) : Terms DetectCall (Option PyError) Sides where
  inv := Sound
  rely := Later
  admits s c _ := s.Admitted str c
  refl _ := ⟨List.Subset.refl _, List.Subset.refl _, List.Subset.refl _⟩
  trans h h' := ⟨List.Subset.trans h.met h'.met, List.Subset.trans h.synced h'.synced,
    List.Subset.trans h.tombstones h'.tombstones⟩

variable {str : Bson → String} {s t : Sides} {id : Bson}

lemma Known.later (h : s.Known str id) (hlater : Later s t) : t.Known str id :=
  h.imp (hlater.synced ·) (hlater.tombstones ·)

end Sides

abbrev DetectOp.Keeps {α : Type} (str : Bson → String) (Q : α → Sides → Prop) (p : DetectOp α)
    (s : Sides) : Prop :=
  Process.Keeps (Sides.answer str) (Sides.terms str) Q p s

section

open Sides

variable {str : Bson → String} {s : Sides}

lemma keeps_query {c : DetectCall} {Q : c.Reply → Sides → Prop}
    (hstay : ∀ x s, (answer str c x s).2 = s)
    (hQ : ∀ s' s'' r, Later s s' → s'.Admitted str c → (answer str c none s').1 = .ok r →
      Later s' s'' → Q r s'') : (DetectOp.request c).Keeps str Q s := by
  refine Safe.perform fun s' x hlater hinv hadmits => ?_
  rw [hstay x s']
  refine ⟨hinv, (terms str).refl s', fun s'' hlater' r hr => ?_⟩
  cases x with
  | some e => cases hr
  | none => exact hQ s' s'' r hlater hadmits hr hlater'

lemma keeps_localIds :
    DetectOp.localIds.Keeps str (fun ids s' => ∀ id ∈ ids, s'.Known str id) s := by
  refine keeps_query (c := .localIds) (fun x s => ?_)
    fun s' s'' ids _ hadmits hids hlater id hid => ?_
  · cases x <;> rfl
  · obtain rfl := Except.ok.inj hids
    exact (hadmits id hid).later hlater

lemma keeps_findIds (batch : List Bson) :
    (DetectOp.findIds batch).Keeps str (fun _ _ => True) s := by
  refine keeps_query (c := .findIds batch) (fun x s => ?_) fun _ _ _ _ _ _ _ => trivial
  cases x <;> rfl

lemma keeps_isTombstoned {id : Bson} (hknown : s.Known str id) :
    (DetectOp.isTombstoned id).Keeps str (fun b s' => b = false → id ∈ s'.synced) s := by
  refine keeps_query (c := .isTombstoned id) (fun x s => ?_)
    fun s' s'' b hlater _ hb hlater' hfalse => ?_
  · cases x <;> rfl
  · rw [hfalse] at hb
    have hnot : str id ∉ s'.tombstones := of_decide_eq_false (Except.ok.inj hb)
    exact hlater'.synced ((hknown.later hlater).resolve_right hnot)

lemma keeps_deleteLocal {id : Bson} (hid : id ∈ s.synced) :
    (DetectOp.deleteLocal id).Keeps str (fun _ _ => True) s := by
  refine Safe.perform fun s' x hlater hinv _ => ?_
  cases x with
  | some e => exact ⟨hinv, (terms str).refl s', fun _ _ _ _ => trivial⟩
  | none =>
    refine ⟨⟨hinv.synced, ?_⟩, ⟨List.Subset.refl _, List.Subset.refl _, List.Subset.refl _⟩,
      fun _ _ _ _ => trivial⟩
    have hmet : id ∈ s'.met := hinv.synced (hlater.synced hid)
    change (if id ∈ s'.localIds then s'.destroyed ++ [id] else s'.destroyed) ⊆ s'.met
    split_ifs
    · exact append_subset.mpr ⟨hinv.destroyed, cons_subset.mpr ⟨hmet, nil_subset _⟩⟩
    · exact hinv.destroyed

lemma keeps_removeDeleted {id : Bson} (hknown : s.Known str id) :
    (removeDeleted id).Keeps str (fun _ _ => True) s := by
  refine bind (keeps_isTombstoned hknown) fun b s' hb => ?_
  cases b with
  | true => exact pure fun _ _ => trivial
  | false =>
    refine rescue (keeps_deleteLocal (hb rfl)) fun e s'' _ q hq => ?_
    split_ifs at hq
    · cases hq
      exact pure fun _ _ => trivial
    · cases hq

lemma keeps_findBatches (batches : List (List Bson)) :
    (findBatches batches).Keeps str (fun _ _ => True) s := by
  induction batches generalizing s with
  | nil => exact pure fun _ _ => trivial
  | cons batch rest ih =>
    refine bind (Q := fun _ _ => True) (rescue ?_ fun e s' _ q hq => ?_) fun found s' _ => ?_
    · exact bind (keeps_findIds batch) fun _ _ _ => pure fun _ _ => trivial
    · split_ifs at hq
      · cases hq
        exact pure fun _ _ => trivial
      · cases hq
    · cases found with
      | none => exact pure fun _ _ => trivial
      | some ids =>
        refine bind ih fun more s'' _ => ?_
        cases more with
        | none | some more => exact pure fun _ _ => trivial

lemma keeps_detectRemoteDeletes (cfg : DetectConfig) (cycleCount : ℤ) :
    (detectRemoteDeletes cfg cycleCount).Keeps cfg.str (fun _ _ => True) s := by
  have hnothing : ∀ s, (pure () : DetectOp Unit).Keeps cfg.str (fun _ _ => True) s :=
    fun _ => pure fun _ _ => trivial
  rw [detectRemoteDeletes]
  split_ifs
  · exact hnothing s
  · exact hnothing s
  refine bind (Q := fun loaded s' =>
    ∀ ids, loaded = some ids → ∀ id ∈ ids, s'.Known cfg.str id)
    (rescue ?_ fun e s' _ q hq => ?_) fun loaded s' hloaded => ?_
  · refine bind keeps_localIds fun ids s' hids => pure fun s'' hlater ids' heq => ?_
    obtain rfl := Option.some.inj heq
    exact fun id hid => (hids id hid).later hlater
  · cases hq
    refine pure fun _ _ ids h => ?_
    cases h
  · cases loaded with
    | none => exact hnothing s'
    | some ids =>
      have hknown := hloaded ids rfl
      dsimp only
      split_ifs
      · exact hnothing s'
      refine bind (Q := fun _ t => ∀ id ∈ ids, t.Known cfg.str id)
        (ofExcept fun _ t _ hlater id hid => (hknown id hid).later hlater)
        fun batches t ht => ?_
      refine bind (frame (A := fun t => ∀ id ∈ ids, t.Known cfg.str id)
        (fun _ _ hlater h id hid => (h id hid).later hlater) (keeps_findBatches batches) ht)
        fun found t' ht' => ?_
      cases found with
      | none => exact hnothing t'
      | some remoteIds =>
        refine weaken (forM (A := fun _ _ => True) (fun _ _ _ _ _ => trivial)
          fun id hid t'' hlater => ?_) fun _ _ _ => trivial
        have hmem : id ∈ ids := mem_eraseDups.mp (mem_of_mem_filter hid)
        exact keeps_removeDeleted ((ht'.2 id hmem).later hlater)

end

namespace DetectSystem

open Sides

variable {cfg : DetectConfig}

/-- No tombstone expires while a detection runs, and no detection loads an id that only the node
knows. -/
def Guarded (cfg : DetectConfig) (σ : DetectSystem) : DetectEvent → Prop
  | .expire _ => ∀ p ∈ σ.threads, p.isDone = true
  | .turn i _ => ∀ p ∈ σ.threads[i]?, ∀ c ∈ p.next, σ.sides.Admitted cfg.str c
  | _ => True

instance (cfg : DetectConfig) (σ : DetectSystem) : ∀ e, Decidable (σ.Guarded cfg e)
  | .expire _ => inferInstanceAs (Decidable (∀ p ∈ σ.threads, p.isDone = true))
  | .turn i _ => inferInstanceAs
      (Decidable (∀ p ∈ σ.threads[i]?, ∀ c ∈ p.next, σ.sides.Admitted cfg.str c))
  | .insertLocal _ | .deleteLocal _ | .markDeleted _ | .insertRemote _ _ | .deleteRemote _
  | .pull _ | .detect _ => .isTrue trivial

/-- Nothing was destroyed yet. -/
structure New (σ : DetectSystem) : Prop where
  synced : σ.sides.synced ⊆ σ.sides.met
  destroyed : σ.sides.destroyed = []
  threads : σ.threads = []

structure Good (cfg : DetectConfig) (σ : DetectSystem) : Prop where
  sound : σ.sides.Sound
  threads : ∀ p ∈ σ.threads, p.Keeps cfg.str (fun _ _ => True) σ.sides

lemma Good.moved {σ : DetectSystem} (h : σ.Good cfg) {sides : Sides} (hsound : sides.Sound)
    (hlater : Later σ.sides sides) : Good cfg { σ with sides } :=
  ⟨hsound, fun p hp => Safe.later (h.threads p hp) hlater⟩

lemma keeps_of_isDone {str : Bson → String} {p : DetectOp Unit} (hp : p.isDone = true)
    (s : Sides) : p.Keeps str (fun _ _ => True) s := by
  cases p with
  | done r => exact fun _ _ _ _ => trivial
  | call c next => cases hp

lemma good_step {σ : DetectSystem} (h : σ.Good cfg) {event : DetectEvent}
    (hguard : σ.Guarded cfg event) : (σ.step cfg event).Good cfg := by
  have hids : ∀ ids : List Bson, ids ⊆ ids := fun ids => List.Subset.refl ids
  have htexts : σ.sides.tombstones ⊆ σ.sides.tombstones := List.Subset.refl _
  cases event with
  | insertLocal id | deleteLocal id | deleteRemote id =>
    exact h.moved ⟨h.sound.synced, h.sound.destroyed⟩ ⟨hids _, hids _, htexts⟩
  | markDeleted id =>
    exact h.moved ⟨h.sound.synced, h.sound.destroyed⟩ ⟨hids _, hids _, subset_append_left _ _⟩
  | expire text =>
    exact ⟨⟨h.sound.synced, h.sound.destroyed⟩, fun p hp => keeps_of_isDone (hguard p hp) _⟩
  | insertRemote id reported =>
    have hmore : σ.sides.met ⊆ σ.sides.met ++ [id] := subset_append_left _ _
    refine h.moved ⟨?_, List.Subset.trans h.sound.destroyed hmore⟩ ⟨hmore, ?_, htexts⟩
    · cases reported with
      | false => exact List.Subset.trans h.sound.synced hmore
      | true =>
        exact append_subset.mpr ⟨List.Subset.trans h.sound.synced hmore, subset_append_right _ _⟩
    · cases reported with
      | false => exact hids _
      | true => exact subset_append_left _ _
  | pull id =>
    rw [step]
    split_ifs with hmet
    · refine h.moved ⟨?_, h.sound.destroyed⟩ ⟨hids _, subset_append_left _ _, htexts⟩
      exact append_subset.mpr ⟨h.sound.synced, cons_subset.mpr ⟨hmet, nil_subset _⟩⟩
    · exact h
  | detect cycleCount =>
    refine ⟨h.sound, fun p hp => ?_⟩
    rcases mem_append.mp hp with hp | hp
    · exact h.threads p hp
    · rw [mem_singleton.mp hp]
      exact keeps_detectRemoteDeletes cfg cycleCount
  | turn i fault =>
    rw [step]
    cases hp : σ.threads[i]? with
    | none => exact h
    | some p =>
      have hadmits : p.Admits (terms cfg.str) σ.sides fault := by
        cases p with
        | done r => trivial
        | call c next => exact hguard _ hp c rfl
      obtain ⟨hsound, hlater, hnext⟩ := Safe.turn (h.threads p (mem_of_getElem? hp)) h.sound hadmits
      have hmoved := h.moved hsound hlater
      refine ⟨hmoved.sound, fun q hq => ?_⟩
      rcases mem_or_eq_of_mem_set hq with hq | rfl
      · exact hmoved.threads q hq
      · exact hnext

/-- In every guarded run the detection destroys only documents that once were on the remote side. -/
theorem detection_destroys_only_met (cfg : DetectConfig) (σ : DetectSystem) (hnew : σ.New)
    (events : List DetectEvent) (hrun : Along (step cfg) (Guarded cfg) σ events) :
    ∀ id ∈ (events.foldl (step cfg) σ).sides.destroyed,
      id ∈ (events.foldl (step cfg) σ).sides.met := by
  have hgood : σ.Good cfg := by
    refine ⟨⟨hnew.synced, ?_⟩, ?_⟩
    · rw [hnew.destroyed]
      exact nil_subset _
    · rw [hnew.threads]
      exact fun p hp => (not_mem_nil hp).elim
  have hfinal := hrun.invariant (I := Good cfg) (fun _ _ h hguard => good_step h hguard) hgood
  exact fun id hid => hfinal.sound.destroyed hid

end DetectSystem

namespace Sample

def detectConfig : DetectConfig where
  intervalCycles := 1
  batchSize := 2
  same a b := a = b
  str := fun _ => ""

def sides : Sides where
  localIds := [.int32 1]
  remoteIds := [.int32 1]
  tombstones := []
  met := [.int32 1]
  synced := [.int32 1]
  destroyed := []

def detectAfter (event : DetectEvent) : List DetectEvent :=
  [event, .detect 1, .turn 0 none, .turn 0 none, .turn 0 none, .turn 0 none]

def sidesAfter (event : DetectEvent) : Sides :=
  ((detectAfter event).foldl (DetectSystem.step detectConfig) { sides := Sample.sides }).sides

end Sample

section

open Sample DetectSystem

theorem detection_destroys_only_met_deleted :
    (sidesAfter (.deleteRemote (.int32 1))).destroyed = [.int32 1] ∧
      ∀ id ∈ (sidesAfter (.deleteRemote (.int32 1))).destroyed,
        id ∈ (sidesAfter (.deleteRemote (.int32 1))).met := by
  refine ⟨rfl, detection_destroys_only_met detectConfig { sides := Sample.sides }
    ⟨by decide, rfl, rfl⟩ (detectAfter (.deleteRemote (.int32 1))) ?_⟩
  decide +kernel

/-- A document that was inserted and not yet pushed is destroyed. -/
theorem detection_destroys_unpushed :
    (sidesAfter (.insertLocal (.int32 2))).destroyed = [.int32 2] ∧
      .int32 2 ∉ (sidesAfter (.insertLocal (.int32 2))).met :=
  ⟨by decide +kernel, by decide +kernel⟩

end

end Smongo

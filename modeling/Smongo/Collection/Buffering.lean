import Smongo.Collection.Footprint
import Smongo.Storage.Clients

/-!
# Writes inside a transaction

Inside a transaction operations only add to the buffer; `writing P` is the frame that says so.
-/

namespace Smongo

open Eff List

namespace RedbSession

/-- From `s` to `s'` the session buffered the writes `ws`, in this order. -/
structure Buffers (ws : List (String × PendingWrite)) (s s' : RedbSession) : Prop where
  inTransaction : s'.inTransaction = true
  db : s'.db = s.db
  issued : s'.issued = s.issued ++ ws
  pendingFor : ∀ name, s'.pendingFor name = s.pendingFor name ++ writesTo name ws

lemma Buffers.refl {s : RedbSession} (h : s.inTransaction = true) : Buffers [] s s :=
  ⟨h, rfl, by simp, by simp [writesTo]⟩

lemma Buffers.trans {ws vs : List (String × PendingWrite)} {s t u : RedbSession}
    (h : Buffers ws s t) (h' : Buffers vs t u) : Buffers (ws ++ vs) s u where
  inTransaction := h'.inTransaction
  db := h'.db.trans h.db
  issued := by rw [h'.issued, h.issued, append_assoc]
  pendingFor name := by rw [h'.pendingFor, h.pendingFor, writesTo_append, append_assoc]

lemma buffers_bufferRequest {s : RedbSession} (h : s.inTransaction = true)
    (r : Option (String × PendingWrite)) :
    Buffers r.toList s (Client.bufferRequest s r) where
  inTransaction := by rw [Client.bufferRequest_inTransaction, h]
  db := Client.bufferRequest_db s r
  issued := by
    cases r with
    | none => exact (append_nil _).symm
    | some w => rfl
  pendingFor := Client.pendingFor_bufferRequest s r

lemma Buffers.view {ws : List (String × PendingWrite)} {s s' : RedbSession}
    (h : Buffers ws s s') (hs : s.inTransaction = true) (name : String) :
    s'.view name = Change.applyAll (s.view name) (writesTo name ws) := by
  rw [RedbSession.view, RedbSession.view, if_pos hs, if_pos h.inTransaction, h.db, h.pendingFor,
    Change.applyAll_append]

end RedbSession

/-- Inside a transaction, only writes to tables in `P` are buffered and nothing is committed. -/
def writing (P : String → Prop) : Frame RedbWorld where
  rel w w' := w.session.inTransaction = true →
    ∃ ws, (∀ x ∈ ws, P x.1) ∧ RedbSession.Buffers ws w.session w'.session
  refl _ h := ⟨[], by simp, .refl h⟩
  trans h h' hs := by
    obtain ⟨ws, hws, hb⟩ := h hs
    obtain ⟨vs, hvs, hb'⟩ := h' hb.inTransaction
    refine ⟨ws ++ vs, fun x hx => ?_, hb.trans hb'⟩
    rcases mem_append.mp hx with hx | hx
    · exact hws x hx
    · exact hvs x hx

/-- A frame that allows what the operations on documents do to tables in `P`. -/
structure Admits (env : Env) (c : Handle) (P : String → Prop) (R : Frame RedbWorld) : Prop where
  draw : ∀ w, R.rel w { w with ticks := w.ticks + 1 }
  list : ∀ w specs, w.indexCache = none →
    readSpecs env (RedbCursor.shown w.session c.metadataTable) = .ok specs →
    R.rel w { w with indexCache := some specs }
  write : ∀ w name op, P name →
    R.rel w { w with session := (RedbSession.doWrite name op w.session).2 }
  notify : ∀ w, ∀ cfg ∈ c.oplog, P cfg.oplogTable → ∀ hub, R.rel w { w with hub := hub }

namespace Admits

variable {env : Env} {c : Handle} {P : String → Prop} {R : Frame RedbWorld} (hR : Admits env c P R)
include hR

lemma moves_listIndexes : Moves R (listIndexes env c) := by
  refine fun w => ⟨?_, fun _ _ => trivial⟩
  rw [listIndexes_apply]
  have hlist := hR.list w
  unfold listed
  cases hcache : w.indexCache with
  | some specs =>
    have hw : { w with indexCache := some specs } = w := by rw [← hcache]
    dsimp only
    rw [hw]
    exact R.refl w
  | none =>
    cases hread : readSpecs env (RedbCursor.shown w.session c.metadataTable) with
    | ok specs => exact hlist specs hcache hread
    | error e | panic => exact R.refl w

lemma moves {α : Type} {m : RedbOp α} {Q : α → Prop}
    (h : Uses env c (fun _ => True) P m Q) : Moves R m Q := by
  refine Composed.moves (fun {α m Q} hprim => ?_) h
  cases hprim with
  | draw _ _ => exact fun w => ⟨hR.draw w, fun _ _ => trivial⟩
  | list _ => exact hR.moves_listIndexes
  | write name op hname => exact fun w => ⟨hR.write w name op hname, fun _ _ => trivial⟩
  | look g _ hq => exact fun w => ⟨R.refl w, hq _⟩
  | notify cfg hcfg hname entry => exact fun w => ⟨hR.notify w cfg hcfg hname _, fun _ _ => trivial⟩

end Admits

lemma admits_writing (env : Env) (c : Handle) (P : String → Prop) :
    Admits env c P (writing P) where
  draw _ hw := ⟨[], by simp, .refl hw⟩
  list _ _ _ _ hw := ⟨[], by simp, .refl hw⟩
  notify _ _ _ _ _ hw := ⟨[], by simp, .refl hw⟩
  write w name op hname hw := by
    refine ⟨[(name, op)], by simpa using hname, ?_⟩
    rw [RedbSession.doWrite_of_inTransaction _ _ _ hw]
    exact RedbSession.buffers_bufferRequest hw (some (name, op))

end Smongo

import Smongo.Sync.Push

/-!
# The terms of the sync threads

An entry is accounted for once a bulk write has reported it, a filter has excluded it, or the
dead-letter queue has it.
-/

namespace Smongo

open Process SyncOp List OrderedTable Function

structure PyEntry.Replicated (entry : PyEntry) : Prop where
  external : entry.internal = false
  kind : entry.op ∈ ["insert", "update", "delete"]

namespace SyncStore

variable {χ ρ : Type} (copy : PyEntry → PyEntry)

def Queued (s : SyncStore ρ) (ns : String) (item : String × PyEntry) : Prop :=
  ∃ key row, s.dlq.get key = some (some row) ∧ s.issued key = some (ns, item) ∧
    row.ns = ns ∧ row.entry = copy item.2

def Accounted (s : SyncStore ρ) (ns : String) (item : String × PyEntry) : Prop :=
  (ns, item.1) ∈ s.reported ∨ (ns, item.1) ∈ s.excluded ∨ s.Queued copy ns item

def NothingDropped (s : SyncStore ρ) : Prop :=
  ∀ ns, ∀ item ∈ s.logged ns, item.2.Replicated →
    s.Accounted copy ns item ∨ ∀ checkpoint ∈ s.checkpoints (checkpointName ns), checkpoint < item.1

/-- Every entry up to a key that a push has passed is accounted for or pending. -/
structure Covers (s : SyncStore ρ) (ns key : String) (pending : List (String × PyEntry)) :
    Prop where
  reached : ∃ k ∈ s.passed ns, key ≤ k
  accounted : ∀ item ∈ s.logged ns, item.2.Replicated → item.1 ≤ key →
    s.Accounted copy ns item ∨ item ∈ pending

structure Sound (s : SyncStore ρ) : Prop where
  oplog : ∀ ns, ∀ item ∈ (s.oplog ns).rows, item ∈ s.logged ns
  logged : ∀ ns, ∀ item ∈ s.logged ns, item.2.Replicated →
    s.Accounted copy ns item ∨ item ∈ (s.oplog ns).rows
  checkpoints : ∀ ns, ∀ checkpoint ∈ s.checkpoints (checkpointName ns),
    s.Covers copy ns checkpoint []
  dlq : ∀ key, s.issued key = none → s.dlq.get key = none
  rows : ∀ key row ns item, s.dlq.get key = some (some row) → s.issued key = some (ns, item) →
    row.ns = ns ∧ row.entry = copy item.2

/-- What may happen between two moments. -/
structure Later (s t : SyncStore ρ) : Prop where
  accounted : ∀ ns item, s.Accounted copy ns item → t.Accounted copy ns item
  reported : s.reported ⊆ t.reported
  logged : ∀ ns, ∃ more, t.logged ns = s.logged ns ++ more ∧
    ∀ new ∈ more, ∀ k ∈ s.passed ns, k < new.1
  passed : ∀ ns, s.passed ns ⊆ t.passed ns
  issued : ∀ key origin, s.issued key = some origin → t.issued key = some origin

variable {copy} {s t u : SyncStore ρ} {ns key : String}

lemma Later.refl (s : SyncStore ρ) : Later copy s s :=
  ⟨fun _ _ h => h, fun _ h => h, fun _ => ⟨[], (append_nil _).symm, fun _ h =>
    (not_mem_nil h).elim⟩, fun _ _ h => h, fun _ _ h => h⟩

lemma Later.trans (h : Later copy s t) (h' : Later copy t u) : Later copy s u where
  accounted ns item hs := h'.accounted ns item (h.accounted ns item hs)
  reported := List.Subset.trans h.reported h'.reported
  logged ns := by
    obtain ⟨more, heq, hnew⟩ := h.logged ns
    obtain ⟨more', heq', hnew'⟩ := h'.logged ns
    refine ⟨more ++ more', by rw [heq', heq, append_assoc], fun new hmem k hk => ?_⟩
    rcases mem_append.mp hmem with hmem | hmem
    · exact hnew new hmem k hk
    · exact hnew' new hmem k (h.passed ns hk)
  passed ns := List.Subset.trans (h.passed ns) (h'.passed ns)
  issued key origin hs := h'.issued key origin (h.issued key origin hs)

lemma Accounted.later {item : String × PyEntry} (h : s.Accounted copy ns item)
    (hlater : Later copy s t) : t.Accounted copy ns item :=
  hlater.accounted ns item h

section

variable {pending : List (String × PyEntry)} (h : s.Covers copy ns key pending)
include h

lemma Covers.later (hlater : Later copy s t) : t.Covers copy ns key pending := by
  obtain ⟨more, heq, hnew⟩ := hlater.logged ns
  obtain ⟨k, hk, hkey⟩ := h.reached
  refine ⟨⟨k, hlater.passed ns hk, hkey⟩, fun item hitem hrep hle => ?_⟩
  rw [heq] at hitem
  rcases mem_append.mp hitem with hitem | hitem
  · exact (h.accounted item hitem hrep hle).imp_left (hlater.accounted ns item)
  · -- a newer entry is beyond the key
    exact absurd ((hle.trans hkey).trans_lt (hnew item hitem k hk)) (lt_irrefl _)

lemma Covers.mono {key' : String} (hle : key' ≤ key) : s.Covers copy ns key' pending := by
  obtain ⟨k, hk, hkey⟩ := h.reached
  exact ⟨⟨k, hk, hle.trans hkey⟩, fun item hitem hrep h' =>
    h.accounted item hitem hrep (h'.trans hle)⟩

lemma Covers.settle {pending' : List (String × PyEntry)} {key' : String} (hle : key' ≤ key)
    (hpending : ∀ item ∈ pending, item.2.Replicated → item.1 ≤ key' →
      s.Accounted copy ns item ∨ item ∈ pending') :
    s.Covers copy ns key' pending' := by
  refine ⟨(h.mono hle).reached, fun item hitem hrep h' => ?_⟩
  rcases (h.mono hle).accounted item hitem hrep h' with hdone | hmem
  · exact .inl hdone
  · exact hpending item hmem hrep h'

end

def Genuine (copy : PyEntry → PyEntry) (s : SyncStore ρ) (key : String) (row : DlqRow) : Prop :=
  ∃ item, s.issued key = some (row.ns, item) ∧ row.entry = copy item.2

def Written (s : SyncStore ρ) (key : String) : Prop :=
  ∃ ns item, s.issued key = some (ns, item) ∧ (ns, item.1) ∈ s.reported

lemma Genuine.later {row : DlqRow} (h : s.Genuine copy key row) (hlater : Later copy s t) :
    t.Genuine copy key row := by
  obtain ⟨item, hissued, hentry⟩ := h
  exact ⟨item, hlater.issued key _ hissued, hentry⟩

lemma Written.later (h : s.Written key) (hlater : Later copy s t) : t.Written key := by
  obtain ⟨ns, item, hissued, hreported⟩ := h
  exact ⟨ns, item, hlater.issued key _ hissued, hlater.reported hreported⟩

def Owes (copy : PyEntry → PyEntry) (s : SyncStore ρ) : SyncCall → Prop
  | .setCheckpoint name value => ∃ ns, name = checkpointName ns ∧ s.Covers copy ns value []
  | .checkpointTruncate name ns safeKey => name = checkpointName ns ∧ s.Covers copy ns safeKey []
  | .dlqEnqueue _ row origin => row.entry = copy origin.2
  | .dlqUpdate key row => s.Genuine copy key row
  | .dlqRemove key => s.Written key
  | _ => True

lemma Owes.later {c : SyncCall} (h : s.Owes copy c) (hlater : Later copy s t) :
    t.Owes copy c := by
  cases c with
  | setCheckpoint name value =>
    obtain ⟨ns, hname, hcovers⟩ := h
    exact ⟨ns, hname, hcovers.later hlater⟩
  | checkpointTruncate name ns safeKey => exact ⟨h.1, h.2.later hlater⟩
  | dlqEnqueue key row origin => exact h
  | dlqUpdate key row => exact Genuine.later h hlater
  | dlqRemove key => exact Written.later h hlater
  | _ => trivial

def Fresh (s : SyncStore ρ) : SyncCall → Prop
  | .dlqEnqueue key _ _ => (s.issued key).isNone
  | _ => True

instance (s : SyncStore ρ) : ∀ c, Decidable (s.Fresh c)
  | .dlqEnqueue key _ _ => inferInstanceAs (Decidable ((s.issued key).isNone = true))
  | .getCheckpoint _ | .setCheckpoint _ _ | .removeCheckpoint _ | .checkpointTruncate _ _ _
  | .readFrom _ _ | .dlqScan | .dlqUpdate _ _ | .dlqRemove _ | .bulkWrite _ _ _ | .exclude _ _
  | .outside _ => .isTrue trivial

variable (χ) in
def terms (copy : PyEntry → PyEntry) : Terms SyncCall χ (SyncStore ρ) where
  inv := Sound copy
  rely := Later copy
  admits s c _ := s.Fresh c
  refl := Later.refl
  trans := Later.trans

/-! ### Every call keeps to the terms -/

lemma Sound.of_kept (h : s.Sound copy) (hlater : Later copy s t) (hlogged : t.logged = s.logged)
    (hoplog : t.oplog = s.oplog)
    (hcheckpoints : ∀ name, ∀ c ∈ t.checkpoints name, c ∈ s.checkpoints name)
    (hdlq : ∀ key, t.issued key = none → t.dlq.get key = none)
    (hrows : ∀ key row ns item, t.dlq.get key = some (some row) →
      t.issued key = some (ns, item) → row.ns = ns ∧ row.entry = copy item.2) : t.Sound copy where
  oplog ns item hitem := by
    rw [hlogged]
    exact h.oplog ns item (hoplog ▸ hitem)
  logged ns item hitem hrep := by
    rw [hlogged] at hitem
    rw [hoplog]
    exact (h.logged ns item hitem hrep).imp_left (hlater.accounted ns item)
  checkpoints ns c hc := (h.checkpoints ns c (hcheckpoints _ c hc)).later hlater
  dlq := hdlq
  rows := hrows

section

variable (hlogged : t.logged = s.logged) (hdlq : t.dlq = s.dlq) (hissued : t.issued = s.issued)
  (hreported : s.reported ⊆ t.reported) (hexcluded : s.excluded ⊆ t.excluded)
  (hpassed : ∀ ns, s.passed ns ⊆ t.passed ns)
include hlogged hdlq hissued hreported hexcluded hpassed

lemma later_of_same : Later copy s t where
  accounted ns item hs := by
    refine Or.imp (fun h => hreported h) (Or.imp (fun h => hexcluded h) ?_) hs
    rintro ⟨key, row, hget, hkey, hrow⟩
    exact ⟨key, row, hdlq ▸ hget, hissued ▸ hkey, hrow⟩
  reported := hreported
  logged ns := ⟨[], by rw [hlogged, append_nil], fun _ h => (not_mem_nil h).elim⟩
  passed := hpassed
  issued key origin hs := hissued ▸ hs

lemma Sound.of_same (h : s.Sound copy) (hoplog : t.oplog = s.oplog)
    (hcheckpoints : ∀ name, ∀ c ∈ t.checkpoints name, c ∈ s.checkpoints name) :
    t.Sound copy ∧ Later copy s t := by
  have hlater : Later copy s t := later_of_same hlogged hdlq hissued hreported hexcluded hpassed
  refine ⟨h.of_kept hlater hlogged hoplog hcheckpoints ?_ ?_, hlater⟩
  · rw [hissued, hdlq]
    exact h.dlq
  · rw [hissued, hdlq]
    exact h.rows

end

lemma checkpointName_injective : Function.Injective checkpointName := by
  intro a b h
  exact String.append_right_inj _ |>.mp h

section

variable (h : s.Sound copy)
include h

/-- All up to the new checkpoint is accounted for, and only what is before it is removed. -/
lemma Sound.set_checkpoint (hcovers : s.Covers copy ns key [])
    {oplog : String → OrderedTable String PyEntry}
    (hoplog : ∀ ns, ∀ item ∈ (oplog ns).rows, item ∈ (s.oplog ns).rows)
    (hkept : ∀ ns', ∀ item ∈ (s.oplog ns').rows,
      item ∈ (oplog ns').rows ∨ ns' = ns ∧ item.1 ≤ key) :
    let t := { s with
      checkpoints := update s.checkpoints (checkpointName ns) (some key), oplog }
    t.Sound copy ∧ Later copy s t := by
  intro t
  have hlater : Later copy s t := later_of_same rfl rfl rfl (fun _ h => h) (fun _ h => h)
    fun _ _ h => h
  refine ⟨⟨fun ns' item hitem => h.oplog ns' item (hoplog ns' item hitem), ?_, ?_, h.dlq, h.rows⟩,
    hlater⟩
  · intro ns' item hitem hrep
    rcases h.logged ns' item hitem hrep with hdone | hmem
    · exact .inl (hlater.accounted ns' item hdone)
    · rcases hkept ns' item hmem with hkeep | ⟨rfl, hle⟩
      · exact .inr hkeep
      · exact .inl (((hcovers.later hlater).accounted item hitem hrep hle).resolve_right
          not_mem_nil)
  · intro ns' c hc
    by_cases hns : ns' = ns
    · subst hns
      obtain rfl : key = c := by simpa [t] using hc
      exact hcovers.later hlater
    · have hne : checkpointName ns' ≠ checkpointName ns := fun h => hns (checkpointName_injective h)
      have hold : c ∈ s.checkpoints (checkpointName ns') := by simpa [t, hne] using hc
      exact (h.checkpoints ns' c hold).later hlater

lemma Sound.put_row {issued : String → Option (String × String × PyEntry)}
    {row : DlqRow} {item : String × PyEntry}
    (hissued : ∀ key' origin, s.issued key' = some origin → issued key' = some origin)
    (hothers : ∀ key', key' ≠ key → issued key' = s.issued key')
    (hkey : issued key = some (row.ns, item)) (hentry : row.entry = copy item.2) :
    let t := { s with dlq := s.dlq.insert key (some row), issued }
    t.Sound copy ∧ Later copy s t := by
  intro t
  have hlater : Later copy s t := by
    refine ⟨fun ns item' => Or.imp_right (Or.imp_right ?_), fun _ h => h,
      fun ns => ⟨[], (append_nil _).symm, fun _ h => (not_mem_nil h).elim⟩, fun _ _ h => h, hissued⟩
    rintro ⟨key', row', hget, hkey', hns, hentry'⟩
    by_cases hsame : key' = key
    · subst hsame
      obtain ⟨rfl, rfl⟩ := Prod.mk.inj (Option.some.inj (hkey.symm.trans (hissued _ _ hkey')))
      exact ⟨key', row, by simp [t, get_insert], hkey, rfl, hentry⟩
    · exact ⟨key', row', by simp [t, get_insert, hsame, hget], hissued _ _ hkey', hns, hentry'⟩
  refine ⟨h.of_kept hlater rfl rfl (fun _ _ h => h) ?_ ?_, hlater⟩
  · intro key' hnone
    have hne : key' ≠ key := by
      rintro rfl
      nomatch hkey.symm.trans hnone
    have hold : s.issued key' = none := hothers key' hne ▸ hnone
    simp [t, get_insert, hne, h.dlq key' hold]
  · intro key' row' ns item' hget hkey'
    by_cases hsame : key' = key
    · subst hsame
      obtain ⟨rfl, rfl⟩ := Prod.mk.inj (Option.some.inj (hkey.symm.trans hkey'))
      obtain rfl : row = row' := by simpa [t, get_insert] using hget
      exact ⟨rfl, hentry⟩
    · have hold : s.issued key' = some (ns, item') := hothers key' hsame ▸ hkey'
      exact h.rows key' row' ns item' (by simpa [t, get_insert, hsame] using hget) hold

lemma Sound.remove_row (hwritten : s.Written key) : let t := { s with dlq := s.dlq.erase key }
    t.Sound copy ∧ Later copy s t := by
  intro t
  obtain ⟨ns, item, hissued, hreported⟩ := hwritten
  have hget (key' : String) (hne : key' ≠ key) : t.dlq.get key' = s.dlq.get key' := by
    simp [t, get_erase, hne]
  have hnone : t.dlq.get key = none := by simp [t, get_erase]
  have hlater : Later copy s t := by
    refine ⟨fun ns' item' hdone => ?_, fun _ h => h,
      fun ns => ⟨[], (append_nil _).symm, fun _ h => (not_mem_nil h).elim⟩, fun _ _ h => h,
      fun _ _ h => h⟩
    rcases hdone with hdone | hdone | ⟨key', row', hrow, hkey', hrest⟩
    · exact .inl hdone
    · exact .inr (.inl hdone)
    · by_cases hsame : key' = key
      · subst hsame
        obtain ⟨rfl, rfl⟩ := Prod.mk.inj (Option.some.inj (hissued.symm.trans hkey'))
        exact .inl hreported
      · exact .inr (.inr ⟨key', row', (hget key' hsame).trans hrow, hkey', hrest⟩)
  refine ⟨h.of_kept hlater rfl rfl (fun _ _ h => h) ?_ ?_, hlater⟩
  · intro key' hkey'
    by_cases hsame : key' = key
    · exact hsame ▸ hnone
    · exact (hget key' hsame).trans (h.dlq key' hkey')
  · intro key' row' ns' item' hrow hkey'
    by_cases hsame : key' = key
    · rw [hsame, hnone] at hrow
      nomatch hrow
    · exact h.rows key' row' ns' item' ((hget key' hsame).symm.trans hrow) hkey'

/-- The key of a new entry is new and above the keys that were passed. -/
lemma Sound.append (entry : PyEntry) (outside : ρ) (hnew : ∀ item ∈ s.logged ns, item.1 ≠ key)
    (hkey : ∀ k ∈ s.passed ns, k < key) :
    (s.append ns key entry outside).Sound copy ∧ Later copy s (s.append ns key entry outside) := by
  have hlater : Later copy s (s.append ns key entry outside) := by
    refine ⟨fun _ _ h => h, fun _ h => h, fun ns' => ?_, fun _ _ h => h, fun _ _ h => h⟩
    by_cases hns : ns' = ns
    · subst hns
      refine ⟨[(key, entry)], update_self .., fun new hmem => ?_⟩
      rw [mem_singleton.mp hmem]
      exact hkey
    · refine ⟨[], ?_, fun _ h => (not_mem_nil h).elim⟩
      rw [append_nil]
      exact update_of_ne hns ..
  -- the key is new, so that the row is added to the others
  have hrows (item : String × PyEntry) : item ∈ ((s.oplog ns).insert key entry).rows ↔
      item = (key, entry) ∨ item ∈ (s.oplog ns).rows := by
    obtain ⟨key', entry'⟩ := item
    rw [← get_eq_some_iff, ← get_eq_some_iff, get_insert]
    by_cases hsame : key' = key
    · subst hsame
      have hnone : (s.oplog ns).get key' ≠ some entry' := fun hget =>
        hnew _ (h.oplog ns _ (get_eq_some_iff.mp hget)) rfl
      simp [hnone, eq_comm]
    · simp [hsame]
  refine ⟨⟨fun ns' item hitem => ?_, fun ns' item hitem hrep => ?_,
    fun ns' c hc => (h.checkpoints ns' c hc).later hlater, h.dlq, h.rows⟩, hlater⟩
  · by_cases hns : ns' = ns
    · subst hns
      rw [append_oplog_self] at hitem
      rw [append_logged_self]
      rcases (hrows item).mp hitem with rfl | hitem
      · exact mem_append_right _ mem_cons_self
      · exact mem_append_left _ (h.oplog ns' item hitem)
    · rw [append_oplog_of_ne _ hns] at hitem
      rw [append_logged_of_ne _ hns]
      exact h.oplog ns' item hitem
  · by_cases hns : ns' = ns
    · subst hns
      rw [append_logged_self] at hitem
      rw [append_oplog_self, hrows item]
      rcases mem_append.mp hitem with hitem | hitem
      · exact (h.logged ns' item hitem hrep).imp (hlater.accounted ns' item) .inr
      · exact .inr (.inl (mem_singleton.mp hitem))
    · rw [append_logged_of_ne _ hns] at hitem
      rw [append_oplog_of_ne _ hns]
      exact (h.logged ns' item hitem hrep).imp_left (hlater.accounted ns' item)

lemma Sound.pass (keys : List String) :
    let t := { s with passed := update s.passed ns (s.passed ns ++ keys) }
    t.Sound copy ∧ Later copy s t := by
  refine h.of_same rfl rfl rfl (fun _ h => h) (fun _ h => h) (fun ns' => ?_) rfl fun _ _ h => h
  dsimp only
  by_cases hns : ns' = ns
  · subst hns
    rw [update_self]
    exact fun _ => mem_append_left _
  · rw [update_of_ne hns]
    exact fun _ h => h

/-- Between two cycles only the stored checkpoints are passed. -/
lemma Sound.endCycle : s.endCycle.Sound copy where
  oplog := h.oplog
  logged := h.logged
  checkpoints ns c hc := ⟨⟨c, Option.mem_toList.mpr hc, le_rfl⟩, (h.checkpoints ns c hc).accounted⟩
  dlq := h.dlq
  rows := h.rows

lemma sound_access {o : Outside χ ρ} {x : χ} {α : Type} {value : α}
    (ht : t.Sound copy ∧ Later copy s t) :
    (access o x s t value).2.Sound copy ∧ Later copy s (access o x s t value).2 := by
  rw [access]
  cases o.fault x with
  | some e => exact ⟨h, Later.refl s⟩
  | none => exact ht

lemma sound_answer {o : Outside χ ρ} {c : SyncCall} {x : χ}
    (howes : s.Owes copy c) (hfresh : s.Fresh c) :
    (answer o c x s).2.Sound copy ∧ Later copy s (answer o c x s).2 := by
  have hsame : s.Sound copy ∧ Later copy s s := ⟨h, Later.refl s⟩
  cases c with
  | getCheckpoint name | dlqScan => exact sound_access h hsame
  | readFrom ns checkpoint => exact sound_access h (h.pass _)
  | setCheckpoint name value =>
    obtain ⟨ns, rfl, hcovers⟩ := howes
    exact sound_access h (h.set_checkpoint hcovers (fun _ _ h => h) fun _ _ h => .inl h)
  | checkpointTruncate name ns safeKey =>
    obtain ⟨rfl, hcovers⟩ := howes
    refine sound_access h (h.set_checkpoint hcovers (fun ns' item hitem => ?_)
      fun ns' item hitem => ?_)
    · by_cases hns : ns' = ns
      · subst hns
        rw [update_self] at hitem
        exact (mem_filter.mp hitem).1
      · rwa [update_of_ne hns] at hitem
    · by_cases hns : ns' = ns
      · subst hns
        rw [update_self]
        rcases lt_or_ge item.1 safeKey with hlt | hge
        · exact .inr ⟨rfl, hlt.le⟩
        · exact .inl (mem_filter.mpr ⟨hitem, decide_eq_true hge⟩)
      · rw [update_of_ne hns]
        exact .inl hitem
  | removeCheckpoint name =>
    refine sound_access h (h.of_same rfl rfl rfl (fun _ h => h) (fun _ h => h) (fun _ _ h => h) rfl
      fun name' c hc => ?_)
    change c ∈ update s.checkpoints name none name' at hc
    by_cases hname : name' = name
    · rw [hname, update_self] at hc
      nomatch hc
    · rwa [update_of_ne hname] at hc
  | dlqEnqueue key row origin =>
    refine sound_access h (h.put_row (fun key' origin' hkey' => ?_)
      (fun key' hne => update_of_ne hne _ _) (update_self ..) howes)
    have hne : key' ≠ key := by
      rintro rfl
      nomatch hkey'.symm.trans (Option.isNone_iff_eq_none.mp hfresh)
    rwa [update_of_ne hne]
  | dlqUpdate key row =>
    obtain ⟨item, hissued, hentry⟩ := howes
    exact sound_access h (h.put_row (fun _ _ h => h) (fun _ _ => rfl) hissued hentry)
  | dlqRemove key => exact sound_access h (h.remove_row howes)
  | bulkWrite ns ops sources =>
    exact h.of_same rfl rfl rfl (fun _ => mem_append_left _) (fun _ h => h) (fun _ _ h => h) rfl
      fun _ _ h => h
  | exclude ns key =>
    exact h.of_same rfl rfl rfl (fun _ h => h) (fun _ => mem_append_left _) (fun _ _ h => h) rfl
      fun _ _ h => h
  | outside c =>
    exact h.of_same rfl rfl rfl (fun _ h => h) (fun _ h => h) (fun _ _ h => h) rfl fun _ _ h => h

end

end SyncStore

end Smongo

import Kubernetes.Client.SharedInformer

/-!
# What an informer is heading for

The indexer lags behind the queue.  The informer is heading for its *target*: the newest pending
delta of a key decides it, and the indexer for keys with nothing pending.  Pops leave the target
alone.
-/

namespace Kubernetes.Client

open Finmap List
open InformerState (config)

variable {Object : Type} {keyFunc : Object → Except String String}

def Delta.outcome (delta : Delta Object) : Option (Obj Object) :=
  if delta.type = .deleted then none else some delta.object

theorem isDup_eq_some {a b out : Delta Object} (h : isDup a b = some out) :
    a.type = .deleted ∧ out.type = .deleted ∧ (out = a ∨ out = b) := by
  unfold isDup isDeletionDup at h
  split_ifs at h with htypes
  push Not at htypes
  split at h <;> cases h
  · exact ⟨htypes.2, htypes.2, .inl rfl⟩
  · exact ⟨htypes.2, htypes.1, .inr rfl⟩

theorem dedupDeltas_concat (older : Deltas Object) (b a : Delta Object) :
    dedupDeltas (older ++ [b] ++ [a]) =
      match isDup a b with
      | some out => older ++ [out]
      | none => older ++ [b] ++ [a] := by
  have hreverse : (older ++ [b] ++ [a]).reverse = a :: b :: older.reverse := by simp
  cases hdup : isDup a b with
  | some out => simp only [dedupDeltas, hreverse, hdup, reverse_reverse]
  | none => simp only [dedupDeltas, hreverse, hdup]

/-- Deduplication either keeps the list or replaces its last two deltas by one of them. -/
theorem dedupDeltas_append (deltas : Deltas Object) (delta : Delta Object) :
    dedupDeltas (deltas ++ [delta]) = deltas ++ [delta] ∨
      ∃ older out, dedupDeltas (deltas ++ [delta]) = older ++ [out] ∧
        delta.type = .deleted ∧ out.type = .deleted ∧
        (∀ kept ∈ older ++ [out], kept ∈ deltas ++ [delta]) := by
  unfold dedupDeltas
  rw [reverse_append, reverse_singleton, singleton_append]
  cases hrev : deltas.reverse with
  | nil => exact .inl rfl
  | cons b older =>
    have hdeltas : deltas = older.reverse ++ [b] := by
      rw [← reverse_reverse deltas, hrev, reverse_cons]
    simp only
    cases hdup : isDup delta b with
    | none => exact .inl rfl
    | some out =>
      obtain ⟨hdelta, hout, hcases⟩ := isDup_eq_some hdup
      refine .inr ⟨older.reverse, out, rfl, hdelta, hout, ?_⟩
      intro kept hkept
      rw [hdeltas]
      rcases mem_append.mp hkept with holder | hlast
      · exact mem_append_left _ (mem_append_left _ holder)
      · rw [List.mem_singleton.mp hlast]
        rcases hcases with rfl | rfl <;> simp

variable {deltas : Deltas Object}

theorem newest_dedupDeltas (deltas : Deltas Object) (delta : Delta Object) :
    ∃ newest, Deltas.newest (dedupDeltas (deltas ++ [delta])) = some newest ∧
      newest.outcome = delta.outcome := by
  rcases dedupDeltas_append deltas delta with h | ⟨older, out, h, hdelta, hout, -⟩
  · exact ⟨delta, by rw [h, Deltas.newest, List.getLast?_concat], rfl⟩
  · refine ⟨out, by rw [h, Deltas.newest, List.getLast?_concat], ?_⟩
    rw [Delta.outcome, Delta.outcome, if_pos hout, if_pos hdelta]

theorem newest_eq_none : Deltas.newest deltas = none ↔ deltas = [] := by
  rw [Deltas.newest, List.getLast?_eq_none_iff]

theorem dedupDeltas_ne_nil (deltas : Deltas Object) (delta : Delta Object) :
    dedupDeltas (deltas ++ [delta]) ≠ [] := by
  obtain ⟨newest, hnewest, -⟩ := newest_dedupDeltas deltas delta
  intro hnil
  rw [hnil] at hnewest
  simp [Deltas.newest] at hnewest

/-! ## The queue -/

/-- Queue and items agree, no item is empty, and every pending delta belongs to its key. -/
structure DeltaFIFO.Consistent (keyFunc : Object → Except String String)
    (fifo : DeltaFIFO Object) : Prop where
  nodup : fifo.queue.Nodup
  mem_queue : ∀ key, key ∈ fifo.queue ↔ key ∈ fifo.items
  nonempty : ∀ key deltas, fifo.items.lookup key = some deltas → deltas ≠ []
  keyed : ∀ key deltas, fifo.items.lookup key = some deltas →
    ∀ delta ∈ deltas, keyOf keyFunc delta.object = .ok key

/-- The object the informer is heading for under a key. -/
def target (fifo : DeltaFIFO Object) (store : Store Object) (key : String) : Option (Obj Object) :=
  match Deltas.newest (fifo.deltasAt key) with
  | some delta => delta.outcome
  | none => store.lookup key

variable {key : String} {actionType : DeltaType} {rest : List String}

namespace DeltaFIFO

variable {fifo : DeltaFIFO Object}

theorem deltasAt_of_notMem (h : key ∉ fifo.items) : fifo.deltasAt key = [] := by
  rw [deltasAt, lookup_eq_none.mpr h]
  rfl

theorem Consistent.mem_items_iff (hfifo : fifo.Consistent keyFunc) (key : String) :
    key ∈ fifo.items ↔ fifo.deltasAt key ≠ [] := by
  constructor
  · intro hmem
    obtain ⟨deltas, hdeltas⟩ := mem_iff.mp hmem
    rw [deltasAt, hdeltas]
    exact hfifo.nonempty key deltas hdeltas
  · intro hne
    by_contra hmem
    exact hne (deltasAt_of_notMem hmem)

theorem consistent_new : (newDeltaFIFO : DeltaFIFO Object).Consistent keyFunc where
  nodup := nodup_nil
  mem_queue key := by simp [newDeltaFIFO, notMem_empty]
  nonempty key deltas h := by simp [newDeltaFIFO] at h
  keyed key deltas h := by simp [newDeltaFIFO] at h

variable {obj : Obj Object} {id : String}

section

variable (fifo : DeltaFIFO Object)

theorem queueActionLocked_eq (hkey : keyOf keyFunc obj = .ok id)
    (hkept : ¬(actionType = .sync ∧ fifo.willObjectBeDeletedLocked id = true)) :
    fifo.queueActionLocked (config keyFunc) actionType obj =
      ({ fifo with
          queue := if id ∈ fifo.items then fifo.queue else fifo.queue ++ [id]
          items := fifo.items.insert id
            (dedupDeltas (fifo.deltasAt id ++ [⟨actionType, obj⟩])) }, none) := by
  have hne := dedupDeltas_ne_nil (fifo.deltasAt id) ⟨actionType, obj⟩
  simp [queueActionLocked, config, hkey, hkept, hne]

/-- A `sync` after a pending deletion is dropped. -/
theorem queueActionLocked_dropped (hkey : keyOf keyFunc obj = .ok id)
    (hdel : fifo.willObjectBeDeletedLocked id = true) :
    fifo.queueActionLocked (config keyFunc) .sync obj = (fifo, none) := by
  simp [queueActionLocked, config, hkey, hdel]

end

/-- An action either changes nothing or files its delta under the key of its object. -/
theorem queueActionLocked_rec {P : DeltaFIFO Object → Prop} (hfifo : P fifo)
    (actionType : DeltaType) (obj : Obj Object)
    (hqueued : ∀ id, keyOf keyFunc obj = .ok id → P { fifo with
      queue := if id ∈ fifo.items then fifo.queue else fifo.queue ++ [id]
      items := fifo.items.insert id (dedupDeltas (fifo.deltasAt id ++ [⟨actionType, obj⟩])) }) :
    P (fifo.queueActionLocked (config keyFunc) actionType obj).1 := by
  cases hkey : keyOf keyFunc obj with
  | error err => simpa [queueActionLocked, config, hkey] using hfifo
  | ok id =>
    by_cases hdropped : actionType = .sync ∧ fifo.willObjectBeDeletedLocked id = true
    · obtain ⟨rfl, hdel⟩ := hdropped
      rw [queueActionLocked_dropped fifo hkey hdel]
      exact hfifo
    · rw [queueActionLocked_eq fifo hkey hdropped]
      exact hqueued id hkey

section

variable (hfifo : fifo.Consistent keyFunc)

include hfifo

/-- Deltas of a key may be filed under it, which queues the key if it has none pending. -/
theorem Consistent.insert (hne : deltas ≠ [])
    (hkeyed : ∀ delta ∈ deltas, keyOf keyFunc delta.object = .ok id) :
    Consistent keyFunc { fifo with
      queue := if id ∈ fifo.items then fifo.queue else fifo.queue ++ [id]
      items := fifo.items.insert id deltas } where
  nodup := by
    split_ifs with hmem
    · exact hfifo.nodup
    · rw [← hfifo.mem_queue] at hmem
      rw [← concat_eq_append]
      exact List.Nodup.concat hmem hfifo.nodup
  mem_queue key := by
    rw [mem_insert]
    split_ifs with hmem
    · rw [hfifo.mem_queue]
      constructor
      · exact .inr
      · rintro (rfl | h)
        · exact hmem
        · exact h
    · rw [mem_append, hfifo.mem_queue, List.mem_singleton, or_comm]
  nonempty := Map.forall_lookup_insert hfifo.nonempty hne
  keyed := Map.forall_lookup_insert hfifo.keyed hkeyed

theorem Consistent.keyed_deltasAt (key : String) :
    ∀ delta ∈ fifo.deltasAt key, keyOf keyFunc delta.object = .ok key := by
  intro delta hdelta
  rw [deltasAt] at hdelta
  cases hget : fifo.items.lookup key with
  | none => simp [hget] at hdelta
  | some deltas =>
    rw [hget] at hdelta
    exact hfifo.keyed key deltas hget delta hdelta

theorem Consistent.keyed_dedupDeltas (hkey : keyOf keyFunc obj = .ok id) :
    ∀ delta ∈ dedupDeltas (fifo.deltasAt id ++ [⟨actionType, obj⟩]),
      keyOf keyFunc delta.object = .ok id := by
  intro delta hdelta
  have hmem : delta ∈ fifo.deltasAt id ++ [⟨actionType, obj⟩] := by
    rcases dedupDeltas_append (fifo.deltasAt id) ⟨actionType, obj⟩ with h | ⟨_, _, h, -, -, hmem⟩
    · rwa [h] at hdelta
    · exact hmem delta (h ▸ hdelta)
  rcases mem_append.mp hmem with hold | hnew
  · exact hfifo.keyed_deltasAt id delta hold
  · rw [List.mem_singleton.mp hnew]
    exact hkey

theorem Consistent.queueActionLocked (actionType : DeltaType) (obj : Obj Object) :
    (fifo.queueActionLocked (config keyFunc) actionType obj).1.Consistent keyFunc := by
  refine queueActionLocked_rec hfifo actionType obj fun id hkey ↦ ?_
  exact hfifo.insert (dedupDeltas_ne_nil _ _) (hfifo.keyed_dedupDeltas hkey)

theorem Consistent.dequeue (hqueue : fifo.queue = id :: rest) (count : ℕ) :
    Consistent keyFunc { fifo with
      queue := rest
      initialPopulationCount := count
      items := fifo.items.erase id } := by
  have hnodup := hfifo.nodup
  rw [hqueue, nodup_cons] at hnodup
  refine ⟨hnodup.2, fun key ↦ ?_, Map.forall_lookup_erase hfifo.nonempty,
    Map.forall_lookup_erase hfifo.keyed⟩
  rw [mem_erase, ← hfifo.mem_queue, hqueue, mem_cons]
  constructor
  · intro hkey
    exact ⟨fun heq ↦ hnodup.1 (heq ▸ hkey), .inr hkey⟩
  · rintro ⟨hne, rfl | hkey⟩
    · exact absurd rfl hne
    · exact hkey

end

/-- An action that is not dropped sets the target of its key to the outcome of its delta. -/
theorem target_queueActionLocked (fifo : DeltaFIFO Object) (store : Store Object)
    (hkey : keyOf keyFunc obj = .ok id)
    (hkept : ¬(actionType = .sync ∧ fifo.willObjectBeDeletedLocked id = true)) (key : String) :
    target (fifo.queueActionLocked (config keyFunc) actionType obj).1 store key =
      if key = id then Delta.outcome ⟨actionType, obj⟩ else target fifo store key := by
  rw [queueActionLocked_eq fifo hkey hkept, target]
  by_cases heq : key = id
  · subst heq
    obtain ⟨newest, hnewest, houtcome⟩ :=
      newest_dedupDeltas (fifo.deltasAt key) ⟨actionType, obj⟩
    rw [if_pos rfl, deltasAt, lookup_insert, Option.getD_some, hnewest]
    exact houtcome
  · rw [if_neg heq, deltasAt, lookup_insert_of_ne _ heq]
    rfl

theorem target_of_willObjectBeDeletedLocked (hdel : fifo.willObjectBeDeletedLocked key = true)
    (store : Store Object) :
    target fifo store key = none := by
  unfold willObjectBeDeletedLocked at hdel
  cases hnewest : Deltas.newest (fifo.deltasAt key) with
  | none => simp [hnewest] at hdel
  | some delta =>
    rw [target, hnewest]
    exact if_pos (by simpa [hnewest] using hdel)

end DeltaFIFO

/-! ## The consumer -/

namespace SharedIndexInformer

section

variable {delta : Delta Object} (informer : SharedIndexInformer Object)
  (hkey : keyOf keyFunc delta.object = .ok key)

include hkey

theorem handleDelta_spec :
    (informer.handleDelta keyFunc delta).2 = none ∧
      ∀ other, (informer.handleDelta keyFunc delta).1.indexer.lookup other =
        if other = key then delta.outcome else informer.indexer.lookup other := by
  obtain ⟨type, obj⟩ := delta
  cases type with
  | deleted =>
    simp [handleDelta, Store.delete, hkey, Delta.outcome, Map.lookup_erase]
  | added | updated | sync =>
    cases hget : informer.indexer.lookup key <;>
      simp [handleDelta, Store.get, Store.update, Store.add, hkey, hget, Delta.outcome,
        Map.lookup_insert]

theorem handleDeltas_cons (rest : Deltas Object) :
    informer.handleDeltas keyFunc (delta :: rest) =
      (informer.handleDelta keyFunc delta).1.handleDeltas keyFunc rest := by
  have hnone := (informer.handleDelta_spec hkey).1
  rw [handleDeltas]
  generalize informer.handleDelta keyFunc delta = result at hnone
  obtain ⟨next, err⟩ := result
  subst hnone
  rfl

end

/-- The newest of the deltas of one key decides what is stored under the key. -/
theorem handleDeltas_spec (deltas : Deltas Object) (informer : SharedIndexInformer Object)
    (hkeyed : ∀ delta ∈ deltas, keyOf keyFunc delta.object = .ok key) :
    (informer.handleDeltas keyFunc deltas).2 = none ∧
      ∀ other, (informer.handleDeltas keyFunc deltas).1.indexer.lookup other =
        if other = key then
          (match Deltas.newest deltas with
          | some delta => delta.outcome
          | none => informer.indexer.lookup key)
        else informer.indexer.lookup other := by
  induction deltas generalizing informer with
  | nil =>
    refine ⟨rfl, fun other ↦ ?_⟩
    by_cases heq : other = key
    · subst heq
      simp [handleDeltas, Deltas.newest]
    · simp [handleDeltas, heq]
  | cons delta rest ih =>
    obtain ⟨-, hget⟩ := informer.handleDelta_spec (hkeyed delta mem_cons_self)
    obtain ⟨hrestNone, hrest⟩ := ih (informer.handleDelta keyFunc delta).1
      (fun delta' h ↦ hkeyed delta' (mem_cons_of_mem _ h))
    rw [handleDeltas_cons informer (hkeyed delta mem_cons_self)]
    refine ⟨hrestNone, fun other ↦ ?_⟩
    rw [hrest other, hget key, hget other]
    by_cases heq : other = key
    · simp only [if_pos heq]
      cases rest <;> rfl
    · simp only [if_neg heq]

end SharedIndexInformer

def Store.Keyed (keyFunc : Object → Except String String) (store : Store Object) : Prop :=
  ∀ key obj, store.lookup key = some obj → keyOf keyFunc obj = .ok key

namespace InformerState

structure Consistent (keyFunc : Object → Except String String) (state : InformerState Object) :
    Prop where
  fifo : state.fifo.Consistent keyFunc
  keyed : state.informer.indexer.Keyed keyFunc

def target (state : InformerState Object) (key : String) : Option (Obj Object) :=
  Client.target state.fifo state.informer.indexer key

variable {state : InformerState Object}

theorem pop_of_queue_nil (hqueue : state.fifo.queue = []) : state.pop keyFunc = state := by
  obtain ⟨⟨items, queue, populated, count⟩, informer, resyncs⟩ := state
  subst hqueue
  rfl

theorem pop_of_queue_cons (hstate : state.Consistent keyFunc) {id : String}
    (hqueue : state.fifo.queue = id :: rest) :
    ∃ item, state.fifo.items.lookup id = some item ∧
      state.pop keyFunc =
        { state with
          fifo := { state.fifo with
            queue := rest
            initialPopulationCount := state.fifo.initialPopulationCount - 1
            items := state.fifo.items.erase id }
          informer := (state.informer.handleDeltas keyFunc item).1 } := by
  have hmem : id ∈ state.fifo.items := by
    rw [← hstate.fifo.mem_queue, hqueue]
    exact mem_cons_self
  obtain ⟨item, hitem⟩ := mem_iff.mp hmem
  refine ⟨item, hitem, ?_⟩
  have hnone := (state.informer.handleDeltas_spec item (hstate.fifo.keyed id item hitem)).1
  unfold pop DeltaFIFO.pop
  rw [hqueue]
  simp only [DeltaFIFO.popLoop, hitem, SharedIndexInformer.process]
  generalize state.informer.handleDeltas keyFunc item = result at hnone
  obtain ⟨informer, err⟩ := result
  subst hnone
  rfl

/-- A pop changes neither the consistency nor the target of the state. -/
theorem Consistent.pop (hstate : state.Consistent keyFunc) :
    (state.pop keyFunc).Consistent keyFunc ∧
      ∀ key, (state.pop keyFunc).target key = state.target key := by
  cases hqueue : state.fifo.queue with
  | nil =>
    rw [pop_of_queue_nil hqueue]
    exact ⟨hstate, fun _ ↦ rfl⟩
  | cons id rest =>
    obtain ⟨item, hitem, hpop⟩ := pop_of_queue_cons hstate hqueue
    have hkeyed := hstate.fifo.keyed id item hitem
    have hget := (state.informer.handleDeltas_spec item hkeyed).2
    obtain ⟨newest, hnewest⟩ : ∃ newest, Deltas.newest item = some newest := by
      cases hlast : Deltas.newest item with
      | none => exact absurd (newest_eq_none.mp hlast) (hstate.fifo.nonempty id item hitem)
      | some newest => exact ⟨newest, rfl⟩
    have hmem : newest ∈ item := List.mem_of_getLast? hnewest
    rw [hpop]
    refine ⟨⟨hstate.fifo.dequeue hqueue _, fun key obj h ↦ ?_⟩, fun key ↦ ?_⟩
    · rw [hget key] at h
      split_ifs at h with heq
      · rw [hnewest] at h
        simp only [Delta.outcome] at h
        split_ifs at h
        rw [← Option.some.inj h, heq]
        exact hkeyed newest hmem
      · exact hstate.keyed key obj h
    · unfold target Client.target
      by_cases heq : key = id
      · subst heq
        simp only [DeltaFIFO.deltasAt, lookup_erase, hitem, Option.getD_some,
          Option.getD_none, hnewest, hget key, if_pos]
        rfl
      · simp only [DeltaFIFO.deltasAt, lookup_erase_ne heq, hget key, if_neg heq]

end InformerState

/-! ## The producers -/

namespace DeltaFIFO

variable {fifo fifo' : DeltaFIFO Object}

theorem Consistent.populate (hfifo : fifo.Consistent keyFunc) (count : ℕ) :
    (fifo.populate count).Consistent keyFunc := by
  unfold DeltaFIFO.populate
  split_ifs
  · exact hfifo
  · exact { hfifo with }

theorem Consistent.setPopulated (hfifo : fifo.Consistent keyFunc) :
    Consistent keyFunc { fifo with populated := true } :=
  { hfifo with }

theorem consistent_kept (keyFunc : Object → Except String String) :
    Kept (config keyFunc) (Consistent keyFunc) where
  setPopulated _ hfifo := hfifo.setPopulated
  populate _ count hfifo := hfifo.populate count
  action _ actionType obj hfifo := hfifo.queueActionLocked actionType obj

theorem deltasAt_populate (fifo : DeltaFIFO Object) (count : ℕ) (key : String) :
    (fifo.populate count).deltasAt key = fifo.deltasAt key := by
  unfold populate
  split_ifs <;> rfl

/-- A tombstone always has a key, so its deletion is always queued. -/
theorem queueActionLocked_tombstone (keyFunc : Object → Except String String)
    (fifo : DeltaFIFO Object) (id : String) (obj : Obj Object) :
    (fifo.queueActionLocked (config keyFunc) .deleted
        (.deletedFinalStateUnknown id obj)).2 = none ∧
      ∀ (store : Store Object) (key : String),
        target (fifo.queueActionLocked (config keyFunc) .deleted
          (.deletedFinalStateUnknown id obj)).1 store key =
          if key = id then none else target fifo store key := by
  have hkey : keyOf keyFunc (.deletedFinalStateUnknown id obj) = .ok id := rfl
  have hkept : ¬(DeltaType.deleted = .sync ∧ fifo.willObjectBeDeletedLocked id = true) := by
    simp
  refine ⟨?_, fun store key ↦ target_queueActionLocked fifo store hkey hkept key⟩
  rw [queueActionLocked_eq fifo hkey hkept]

variable {id : String}

section

variable (keyFunc : Object → Except String String) (known : KeyListerGetter Object)

theorem replaceDeleteKnown_cons {keys : List String} (hid : id ∉ keys) (rest : List String)
    (fifo : DeltaFIFO Object) (count : ℕ) :
    ∃ obj, fifo.replaceDeleteKnown (config keyFunc) known keys (id :: rest) count =
      replaceDeleteKnown (config keyFunc) known keys rest
        (fifo.queueActionLocked (config keyFunc) .deleted
          (.deletedFinalStateUnknown id obj)).1 (count + 1) := by
  have hqueued : ∀ obj, fifo.queueActionLocked (config keyFunc) .deleted
      (.deletedFinalStateUnknown id obj) = ((fifo.queueActionLocked
        (config keyFunc) .deleted (.deletedFinalStateUnknown id obj)).1, none) :=
    fun obj ↦ Prod.ext rfl (queueActionLocked_tombstone keyFunc fifo id obj).1
  rw [replaceDeleteKnown, if_neg hid]
  dsimp only
  rw [hqueued]
  exact ⟨_, rfl⟩

/-- The deletion loop of `Replace` clears the target of the known keys the list lacks. -/
theorem replaceDeleteKnown_spec (keys : List String) (store : Store Object) (order : List String)
    (fifo : DeltaFIFO Object) (count : ℕ) :
    let result := fifo.replaceDeleteKnown (config keyFunc) known keys order count
    result.2.2 = none ∧ ∀ key, target result.1 store key =
        if key ∈ order ∧ key ∉ keys then none else target fifo store key := by
  induction order generalizing fifo count with
  | nil => exact ⟨rfl, fun key ↦ by simp [replaceDeleteKnown]⟩
  | cons id rest ih =>
    by_cases hid : id ∈ keys
    · rw [replaceDeleteKnown, if_pos hid]
      obtain ⟨hnone, htarget⟩ := ih fifo count
      refine ⟨hnone, fun key ↦ ?_⟩
      rw [htarget key]
      by_cases heq : key = id
      · subst heq
        simp [hid]
      · simp [heq]
    · obtain ⟨obj, hstep⟩ := replaceDeleteKnown_cons keyFunc known hid rest fifo count
      obtain ⟨-, hqueued⟩ := queueActionLocked_tombstone keyFunc fifo id obj
      rw [hstep]
      obtain ⟨hnone, htarget⟩ := ih _ (count + 1)
      refine ⟨hnone, fun key ↦ ?_⟩
      rw [htarget key, hqueued store key]
      by_cases heq : key = id
      · subst heq
        simp [hid]
      · simp [heq]

end

theorem replaceItems_cons {item : Obj Object} (hkey : keyOf keyFunc item = .ok id)
    (rest : List (Obj Object)) (fifo : DeltaFIFO Object) (keys : List String) :
    replaceItems (config keyFunc) (item :: rest) fifo keys =
      replaceItems (config keyFunc) rest
        (fifo.queueActionLocked (config keyFunc) .sync item).1 (keys ++ [id]) := by
  rw [replaceItems, show (config keyFunc).keyFunc = keyFunc from rfl, hkey]
  have hnone : (fifo.queueActionLocked (config keyFunc) .sync item).2 = none := by
    by_cases hdel : fifo.willObjectBeDeletedLocked id = true
    · rw [queueActionLocked_dropped fifo hkey hdel]
    · rw [queueActionLocked_eq fifo hkey (fun h ↦ hdel h.2)]
  generalize fifo.queueActionLocked (config keyFunc) .sync item = result at hnone
  obtain ⟨fifo', err⟩ := result
  subst hnone
  rfl

theorem deltasAt_queueActionLocked_sync (fifo : DeltaFIFO Object) {obj : Obj Object}
    (hkey : keyOf keyFunc obj = .ok id) (hne : key ≠ id) :
    (fifo.queueActionLocked (config keyFunc) .sync obj).1.deltasAt key =
      fifo.deltasAt key := by
  by_cases hdel : fifo.willObjectBeDeletedLocked id = true
  · rw [queueActionLocked_dropped fifo hkey hdel]
  · rw [queueActionLocked_eq fifo hkey (fun h ↦ hdel h.2), deltasAt, lookup_insert_of_ne _ hne]
    rfl

theorem target_queueActionLocked_sync (fifo : DeltaFIFO Object) (store : Store Object)
    {obj : Obj Object} (hkey : keyOf keyFunc obj = .ok id) :
    target (fifo.queueActionLocked (config keyFunc) .sync obj).1 store id =
      if fifo.willObjectBeDeletedLocked id = true then none else some obj := by
  by_cases hdel : fifo.willObjectBeDeletedLocked id = true
  · rw [queueActionLocked_dropped fifo hkey hdel, if_pos hdel]
    exact target_of_willObjectBeDeletedLocked hdel store
  · rw [target_queueActionLocked fifo store hkey (fun h ↦ hdel h.2), if_pos rfl,
      if_neg hdel]
    rfl

theorem target_congr (h : fifo'.deltasAt key = fifo.deltasAt key) (store : Store Object) :
    target fifo' store key = target fifo store key := by
  rw [target, target, h]

/-- The listing loop sets the target of every listed key, unless its newest pending delta is a
deletion. -/
theorem replaceItems_spec (store : Store Object) (list : List (Obj Object))
    (fifo : DeltaFIFO Object) (keys : List String)
    (hlist : (replaceItems (config keyFunc) list fifo keys).2.2 = none)
    (hdistinct : list.Pairwise fun a b ↦ keyOf keyFunc a ≠ keyOf keyFunc b) :
    let result := replaceItems (config keyFunc) list fifo keys
    (∀ key, key ∈ result.2.1 ↔ key ∈ keys ∨ ∃ obj ∈ list, keyOf keyFunc obj = .ok key) ∧
      (∀ key, (∀ obj ∈ list, keyOf keyFunc obj ≠ .ok key) →
        result.1.deltasAt key = fifo.deltasAt key) ∧
      ∀ obj ∈ list, ∃ key, keyOf keyFunc obj = .ok key ∧
        target result.1 store key =
          if fifo.willObjectBeDeletedLocked key = true then none else some obj := by
  induction list generalizing fifo keys with
  | nil => simp [replaceItems]
  | cons item rest ih =>
    cases hkey : keyOf keyFunc item with
    | error err => simp [replaceItems, config, hkey] at hlist
    | ok id =>
      rw [replaceItems_cons hkey] at hlist ⊢
      rw [pairwise_cons] at hdistinct
      obtain ⟨hkeys, hframe, htarget⟩ := ih _ _ hlist hdistinct.2
      have hfresh : ∀ obj ∈ rest, keyOf keyFunc obj ≠ .ok id := fun obj hobj ↦ by
        rw [← hkey]
        exact (hdistinct.1 obj hobj).symm
      refine ⟨fun key ↦ ?_, fun key hnone ↦ ?_, fun obj hobj ↦ ?_⟩
      · rw [hkeys key, mem_append, List.mem_singleton, exists_mem_cons_iff, hkey,
          Except.ok.injEq, or_assoc, eq_comm (a := key)]
      · have hne : key ≠ id := fun heq ↦ hnone item mem_cons_self (heq ▸ hkey)
        rw [hframe key fun obj hobj ↦ hnone obj (mem_cons_of_mem _ hobj)]
        exact deltasAt_queueActionLocked_sync fifo hkey hne
      · rcases mem_cons.mp hobj with rfl | hrest
        · refine ⟨id, hkey, ?_⟩
          rw [target_congr (hframe id hfresh), target_queueActionLocked_sync fifo store hkey]
        · obtain ⟨key, hobjKey, hobjTarget⟩ := htarget obj hrest
          have hne : key ≠ id := fun heq ↦ hfresh obj hrest (heq ▸ hobjKey)
          refine ⟨key, hobjKey, ?_⟩
          rw [hobjTarget, willObjectBeDeletedLocked, willObjectBeDeletedLocked,
            deltasAt_queueActionLocked_sync fifo hkey hne]

end DeltaFIFO

end Kubernetes.Client

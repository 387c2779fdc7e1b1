import Kubernetes.Client.InformerConvergence

/-!
# The event stream of a listener

A listener of a shared informer is told of the changes of the indexer.  The stream of every listener
replays to the indexer: an addition meets an absent key, an update carries the object delivered
last, and a deletion meets a present key.

`HandleDeltas` announces every `deleted` delta without looking at the indexer, so the queue must
never hold a deletion of an object that is gone by the time the delta is applied.
-/

namespace Kubernetes.Client

open Finmap List
open InformerState (config)

variable {Object : Type} {keyFunc : Object → Except String String}

def Store.list (store : Store Object) (order : List String) : List (Obj Object) :=
  order.filterMap fun key ↦ store.lookup key

/-- `AddEventHandler`: a late listener is first told of every indexed item. -/
def SharedIndexInformer.addEventHandler (informer : SharedIndexInformer Object) (started : Bool)
    (order : List String) : SharedIndexInformer Object :=
  { informer with
    listeners := informer.listeners ++
      [if started then (informer.indexer.list order).map .add else []] }

structure SharedInformerState (Object : Type) where
  started : Bool
  joint : InformerState Object

inductive SharedInformerOp (Object : Type)
  | addEventHandler
  | run
  | queue (op : InformerOp Object)

/-- Nobody uses the queue before `Run` makes it.  `AddEventHandler` excludes `HandleDeltas`, so it
falls between two pops. -/
inductive SharedInformerStep (keyFunc : Object → Except String String) :
    SharedInformerState Object → SharedInformerOp Object → SharedInformerState Object → Prop
  | addEventHandler (state : SharedInformerState Object) (order : List String)
      (horder : Map.IsOrder order state.joint.informer.indexer) :
      SharedInformerStep keyFunc state .addEventHandler
        { state with
          joint := { state.joint with
            informer := state.joint.informer.addEventHandler state.started order } }
  | run (state : SharedInformerState Object) (hstarted : state.started = false) :
      SharedInformerStep keyFunc state .run
        { started := true
          joint := { state.joint with fifo := newDeltaFIFO, resyncs := [] } }
  | queue (state : SharedInformerState Object) (hstarted : state.started = true)
      (op : InformerOp Object) (next : InformerState Object)
      (hstep : InformerStep keyFunc state.joint op next) :
      SharedInformerStep keyFunc state (.queue op) { state with joint := next }

def newSharedInformerState : SharedInformerState Object where
  started := false
  joint := { fifo := newDeltaFIFO, informer := ⟨∅, []⟩, resyncs := [] }

def SharedInformerState.Reachable (keyFunc : Object → Except String String) :
    SharedInformerState Object → Prop :=
  Transition.Reachable (· = newSharedInformerState) (SharedInformerStep keyFunc)

/-! ## Replaying notifications -/

/-- Notifications lead a listener to `final`: additions of absent keys, updates from the object
delivered last, deletions of present keys. -/
inductive Replays (keyFunc : Object → Except String String) :
    Store Object → List (Notification Object) → Store Object → Prop
  | nil (known : Store Object) : Replays keyFunc known [] known
  | add {known final : Store Object} {rest : List (Notification Object)} {newObj : Obj Object}
      {key : String} (hkey : keyOf keyFunc newObj = .ok key) (habsent : key ∉ known)
      (hrest : Replays keyFunc (known.insert key newObj) rest final) :
      Replays keyFunc known (.add newObj :: rest) final
  | update {known final : Store Object} {rest : List (Notification Object)}
      {oldObj newObj : Obj Object} {key : String} (hkey : keyOf keyFunc newObj = .ok key)
      (hlast : known.lookup key = some oldObj)
      (hrest : Replays keyFunc (known.insert key newObj) rest final) :
      Replays keyFunc known (.update oldObj newObj :: rest) final
  | delete {known final : Store Object} {rest : List (Notification Object)} {oldObj : Obj Object}
      {key : String} (hkey : keyOf keyFunc oldObj = .ok key) (hpresent : key ∈ known)
      (hrest : Replays keyFunc (known.erase key) rest final) :
      Replays keyFunc known (.delete oldObj :: rest) final

theorem Replays.append {known middle final : Store Object}
    {first second : List (Notification Object)} (hfirst : Replays keyFunc known first middle)
    (hsecond : Replays keyFunc middle second final) :
    Replays keyFunc known (first ++ second) final := by
  induction hfirst with
  | nil => exact hsecond
  | add hkey habsent _ ih => exact .add hkey habsent (ih hsecond)
  | update hkey hlast _ ih => exact .update hkey hlast (ih hsecond)
  | delete hkey hpresent _ ih => exact .delete hkey hpresent (ih hsecond)

variable {store : Store Object} {order : List String}

theorem replays_list (hkeyed : store.Keyed keyFunc) (hnodup : order.Nodup) (known : Store Object)
    (habsent : ∀ key ∈ order, key ∉ known) (hpresent : ∀ key ∈ order, key ∈ store) :
    ∃ final, Replays keyFunc known ((store.list order).map .add) final ∧
      ∀ key, final.lookup key = if key ∈ order then store.lookup key else known.lookup key := by
  induction order generalizing known with
  | nil => exact ⟨known, .nil known, fun key ↦ by simp⟩
  | cons id rest ih =>
    obtain ⟨obj, hobj⟩ := mem_iff.mp (hpresent id mem_cons_self)
    rw [nodup_cons] at hnodup
    have hfresh : ∀ key ∈ rest, key ∉ known.insert id obj := by
      intro key hkey
      rw [mem_insert]
      rintro (rfl | hmem)
      · exact hnodup.1 hkey
      · exact habsent key (mem_cons_of_mem _ hkey) hmem
    obtain ⟨final, hreplays, hget⟩ := ih hnodup.2 (known.insert id obj) hfresh
      fun key hkey ↦ hpresent key (mem_cons_of_mem _ hkey)
    refine ⟨final, ?_, fun key ↦ ?_⟩
    · have hlist : store.list (id :: rest) = obj :: store.list rest :=
        filterMap_cons_some (f := fun key ↦ store.lookup key) hobj
      rw [hlist]
      exact .add (hkeyed id obj hobj) (habsent id mem_cons_self) hreplays
    · rw [hget key]
      by_cases heq : key = id
      · subst heq
        simp [hnodup.1, hobj]
      · simp [heq]

/-- A listener that joins late is told exactly of the items of the indexer. -/
theorem replays_list_of_isOrder (hkeyed : store.Keyed keyFunc) (horder : Map.IsOrder order store) :
    Replays keyFunc ∅ ((store.list order).map .add) store := by
  obtain ⟨final, hreplays, hget⟩ := replays_list hkeyed horder.1 ∅
    (fun key _ ↦ notMem_empty) fun key hkey ↦ (horder.2 key).mp hkey
  have hfinal : final = store := by
    apply ext_lookup
    intro key
    rw [hget key]
    split_ifs with hmem
    · rfl
    · exact (lookup_eq_none.mpr fun hstore ↦ hmem ((horder.2 key).mpr hstore)).symm
  rwa [hfinal] at hreplays

/-! ## Pending deletions -/

/-- Every deletion among the deltas finds an object, given whether one is there before them. -/
def Deltas.DeletesPresent (present : Prop) : Deltas Object → Prop
  | [] => True
  | delta :: rest =>
    (delta.type = .deleted → present) ∧ DeletesPresent (delta.type ≠ .deleted) rest

theorem deletesPresent_concat (present : Prop) (deltas : Deltas Object) (delta : Delta Object) :
    Deltas.DeletesPresent present (deltas ++ [delta]) ↔
      Deltas.DeletesPresent present deltas ∧
        (delta.type = .deleted →
          match Deltas.newest deltas with
          | some newest => newest.type ≠ .deleted
          | none => present) := by
  induction deltas generalizing present with
  | nil => simp [Deltas.DeletesPresent, Deltas.newest]
  | cons first rest ih =>
    rw [cons_append, Deltas.DeletesPresent, Deltas.DeletesPresent, ih, and_assoc]
    cases rest with
    | nil => simp [Deltas.newest]
    | cons second rest =>
      rfl

variable {delta : Delta Object}

/-- Deletions are merged, so an appended one finds an object as soon as the first delta of its key
would. -/
theorem deletesPresent_dedupDeltas {present : Prop} {deltas : Deltas Object}
    (hdeltas : Deltas.DeletesPresent present deltas)
    (hfirst : delta.type = .deleted → deltas = [] → present) :
    Deltas.DeletesPresent present (dedupDeltas (deltas ++ [delta])) := by
  rcases eq_nil_or_concat' deltas with rfl | ⟨older, newest, rfl⟩
  · exact ⟨fun htype ↦ hfirst htype rfl, trivial⟩
  · rw [dedupDeltas_concat]
    cases hdup : isDup delta newest with
    | some out =>
      have hnewest : newest.type = .deleted := by
        by_contra htype
        simp [isDup, isDeletionDup, htype] at hdup
      rw [deletesPresent_concat] at hdeltas ⊢
      exact ⟨hdeltas.1, fun _ ↦ hdeltas.2 hnewest⟩
    | none =>
      refine (deletesPresent_concat _ _ _).mpr ⟨hdeltas, fun htype ↦ ?_⟩
      rw [Deltas.newest, List.getLast?_concat]
      intro hnewest
      unfold isDup isDeletionDup at hdup
      rw [if_neg (by simp [htype, hnewest])] at hdup
      split at hdup <;> cases hdup

namespace DeltaFIFO

/-- Every pending deletion will find its object in the store. -/
def DeletesPresent (fifo : DeltaFIFO Object) (store : Store Object) : Prop :=
  ∀ key, Deltas.DeletesPresent (key ∈ store) (fifo.deltasAt key)

theorem deletesPresent_new (store : Store Object) :
    (newDeltaFIFO : DeltaFIFO Object).DeletesPresent store := by
  intro key
  trivial

variable {fifo : DeltaFIFO Object}

section

variable (hfifo : fifo.DeletesPresent store)

include hfifo

/-- An action keeps the property if a deletion that comes first for its key has its object stored.
-/
theorem DeletesPresent.queueActionLocked (actionType : DeltaType) (obj : Obj Object)
    (hfirst : ∀ id, keyOf keyFunc obj = .ok id → actionType = .deleted →
      fifo.deltasAt id = [] → id ∈ store) :
    (fifo.queueActionLocked (config keyFunc) actionType obj).1.DeletesPresent
      store := by
  refine queueActionLocked_rec (P := (DeletesPresent · store)) hfifo actionType obj fun id hkey key ↦ ?_
  by_cases heq : key = id
  · subst heq
    rw [deltasAt, lookup_insert]
    exact deletesPresent_dedupDeltas (hfifo key) (hfirst key hkey)
  · rw [deltasAt, lookup_insert_of_ne _ heq]
    exact hfifo key

theorem DeletesPresent.queueActionLocked_of_ne {actionType : DeltaType}
    (htype : actionType ≠ .deleted) (obj : Obj Object) :
    (fifo.queueActionLocked (config keyFunc) actionType obj).1.DeletesPresent
      store :=
  hfifo.queueActionLocked actionType obj fun _ _ hdel ↦ absurd hdel htype

theorem DeletesPresent.setPopulated : DeletesPresent { fifo with populated := true } store := hfifo

theorem DeletesPresent.replaceItems (list : List (Obj Object)) (keys : List String) :
    (replaceItems (config keyFunc) list fifo keys).1.DeletesPresent store :=
  replaceItems_rec (P := (DeletesPresent · store))
    (fun _ obj hfifo ↦ hfifo.queueActionLocked_of_ne (by decide) obj) list hfifo keys

theorem DeletesPresent.replaceDeleteKnown (known : KeyListerGetter Object) (keys : List String)
    (horder : ∀ key ∈ order, key ∈ store) (count : ℕ) :
    (fifo.replaceDeleteKnown (config keyFunc) known keys order count).1.DeletesPresent
      store := by
  induction order generalizing fifo count with
  | nil => exact hfifo
  | cons id rest ih =>
    have hrest : ∀ key ∈ rest, key ∈ store := fun key h ↦ horder key (mem_cons_of_mem _ h)
    by_cases hid : id ∈ keys
    · rw [DeltaFIFO.replaceDeleteKnown, if_pos hid]
      exact ih hfifo hrest count
    · obtain ⟨obj, hstep⟩ := replaceDeleteKnown_cons keyFunc known hid rest fifo count
      rw [hstep]
      refine ih (hfifo.queueActionLocked _ _ fun key hkey _ _ ↦ ?_) hrest _
      rw [← Except.ok.inj hkey]
      exact horder id mem_cons_self

end

end DeltaFIFO

/-! ## The consumer -/

namespace SharedIndexInformer

variable {key : String}

section

variable (informer : SharedIndexInformer Object) (hkey : keyOf keyFunc delta.object = .ok key)

include hkey

/-- A delta has one notification, which leads from the indexer before it to the one after. -/
theorem handleDelta_replays (hpresent : delta.type = .deleted → key ∈ informer.indexer) :
    ∃ notification,
      (informer.handleDelta keyFunc delta).1.listeners =
        distribute informer.listeners notification ∧
      Replays keyFunc informer.indexer [notification]
        (informer.handleDelta keyFunc delta).1.indexer := by
  obtain ⟨type, obj⟩ := delta
  cases type with
  | deleted =>
    refine ⟨.delete obj, by simp [handleDelta, Store.delete, hkey], ?_⟩
    simpa [handleDelta, Store.delete, hkey] using
      Replays.delete hkey (hpresent rfl) (.nil (informer.indexer.erase key))
  | added | updated | sync =>
    cases hget : informer.indexer.lookup key with
    | none =>
      refine ⟨.add obj, by simp [handleDelta, Store.get, Store.add, hkey, hget], ?_⟩
      simpa [handleDelta, Store.get, Store.add, hkey, hget] using
        Replays.add hkey (lookup_eq_none.mp hget) (.nil (informer.indexer.insert key obj))
    | some old =>
      refine ⟨.update old obj,
        by simp [handleDelta, Store.get, Store.update, Store.add, hkey, hget], ?_⟩
      simpa [handleDelta, Store.get, Store.update, Store.add, hkey, hget] using
        Replays.update hkey hget (.nil (informer.indexer.insert key obj))

theorem mem_handleDelta_indexer :
    key ∈ (informer.handleDelta keyFunc delta).1.indexer ↔ delta.type ≠ .deleted := by
  rw [← lookup_isSome, (informer.handleDelta_spec hkey).2 key, if_pos rfl, Delta.outcome]
  split_ifs with htype <;> simp [htype]

end

/-- All listeners get the same notifications, which lead from the indexer before the deltas to the
one after. -/
theorem handleDeltas_replays (deltas : Deltas Object) (informer : SharedIndexInformer Object)
    (hkeyed : ∀ delta ∈ deltas, keyOf keyFunc delta.object = .ok key)
    (hdeltas : Deltas.DeletesPresent (key ∈ informer.indexer) deltas) :
    ∃ notifications,
      (informer.handleDeltas keyFunc deltas).1.listeners =
        informer.listeners.map (· ++ notifications) ∧
      Replays keyFunc informer.indexer notifications
        (informer.handleDeltas keyFunc deltas).1.indexer := by
  induction deltas generalizing informer with
  | nil => exact ⟨[], by simp [handleDeltas], .nil _⟩
  | cons delta rest ih =>
    have hkey := hkeyed delta mem_cons_self
    obtain ⟨notification, hlisteners, hreplays⟩ := informer.handleDelta_replays hkey hdeltas.1
    obtain ⟨notifications, hrestListeners, hrestReplays⟩ :=
      ih (informer.handleDelta keyFunc delta).1
        (fun delta' h ↦ hkeyed delta' (mem_cons_of_mem _ h))
        (by
          rw [informer.mem_handleDelta_indexer hkey]
          exact hdeltas.2)
    rw [handleDeltas_cons informer hkey rest]
    refine ⟨notification :: notifications, ?_, hreplays.append hrestReplays⟩
    rw [hrestListeners, hlisteners, distribute]
    simp [Function.comp_def]

end SharedIndexInformer

/-! ## Whole runs -/

namespace InformerState

/-- Every pending deletion will find its object, and what a listener was told replays to the
indexer. -/
structure Announced (keyFunc : Object → Except String String) (state : InformerState Object) :
    Prop where
  consistent : state.Consistent keyFunc
  deletesPresent : state.fifo.DeletesPresent state.informer.indexer
  replays : ∀ listener ∈ state.informer.listeners,
    Replays keyFunc ∅ listener state.informer.indexer

variable {state : InformerState Object}

theorem DeletesPresent.delete (hstate : state.Consistent keyFunc)
    (hdeletes : state.fifo.DeletesPresent state.informer.indexer) (obj : Obj Object) :
    (state.delete keyFunc obj).1.DeletesPresent state.informer.indexer := by
  have hpopulated := hdeletes.setPopulated
  cases hkey : keyOf keyFunc obj with
  | error err => simpa [InformerState.delete, DeltaFIFO.delete, config, hkey] using hdeletes
  | ok id =>
    simp only [InformerState.delete, DeltaFIFO.delete, config, hkey, Store.knownObjects]
    cases hget : state.informer.indexer.lookup id with
    | some old =>
      refine hpopulated.queueActionLocked .deleted obj fun key hobj _ _ ↦ ?_
      rw [← Except.ok.inj (hkey.symm.trans hobj)]
      exact mem_of_lookup_eq_some hget
    | none =>
      split_ifs with hqueued
      · refine hpopulated.queueActionLocked .deleted obj fun key hobj _ hnil ↦ ?_
        rw [← Except.ok.inj (hkey.symm.trans hobj)] at hnil
        exact absurd hnil ((hstate.fifo.mem_items_iff id).mp hqueued)
      · exact hpopulated

section

variable (hdeletes : state.fifo.DeletesPresent state.informer.indexer)

include hdeletes

theorem DeletesPresent.replace (horder : Map.IsOrder order state.informer.indexer)
    (list : List (Obj Object)) :
    (state.replace keyFunc order list).1.DeletesPresent state.informer.indexer := by
  have hlisted : (DeltaFIFO.replaceItems (config keyFunc) list state.fifo []).1.DeletesPresent
      state.informer.indexer := hdeletes.replaceItems list []
  rcases state.replace_cases order list with ⟨-, h⟩ | ⟨-, count, h⟩
  · rw [h]
    exact hlisted
  · rw [h]
    intro key
    rw [DeltaFIFO.deltasAt_populate]
    exact hlisted.replaceDeleteKnown _ _ (fun id hid ↦ (horder.2 id).mp hid) 0 key

theorem DeletesPresent.syncKey (key : String) :
    (state.syncKey keyFunc key).1.DeletesPresent state.informer.indexer :=
  DeltaFIFO.syncKey_rec (P := (DeltaFIFO.DeletesPresent · state.informer.indexer))
    (fun _ obj hfifo ↦ hfifo.queueActionLocked_of_ne (by decide) obj) hdeletes _ key

end

theorem Announced.pop (hstate : state.Announced keyFunc) :
    (state.pop keyFunc).Announced keyFunc := by
  have hcons := hstate.consistent.pop.1
  cases hqueue : state.fifo.queue with
  | nil =>
    rw [pop_of_queue_nil hqueue]
    exact hstate
  | cons id rest =>
    obtain ⟨item, hitem, hpop⟩ := pop_of_queue_cons hstate.consistent hqueue
    have hkeyed := hstate.consistent.fifo.keyed id item hitem
    have hget := (state.informer.handleDeltas_spec item hkeyed).2
    have hpend := hstate.deletesPresent id
    rw [DeltaFIFO.deltasAt, hitem] at hpend
    obtain ⟨notifications, hlisteners, hreplays⟩ :=
      state.informer.handleDeltas_replays item hkeyed hpend
    rw [hpop] at hcons ⊢
    refine ⟨hcons, fun key ↦ ?_, fun listener hlistener ↦ ?_⟩
    · by_cases heq : key = id
      · subst heq
        rw [DeltaFIFO.deltasAt, lookup_erase]
        trivial
      · have hmem : (key ∈ (state.informer.handleDeltas keyFunc item).1.indexer) =
            (key ∈ state.informer.indexer) := by
          rw [← lookup_isSome, ← lookup_isSome, hget key, if_neg heq]
        rw [DeltaFIFO.deltasAt, lookup_erase_ne heq, hmem]
        exact hstate.deletesPresent key
    · rw [hlisteners, mem_map] at hlistener
      obtain ⟨before, hbefore, rfl⟩ := hlistener
      exact (hstate.replays before hbefore).append hreplays

theorem Announced.step {next : InformerState Object} {op : InformerOp Object}
    (hstate : state.Announced keyFunc) (hstep : InformerStep keyFunc state op next) :
    next.Announced keyFunc := by
  have hcons := hstate.consistent.step hstep
  cases hstep with
  | add obj | update obj =>
    exact ⟨hcons,
      hstate.deletesPresent.setPopulated.queueActionLocked_of_ne (by decide) obj, hstate.replays⟩
  | delete obj =>
    exact ⟨hcons, DeletesPresent.delete hstate.consistent hstate.deletesPresent obj,
      hstate.replays⟩
  | replace order horder list =>
    exact ⟨hcons, DeletesPresent.replace hstate.deletesPresent horder list,
      hstate.replays⟩
  | resync order horder => exact ⟨hcons, hstate.deletesPresent, hstate.replays⟩
  | syncKey before after key rest hresync =>
    exact ⟨hcons, DeletesPresent.syncKey hstate.deletesPresent key,
      hstate.replays⟩
  | pop => exact hstate.pop

end InformerState

namespace SharedInformerState

/-- The event streams of a run are in order, and nothing is indexed before the start. -/
structure Announced (keyFunc : Object → Except String String)
    (state : SharedInformerState Object) : Prop where
  joint : state.joint.Announced keyFunc
  indexer_of_not_started : state.started = false → state.joint.informer.indexer = ∅

theorem announced_new :
    (newSharedInformerState : SharedInformerState Object).Announced keyFunc where
  joint :=
    { consistent := ⟨DeltaFIFO.consistent_new, fun key obj h ↦ by
        rw [newSharedInformerState, lookup_empty] at h
        cases h⟩
      deletesPresent := DeltaFIFO.deletesPresent_new _
      replays := fun listener h ↦ nomatch h }
  indexer_of_not_started _ := rfl

variable {state : SharedInformerState Object}

theorem Announced.addEventHandler (hstate : state.Announced keyFunc)
    (horder : Map.IsOrder order state.joint.informer.indexer) :
    ∀ listener ∈ (state.joint.informer.addEventHandler state.started order).listeners,
      Replays keyFunc ∅ listener state.joint.informer.indexer := by
  intro listener hlistener
  rw [SharedIndexInformer.addEventHandler, mem_append, List.mem_singleton] at hlistener
  rcases hlistener with hold | rfl
  · exact hstate.joint.replays listener hold
  · split_ifs with hstarted
    · exact replays_list_of_isOrder hstate.joint.consistent.keyed horder
    · rw [hstate.indexer_of_not_started (Bool.eq_false_iff.mpr hstarted)]
      exact .nil ∅

theorem Announced.step {next : SharedInformerState Object} {op : SharedInformerOp Object}
    (hstate : state.Announced keyFunc) (hstep : SharedInformerStep keyFunc state op next) :
    next.Announced keyFunc := by
  cases hstep with
  | addEventHandler order horder =>
    exact ⟨⟨{ hstate.joint.consistent with },
      hstate.joint.deletesPresent, hstate.addEventHandler horder⟩, hstate.indexer_of_not_started⟩
  | run hstarted =>
    exact ⟨⟨⟨DeltaFIFO.consistent_new, hstate.joint.consistent.keyed⟩,
      DeltaFIFO.deletesPresent_new _, hstate.joint.replays⟩, fun h ↦ nomatch h⟩
  | queue hstarted op next hstep =>
    exact ⟨hstate.joint.step hstep, fun h ↦ nomatch hstarted.symm.trans h⟩

theorem Reachable.announced (hreach : SharedInformerState.Reachable keyFunc state) :
    state.Announced keyFunc :=
  Transition.Reachable.invariant (fun _ h ↦ h ▸ announced_new)
    (fun _ _ _ _ hstate hstep ↦ hstate.step hstep) hreach

/-- In every run the notifications of every listener, early or late, replay to the indexer. -/
theorem Reachable.listener_replays {state : SharedInformerState Object}
    (hreach : SharedInformerState.Reachable keyFunc state) {listener : List (Notification Object)}
    (hlistener : listener ∈ state.joint.informer.listeners) :
    Replays keyFunc ∅ listener state.joint.informer.indexer :=
  hreach.announced.joint.replays listener hlistener

/-- A started informer of strings that are their own keys, with one listener. -/
def startedInformer : SharedInformerState String where
  started := true
  joint := ⟨newDeltaFIFO, ⟨∅, [[]]⟩, []⟩

def indexedInformer : SharedInformerState String where
  started := true
  joint :=
    { startedInformer.joint with
      fifo := (startedInformer.joint.add .ok (.object "a")).1 }.pop .ok

theorem startedInformer_reachable : SharedInformerState.Reachable .ok startedInformer := by
  have horder : Map.IsOrder []
      (newSharedInformerState : SharedInformerState String).joint.informer.indexer :=
    ⟨nodup_nil, fun key ↦ by simp [newSharedInformerState, notMem_empty]⟩
  exact .next (.next (.start rfl) (.addEventHandler newSharedInformerState [] horder)) (.run _ rfl)

theorem indexedInformer_reachable : SharedInformerState.Reachable .ok indexedInformer :=
  .next (.next startedInformer_reachable
    (.queue startedInformer rfl _ _ (.add (.object "a"))))
    (.queue _ rfl _ _ .pop)

/-- A second listener joins when `a` is indexed: both streams replay to the indexer. -/
theorem late_listener_replays :
    (∀ listener ∈ (indexedInformer.joint.informer.addEventHandler true ["a"]).listeners,
      Replays .ok ∅ listener (Finmap.insert "a" (.object "a") ∅)) ∧
    (indexedInformer.joint.informer.addEventHandler true ["a"]).listeners =
      [[.add (.object "a")], [.add (.object "a")]] := by
  have horder : Map.IsOrder ["a"] indexedInformer.joint.informer.indexer :=
    ⟨nodup_singleton _, fun _ ↦ by rfl⟩
  exact ⟨fun listener hlistener ↦ Reachable.listener_replays
    (.next indexedInformer_reachable (.addEventHandler indexedInformer ["a"] horder)) hlistener, rfl⟩

end SharedInformerState

end Kubernetes.Client

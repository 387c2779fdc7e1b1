import Kubernetes.Storage.CacherInvariant

/-!
# Filtered watches

A watcher sends what an event means for the objects that pass its filter, which an object may enter
and leave without being created or deleted.  A client that starts with the stored objects that pass,
and applies what is sent, has them after every event.  The trigger of a watcher only spares it
events that it would not send.
-/

namespace Kubernetes.Storage

open Finmap Option

variable {Obj Attrs : Type} {capacity : ℕ}

/-- `sendWatchCacheEvent`.  The event has a copy of the object. -/
def sendWatchCacheEvent (copy : Obj → Except String Obj) (filter : String → Attrs → Bool)
    (event : WatchCacheEvent Obj Attrs) : Option (Event Obj) :=
  let curObjPasses := decide (event.type ≠ .deleted) && filter event.key event.objAttrs
  let oldObjPasses := event.prevObject.isSome && event.prevObjAttrs.any (filter event.key)
  if !curObjPasses && !oldObjPasses then none
  else
    match copy event.object with
    | .error _ => none
    | .ok object =>
      match curObjPasses, oldObjPasses with
      | true, false => some ⟨.added, object⟩
      | true, true => some ⟨.modified, object⟩
      | false, _ => some ⟨.deleted, object⟩

def applySent (client : Map String Obj) (key : String) :
    Option (Event Obj) → Map String Obj
  | none => client
  | some ⟨.deleted, _⟩ => client.erase key
  | some ⟨_, object⟩ => client.insert key object

section

variable (config : CacheConfig Obj Attrs) (filter : String → Attrs → Bool)

def passes (key : String) (object : Obj) : Bool :=
  match config.getAttrs object with
  | .error _ => false
  | .ok attrs => filter key attrs

def filtered (store : Map String Obj) : Map String Obj :=
  Map.comprehend store.keys fun key ↦ (store.lookup key).filter (passes config filter key)

end

variable {cache : WatchCache Obj Attrs capacity} {fed : Event Obj} {resourceVersion : UInt64}
  {event : WatchCacheEvent Obj Attrs}

section Tracking

variable {config : CacheConfig Obj Attrs} {filter : String → Attrs → Bool}
  {copy : Obj → Except String Obj}

theorem lookup_filtered (store : Map String Obj) (key : String) :
    (filtered config filter store).lookup key =
      (store.lookup key).filter (passes config filter key) := by
  rw [filtered, Map.lookup_comprehend]
  split_ifs with hkey
  · rfl
  · rw [lookup_eq_none.mpr hkey, filter_none]

theorem newEvent_passes (h : cache.newEvent config fed resourceVersion = .ok event)
    (filter : String → Attrs → Bool) :
    filter event.key event.objAttrs = passes config filter event.key event.object ∧
      (event.prevObject.isSome && event.prevObjAttrs.any (filter event.key)) =
        (cache.store.lookup event.key).any (passes config filter event.key) := by
  obtain ⟨key, attrs, -, hattrs, ⟨hget, rfl⟩ | ⟨previous, prevAttrs, hget, hprev, rfl⟩⟩ :=
    WatchCache.newEvent_cases h
  · simp [passes, hattrs, hget]
  · simp [passes, hattrs, hget, hprev]

section

variable (hcopy : ∀ object, copy object = .ok object)

include hcopy

section

variable (h : cache.newEvent config fed resourceVersion = .ok event)

include h

theorem sendWatchCacheEvent_eq :
    sendWatchCacheEvent copy filter event =
      match decide (event.type ≠ .deleted) && passes config filter event.key event.object,
        (cache.store.lookup event.key).any (passes config filter event.key) with
      | true, false => some ⟨.added, event.object⟩
      | true, true => some ⟨.modified, event.object⟩
      | false, true => some ⟨.deleted, event.object⟩
      | false, false => none := by
  obtain ⟨hcur, hold⟩ := newEvent_passes h filter
  simp only [sendWatchCacheEvent, hcur, hold, hcopy]
  cases decide (event.type ≠ .deleted) && passes config filter event.key event.object <;>
    cases (cache.store.lookup event.key).any (passes config filter event.key) <;> rfl

theorem applySent_filtered :
    applySent (filtered config filter cache.store) event.key
        (sendWatchCacheEvent copy filter event) =
      filtered config filter (updateFunc event.type cache.store event.key event.object) := by
  apply ext_lookup
  intro key
  rw [sendWatchCacheEvent_eq hcopy h]
  by_cases hkey : key = event.key
  · subst hkey
    cases hget : cache.store.lookup event.key with
    | none =>
      cases hcur : passes config filter event.key event.object <;> cases htype : event.type <;>
        simp [applySent, updateFunc, lookup_filtered, filter_some, hget, hcur]
    | some previous =>
      cases hold : passes config filter event.key previous <;>
        cases hcur : passes config filter event.key event.object <;> cases htype : event.type <;>
        simp [applySent, updateFunc, lookup_filtered, filter_some, hget, hcur, hold]
  · have hstore : (updateFunc event.type cache.store event.key event.object).lookup key =
        cache.store.lookup key := by
      cases event.type with
      | added | modified => exact lookup_insert_of_ne _ hkey
      | deleted => exact lookup_erase_ne hkey
    rw [lookup_filtered, hstore, ← lookup_filtered]
    split
    · exact lookup_insert_of_ne _ hkey
    · exact lookup_insert_of_ne _ hkey
    · exact lookup_erase_ne hkey
    · rfl

theorem type_sent_iff {sent : Event Obj}
    (hsent : sendWatchCacheEvent copy filter event = some sent) :
    sent.type = .added ↔ event.key ∉ filtered config filter cache.store := by
  have hheld : event.key ∈ filtered config filter cache.store ↔
      (cache.store.lookup event.key).any (passes config filter event.key) = true := by
    rw [← lookup_isSome, lookup_filtered]
    simp
  rw [sendWatchCacheEvent_eq hcopy h] at hsent
  split at hsent <;> cases hsent <;> simp_all

end

end

variable [NeZero capacity]

variable (config filter copy) in
/-- The cache processes an event, and the client applies what its watcher sends. -/
def followEvent (state : WatchCache Obj Attrs capacity × Map String Obj)
    (fed : Event Obj × UInt64) : WatchCache Obj Attrs capacity × Map String Obj :=
  match state.1.processEvent config fed.1 fed.2 with
  | .error _ => state
  | .ok (next, event) =>
    (next, applySent state.2 event.key (sendWatchCacheEvent copy filter event))

variable (config filter) in
theorem followEvent_filtered (hcopy : ∀ object, copy object = .ok object)
    (cache : WatchCache Obj Attrs capacity) (fed : Event Obj × UInt64) :
    ∃ next, followEvent config filter copy (cache, filtered config filter cache.store) fed =
      (next, filtered config filter next.store) := by
  unfold followEvent
  split
  · exact ⟨cache, rfl⟩
  · rename_i next event hproc
    obtain ⟨hevent, rfl⟩ := WatchCache.processEvent_eq_ok hproc
    exact ⟨_, congrArg _ (applySent_filtered hcopy hevent)⟩

/-- A client that follows a filtered watch has the stored objects that pass the filter. -/
theorem filtered_watch_tracks (config : CacheConfig Obj Attrs) (filter : String → Attrs → Bool)
    (copy : Obj → Except String Obj) (hcopy : ∀ object, copy object = .ok object)
    (cache : WatchCache Obj Attrs capacity) (events : List (Event Obj × UInt64)) :
    let state := events.foldl (followEvent config filter copy)
      (cache, filtered config filter cache.store)
    state.2 = filtered config filter state.1.store ∧
      ∀ fed resourceVersion next event sent,
        state.1.processEvent config fed resourceVersion = .ok (next, event) →
        sendWatchCacheEvent copy filter event = some sent →
        (sent.type = .added ↔ event.key ∉ state.2) := by
  have htracks : ∀ cache : WatchCache Obj Attrs capacity,
      (events.foldl (followEvent config filter copy) (cache, filtered config filter cache.store)).2 =
        filtered config filter (events.foldl (followEvent config filter copy)
          (cache, filtered config filter cache.store)).1.store := by
    induction events with
    | nil => exact fun cache ↦ rfl
    | cons fed events ih =>
      intro cache
      obtain ⟨next, hnext⟩ := followEvent_filtered config filter hcopy cache fed
      rw [List.foldl_cons, hnext]
      exact ih next
  refine ⟨htracks cache, ?_⟩
  intro fed resourceVersion next event sent hproc hsent
  rw [htracks cache]
  exact type_sent_iff hcopy (WatchCache.processEvent_eq_ok hproc).1 hsent

end Tracking

section Triggers

variable {config : CacherConfig Obj Attrs}

/-- The filter accepts the new object of the event or the previous one. -/
def Interested (filter : String → Attrs → Bool) (event : WatchCacheEvent Obj Attrs) : Prop :=
  filter event.key event.objAttrs = true ∨
    (event.prevObject.isSome && event.prevObjAttrs.any (filter event.key)) = true

theorem routes_of_mem {triggerFunc : Obj → List String}
    (htrigger : config.triggerFunc = some triggerFunc)
    (hone : ∀ object, (triggerFunc object).length ≤ 1) {value : String}
    (hvalue : value ∈ triggerFunc event.object ∨ ∃ previous, event.prevObject = some previous ∧
      value ∈ triggerFunc previous) : routes config (some value) event = true := by
  have hhead : ∀ object, value ∈ triggerFunc object → triggerFunc object = [value] := by
    intro object hmem
    obtain ⟨other, hother⟩ := List.length_eq_one_iff.mp
      (le_antisymm (hone object) (List.length_pos_of_mem hmem))
    rw [hother, List.mem_singleton] at hmem
    rw [hother, hmem]
  simp only [routes, triggerValues, htrigger]
  rcases hvalue with hmem | ⟨previous, hprev, hmem⟩
  · rw [hhead _ hmem]
    cases hprev : event.prevObject with
    | none => simp
    | some previous =>
      cases hvalues : triggerFunc previous with
      | nil => simp [hvalues]
      | cons first rest => by_cases hfirst : value = first <;> simp [hvalues, hfirst]
  · simp only [hprev, hhead _ hmem]
    cases triggerFunc event.object with
    | nil => simp
    | cons first rest => by_cases hfirst : first = value <;> simp [hfirst]

theorem routes_of_interested {filter : String → Attrs → Bool} {value : String}
    (hone : ∀ triggerFunc, config.triggerFunc = some triggerFunc →
      ∀ object, (triggerFunc object).length ≤ 1)
    (haccepts : ∀ triggerFunc, config.triggerFunc = some triggerFunc → ∀ key object,
      passes config.toCacheConfig filter key object = true → value ∈ triggerFunc object)
    (hevent : cache.newEvent config.toCacheConfig fed resourceVersion = .ok event)
    (hinterested : Interested filter event) : routes config (some value) event = true := by
  cases htrigger : config.triggerFunc with
  | none => simp [routes, triggerValues, htrigger]
  | some triggerFunc =>
    apply routes_of_mem htrigger (hone triggerFunc htrigger)
    obtain ⟨hcur, hold⟩ := newEvent_passes hevent filter
    rw [Interested, hcur, hold] at hinterested
    rcases hinterested with hpasses | hpasses
    · exact .inl (haccepts triggerFunc htrigger _ _ hpasses)
    · obtain ⟨previous, hprev, hpasses⟩ := (Option.any_eq_true _ _).mp hpasses
      refine .inr ⟨previous, (WatchCache.newEvent_eq_ok hevent).2.2.trans hprev, ?_⟩
      exact haccepts triggerFunc htrigger _ _ hpasses

/-- The watchers that an event is added to, each once, send for it what all registered watchers
would send. -/
theorem triggers_lose_nothing (config : CacherConfig Obj Attrs) (watchers : IndexedWatchers)
    (hunique : ∀ number trigger trigger', number ∈ watchers.registeredFor trigger →
      number ∈ watchers.registeredFor trigger' → trigger = trigger')
    (filters : ℕ → String → Attrs → Bool) (copy : Obj → Except String Obj)
    (hone : ∀ triggerFunc, config.triggerFunc = some triggerFunc →
      ∀ object, (triggerFunc object).length ≤ 1)
    (haccepts : ∀ triggerFunc, config.triggerFunc = some triggerFunc →
      ∀ value, ∀ number ∈ watchers.watchersOf value, ∀ key object,
        passes config.toCacheConfig (filters number) key object = true → value ∈ triggerFunc object)
    (hevent : cache.newEvent config.toCacheConfig fed resourceVersion = .ok event)
    {allOrder : List ℕ} {valueOrder : List String} {orderOf : String → List ℕ}
    (hall : IsEnumeration allOrder watchers.allWatchers)
    (hvalues : Map.IsOrder valueOrder watchers.valueWatchers)
    (horderOf : ∀ value, IsEnumeration (orderOf value) (watchers.watchersOf value)) (number : ℕ) :
    let targets := Cacher.dispatchTargets config event allOrder valueOrder orderOf
    targets.Nodup ∧
    ((∃ trigger, number ∈ watchers.registeredFor trigger) → Interested (filters number) event →
      number ∈ targets) ∧
    ∀ sent, number ∈ targets ∧ sendWatchCacheEvent copy (filters number) event = some sent ↔
      (∃ trigger, number ∈ watchers.registeredFor trigger) ∧
        sendWatchCacheEvent copy (filters number) event = some sent := by
  intro targets
  have hmem : number ∈ targets ↔ _ := Cacher.mem_dispatchTargets hall hvalues horderOf number
  have hadded : (∃ trigger, number ∈ watchers.registeredFor trigger) →
      Interested (filters number) event → number ∈ targets := by
    intro hreg hinterested
    obtain ⟨trigger, hreg⟩ := hreg
    refine hmem.mpr ⟨trigger, hreg, ?_⟩
    cases trigger with
    | none => rfl
    | some value =>
      apply routes_of_interested hone _ hevent hinterested
      exact fun triggerFunc htrigger ↦ haccepts triggerFunc htrigger value number hreg
  refine ⟨Cacher.nodup_dispatchTargets hunique hall hvalues horderOf, hadded, fun sent ↦
    and_congr_left fun hsent ↦ ⟨fun htarget ↦ ?_, fun hreg ↦ ?_⟩⟩
  · obtain ⟨trigger, hreg, -⟩ := hmem.mp htarget
    exact ⟨trigger, hreg⟩
  · apply hadded hreg
    by_contra hnot
    rw [Interested, not_or] at hnot
    simp [sendWatchCacheEvent, hnot] at hsent

end Triggers

def nameConfig : CacherConfig String String := ⟨⟨.ok, .ok, .ok⟩, some fun name ↦ [name]⟩

theorem named_watch_tracks :
    let state := [(⟨.added, "a"⟩, 1), (⟨.added, "b"⟩, 2)].foldl
      (followEvent nameConfig.toCacheConfig (fun _ attrs ↦ attrs = "a") .ok)
      (newWatchCache String String 1, filtered nameConfig.toCacheConfig (fun _ attrs ↦ attrs = "a") ∅)
    state.2 = filtered nameConfig.toCacheConfig (fun _ attrs ↦ attrs = "a") state.1.store ∧
      state.2.lookup "a" = some "a" ∧ state.2.lookup "b" = none ∧
      state.1.store.lookup "b" = some "b" :=
  ⟨(filtered_watch_tracks nameConfig.toCacheConfig (fun _ attrs ↦ attrs = "a") .ok (fun _ ↦ rfl)
    (newWatchCache String String 1) [(⟨.added, "a"⟩, 1), (⟨.added, "b"⟩, 2)]).1, by decide +kernel⟩

def nameWatchers : IndexedWatchers := ⟨∅, (∅ : Map String (Finset ℕ)).insert "a" {0}⟩

theorem named_trigger_loses_nothing :
    let targets := Cacher.dispatchTargets nameConfig ⟨.added, "a", "a", none, none, "a", 1⟩ [] ["a"]
      (fun value ↦ if value = "a" then [0] else [])
    targets.Nodup ∧ 0 ∈ targets := by
  intro targets
  have hwatchers : ∀ value, nameWatchers.watchersOf value = if value = "a" then {0} else ∅ := by
    intro value
    rw [IndexedWatchers.watchersOf, nameWatchers, Map.lookup_insert]
    split_ifs <;> rfl
  have hevent : (newWatchCache String String 1).newEvent nameConfig.toCacheConfig ⟨.added, "a"⟩ 1 =
    .ok ⟨.added, "a", "a", none, none, "a", 1⟩ := rfl
  have hunique : ∀ number trigger, number ∈ nameWatchers.registeredFor trigger →
      trigger = some "a" := by
    intro number trigger hnum
    cases trigger with
    | none => exact absurd hnum (Finset.notMem_empty number)
    | some value =>
      rw [IndexedWatchers.registeredFor, hwatchers] at hnum
      split_ifs at hnum with hvalue
      · rw [hvalue]
      · exact absurd hnum (Finset.notMem_empty number)
  refine (triggers_lose_nothing nameConfig nameWatchers (fun number _ _ h h' ↦
    (hunique number _ h).trans (hunique number _ h').symm) (fun _ _ attrs ↦ attrs = "a") .ok ?_ ?_
    hevent ⟨List.nodup_nil, by simp [nameWatchers]⟩ ?_ ?_ 0).imp_right fun hadded ↦
      hadded.1 ⟨some "a", by simp [IndexedWatchers.registeredFor, hwatchers]⟩ (.inl rfl)
  · rintro _ ⟨⟩ object
    exact le_rfl
  · rintro _ ⟨⟩ value number hnum key object hpasses
    rw [hwatchers] at hnum
    split_ifs at hnum with hvalue
    · rw [hvalue, of_decide_eq_true hpasses]
      exact List.mem_singleton_self _
    · exact absurd hnum (Finset.notMem_empty number)
  · refine ⟨List.nodup_singleton "a", fun value ↦ ?_⟩
    simp [nameWatchers, notMem_empty]
  · intro value
    rw [hwatchers]
    split_ifs <;> simp [IsEnumeration]

end Kubernetes.Storage

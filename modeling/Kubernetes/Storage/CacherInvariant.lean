import Kubernetes.Storage.Cacher
import Kubernetes.Storage.WatchHistory

/-!
# Invariants of the cacher

The registered watchers are exactly the running ones, each under its trigger, so a dispatch visits
every watcher it concerns once.  The window holds the last of the events the reflector has fed, so a
watch that reads it gets all fed events after its version.
-/

namespace Kubernetes.Storage

open List

variable {Obj Attrs : Type} {capacity : ℕ} {config : CacherConfig Obj Attrs}

/-! ## Routing -/

/-- The dispatcher adds the event to the watchers with this trigger. -/
def routes (config : CacherConfig Obj Attrs) (trigger : Option String)
    (event : WatchCacheEvent Obj Attrs) : Bool :=
  match trigger with
  | none => true
  | some value =>
    match triggerValues config event with
    | (values, true) => decide (value ∈ values)
    | (_, false) => true

theorem nodup_triggerValues (config : CacherConfig Obj Attrs)
    (event : WatchCacheEvent Obj Attrs) : (triggerValues config event).1.Nodup := by
  unfold triggerValues
  cases config.triggerFunc with
  | none => exact nodup_nil
  | some triggerFunc =>
    have htake : ((triggerFunc event.object).take 1).Nodup := by
      cases triggerFunc event.object <;> simp
    cases event.prevObject with
    | none => exact htake
    | some prevObject =>
      dsimp only
      cases triggerFunc prevObject with
      | nil => exact htake
      | cons value rest =>
        dsimp only
        split_ifs with hhead
        · exact htake
        · cases hobj : triggerFunc event.object with
          | nil => simp
          | cons first others =>
            rw [hobj] at hhead
            simpa using hhead

namespace IndexedWatchers

def registeredFor (watchers : IndexedWatchers) : Option String → Finset ℕ
  | .none => watchers.allWatchers
  | some value => watchers.watchersOf value

variable (watchers : IndexedWatchers) (number other : ℕ) (trigger trigger' : Option String)

theorem mem_registeredFor_addWatcher :
    other ∈ (watchers.addWatcher number trigger).registeredFor trigger' ↔
      (trigger' = trigger ∧ other = number) ∨ other ∈ watchers.registeredFor trigger' := by
  cases trigger with
  | none =>
    cases trigger' with
    | none => simp [addWatcher, registeredFor]
    | some value => simp [addWatcher, registeredFor, watchersOf]
  | some value =>
    cases trigger' with
    | none => simp [addWatcher, registeredFor]
    | some value' =>
      by_cases heq : value' = value
      · subst heq
        simp [addWatcher, registeredFor, watchersOf]
      · simp [addWatcher, registeredFor, watchersOf, heq]

theorem mem_registeredFor_deleteWatcher :
    other ∈ (watchers.deleteWatcher number trigger).registeredFor trigger' ↔
      other ∈ watchers.registeredFor trigger' ∧ ¬(trigger' = trigger ∧ other = number) := by
  cases trigger with
  | none =>
    cases trigger' with
    | none => simp [deleteWatcher, registeredFor, and_comm]
    | some value => simp [deleteWatcher, registeredFor, watchersOf]
  | some value =>
    cases trigger' with
    | none => simp [deleteWatcher, registeredFor]
    | some value' =>
      have hwatchers : (watchers.deleteWatcher number (some value)).watchersOf value' =
          if value' = value then (watchers.watchersOf value).erase number
          else watchers.watchersOf value' := by
        unfold deleteWatcher
        rw [watchersOf]
        dsimp only
        by_cases hempty : (watchers.watchersOf value).erase number = ∅
        · rw [if_pos hempty, Map.lookup_erase]
          split_ifs with heq
          · exact hempty.symm
          · rfl
        · rw [if_neg hempty, Map.lookup_insert]
          split_ifs <;> rfl
      rw [registeredFor, hwatchers, registeredFor]
      by_cases heq : value' = value
      · subst heq
        simp [and_comm]
      · simp [heq]

end IndexedWatchers

variable {watcher : CacheWatcher Obj Attrs} {next : CacheWatcher Obj Attrs}

theorem CacheWatcher.process_frame (h : watcher.process = some next) :
    next.stopped = watcher.stopped ∧ next.trigger = watcher.trigger := by
  unfold process at h
  split at h
  · cases h
    exact ⟨rfl, rfl⟩
  · split at h
    · cases h
    · split_ifs at h <;> cases h <;> exact ⟨rfl, rfl⟩

variable {event : WatchCacheEvent Obj Attrs} {orderOf : String → List ℕ} {allOrder : List ℕ}

variable {op : CacherOp Obj Attrs} {valueOrder : List String} {resourceVersion : UInt64}

namespace Cacher

/-! ## The registered watchers -/

/-- The registered watchers are those that run, each under its trigger, and a dispatch visits none
twice. -/
structure Registered (cacher : Cacher Obj Attrs capacity) : Prop where
  registered : ∀ trigger number, number ∈ cacher.watchers.registeredFor trigger ↔
    ∃ watcher, cacher.created.lookup number = some watcher ∧ watcher.stopped = false ∧
      watcher.trigger = trigger
  fresh : ∀ number watcher, cacher.created.lookup number = some watcher → number < cacher.watcherIdx
  targets : ∀ event remaining, cacher.dispatch = .adding event remaining → remaining.Nodup

variable {cacher : Cacher Obj Attrs capacity} {number : ℕ}

section

variable (hcacher : cacher.Registered) (hwatcher : cacher.created.lookup number = some watcher)

include hcacher hwatcher

theorem Registered.setWatcher (hstopped : next.stopped = watcher.stopped)
    (htrigger : next.trigger = watcher.trigger) :
    (cacher.setWatcher number next).Registered := by
  refine ⟨fun trigger other ↦ (hcacher.registered trigger other).trans ?_,
    Map.forall_lookup_insert hcacher.fresh (hcacher.fresh number watcher hwatcher),
    hcacher.targets⟩
  rw [Cacher.setWatcher, Map.lookup_insert]
  by_cases heq : other = number
  · subst heq
    rw [hwatcher]
    simp [hstopped, htrigger]
  · rw [if_neg heq]

theorem Registered.terminate :
    (cacher.terminate number watcher).Registered := by
  refine ⟨fun trigger other ↦ ?_,
    Map.forall_lookup_insert hcacher.fresh (hcacher.fresh number watcher hwatcher),
    hcacher.targets⟩
  rw [Cacher.terminate, IndexedWatchers.mem_registeredFor_deleteWatcher,
    hcacher.registered trigger other, Cacher.setWatcher, Map.lookup_insert]
  by_cases heq : other = number
  · subst heq
    rw [if_pos rfl, hwatcher]
    simp only [Option.some.injEq, and_true, exists_eq_left']
    constructor
    · rintro ⟨⟨-, htrigger⟩, hne⟩
      exact absurd htrigger.symm hne
    · rintro ⟨hstopped, -⟩
      cases hstopped
  · simp [heq]

end

theorem Registered.register (config : CacherConfig Obj Attrs) (hcacher : cacher.Registered)
    (pending : PendingWatch Obj Attrs) : (cacher.register config pending).Registered := by
  have hnew : cacher.created.lookup cacher.watcherIdx = none := by
    cases hget : cacher.created.lookup cacher.watcherIdx with
    | none => rfl
    | some watcher => exact absurd (hcacher.fresh _ watcher hget) (Nat.lt_irrefl _)
  refine ⟨fun trigger other ↦ ?_, ?_, hcacher.targets⟩
  · rw [Cacher.register, IndexedWatchers.mem_registeredFor_addWatcher,
      hcacher.registered trigger other, Cacher.setWatcher, Map.lookup_insert]
    by_cases heq : other = cacher.watcherIdx
    · subst heq
      rw [if_pos rfl, hnew]
      simp only [newCacheWatcher, and_true, reduceCtorEq, false_and, exists_false, or_false,
        Option.some.injEq, exists_eq_left', true_and]
      exact eq_comm
    · simp [heq]
  · exact Map.forall_lookup_insert (fun other created hother ↦
      Nat.lt_succ_of_lt (hcacher.fresh other created hother)) (Nat.lt_succ_self _)

theorem mem_dispatchTargets {watchers : IndexedWatchers}
    (hall : IsEnumeration allOrder watchers.allWatchers)
    (hvalues : Map.IsOrder valueOrder watchers.valueWatchers)
    (horderOf : ∀ value, IsEnumeration (orderOf value) (watchers.watchersOf value)) (number : ℕ) :
    number ∈ dispatchTargets config event allOrder valueOrder orderOf ↔
      ∃ trigger, number ∈ watchers.registeredFor trigger ∧ routes config trigger event = true := by
  have hindexed : ∀ value, number ∈ watchers.watchersOf value → value ∈ valueOrder := by
    intro value hnum
    rw [hvalues.mem_iff_lookup]
    cases hget : watchers.valueWatchers.lookup value with
    | none => simp [IndexedWatchers.watchersOf, hget] at hnum
    | some numbers => exact ⟨numbers, rfl⟩
  unfold dispatchTargets routes
  rcases triggerValues config event with ⟨values, supported⟩
  rw [Option.exists]
  cases supported with
  | true =>
    simp [mem_append, mem_flatMap, hall.2, (horderOf _).2, and_comm, IndexedWatchers.registeredFor]
  | false =>
    simp only [mem_append, mem_flatMap, hall.2, (horderOf _).2, and_true,
      IndexedWatchers.registeredFor]
    constructor
    · rintro (hnum | ⟨value, -, hnum⟩)
      · exact .inl hnum
      · exact .inr ⟨value, hnum⟩
    · rintro (hnum | ⟨value, hnum⟩)
      · exact .inl hnum
      · exact .inr ⟨value, hindexed value hnum, hnum⟩

theorem Registered.trigger_unique (hcacher : cacher.Registered) {trigger trigger' : Option String}
    (h : number ∈ cacher.watchers.registeredFor trigger)
    (h' : number ∈ cacher.watchers.registeredFor trigger') : trigger = trigger' := by
  obtain ⟨watcher, hget, -, rfl⟩ := (hcacher.registered trigger number).mp h
  obtain ⟨watcher', hlookup', -, rfl⟩ := (hcacher.registered trigger' number).mp h'
  rw [hget] at hlookup'
  rw [Option.some.inj hlookup']

/-- If every watcher has one trigger, a dispatch visits it at most once. -/
theorem nodup_dispatchTargets {watchers : IndexedWatchers}
    (hunique : ∀ number trigger trigger', number ∈ watchers.registeredFor trigger →
      number ∈ watchers.registeredFor trigger' → trigger = trigger')
    (hall : IsEnumeration allOrder watchers.allWatchers)
    (hvalues : Map.IsOrder valueOrder watchers.valueWatchers)
    (horderOf : ∀ value, IsEnumeration (orderOf value) (watchers.watchersOf value)) :
    (dispatchTargets config event allOrder valueOrder orderOf).Nodup := by
  have hflat : ∀ values : List String, values.Nodup →
      (allOrder ++ values.flatMap orderOf).Nodup := by
    intro values hnodup
    rw [nodup_append']
    refine ⟨hall.1, ?_, ?_⟩
    · rw [nodup_flatMap]
      refine ⟨fun value _ ↦ (horderOf value).1, hnodup.imp fun {value value'} hne ↦ ?_⟩
      intro number hnum hnumber'
      have hvalue : number ∈ watchers.registeredFor (some value) :=
        ((horderOf value).2 number).mp hnum
      have hvalue' : number ∈ watchers.registeredFor (some value') :=
        ((horderOf value').2 number).mp hnumber'
      exact hne (Option.some.inj (hunique number _ _ hvalue hvalue'))
    · intro number hnum hnumber'
      obtain ⟨value, -, horder⟩ := mem_flatMap.mp hnumber'
      have hnone : number ∈ watchers.registeredFor none := (hall.2 number).mp hnum
      have hvalue : number ∈ watchers.registeredFor (some value) :=
        ((horderOf value).2 number).mp horder
      cases hunique number _ _ hnone hvalue
  have hnodup := nodup_triggerValues config event
  unfold dispatchTargets
  generalize triggerValues config event = result at hnodup ⊢
  obtain ⟨values, supported⟩ := result
  cases supported with
  | true => exact hflat values hnodup
  | false => exact hflat valueOrder hvalues.1

/-! ## The window and the fed events -/

def version (cacher : Cacher Obj Attrs capacity) : UInt64 :=
  match cacher.writer with
  | some event => event.resourceVersion
  | none => cacher.watchCache.resourceVersion

/-- What the watch cache and the readers hold of the fed events. -/
structure Windowed [NeZero capacity] (cacher : Cacher Obj Attrs capacity) : Prop where
  increasing : cacher.fed.Pairwise fun a b ↦ a.resourceVersion < b.resourceVersion
  bounded : ∀ event ∈ cacher.fed, event.resourceVersion ≤ cacher.version
  window : ∃ committed events, committed ++ cacher.writer.toList = cacher.fed ∧
    cacher.watchCache.window.toList = events.map WatchCache.cellOf ∧ events <:+ committed ∧
    (events = [] → committed = [])
  readers : ∀ pending ∈ cacher.readers, cacher.writer = none ∧
    pending.initVersion = cacher.watchCache.resourceVersion ∧
    (pending.resourceVersion ≠ 0 → pending.initEvents =
      cacher.fed.filter fun event ↦ decide (pending.resourceVersion < event.resourceVersion))

theorem newer_of_newEvent {cache : WatchCache Obj Attrs capacity}
    {cacheConfig : CacheConfig Obj Attrs} {event : Event Obj}
    {cacheEvent : WatchCacheEvent Obj Attrs} (hnewer : cache.resourceVersion < resourceVersion)
    (hevent : cache.newEvent cacheConfig event resourceVersion = .ok cacheEvent) :
    cache.resourceVersion < cacheEvent.resourceVersion := by
  have hstored := (WatchCache.newEvent_eq_ok hevent).2.1
  have hver : cacheEvent.resourceVersion = resourceVersion :=
    congrArg StoreEvent.resourceVersion hstored
  rwa [hver]

variable [NeZero capacity]

/-- With no writer the window answers a request with the fed events after its version. -/
theorem Windowed.initEvents (hcacher : cacher.Windowed) (hwriter : cacher.writer = none)
    {order : List String} {initEvents : List (WatchCacheEvent Obj Attrs)}
    (hpos : resourceVersion ≠ 0)
    (hevents : cacher.watchCache.getAllEventsSinceThreadUnsafe config.toCacheConfig order
      resourceVersion = .ok (initEvents.map some)) :
    initEvents = cacher.fed.filter fun event ↦
      decide (resourceVersion < event.resourceVersion) := by
  obtain ⟨committed, events, hfed, hwindow, hsuffix, hempty⟩ := hcacher.window
  rw [hwriter, Option.toList_none, append_nil] at hfed
  subst hfed
  obtain ⟨older, holder⟩ := hsuffix
  have hinc := hcacher.increasing
  rw [← holder, pairwise_append] at hinc
  have hfresh : ¬resourceVersion < cacher.watchCache.oldest - 1 := by
    intro hstale
    have hgone := WatchCache.getAllEventsSince_stale config.toCacheConfig order hpos hstale
    rw [WatchCache.getAllEventsSince, hevents] at hgone
    cases hgone
  have hanswer : cacher.watchCache.getAllEventsSince config.toCacheConfig order resourceVersion =
      .ok ((events.filter fun event ↦ decide (resourceVersion < event.resourceVersion)).map some) :=
    WatchCache.getAllEventsSince_eq_ok hwindow hinc.2.1 order hpos hfresh
  rw [WatchCache.getAllEventsSince, hevents] at hanswer
  have hinit := map_injective_iff.mpr (Option.some_injective _) (Except.ok.inj hanswer)
  rw [hinit, ← holder, filter_append]
  cases events with
  | nil =>
    rw [hempty rfl] at holder
    simp [(append_eq_nil_iff.mp holder).1]
  | cons first rest =>
    have hold : older.filter (fun event ↦ decide (resourceVersion < event.resourceVersion)) =
        [] := by
      rw [filter_eq_nil_iff]
      intro event hevent
      have hlt := hinc.2.2 event hevent first mem_cons_self
      rw [(WatchCache.oldest_of_window_cons hwindow).2] at hfresh
      simpa using WatchCache.le_of_not_stale hlt hfresh
    rw [hold, nil_append]

variable {next : Cacher Obj Attrs capacity} (hstep : CacherStep config cacher op next)

include hstep

theorem Windowed.step (hcacher : cacher.Windowed) : next.Windowed := by
  cases hstep with
  | feed hwriter hreaders hspace hver hnewer hevent =>
    have hlater := newer_of_newEvent hnewer hevent
    have hbounded := hcacher.bounded
    simp only [version, hwriter] at hbounded
    refine ⟨?_, ?_, ?_, ?_⟩
    · rw [pairwise_append]
      refine ⟨hcacher.increasing, pairwise_singleton _ _, fun event hevent last hlast ↦ ?_⟩
      rw [mem_singleton.mp hlast]
      exact UInt64.lt_of_le_of_lt (hbounded event hevent) hlater
    · intro event hevent
      rcases mem_append.mp hevent with hold | hlast
      · exact UInt64.le_trans (hbounded event hold) (UInt64.le_of_lt hlater)
      · rw [mem_singleton.mp hlast]
        exact UInt64.le_refl _
    · obtain ⟨committed, events, hfed, hwindow, hsuffix, hempty⟩ := hcacher.window
      rw [hwriter, Option.toList_none, append_nil] at hfed
      exact ⟨committed, events, by rw [hfed]; rfl, hwindow, hsuffix, hempty⟩
    · intro pending hpend
      rw [hreaders] at hpend
      cases hpend
  | commit hwriter =>
    rename_i event
    obtain ⟨committed, events, hfed, hwindow, ⟨older, holder⟩, hempty⟩ := hcacher.window
    rw [hwriter] at hfed
    have hbounded := hcacher.bounded
    simp only [version, hwriter] at hbounded
    refine ⟨hcacher.increasing, hbounded, ?_, ?_⟩
    · have hpush := RingBuffer.toList_push cacher.watchCache.window (WatchCache.cellOf event)
      by_cases hfull : cacher.watchCache.window.size = capacity
      · rw [if_pos hfull, hwindow, ← map_tail] at hpush
        refine ⟨committed ++ [event], events.tail ++ [event], by simpa using hfed, ?_, ?_, by simp⟩
        · rw [map_append]
          exact hpush
        · rw [← holder]
          cases events with
          | nil => exact ⟨older, by simp⟩
          | cons first rest => exact ⟨older ++ [first], by simp⟩
      · rw [if_neg hfull, hwindow] at hpush
        refine ⟨committed ++ [event], events ++ [event], by simpa using hfed, ?_, ?_, by simp⟩
        · rw [map_append]
          exact hpush
        · rw [← holder]
          exact ⟨older, by simp⟩
    · intro pending hpend
      rw [(hcacher.readers pending hpend).1] at hwriter
      cases hwriter
  | read hwriter horder hevents =>
    refine ⟨hcacher.increasing, hcacher.bounded, hcacher.window, fun pending hpend ↦ ?_⟩
    rcases mem_append.mp hpend with hold | hnew
    · exact hcacher.readers pending hold
    · rw [mem_singleton.mp hnew]
      exact ⟨hwriter, rfl, fun hpos ↦ hcacher.initEvents hwriter hpos hevents⟩
  | register hunlocked hreaders =>
    refine ⟨hcacher.increasing, hcacher.bounded, hcacher.window, fun pending hpend ↦ ?_⟩
    apply hcacher.readers pending
    rw [hreaders]
    rcases mem_append.mp hpend with hbefore | hafter
    · exact mem_append_left _ hbefore
    · exact mem_append_right _ (mem_cons_of_mem _ hafter)
  | take | lock | add | timeout | unlock | process | stop =>
    exact { hcacher with }

theorem Registered.step (hcacher : cacher.Registered) : next.Registered := by
  cases hstep with
  | feed | commit | read => exact { hcacher with }
  | @register before after pending hunlocked hreaders =>
    have hnext := hcacher.register config pending
    exact { hnext with }
  | take | unlock => exact ⟨hcacher.registered, hcacher.fresh, fun _ _ h ↦ by cases h⟩
  | lock htaken hall hvalues horderOf =>
    refine ⟨hcacher.registered, hcacher.fresh, fun event remaining h ↦ ?_⟩
    cases h
    exact nodup_dispatchTargets (fun _ _ _ ↦ hcacher.trigger_unique) hall hvalues horderOf
  | @add event number remaining watcher hadding hwatcher hspace =>
    have hnext : (cacher.setWatcher number
        { watcher with input := watcher.input ++ [event] }).Registered :=
      hcacher.setWatcher hwatcher rfl rfl
    refine ⟨hnext.registered, hnext.fresh, fun event remaining h ↦ ?_⟩
    cases h
    exact (nodup_cons.mp (hcacher.targets _ _ hadding)).2
  | timeout hadding hwatcher hfull =>
    have hnext := hcacher.terminate hwatcher
    refine ⟨hnext.registered, hnext.fresh, fun event remaining h ↦ ?_⟩
    cases h
    exact (nodup_cons.mp (hcacher.targets _ _ hadding)).2
  | process hwatcher hproc =>
    obtain ⟨hstopped, htrigger⟩ := CacheWatcher.process_frame hproc
    exact hcacher.setWatcher hwatcher hstopped htrigger
  | stop hunlocked hwatcher => exact hcacher.terminate hwatcher

end Cacher

end Kubernetes.Storage

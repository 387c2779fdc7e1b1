import Kubernetes.Basic.Transition
import Kubernetes.Storage.WatchCache

/-!
# The watch cache and the history of the storage

The storage has one history of events with increasing resource versions.  A reflector relists the
storage at some version, or feeds the next event.  The window of the cache is a suffix of the
history up to the version of the cache.  What `GetAllEventsSince` returns is then exactly a part of
the history, unless the window is empty: the staleness test compares with the version before the
oldest cached event.
-/

namespace Kubernetes.Storage

open List UInt64

variable {Obj Attrs : Type} {capacity : ℕ} {config : CacheConfig Obj Attrs}

structure StoreEvent (Obj : Type) where
  type : EventType
  object : Obj
  resourceVersion : UInt64
  deriving DecidableEq, Repr

def WatchCacheEvent.stored (event : WatchCacheEvent Obj Attrs) : StoreEvent Obj :=
  ⟨event.type, event.object, event.resourceVersion⟩

/-- A history: the versions are those in the objects, and they increase. -/
structure History (config : CacheConfig Obj Attrs) where
  events : List (StoreEvent Obj)
  versioned : ∀ event ∈ events,
    config.objectToVersionedRuntimeObject event.object = .ok event.resourceVersion
  increasing : events.Pairwise fun a b ↦ a.resourceVersion < b.resourceVersion

variable {event : StoreEvent Obj}

namespace History

def upTo (history : History config) (version : UInt64) : List (StoreEvent Obj) :=
  history.events.filter fun event ↦ decide (event.resourceVersion ≤ version)

def between (history : History config) (after version : UInt64) : List (StoreEvent Obj) :=
  history.events.filter fun event ↦
    decide (after < event.resourceVersion ∧ event.resourceVersion ≤ version)

def applyStored (config : CacheConfig Obj Attrs) (objects : Map String Obj)
    (event : StoreEvent Obj) : Map String Obj :=
  match config.keyFunc event.object with
  | .ok key => updateFunc event.type objects key event.object
  | .error _ => objects

section

variable (history : History config) (version : UInt64)

def stateAt : Map String Obj :=
  (history.upTo version).foldl (applyStored config) ∅

def IsListing (list : List Obj) : Prop :=
  ∃ order, Map.IsOrder order (history.stateAt version) ∧
    list.map some = order.map fun key ↦ (history.stateAt version).lookup key

def IsNext (event : StoreEvent Obj) : Prop :=
  event ∈ history.events ∧ version < event.resourceVersion ∧
    ∀ other ∈ history.events, version < other.resourceVersion →
      event.resourceVersion ≤ other.resourceVersion

end

theorem upTo_next {history : History config} {version : UInt64}
    (hnext : history.IsNext version event) :
    history.upTo event.resourceVersion = history.upTo version ++ [event] := by
  obtain ⟨hmem, hafter, hfirst⟩ := hnext
  obtain ⟨before, later, hevents⟩ := append_of_mem hmem
  have hinc := history.increasing
  rw [hevents, pairwise_append, pairwise_cons] at hinc
  have hbefore : ∀ other ∈ before, other.resourceVersion ≤ version := by
    intro other hother
    have hlt := hinc.2.2 other hother event mem_cons_self
    by_contra hver
    have hle := hfirst other (by rw [hevents]; exact mem_append_left _ hother)
      (UInt64.not_le.mp hver)
    exact absurd hlt (UInt64.not_lt.mpr hle)
  have hlater : ∀ other ∈ later, event.resourceVersion < other.resourceVersion :=
    hinc.2.1.1
  have hkeep : ∀ bound, version ≤ bound →
      before.filter (fun other ↦ decide (other.resourceVersion ≤ bound)) = before := by
    intro bound hbound
    rw [filter_eq_self]
    intro other hother
    exact decide_eq_true (UInt64.le_trans (hbefore other hother) hbound)
  have hdrop : ∀ bound, bound ≤ event.resourceVersion →
      later.filter (fun other ↦ decide (other.resourceVersion ≤ bound)) = [] := by
    intro bound hbound
    rw [filter_eq_nil_iff]
    intro other hother
    have hlt := UInt64.lt_of_le_of_lt hbound (hlater other hother)
    simpa using hlt
  rw [upTo, upTo, hevents, filter_append, filter_append, filter_cons_of_pos (by simp),
    filter_cons_of_neg (by simpa using hafter), hkeep _ (UInt64.le_of_lt hafter),
    hkeep _ (UInt64.le_refl _), hdrop _ (UInt64.le_refl _), hdrop _ (UInt64.le_of_lt hafter),
    append_nil]

end History

/-! ## Runs of the cache -/

inductive CacheOp (Obj : Type)
  | replace (objs : List Obj) (resourceVersion : String)
  | add (obj : Obj)
  | update (obj : Obj)
  | delete (obj : Obj)

def StoreEvent.op (event : StoreEvent Obj) : CacheOp Obj :=
  match event.type with
  | .added => .add event.object
  | .modified => .update event.object
  | .deleted => .delete event.object

namespace WatchCache

variable [NeZero capacity]

def call (config : CacheConfig Obj Attrs) (cache : WatchCache Obj Attrs capacity) :
    CacheOp Obj → Except CacheError (WatchCache Obj Attrs capacity)
  | .replace objs resourceVersion => cache.replace config objs resourceVersion
  | .add obj => (cache.add config obj).map Prod.fst
  | .update obj => (cache.update config obj).map Prod.fst
  | .delete obj => (cache.delete config obj).map Prod.fst

/-- A step of the reflector: a relist at some version of the history, or the next event. -/
inductive Step (history : History config) :
    WatchCache Obj Attrs capacity → CacheOp Obj → WatchCache Obj Attrs capacity → Prop
  | relist {cache next : WatchCache Obj Attrs capacity} {objs : List Obj}
      {resourceVersion : String} {version : UInt64}
      (hver : parseResourceVersion resourceVersion = .ok version)
      (hlist : history.IsListing version objs)
      (hcall : cache.call config (.replace objs resourceVersion) = .ok next) :
      Step history cache (.replace objs resourceVersion) next
  | feed {cache next : WatchCache Obj Attrs capacity} {event : StoreEvent Obj}
      (hnext : history.IsNext cache.resourceVersion event)
      (hcall : cache.call config event.op = .ok next) :
      Step history cache event.op next

def Reachable (history : History config) : WatchCache Obj Attrs capacity → Prop :=
  Transition.Reachable (· = newWatchCache Obj Attrs capacity) (Step history)

variable {cache : WatchCache Obj Attrs capacity} {resourceVersion : UInt64}
  {cacheEvent : WatchCacheEvent Obj Attrs}

omit [NeZero capacity] in
theorem newEvent_cases {event : Event Obj}
    (h : cache.newEvent config event resourceVersion = .ok cacheEvent) :
    ∃ key attrs, config.keyFunc event.object = .ok key ∧
      config.getAttrs event.object = .ok attrs ∧
      (cache.store.lookup key = none ∧
          cacheEvent = ⟨event.type, event.object, attrs, none, none, key, resourceVersion⟩ ∨
        ∃ previous prevAttrs, cache.store.lookup key = some previous ∧
          config.getAttrs previous = .ok prevAttrs ∧
          cacheEvent = ⟨event.type, event.object, attrs, some previous, some prevAttrs, key,
            resourceVersion⟩) := by
  unfold newEvent at h
  cases hkey : config.keyFunc event.object with
  | error err => simp [CacheConfig.computeKey, hkey, bind, Except.bind] at h
  | ok key =>
    simp only [CacheConfig.computeKey, hkey, bind, Except.bind, pure, Except.pure] at h
    cases hattrs : config.getAttrs event.object with
    | error err => simp [hattrs] at h
    | ok attrs =>
      simp only [hattrs] at h
      refine ⟨key, attrs, rfl, rfl, ?_⟩
      cases hget : cache.store.lookup key with
      | none =>
        simp only [hget, Except.ok.injEq] at h
        exact .inl ⟨rfl, h.symm⟩
      | some previous =>
        simp only [hget] at h
        cases hprevious : config.getAttrs previous with
        | error err => simp [hprevious] at h
        | ok prevAttrs =>
          simp only [hprevious, Except.ok.injEq] at h
          exact .inr ⟨previous, prevAttrs, rfl, hprevious, h.symm⟩

omit [NeZero capacity] in
theorem newEvent_eq_ok {event : Event Obj}
    (h : cache.newEvent config event resourceVersion = .ok cacheEvent) :
    config.keyFunc event.object = .ok cacheEvent.key ∧
      cacheEvent.stored = ⟨event.type, event.object, resourceVersion⟩ ∧
      cacheEvent.prevObject = cache.store.lookup cacheEvent.key := by
  obtain ⟨key, attrs, hkey, -, ⟨hget, rfl⟩ | ⟨previous, prevAttrs, hget, -, rfl⟩⟩ :=
    newEvent_cases h <;> exact ⟨hkey, rfl, hget.symm⟩

variable {next : WatchCache Obj Attrs capacity}

theorem processEvent_eq_ok {event : Event Obj}
    (h : cache.processEvent config event resourceVersion = .ok (next, cacheEvent)) :
    cache.newEvent config event resourceVersion = .ok cacheEvent ∧
      next = cache.applyEvent cacheEvent := by
  unfold processEvent at h
  cases hevent : cache.newEvent config event resourceVersion with
  | error err => simp [hevent, bind, Except.bind] at h
  | ok found =>
    simp only [hevent, bind, Except.bind, pure, Except.pure] at h
    cases h
    exact ⟨rfl, rfl⟩

theorem processObject_eq_ok {type : EventType} {obj : Obj} {event : WatchCacheEvent Obj Attrs}
    (h : processObject config type cache obj = .ok (next, event)) :
    ∃ version, config.objectToVersionedRuntimeObject obj = .ok version ∧
      config.keyFunc obj = .ok event.key ∧ event.stored = ⟨type, obj, version⟩ ∧
      event.prevObject = cache.store.lookup event.key ∧ next = cache.applyEvent event := by
  unfold processObject at h
  cases hver : config.objectToVersionedRuntimeObject obj with
  | error err => simp [hver, bind, Except.bind] at h
  | ok version =>
    simp only [hver, bind, Except.bind] at h
    obtain ⟨hevent, rfl⟩ := processEvent_eq_ok h
    obtain ⟨hkey, hstored, hprev⟩ := newEvent_eq_ok hevent
    exact ⟨version, rfl, hkey, hstored, hprev, rfl⟩

variable {history : History config}

theorem call_op_eq_ok (hmem : event ∈ history.events) (h : cache.call config event.op = .ok next) :
    ∃ cacheEvent : WatchCacheEvent Obj Attrs, cacheEvent.stored = event ∧
      config.keyFunc event.object = .ok cacheEvent.key ∧
      cacheEvent.prevObject = cache.store.lookup cacheEvent.key ∧
      next = cache.applyEvent cacheEvent := by
  have hcall : ∃ cacheEvent, processObject config event.type cache event.object =
      .ok (next, cacheEvent) := by
    have hmap : (processObject config event.type cache event.object).map Prod.fst = .ok next := by
      rw [← h, StoreEvent.op]
      cases event.type <;> rfl
    cases hproc : processObject config event.type cache event.object with
    | error err => simp [hproc, Except.map] at hmap
    | ok result =>
      simp only [hproc, Except.map, Except.ok.injEq] at hmap
      exact ⟨result.2, by rw [← hmap]⟩
  obtain ⟨cacheEvent, hproc⟩ := hcall
  obtain ⟨version, hver, hkey, hstored, hprev, hnext⟩ := processObject_eq_ok hproc
  refine ⟨cacheEvent, ?_, hkey, hprev, hnext⟩
  rw [history.versioned event hmem] at hver
  rw [hstored, ← Except.ok.inj hver]

omit [NeZero capacity] in
theorem replace_eq_ok {objs : List Obj} {resourceVersion : String} {version : UInt64}
    (hver : parseResourceVersion resourceVersion = .ok version)
    (h : cache.replace config objs resourceVersion = .ok next) :
    ∃ elements, replaceElements config objs = .ok elements ∧
      next = ⟨cache.window.reset, replaceStore elements, version⟩ := by
  cases helements : replaceElements config objs with
  | error err => simp [replace, hver, helements, bind, Except.bind] at h
  | ok elements =>
    simp only [replace, hver, helements, bind, Except.bind, pure, Except.pure,
      Except.ok.injEq] at h
    exact ⟨elements, rfl, h.symm⟩

def cellOf (event : WatchCacheEvent Obj Attrs) : WatchCacheElement Obj Attrs :=
  ⟨event.resourceVersion, some event⟩

/-- The window holds the last events of the history up to the version of the cache. -/
def Mirrors (history : History config) (cache : WatchCache Obj Attrs capacity) : Prop :=
  ∃ events : List (WatchCacheEvent Obj Attrs),
    cache.window.toList = events.map cellOf ∧
      events.map WatchCacheEvent.stored <:+ history.upTo cache.resourceVersion

theorem Mirrors.step {op : CacheOp Obj} (hcache : cache.Mirrors history)
    (hstep : Step history cache op next) : next.Mirrors history := by
  cases hstep with
  | relist hver hlist hcall =>
    obtain ⟨elements, -, rfl⟩ := replace_eq_ok hver hcall
    exact ⟨[], RingBuffer.toList_reset _, nil_suffix⟩
  | feed hnext hcall =>
    obtain ⟨events, hwindow, hsuffix⟩ := hcache
    obtain ⟨cacheEvent, rfl, -, -, rfl⟩ := call_op_eq_ok hnext.1 hcall
    have hgrown : (events ++ [cacheEvent]).map WatchCacheEvent.stored <:+
        history.upTo cacheEvent.resourceVersion := by
      have hupTo := History.upTo_next hnext
      change history.upTo cacheEvent.resourceVersion = _ at hupTo
      rw [hupTo, map_append, map_singleton]
      obtain ⟨older, holder⟩ := hsuffix
      exact ⟨older, by rw [← append_assoc, holder]⟩
    have hpush := RingBuffer.toList_push cache.window (cellOf cacheEvent)
    by_cases hfull : cache.window.size = capacity
    · refine ⟨events.tail ++ [cacheEvent], ?_, ?_⟩
      · rw [if_pos hfull, hwindow, ← map_tail] at hpush
        rw [map_append]
        exact hpush
      · refine List.IsSuffix.trans ?_ hgrown
        cases events with
        | nil => exact suffix_refl _
        | cons first rest => exact suffix_cons _ _
    · refine ⟨events ++ [cacheEvent], ?_, hgrown⟩
      rw [if_neg hfull, hwindow] at hpush
      rw [map_append]
      exact hpush

theorem Reachable.mirrors (hreach : Reachable history cache) : cache.Mirrors history := by
  refine Transition.Reachable.invariant ?_ ?_ hreach
  · rintro cache rfl
    exact ⟨[], rfl, nil_suffix⟩
  · intro cache op next _ hcache hstep
    exact hcache.step hstep

/-! ## What the window answers -/

/-- The staleness test does not wrap for a positive version. -/
theorem lt_sub_one_iff {oldest : UInt64} (hpos : 0 < oldest.toNat) (resourceVersion : UInt64) :
    resourceVersion < oldest - 1 ↔ resourceVersion.toNat + 1 < oldest.toNat := by
  have hle : (1 : UInt64) ≤ oldest := by
    exact hpos
  rw [lt_iff_toNat_lt, UInt64.toNat_sub_of_le _ _ hle, toNat_one]
  omega

theorem le_of_not_stale {version oldest : UInt64} (hlt : version < oldest)
    (hfresh : ¬resourceVersion < oldest - 1) : version ≤ resourceVersion := by
  rw [lt_iff_toNat_lt] at hlt
  rw [lt_sub_one_iff (by omega)] at hfresh
  rw [le_iff_toNat_le]
  omega

/-- A request that is not too old gets the events of the window after its version. -/
theorem getAllEventsSince_eq_ok {events : List (WatchCacheEvent Obj Attrs)}
    (hwindow : cache.window.toList = events.map cellOf)
    (hinc : events.Pairwise fun a b ↦ a.resourceVersion < b.resourceVersion)
    (order : List String) (hpos : resourceVersion ≠ 0)
    (hfresh : ¬resourceVersion < cache.oldest - 1) :
    cache.getAllEventsSince config order resourceVersion =
      .ok ((events.filter fun event ↦ decide (resourceVersion < event.resourceVersion)).map
        some) := by
  have hmono : cache.window.toList.Pairwise fun a b ↦
      decide (resourceVersion < a.resourceVersion) = true →
        decide (resourceVersion < b.resourceVersion) = true := by
    rw [hwindow, pairwise_map]
    refine hinc.imp ?_
    intro a b hlt hafter
    exact decide_eq_true (UInt64.lt_trans (of_decide_eq_true hafter) hlt)
  have hsearch := drop_search_eq_filter cache.window.toList
    (fun element ↦ decide (resourceVersion < element.resourceVersion)) hmono
    (fun index ↦ decide (resourceVersion <
      (cache.window.cell (cache.window.startIndex + index)).resourceVersion))
    (fun index hindex ↦ by rw [RingBuffer.getElem_toList])
  rw [RingBuffer.drop_toList, RingBuffer.length_toList, hwindow, filter_map] at hsearch
  have hres := congrArg (List.map WatchCacheElement.watchCacheEvent) hsearch
  rw [map_map, map_map] at hres
  rw [getAllEventsSince, getAllEventsSinceThreadUnsafe, if_neg hpos, if_neg hfresh]
  exact congrArg Except.ok hres

theorem getAllEventsSince_stale (config : CacheConfig Obj Attrs) (order : List String)
    (hpos : resourceVersion ≠ 0) (hstale : resourceVersion < cache.oldest - 1) :
    cache.getAllEventsSince config order resourceVersion =
      .error (.gone ("too old resource version: " ++ toString resourceVersion ++ " (" ++
        toString (cache.oldest - 1) ++ ")")) := by
  rw [getAllEventsSince, getAllEventsSinceThreadUnsafe, if_neg hpos, if_pos hstale]

/-- The answer to a request is an explicit `Gone`, or the history after the requested version. -/
def Answers (history : History config) (cache : WatchCache Obj Attrs capacity)
    (order : List String) (resourceVersion : UInt64) : Prop :=
  (∃ message, cache.getAllEventsSince config order resourceVersion = .error (.gone message)) ∨
    ∃ events : List (WatchCacheEvent Obj Attrs),
      cache.getAllEventsSince config order resourceVersion = .ok (events.map some) ∧
        events.map WatchCacheEvent.stored = history.between resourceVersion cache.resourceVersion

theorem between_eq_filter_upTo (history : History config) (after version : UInt64) :
    history.between after version =
      (history.upTo version).filter fun event ↦ decide (after < event.resourceVersion) := by
  rw [History.between, History.upTo, filter_filter]
  simp only [Bool.decide_and]

variable {rest : List (WatchCacheEvent Obj Attrs)} {first : WatchCacheEvent Obj Attrs}

section

variable (hwindow : cache.window.toList = (first :: rest).map cellOf)

include hwindow

theorem oldest_of_window_cons :
    0 < cache.window.size ∧ cache.oldest = first.resourceVersion := by
  have hsize : 0 < cache.window.size := by
    rw [← RingBuffer.length_toList, hwindow]
    simp
  have hcell : cache.window.cell (cache.window.startIndex + 0) = cellOf first := by
    rw [← RingBuffer.getElem_toList cache.window 0 (by rwa [RingBuffer.length_toList])]
    simp [hwindow]
  refine ⟨hsize, ?_⟩
  rw [oldest, if_pos hsize]
  exact congrArg WatchCacheElement.resourceVersion hcell

theorem answers_of_window_cons
    (hsuffix : (first :: rest).map WatchCacheEvent.stored <:+ history.upTo cache.resourceVersion)
    (order : List String) (hpos : resourceVersion ≠ 0)
    (hfresh : ¬resourceVersion < cache.oldest - 1) :
    cache.Answers history order resourceVersion := by
  obtain ⟨older, hupTo⟩ := hsuffix
  have hinc : (history.upTo cache.resourceVersion).Pairwise fun a b ↦
      a.resourceVersion < b.resourceVersion :=
    history.increasing.sublist filter_sublist
  rw [← hupTo, pairwise_append] at hinc
  obtain ⟨-, hevents, hbefore⟩ := hinc
  rw [pairwise_map] at hevents
  refine .inr ⟨_, getAllEventsSince_eq_ok hwindow hevents order hpos hfresh, ?_⟩
  have holder : older.filter (fun event ↦ decide (resourceVersion < event.resourceVersion)) =
      [] := by
    rw [filter_eq_nil_iff]
    intro event hevent
    have hlt := hbefore event hevent first.stored (by simp)
    rw [(oldest_of_window_cons hwindow).2] at hfresh
    simpa using le_of_not_stale hlt hfresh
  rw [between_eq_filter_upTo, ← hupTo, filter_append, holder, filter_map]
  rfl

end

/-- An empty window answers with no event, which is right unless the history has an event at the
version of the cache and the request is for the version just before. -/
theorem answers_iff_of_window_nil (hwindow : cache.window.toList = []) (order : List String)
    (hpos : resourceVersion ≠ 0) :
    cache.Answers history order resourceVersion ↔
      ¬(resourceVersion.toNat + 1 = cache.resourceVersion.toNat ∧
        ∃ event ∈ history.events, event.resourceVersion = cache.resourceVersion) := by
  have hsize : ¬0 < cache.window.size := by
    rw [← RingBuffer.length_toList, hwindow]
    simp
  have holdest : cache.oldest = cache.resourceVersion := if_neg hsize
  by_cases hstale : resourceVersion < cache.oldest - 1
  · constructor
    · rintro - ⟨hbefore, -⟩
      rw [holdest, lt_sub_one_iff (by omega)] at hstale
      omega
    · rintro -
      left
      exact ⟨_, getAllEventsSince_stale config order hpos hstale⟩
  · have hanswer : cache.getAllEventsSince config order resourceVersion = .ok [] :=
      getAllEventsSince_eq_ok (show _ = List.map cellOf [] from hwindow) .nil order hpos hstale
    have hbetween : cache.Answers history order resourceVersion ↔
        history.between resourceVersion cache.resourceVersion = [] := by
      rw [Answers, hanswer]
      simp
    rw [hbetween, History.between, filter_eq_nil_iff]
    rw [holdest] at hstale
    constructor
    · rintro hnone ⟨hbefore, event, hmem, hver⟩
      refine hnone event hmem (decide_eq_true ⟨?_, ?_⟩)
      · rw [hver, lt_iff_toNat_lt]
        omega
      · rw [hver]
        exact UInt64.le_refl _
    · intro hcond event hmem hbounds
      obtain ⟨hafter, hupTo⟩ := of_decide_eq_true hbounds
      rcases UInt64.lt_or_eq_of_le hupTo with hlt | heq
      · exact absurd hafter (UInt64.not_lt.mpr (le_of_not_stale hlt hstale))
      · refine hcond ⟨?_, event, hmem, heq⟩
        rw [heq, lt_iff_toNat_lt] at hafter
        rw [lt_sub_one_iff (by omega)] at hstale
        omega

/-- Along every run a request gets `Gone` or exactly the history after its version if and only if it
is not for the version just before an empty window whose own version has an event. -/
theorem getAllEventsSince_answers_iff {history : History config}
    {cache : WatchCache Obj Attrs capacity} (hreach : Reachable history cache)
    (order : List String) (resourceVersion : UInt64) (hpos : resourceVersion ≠ 0) :
    cache.Answers history order resourceVersion ↔
      ¬(cache.window.size = 0 ∧ resourceVersion.toNat + 1 = cache.resourceVersion.toNat ∧
        ∃ event ∈ history.events, event.resourceVersion = cache.resourceVersion) := by
  obtain ⟨events, hwindow, hsuffix⟩ := hreach.mirrors
  have hlen : cache.window.size = events.length := by
    rw [← RingBuffer.length_toList, hwindow, length_map]
  cases events with
  | nil =>
    rw [answers_iff_of_window_nil hwindow order hpos, hlen]
    simp
  | cons first rest =>
    rw [hlen]
    simp only [length_cons, Nat.add_eq_zero_iff, one_ne_zero, and_false, false_and,
      not_false_eq_true, iff_true]
    by_cases hstale : resourceVersion < cache.oldest - 1
    · left
      exact ⟨_, getAllEventsSince_stale config order hpos hstale⟩
    · exact answers_of_window_cons hwindow hsuffix order hpos hstale

/-- Objects that are their own version text and share one key. -/
def textConfig : CacheConfig String Unit where
  keyFunc _ := .ok "a"
  getAttrsFunc _ := .ok ()
  accessor := .ok

/-- An object is created at version one and modified at version two. -/
def twoEvents : History textConfig where
  events := [⟨.added, "1", 1⟩, ⟨.modified, "2", 2⟩]
  versioned event hevent := by
    simp only [List.mem_cons, List.not_mem_nil, or_false] at hevent
    rcases hevent with rfl | rfl <;> rfl
  increasing := by decide

instance sampleCapacity : NeZero 1 := inferInstance

def firstFed : WatchCache String Unit 1 :=
  (newWatchCache String Unit 1).applyEvent ⟨.added, "1", (), none, none, "a", 1⟩

def relisted : WatchCache String Unit 1 :=
  ⟨(newWatchCache String Unit 1).window.reset, replaceStore [("a", "2")], 2⟩

theorem firstFed_reachable : Reachable twoEvents firstFed := by
  have hstart : Reachable twoEvents (newWatchCache String Unit 1) := .start rfl
  have hnext : twoEvents.IsNext 0 ⟨.added, "1", 1⟩ := by
    refine ⟨mem_cons_self, by decide, ?_⟩
    decide
  exact .next hstart (.feed hnext rfl)

theorem relisted_reachable : Reachable twoEvents relisted := by
  have hstart : Reachable twoEvents (newWatchCache String Unit 1) := .start rfl
  have hver : parseResourceVersion "2" = .ok 2 := rfl
  have hlist : twoEvents.IsListing 2 ["2"] :=
    ⟨["a"], ⟨nodup_singleton _, fun _ ↦ by rfl⟩, rfl⟩
  exact .next hstart (.relist hver hlist rfl)

theorem firstFed_answers : firstFed.Answers twoEvents [] 1 :=
  (getAllEventsSince_answers_iff firstFed_reachable [] 1 (by decide)).mpr (by decide)

/-- After a relist at version two, a watch from version one misses the event at version two. -/
theorem relisted_loses_event :
    Reachable twoEvents relisted ∧ relisted.getAllEventsSince textConfig [] 1 = .ok [] ∧
      twoEvents.between 1 relisted.resourceVersion = [⟨.modified, "2", 2⟩] ∧
      ¬relisted.Answers twoEvents [] 1 := by
  refine ⟨relisted_reachable, rfl, by decide, ?_⟩
  rintro (⟨message, h⟩ | ⟨events, h, hevents⟩)
  · cases h
  · cases map_eq_nil_iff.mp (Except.ok.inj h).symm
    cases hevents

end WatchCache

end Kubernetes.Storage

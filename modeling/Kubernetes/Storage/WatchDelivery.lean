import Kubernetes.Storage.CacherInvariant

/-!
# What the watchers of a cacher accept

A watch from a version is promised each event after that version once and in order: those in the
window as initial events, the later ones through the dispatcher.  The two parts overlap when an
event of the window is still on its way to the watchers when the watch registers, because dispatched
events are compared with the requested version and not with the version the initial events reach.
-/

namespace Kubernetes.Storage

open List

variable {Obj Attrs : Type} {capacity : ℕ} {config : CacherConfig Obj Attrs}

variable {next : Cacher Obj Attrs capacity} {op : CacherOp Obj Attrs}

namespace Cacher

/-! ## Where the fed events are -/

section

variable (config : CacherConfig Obj Attrs) (cacher : Cacher Obj Attrs capacity) (number : ℕ)
  (watcher : CacheWatcher Obj Attrs)

/-- The event the dispatcher holds, if it is still to be added to the watcher. -/
def inFlight : List (WatchCacheEvent Obj Attrs) :=
  match cacher.dispatch with
  | .idle => []
  | .taken event => if routes config watcher.trigger event = true then [event] else []
  | .adding event remaining => if number ∈ remaining then [event] else []

/-- The dispatched events the watcher will still accept. -/
def pending : List (WatchCacheEvent Obj Attrs) :=
  (watcher.input ++ cacher.inFlight config number watcher ++
    cacher.incoming.filter (routes config watcher.trigger)).filter
      fun event ↦ decide (watcher.resourceVersion < event.resourceVersion)

end

def undispatched (cacher : Cacher Obj Attrs capacity) : List (WatchCacheEvent Obj Attrs) :=
  match cacher.dispatch with
  | .taken event => event :: cacher.incoming
  | _ => cacher.incoming

/-- The fed events that reach a watcher as initial events. -/
def initial (watcher : CacheWatcher Obj Attrs) (event : WatchCacheEvent Obj Attrs) : Bool :=
  decide (watcher.resourceVersion < event.resourceVersion ∧
    event.resourceVersion ≤ watcher.initVersion)

/-- The fed events that reach a watcher through the dispatcher. -/
def dispatched (config : CacherConfig Obj Attrs) (watcher : CacheWatcher Obj Attrs)
    (event : WatchCacheEvent Obj Attrs) : Bool :=
  decide (watcher.resourceVersion < event.resourceVersion ∧
    watcher.initVersion < event.resourceVersion) && routes config watcher.trigger event

/-- Where the fed events are, for one watcher. -/
structure Serves (config : CacherConfig Obj Attrs) (cacher : Cacher Obj Attrs capacity)
    (number : ℕ) (watcher : CacheWatcher Obj Attrs) : Prop where
  initVersion_le : watcher.initVersion ≤ cacher.version
  initial : watcher.resourceVersion ≠ 0 →
    watcher.sentInit ++ watcher.todo = cacher.fed.filter (initial watcher)
  inOrder : watcher.todo = [] ∨ watcher.accepted = []
  dispatched : watcher.accepted ++ cacher.pending config number watcher =
    cacher.fed.filter (dispatched config watcher)

section

variable (config : CacherConfig Obj Attrs) (cacher : Cacher Obj Attrs capacity)

def ServesAll : Prop :=
  ∀ number watcher, cacher.created.lookup number = some watcher → watcher.stopped = false →
    cacher.Serves config number watcher

/-- A registered watch has no event after its version that is waiting to be dispatched. -/
def RegistersAfterDispatch : CacherOp Obj Attrs → Prop
  | .register pending => ∀ event ∈ cacher.undispatched,
      routes config pending.trigger event = true → ¬pending.resourceVersion < event.resourceVersion
  | _ => True

end

variable {cacher : Cacher Obj Attrs capacity} {number : ℕ} {watcher : CacheWatcher Obj Attrs}

section

variable (hserves : cacher.Serves config number watcher)

include hserves

theorem Serves.mono {watcher' : CacheWatcher Obj Attrs}
    (hver : next.version = cacher.version) (hfed : next.fed = cacher.fed)
    (hinitial : Cacher.initial watcher' = Cacher.initial watcher)
    (hdispatched : Cacher.dispatched config watcher' = Cacher.dispatched config watcher)
    (hversions : watcher'.resourceVersion = watcher.resourceVersion ∧
      watcher'.initVersion = watcher.initVersion)
    (hinit : watcher'.sentInit ++ watcher'.todo = watcher.sentInit ++ watcher.todo)
    (hinOrder : watcher'.todo = [] ∨ watcher'.accepted = [])
    (hpend : watcher'.accepted ++ next.pending config number watcher' =
      watcher.accepted ++ cacher.pending config number watcher) :
    next.Serves config number watcher' where
  initVersion_le := by
    rw [hversions.2, hver]
    exact hserves.initVersion_le
  initial hpos := by
    rw [hversions.1] at hpos
    rw [hinit, hfed, hinitial, hserves.initial hpos]
  inOrder := hinOrder
  dispatched := by rw [hpend, hfed, hdispatched, hserves.dispatched]

theorem Serves.congr (hver : next.version = cacher.version) (hfed : next.fed = cacher.fed)
    (hpend : next.pending config number watcher = cacher.pending config number watcher) :
    next.Serves config number watcher :=
  hserves.mono hver hfed rfl rfl ⟨rfl, rfl⟩ rfl hserves.inOrder (by rw [hpend])

/-- A newer event is appended to what is pending for the watchers it is routed to. -/
theorem Serves.feed {event : WatchCacheEvent Obj Attrs}
    (hnewer : cacher.version < event.resourceVersion) :
    Serves config
      { cacher with
        writer := some event
        incoming := cacher.incoming ++ [event]
        fed := cacher.fed ++ [event] } number watcher where
  initVersion_le :=
    UInt64.le_trans hserves.initVersion_le (UInt64.le_of_lt hnewer)
  initial hpos := by
    have hnot : Cacher.initial watcher event = false := by
      have hlt := UInt64.lt_of_le_of_lt hserves.initVersion_le hnewer
      simp [Cacher.initial, hlt]
    rw [hserves.initial hpos]
    simp [hnot]
  inOrder := hserves.inOrder
  dispatched := by
    have hlt := UInt64.lt_of_le_of_lt hserves.initVersion_le hnewer
    have hpend : Cacher.pending config
        { cacher with
          writer := some event
          incoming := cacher.incoming ++ [event]
          fed := cacher.fed ++ [event] } number watcher =
        cacher.pending config number watcher ++
          [event].filter (Cacher.dispatched config watcher) := by
      have hlast : ([event].filter (routes config watcher.trigger)).filter
          (fun event ↦ decide (watcher.resourceVersion < event.resourceVersion)) =
          [event].filter (Cacher.dispatched config watcher) := by
        rw [filter_filter]
        refine filter_congr fun last hlast ↦ ?_
        rw [mem_singleton.mp hlast, Cacher.dispatched]
        simp [hlt]
      rw [Cacher.pending, Cacher.pending, ← hlast, ← filter_append,
        append_assoc _ (cacher.incoming.filter _), ← filter_append]
      rfl
    rw [hpend, ← append_assoc, hserves.dispatched, filter_append]

theorem Serves.process {next : CacheWatcher Obj Attrs} (hproc : watcher.process = some next) :
    (cacher.setWatcher number next).Serves config number next := by
  unfold CacheWatcher.process at hproc
  cases htodo : watcher.todo with
  | cons event rest =>
    rw [htodo] at hproc
    cases hproc
    have hnone : watcher.accepted = [] := by
      rcases hserves.inOrder with hnil | hnil
      · rw [htodo] at hnil
        cases hnil
      · exact hnil
    exact hserves.mono rfl rfl rfl rfl ⟨rfl, rfl⟩ (by simp [htodo]) (.inr hnone) rfl
  | nil =>
    rw [htodo] at hproc
    cases hinput : watcher.input with
    | nil => simp [hinput] at hproc
    | cons event rest =>
      rw [hinput] at hproc
      dsimp only at hproc
      split_ifs at hproc with hnewer
      · cases hproc
        refine hserves.mono rfl rfl rfl rfl ⟨rfl, rfl⟩ (by simp [htodo]) (.inl rfl) ?_
        have hpend : cacher.pending config number watcher =
            event :: Cacher.pending config cacher number { watcher with input := rest } := by
          unfold Cacher.pending
          rw [hinput, cons_append, cons_append, filter_cons_of_pos (by simpa using hnewer)]
          rfl
        rw [hpend, append_assoc]
        rfl
      · cases hproc
        refine hserves.mono rfl rfl rfl rfl ⟨rfl, rfl⟩ (by simp [htodo]) (.inl rfl) ?_
        have hpend : cacher.pending config number watcher =
            Cacher.pending config cacher number { watcher with input := rest } := by
          unfold Cacher.pending
          rw [hinput, cons_append, cons_append, filter_cons_of_neg (by simpa using hnewer)]
          rfl
        rw [hpend]
        rfl

end

/-- The fed events a watcher is promised: those after its version in the window it read, and the
later ones routed to it; without a trigger, all after its version. -/
def promised (config : CacherConfig Obj Attrs) (watcher : CacheWatcher Obj Attrs)
    (event : WatchCacheEvent Obj Attrs) : Bool :=
  decide (watcher.resourceVersion < event.resourceVersion) &&
    (decide (event.resourceVersion ≤ watcher.initVersion) || routes config watcher.trigger event)

/-- The initial events come before the dispatched ones. -/
theorem filter_initial_append_filter_dispatched (watcher : CacheWatcher Obj Attrs)
    {fed : List (WatchCacheEvent Obj Attrs)}
    (hinc : fed.Pairwise fun a b ↦ a.resourceVersion < b.resourceVersion) :
    fed.filter (initial watcher) ++ fed.filter (dispatched config watcher) =
      fed.filter (promised config watcher) := by
  induction fed with
  | nil => rfl
  | cons event rest ih =>
    rw [pairwise_cons] at hinc
    by_cases hinit : event.resourceVersion ≤ watcher.initVersion
    · have hdispatched : dispatched config watcher event = false := by
        simp [dispatched, hinit]
      have hpromised : promised config watcher event = initial watcher event := by
        simp [promised, initial, hinit]
      rw [filter_cons, filter_cons_of_neg (by simp [hdispatched]), filter_cons,
        hpromised, ← ih hinc.2]
      split_ifs <;> simp
    · have hlater : ∀ other ∈ event :: rest, watcher.initVersion < other.resourceVersion := by
        intro other hother
        rcases mem_cons.mp hother with rfl | hrest
        · exact UInt64.not_le.mp hinit
        · exact UInt64.lt_trans (UInt64.not_le.mp hinit) (hinc.1 other hrest)
      have hnone : (event :: rest).filter (initial watcher) = [] := by
        rw [filter_eq_nil_iff]
        intro other hother
        simp [initial, UInt64.not_le.mpr (hlater other hother)]
      rw [hnone]
      refine filter_congr fun other hother ↦ ?_
      simp [dispatched, promised, hlater other hother, UInt64.not_le.mpr (hlater other hother)]

variable [NeZero capacity]

/-- A new watcher: its initial events are the fed events after its version, and none of those is
on its way to it. -/
theorem Serves.register (hwindowed : cacher.Windowed) {pending : PendingWatch Obj Attrs}
    (hreader : pending ∈ cacher.readers) (hunlocked : cacher.Unlocked)
    (hguard : cacher.RegistersAfterDispatch config (.register pending)) (number : ℕ) :
    (cacher.register config pending).Serves config number
      (newCacheWatcher pending.resourceVersion pending.trigger (chanSize config pending.trigger)
        pending.initEvents pending.initVersion) := by
  obtain ⟨hwriter, hver, hinit⟩ := hwindowed.readers pending hreader
  have hbounded : ∀ event ∈ cacher.fed, event.resourceVersion ≤ pending.initVersion := by
    intro event hevent
    have hle := hwindowed.bounded event hevent
    simpa only [version, hwriter, hver] using hle
  refine ⟨?_, fun hpos ↦ ?_, .inr rfl, ?_⟩
  · change pending.initVersion ≤ cacher.version
    rw [version, hwriter, hver]
    exact UInt64.le_refl _
  · change [] ++ pending.initEvents = _
    rw [hinit hpos]
    refine filter_congr fun event hevent ↦ ?_
    simp [Cacher.initial, newCacheWatcher, hbounded event hevent]
  · have hfed : cacher.fed.filter (Cacher.dispatched config
        (newCacheWatcher pending.resourceVersion pending.trigger (chanSize config pending.trigger)
          pending.initEvents pending.initVersion)) = [] := by
      rw [filter_eq_nil_iff]
      intro event hevent
      rw [Cacher.dispatched, Bool.and_eq_true, decide_eq_true_eq]
      rintro ⟨⟨-, hlater⟩, -⟩
      exact UInt64.not_lt.mpr (hbounded event hevent) hlater
    change [] ++ _ = cacher.fed.filter _
    rw [hfed, nil_append, Cacher.pending, filter_eq_nil_iff]
    intro event hevent
    suffices hwait : event ∈ cacher.undispatched ∧ routes config pending.trigger event = true by
      rw [decide_eq_true_eq]
      exact hguard event hwait.1 hwait.2
    change event ∈ ([] : List _) ++ cacher.inFlight config number _ ++
      cacher.incoming.filter (routes config pending.trigger) at hevent
    rw [mem_append] at hevent
    unfold undispatched
    rcases hevent with hflight | hincoming
    · unfold inFlight at hflight
      cases hdispatch : cacher.dispatch with
      | idle => simp [hdispatch] at hflight
      | taken taken =>
        simp only [hdispatch] at hflight
        split_ifs at hflight with hroutes
        · rw [mem_singleton.mp hflight]
          exact ⟨mem_cons_self, hroutes⟩
        · cases hflight
      | adding adding remaining => exact absurd hdispatch (hunlocked adding remaining)
    · obtain ⟨hmem, hroutes⟩ := mem_filter.mp hincoming
      refine ⟨?_, hroutes⟩
      cases cacher.dispatch with
      | idle | adding => exact hmem
      | taken taken => exact mem_cons_of_mem _ hmem

/-- Every step keeps every watcher served, if no event after the version of a registered watch waits
to be dispatched to it. -/
theorem ServesAll.step (hwindowed : cacher.Windowed) (hreg : cacher.Registered)
    (hserves : cacher.ServesAll config) (hguard : cacher.RegistersAfterDispatch config op)
    (hstep : CacherStep config cacher op next) :
    next.ServesAll config := by
  intro number watcher hget hrunning
  cases hstep with
  | feed hwriter hreaders hspace hver hnewer hevent =>
    apply (hserves number watcher hget hrunning).feed
    rw [version, hwriter]
    exact newer_of_newEvent hnewer hevent
  | commit hwriter =>
    refine (hserves number watcher hget hrunning).congr ?_ rfl rfl
    simp only [version, hwriter]
    rfl
  | read => exact (hserves number watcher hget hrunning).congr rfl rfl rfl
  | @register before after pending hunlocked hreaders =>
    rw [Cacher.register, setWatcher, Map.lookup_insert] at hget
    split_ifs at hget with heq
    · cases hget
      have hreader : pending ∈ cacher.readers := by
        rw [hreaders]
        exact mem_append_right _ mem_cons_self
      exact (Serves.register hwindowed hreader hunlocked hguard number).congr rfl rfl rfl
    · exact (hserves number watcher hget hrunning).congr rfl rfl rfl
  | @take event rest hidle hincoming =>
    refine (hserves number watcher hget hrunning).congr rfl rfl ?_
    unfold pending inFlight
    simp only [hidle, hincoming, filter_cons]
    split_ifs <;> simp
  | @lock event allOrder valueOrder orderOf htaken hall hvalues horderOf =>
    refine (hserves number watcher hget hrunning).congr rfl rfl ?_
    have hmem : number ∈ dispatchTargets config event allOrder valueOrder orderOf ↔
        routes config watcher.trigger event = true := by
      have hself : number ∈ cacher.watchers.registeredFor watcher.trigger :=
        (hreg.registered watcher.trigger number).mpr ⟨watcher, hget, hrunning, rfl⟩
      rw [mem_dispatchTargets hall hvalues horderOf]
      constructor
      · rintro ⟨trigger, hnum, hroutes⟩
        rwa [hreg.trigger_unique hself hnum]
      · intro hroutes
        exact ⟨watcher.trigger, hself, hroutes⟩
    unfold pending inFlight
    simp only [htaken, hmem]
  | @add event target remaining added hadding hwatcher hspace =>
    have hnodup := nodup_cons.mp (hreg.targets _ _ hadding)
    change (Finmap.insert target _ cacher.created).lookup number = _ at hget
    rw [Map.lookup_insert] at hget
    split_ifs at hget with heq
    · subst heq
      cases hget
      refine (hserves number added hwatcher hrunning).mono rfl rfl rfl rfl
        ⟨rfl, rfl⟩ rfl (hserves number added hwatcher hrunning).inOrder ?_
      unfold pending inFlight
      simp [hadding, hnodup.1, setWatcher]
    · refine (hserves number watcher hget hrunning).congr rfl rfl ?_
      unfold pending inFlight
      simp [hadding, heq, setWatcher]
  | @timeout event target remaining terminated hadding hwatcher hfull =>
    change (Finmap.insert target _ cacher.created).lookup number = _ at hget
    rw [Map.lookup_insert] at hget
    split_ifs at hget with heq
    · cases hget
      cases hrunning
    · refine (hserves number watcher hget hrunning).congr rfl rfl ?_
      unfold pending inFlight
      simp [hadding, heq, terminate, setWatcher]
  | unlock hadding =>
    refine (hserves number watcher hget hrunning).congr rfl rfl ?_
    unfold pending inFlight
    simp [hadding]
  | @process target watcher' processed hwatcher hproc =>
    rw [setWatcher, Map.lookup_insert] at hget
    split_ifs at hget with heq
    · subst heq
      cases hget
      rw [(CacheWatcher.process_frame hproc).1] at hrunning
      exact (hserves number watcher' hwatcher hrunning).process hproc
    · exact (hserves number watcher hget hrunning).congr rfl rfl rfl
  | @stop target terminated hunlocked hwatcher =>
    change (Finmap.insert target _ cacher.created).lookup number = _ at hget
    rw [Map.lookup_insert] at hget
    split_ifs at hget with heq
    · cases hget
      cases hrunning
    · exact (hserves number watcher hget hrunning).congr rfl rfl rfl

/-! ## Delivery -/

/-- From a version on a watcher accepts exactly the promised events, in order, and from the initial
state on dispatched events newer than that state. -/
structure Delivers (config : CacherConfig Obj Attrs) (cacher : Cacher Obj Attrs capacity)
    (number : ℕ) (watcher : CacheWatcher Obj Attrs) : Prop where
  exactlyOnce : watcher.resourceVersion ≠ 0 →
    watcher.accepts ++ (watcher.todo ++ cacher.pending config number watcher) =
      cacher.fed.filter (promised config watcher)
  increasing : watcher.resourceVersion ≠ 0 →
    watcher.accepts.Pairwise fun a b ↦ a.resourceVersion < b.resourceVersion
  newer : watcher.resourceVersion = 0 →
    ∀ event ∈ watcher.accepted, watcher.initVersion < event.resourceVersion

/-- No watch registers while an event after its version is waiting to be dispatched to it. -/
def ReachableAfterDispatch (config : CacherConfig Obj Attrs) :
    Cacher Obj Attrs capacity → Prop :=
  Transition.Reachable (IsReadyCacher config)
    (Transition.guarded (RegistersAfterDispatch config) (CacherStep config))

def Reachable (config : CacherConfig Obj Attrs) : Cacher Obj Attrs capacity → Prop :=
  Transition.Reachable (IsReadyCacher config) (CacherStep config)

structure Invariant (config : CacherConfig Obj Attrs) (cacher : Cacher Obj Attrs capacity) :
    Prop where
  windowed : cacher.Windowed
  registered : cacher.Registered
  serves : cacher.ServesAll config

theorem ReachableAfterDispatch.invariant (hreach : ReachableAfterDispatch config cacher) :
    cacher.Invariant config := by
  refine Transition.Reachable.invariant ?_ ?_ hreach
  · rintro cacher ⟨objs, resourceVersion, watchCache, hreplace, rfl⟩
    refine ⟨⟨.nil, by simp, ⟨[], [], rfl, ?_, nil_suffix, fun _ ↦ rfl⟩, by simp⟩,
      ⟨fun trigger number ↦ ?_, by simp, fun _ _ h ↦ by cases h⟩, fun number watcher h ↦ ?_⟩
    · cases hver : parseResourceVersion resourceVersion with
      | error err => simp [WatchCache.replace, hver, bind, Except.bind] at hreplace
      | ok version =>
        obtain ⟨elements, -, rfl⟩ := WatchCache.replace_eq_ok hver hreplace
        exact RingBuffer.toList_reset _
    · cases trigger <;> simp [IndexedWatchers.none, IndexedWatchers.registeredFor,
        IndexedWatchers.watchersOf]
    · simp at h
  · rintro cacher op next - ⟨hwindowed, hreg, hserves⟩ ⟨hguard, hstep⟩
    exact ⟨hwindowed.step hstep, hreg.step hstep,
      hserves.step hwindowed hreg hguard hstep⟩

/-- In such a run every watcher that was not terminated accepts what it is promised. -/
theorem watcher_delivers {cacher : Cacher Obj Attrs capacity}
    (hreach : ReachableAfterDispatch config cacher) {number : ℕ}
    {watcher : CacheWatcher Obj Attrs} (hwatcher : cacher.created.lookup number = some watcher)
    (hrunning : watcher.stopped = false) : cacher.Delivers config number watcher := by
  obtain ⟨hwindowed, -, hserves⟩ := hreach.invariant
  have hserved := hserves number watcher hwatcher hrunning
  have hall : watcher.resourceVersion ≠ 0 →
      watcher.accepts ++ (watcher.todo ++ cacher.pending config number watcher) =
        cacher.fed.filter (promised config watcher) := by
    intro hpos
    rw [← filter_initial_append_filter_dispatched watcher hwindowed.increasing,
      ← hserved.initial hpos, ← hserved.dispatched, CacheWatcher.accepts]
    rcases hserved.inOrder with hnil | hnil <;> simp [hnil]
  refine ⟨hall, fun hpos ↦ ?_, fun hzero event hevent ↦ ?_⟩
  · have hsorted : (cacher.fed.filter (promised config watcher)).Pairwise fun a b ↦
        a.resourceVersion < b.resourceVersion :=
      hwindowed.increasing.sublist filter_sublist
    rw [← hall hpos, pairwise_append] at hsorted
    exact hsorted.1
  · have hmem : event ∈ cacher.fed.filter (dispatched config watcher) := by
      rw [← hserved.dispatched]
      exact mem_append_left _ hevent
    have hdispatched := (mem_filter.mp hmem).2
    rw [dispatched, Bool.and_eq_true, decide_eq_true_eq] at hdispatched
    exact hdispatched.1.2

def textCacherConfig : CacherConfig String Unit :=
  { WatchCache.textConfig with triggerFunc := none }

def textEvent : WatchCacheEvent String Unit := ⟨.added, "2", (), none, none, "a", 2⟩

/-- The cacher after an empty list at version one and the event at version two. -/
def textCacher (readers : List (PendingWatch String Unit))
    (incoming : List (WatchCacheEvent String Unit)) (dispatch : Dispatch String Unit)
    (watcherIdx : ℕ) (watchers : IndexedWatchers) (created : Map ℕ (CacheWatcher String Unit)) :
    Cacher String Unit 1 :=
  ⟨WatchCache.applyEvent
      ⟨(newWatchCache String Unit 1).window.reset, WatchCache.replaceStore [], 1⟩ textEvent,
    none, readers, incoming, dispatch, watcherIdx, watchers, created, [textEvent]⟩

theorem guarded_of_step (hop : ∀ pending, op ≠ .register pending)
    (hstep : CacherStep config cacher op next) :
    Transition.guarded (RegistersAfterDispatch config) (CacherStep config) cacher op next := by
  cases op with
  | register pending => exact absurd rfl (hop pending)
  | _ => trivial

theorem textCacher_reachable :
    ReachableAfterDispatch textCacherConfig (textCacher [] [textEvent] .idle 0 .none ∅) := by
  let start : Cacher String Unit 1 :=
    ⟨⟨(newWatchCache String Unit 1).window.reset, WatchCache.replaceStore [], 1⟩, none, [], [],
      .idle, 0, .none, ∅, []⟩
  have hstart : ReachableAfterDispatch textCacherConfig start := .start ⟨[], "1", _, rfl, rfl⟩
  have hfeed : CacherStep textCacherConfig start (.feed ⟨.added, "2"⟩)
      { start with writer := some textEvent, incoming := [textEvent], fed := [textEvent] } :=
    .feed rfl rfl (by decide) rfl (by decide) rfl
  exact .next (.next hstart (guarded_of_step (by simp) hfeed))
    (guarded_of_step (by simp) (.commit rfl))

def textWatcher (resourceVersion : UInt64) : CacheWatcher String Unit :=
  newCacheWatcher resourceVersion none 10 [textEvent] 2

def oneWatcher : IndexedWatchers := IndexedWatchers.none.addWatcher 0 none

theorem textCacher_register (resourceVersion : UInt64)
    (hread : (textCacher [] [] .idle 0 .none ∅).watchCache.getAllEventsSinceThreadUnsafe
      textCacherConfig.toCacheConfig ["a"] resourceVersion = .ok [some textEvent])
    (incoming : List (WatchCacheEvent String Unit)) :
    let pending : PendingWatch String Unit := ⟨resourceVersion, none, [textEvent], 2⟩
    CacherStep textCacherConfig (textCacher [] incoming .idle 0 .none ∅) (.read resourceVersion)
        (textCacher [pending] incoming .idle 0 .none ∅) ∧
      CacherStep textCacherConfig (textCacher [pending] incoming .idle 0 .none ∅)
        (.register pending)
        (textCacher [] incoming .idle 1 oneWatcher
          (Finmap.insert 0 (textWatcher resourceVersion) ∅)) :=
  ⟨@CacherStep.read _ _ _ _ textCacherConfig (textCacher [] incoming .idle 0 .none ∅)
      resourceVersion ["a"] [] [textEvent] rfl ⟨nodup_singleton _, fun _ ↦ by rfl⟩ hread,
    @CacherStep.register _ _ _ _ textCacherConfig
      (textCacher [⟨resourceVersion, none, [textEvent], 2⟩] incoming .idle 0 .none ∅) [] []
      ⟨resourceVersion, none, [textEvent], 2⟩ (fun _ _ h ↦ by cases h) rfl⟩

theorem textCacher_lock (watcherIdx : ℕ) (allWatchers : Finset ℕ) (order : List ℕ)
    (horder : IsEnumeration order allWatchers) (created : Map ℕ (CacheWatcher String Unit)) :
    CacherStep textCacherConfig
        (textCacher [] [textEvent] .idle watcherIdx ⟨allWatchers, ∅⟩ created) .take
        (textCacher [] [] (.taken textEvent) watcherIdx ⟨allWatchers, ∅⟩ created) ∧
      CacherStep textCacherConfig
        (textCacher [] [] (.taken textEvent) watcherIdx ⟨allWatchers, ∅⟩ created) .lock
        (textCacher [] [] (.adding textEvent order) watcherIdx ⟨allWatchers, ∅⟩ created) := by
  refine ⟨.take rfl rfl, ?_⟩
  have hlock := @CacherStep.lock _ _ _ _ textCacherConfig
    (textCacher [] [] (.taken textEvent) watcherIdx ⟨allWatchers, ∅⟩ created) textEvent order []
    (fun _ ↦ []) rfl horder ⟨nodup_nil, fun value ↦ by simp [textCacher, Finmap.notMem_empty]⟩
    (fun value ↦ ⟨nodup_nil, fun number ↦ by
      simp [textCacher, IndexedWatchers.watchersOf]⟩)
  have htargets : dispatchTargets textCacherConfig textEvent order [] (fun _ ↦ []) = order :=
    append_nil order
  rw [htargets] at hlock
  exact hlock

/-- A watch from version one that registers after the event of version two was dispatched has it
initially. -/
theorem textWatcher_delivers :
    Delivers textCacherConfig
      (textCacher [] [] .idle 1 oneWatcher (Finmap.insert 0 (textWatcher 1) ∅)) 0
      (textWatcher 1) := by
  obtain ⟨htake, hlock⟩ := textCacher_lock 0 ∅ [] ⟨nodup_nil, by simp⟩ ∅
  obtain ⟨hread, hregister⟩ := textCacher_register 1 rfl []
  have hdispatched : ReachableAfterDispatch textCacherConfig (textCacher [] [] .idle 0 .none ∅) :=
    .next (.next (.next textCacher_reachable (guarded_of_step (by simp) htake))
      (guarded_of_step (by simp) hlock)) (guarded_of_step (by simp) (.unlock rfl))
  have hguard : RegistersAfterDispatch textCacherConfig
      (textCacher [⟨1, none, [textEvent], 2⟩] [] .idle 0 .none ∅)
      (.register ⟨1, none, [textEvent], 2⟩) :=
    fun event hevent ↦ absurd hevent not_mem_nil
  exact watcher_delivers (.next (.next hdispatched (guarded_of_step (by simp) hread))
    ⟨hguard, hregister⟩) rfl rfl

/-- A watch that reads the event of version two and registers before its dispatch accepts it twice.
-/
theorem textWatcher_accepts_twice (resourceVersion : UInt64) (hlt : resourceVersion < 2)
    (hread : (textCacher [] [] .idle 0 .none ∅).watchCache.getAllEventsSinceThreadUnsafe
      textCacherConfig.toCacheConfig ["a"] resourceVersion = .ok [some textEvent]) :
    ∃ cacher : Cacher String Unit 1, Reachable textCacherConfig cacher ∧
      cacher.fed = [textEvent] ∧
      cacher.created.lookup 0 = some { textWatcher resourceVersion with
        todo := [], sentInit := [textEvent], accepted := [textEvent] } := by
  let registered : Map ℕ (CacheWatcher String Unit) :=
    Finmap.insert 0 (textWatcher resourceVersion) ∅
  let added := Finmap.insert 0 { textWatcher resourceVersion with input := [textEvent] } registered
  let sent := Finmap.insert 0
    { textWatcher resourceVersion with
      todo := [], input := [textEvent], sentInit := [textEvent] } added
  obtain ⟨hreadStep, hregister⟩ := textCacher_register resourceVersion hread [textEvent]
  obtain ⟨htake, hlock⟩ := textCacher_lock 1 {0} [0] ⟨nodup_singleton _, by simp⟩ registered
  have hadd : CacherStep textCacherConfig
      (textCacher [] [] (.adding textEvent [0]) 1 oneWatcher registered) (.add 0)
      (textCacher [] [] (.adding textEvent []) 1 oneWatcher added) :=
    .add rfl rfl (Nat.zero_lt_succ 9)
  have hunlock : CacherStep textCacherConfig
      (textCacher [] [] (.adding textEvent []) 1 oneWatcher added) .unlock
      (textCacher [] [] .idle 1 oneWatcher added) :=
    .unlock rfl
  have hsend : CacherStep textCacherConfig (textCacher [] [] .idle 1 oneWatcher added)
      (.process 0) (textCacher [] [] .idle 1 oneWatcher sent) :=
    .process rfl rfl
  have haccept : CacheWatcher.process
      { textWatcher resourceVersion with
        todo := [], input := [textEvent], sentInit := [textEvent] } =
      some { textWatcher resourceVersion with
        todo := [], sentInit := [textEvent], accepted := [textEvent] } :=
    if_pos hlt
  have hfinal : CacherStep textCacherConfig (textCacher [] [] .idle 1 oneWatcher sent)
      (.process 0) _ :=
    .process rfl haccept
  have hstart : Reachable textCacherConfig (textCacher [] [textEvent] .idle 0 .none ∅) :=
    textCacher_reachable.of_guarded
  have hrun : Reachable textCacherConfig (textCacher [] [] .idle 1 oneWatcher sent) :=
    .next (.next (.next (.next (.next (.next (.next hstart hreadStep) hregister) htake) hlock)
      hadd) hunlock) hsend
  exact ⟨_, .next hrun hfinal, rfl, Finmap.lookup_insert _⟩

/-- Of two early watches one accepts events that are not increasing, and the other a dispatched
event no newer than its initial state. -/
theorem early_watches_misdeliver :
    (∃ (cacher : Cacher String Unit 1) (watcher : CacheWatcher String Unit),
      Reachable textCacherConfig cacher ∧ cacher.created.lookup 0 = some watcher ∧
        watcher.stopped = false ∧ watcher.resourceVersion = 1 ∧
        watcher.accepts = [textEvent, textEvent] ∧ ¬cacher.Delivers textCacherConfig 0 watcher) ∧
    ∃ (cacher : Cacher String Unit 1) (watcher : CacheWatcher String Unit),
      Reachable textCacherConfig cacher ∧ cacher.created.lookup 0 = some watcher ∧
        watcher.stopped = false ∧ watcher.resourceVersion = 0 ∧ watcher.initVersion = 2 ∧
        watcher.accepted = [textEvent] ∧ ¬cacher.Delivers textCacherConfig 0 watcher := by
  obtain ⟨one, hone, -, hwatcherOne⟩ := textWatcher_accepts_twice 1 (by decide) rfl
  obtain ⟨zero, hzero, -, hwatcherZero⟩ := textWatcher_accepts_twice 0 (by decide) rfl
  refine ⟨⟨one, _, hone, hwatcherOne, rfl, rfl, rfl, fun hdelivers ↦ ?_⟩,
    ⟨zero, _, hzero, hwatcherZero, rfl, rfl, rfl, rfl, fun hdelivers ↦ ?_⟩⟩
  · have hinc := hdelivers.increasing (by decide)
    exact absurd hinc (by decide)
  · have hnewer := hdelivers.newer rfl textEvent mem_cons_self
    exact absurd hnewer (by decide)

end Cacher

end Kubernetes.Storage

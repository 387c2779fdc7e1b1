import Kubernetes.Scheduler.CacheEvolution
import Kubernetes.Scheduler.CacheResources

/-!
# Snapshots of the scheduler cache

Before it schedules a pod the scheduler brings its own map of nodes up to date.
`UpdateNodeNameToInfoMap` copies an entry of the cache unless the copy has the same generation, and
drops the nodes that the cache does not have.

The generation of an entry counts its changes, so a copy with the generation of its entry is
current.  But the generation of an entry that is deleted and created again starts at zero, and may
reach that of a copy of the deleted entry.
-/

namespace Kubernetes.Scheduler

open List

variable {Qty : Type*}

/-- `Clone`, with a `NodeInfo` as a value. -/
def NodeInfo.clone (n : NodeInfo Qty) : NodeInfo Qty where
  node := n.node
  pods := n.pods
  podsWithAffinity := n.podsWithAffinity
  requestedResource := n.requestedResource
  nonzeroRequest := n.nonzeroRequest
  allocatableResource := n.allocatableResource
  allowedPodNumber := n.allowedPodNumber
  taints := n.taints
  taintsErr := n.taintsErr
  memoryPressureCondition := n.memoryPressureCondition
  diskPressureCondition := n.diskPressureCondition
  generation := n.generation
  origin := n.origin

namespace Cache

section

variable (cache : Cache Qty) (nodeNameToInfo : Map String (NodeInfo Qty))

def copyNode (name : String) : Map String (NodeInfo Qty) :=
  match cache.nodes.lookup name with
  | none => nodeNameToInfo
  | some info =>
    match nodeNameToInfo.lookup name with
    | some current =>
      if current.generation ≠ info.generation then nodeNameToInfo.insert name info.clone
      else nodeNameToInfo
    | none => nodeNameToInfo.insert name info.clone

def dropNode (name : String) : Map String (NodeInfo Qty) :=
  if name ∈ cache.nodes then nodeNameToInfo else nodeNameToInfo.erase name

/-- With the orders in which the loops visit the nodes of the cache and of the map. -/
def updateNodeNameToInfoMap (nodeOrder infoOrder : List String) : Map String (NodeInfo Qty) :=
  infoOrder.foldl cache.dropNode (nodeOrder.foldl cache.copyNode nodeNameToInfo)

end

end Cache

structure SchedulerState (Qty : Type*) where
  cache : Cache Qty
  nodeNameToInfo : Map String (NodeInfo Qty)

inductive SchedulerOperation (Qty : Type*)
  | call (op : Operation Qty)
  | snapshot (nodeOrder infoOrder : List String)

inductive SchedulerStep [QuantityValue Qty] (state : SchedulerState Qty) :
    SchedulerOperation Qty → SchedulerState Qty → Prop
  | call {op : Operation Qty} {next : Cache Qty} : CacheStep state.cache op next →
      SchedulerStep state (.call op) { state with cache := next }
  | snapshot {nodeOrder infoOrder : List String} : Map.IsOrder nodeOrder state.cache.nodes →
      Map.IsOrder infoOrder (nodeOrder.foldl state.cache.copyNode state.nodeNameToInfo) →
      SchedulerStep state (.snapshot nodeOrder infoOrder)
        { state with
          nodeNameToInfo := state.cache.updateNodeNameToInfoMap state.nodeNameToInfo nodeOrder
            infoOrder }

/-! ## The result of an update of the map -/

variable {name : String} {info : NodeInfo Qty} {order : List String}

section Update

variable {cache : Cache Qty} {nodeNameToInfo : Map String (NodeInfo Qty)}

/-- The copy of an entry after the first loop. -/
def refreshed (nodeNameToInfo : Map String (NodeInfo Qty)) (name : String)
    (info : NodeInfo Qty) : NodeInfo Qty :=
  match nodeNameToInfo.lookup name with
  | some current => if current.generation ≠ info.generation then info else current
  | none => info

theorem lookup_copyNode_of_ne {name other : String} (hne : other ≠ name) :
    (cache.copyNode nodeNameToInfo name).lookup other = nodeNameToInfo.lookup other := by
  unfold Cache.copyNode
  split
  · rfl
  · split
    · split_ifs
      · rw [Map.lookup_insert, if_neg hne]
      · rfl
    · rw [Map.lookup_insert, if_neg hne]

theorem lookup_copyNode (hinfo : cache.nodes.lookup name = some info) :
    (cache.copyNode nodeNameToInfo name).lookup name =
      some (refreshed nodeNameToInfo name info) := by
  unfold Cache.copyNode refreshed
  rw [hinfo]
  cases hcur : nodeNameToInfo.lookup name with
  | none => exact (Map.lookup_insert ..).trans (if_pos rfl)
  | some current =>
    dsimp only
    split_ifs
    · exact (Map.lookup_insert ..).trans (if_pos rfl)
    · exact hcur

theorem lookup_copyNodes_of_notMem (hname : name ∉ order) :
    (order.foldl cache.copyNode nodeNameToInfo).lookup name = nodeNameToInfo.lookup name := by
  induction order generalizing nodeNameToInfo with
  | nil => rfl
  | cons first rest ih =>
    rw [mem_cons, not_or] at hname
    rw [foldl_cons, ih hname.2, lookup_copyNode_of_ne hname.1]

theorem lookup_copyNodes (hnodup : order.Nodup) (hname : name ∈ order)
    (hinfo : cache.nodes.lookup name = some info) :
    (order.foldl cache.copyNode nodeNameToInfo).lookup name =
      some (refreshed nodeNameToInfo name info) := by
  induction order generalizing nodeNameToInfo with
  | nil => cases hname
  | cons first rest ih =>
    rw [nodup_cons] at hnodup
    rw [foldl_cons]
    by_cases heq : name = first
    · subst heq
      rw [lookup_copyNodes_of_notMem hnodup.1, lookup_copyNode hinfo]
    · have hrest := (mem_cons.mp hname).resolve_left heq
      rw [ih hnodup.2 hrest]
      unfold refreshed
      rw [lookup_copyNode_of_ne heq]

theorem lookup_dropNodes (order : List String) (name : String) :
    (order.foldl cache.dropNode nodeNameToInfo).lookup name =
      if name ∈ order ∧ name ∉ cache.nodes then none else nodeNameToInfo.lookup name := by
  induction order generalizing nodeNameToInfo with
  | nil => simp
  | cons first rest ih =>
    have hfirst : (cache.dropNode nodeNameToInfo first).lookup name =
        if name = first ∧ name ∉ cache.nodes then none else nodeNameToInfo.lookup name := by
      unfold Cache.dropNode
      by_cases heq : name = first
      · subst heq
        by_cases hmem : name ∈ cache.nodes
        · simp [hmem]
        · simp [hmem]
      · by_cases hmem : first ∈ cache.nodes
        · simp [hmem, heq]
        · rw [if_neg hmem, Map.lookup_erase, if_neg heq, if_neg fun h ↦ heq h.1]
    rw [foldl_cons, ih, hfirst]
    by_cases heq : name = first
    · subst heq
      by_cases hmem : name ∈ cache.nodes <;> simp [hmem]
    · simp [heq]

/-- The map has the nodes of the cache, each with its refreshed copy. -/
theorem lookup_updateNodeNameToInfoMap {nodeOrder infoOrder : List String}
    (hnodes : Map.IsOrder nodeOrder cache.nodes)
    (hinfos : Map.IsOrder infoOrder (nodeOrder.foldl cache.copyNode nodeNameToInfo))
    (name : String) :
    (cache.updateNodeNameToInfoMap nodeNameToInfo nodeOrder infoOrder).lookup name =
      (cache.nodes.lookup name).map (refreshed nodeNameToInfo name) := by
  unfold Cache.updateNodeNameToInfoMap
  rw [lookup_dropNodes]
  cases hinfo : cache.nodes.lookup name with
  | some info =>
    have hmem : name ∈ cache.nodes := Finmap.mem_iff.mpr ⟨info, hinfo⟩
    rw [if_neg fun h ↦ h.2 hmem, lookup_copyNodes hnodes.1 ((hnodes.2 name).mpr hmem) hinfo,
      Option.map_some]
  | none =>
    have hmem : name ∉ cache.nodes := by
      rw [Finmap.mem_iff, hinfo]
      rintro ⟨_, ⟨⟩⟩
    split_ifs with hdrop
    · rfl
    · cases hcopy : (nodeOrder.foldl cache.copyNode nodeNameToInfo).lookup name with
      | none => rfl
      | some copy =>
        have horder := (hinfos.mem_iff_lookup name).mpr ⟨copy, hcopy⟩
        exact absurd ⟨horder, hmem⟩ hdrop

end Update

/-! ## Runs -/

/-- What the copies in the map say about the entries of the cache. -/
structure SchedulerState.Invariant (state : SchedulerState Qty) : Prop where
  counted : state.cache.ForallNodes NodeInfo.AffinityCounted
  origin_lt : ∀ name n, state.cache.nodes.lookup name = some n → n.origin < state.cache.created
  copy_lt : ∀ name copy, state.nodeNameToInfo.lookup name = some copy →
    copy.origin < state.cache.created
  /-- A copy of an entry that still exists is older than the entry, or equal to it. -/
  copy_le : ∀ name copy n, state.nodeNameToInfo.lookup name = some copy →
    state.cache.nodes.lookup name = some n → copy.origin = n.origin →
      copy.generation ≤ n.generation ∧ (copy.generation = n.generation → copy = n)

/-- A copy with the generation of its entry is a copy of this entry, and not of one deleted since.
-/
def SchedulerOperation.TellsCopies (state : SchedulerState Qty) :
    SchedulerOperation Qty → Prop
  | .call _ => True
  | .snapshot _ _ => ∀ name copy n, state.nodeNameToInfo.lookup name = some copy →
      state.cache.nodes.lookup name = some n → copy.generation = n.generation →
        copy.origin = n.origin

section Runs

variable {state next : SchedulerState Qty} {nodeOrder infoOrder : List String}

variable (hinv : state.Invariant)

include hinv

theorem SchedulerState.Invariant.call [QuantityValue Qty] {op : Operation Qty}
    {cache : Cache Qty} (h : CacheStep state.cache op cache) :
    Invariant { state with cache := cache } := by
  obtain ⟨hcnt, hevolves⟩ := evolves_of_effect hinv.counted (effect_of_step h)
  have hcreated := hevolves.created_le
  refine ⟨hcnt, fun name n' hn' ↦ ?_, fun name copy hcopy ↦ ?_,
    fun name copy n' hcopy hn' horigin ↦ ?_⟩
  · rcases hevolves.entry name n' hn' with hnew | ⟨n, hn, horigin, _⟩
    · exact hnew.2
    · have hlt := hinv.origin_lt name n hn
      exact horigin ▸ Nat.lt_of_lt_of_le hlt hcreated
  · have hlt := hinv.copy_lt name copy hcopy
    exact Nat.lt_of_lt_of_le hlt hcreated
  · rcases hevolves.entry name n' hn' with hnew | ⟨n, hn, horigin', hchange⟩
    · have hlt := hinv.copy_lt name copy hcopy
      omega
    · have hle := hinv.copy_le name copy n hcopy hn (horigin.trans horigin'.symm)
      rcases hchange with rfl | hlt
      · exact hle
      · exact ⟨by omega, fun heq ↦ by omega⟩

/-- An update of the map that tells the copies apart leaves the nodes of the cache. -/
theorem SchedulerState.Invariant.snapshot_eq
    (htells : SchedulerOperation.TellsCopies state (.snapshot nodeOrder infoOrder))
    (hnodes : Map.IsOrder nodeOrder state.cache.nodes)
    (hinfos : Map.IsOrder infoOrder (nodeOrder.foldl state.cache.copyNode state.nodeNameToInfo)) :
    state.cache.updateNodeNameToInfoMap state.nodeNameToInfo nodeOrder infoOrder =
      state.cache.nodes := by
  apply Finmap.ext_lookup
  intro name
  rw [lookup_updateNodeNameToInfoMap hnodes hinfos]
  cases hn : state.cache.nodes.lookup name with
  | none => rfl
  | some n =>
    rw [Option.map_some]
    unfold refreshed
    cases hcopy : state.nodeNameToInfo.lookup name with
    | none => rfl
    | some copy =>
      dsimp only
      split_ifs with hgeneration
      · rfl
      · rw [not_not] at hgeneration
        have horigin := htells name copy n hcopy hn hgeneration
        rw [(hinv.copy_le name copy n hcopy hn horigin).2 hgeneration]

theorem SchedulerState.Invariant.snapshot (heq : next.nodeNameToInfo = state.cache.nodes)
    (hcache : next.cache = state.cache) :
    next.Invariant := by
  refine ⟨hcache ▸ hinv.counted, hcache ▸ hinv.origin_lt, ?_, ?_⟩
  · rw [heq, hcache]
    exact hinv.origin_lt
  · rw [heq, hcache]
    intro name copy n hcopy hn _
    rw [hcopy, Option.some_inj] at hn
    exact ⟨hn ▸ Nat.le_refl _, fun _ ↦ hn⟩

end Runs

def IsNewScheduler (state : SchedulerState Qty) : Prop :=
  state.nodeNameToInfo = ∅ ∧ ∃ ttl, state.cache = newSchedulerCache Qty ttl

variable [QuantityValue Qty]

def SchedulerState.Reachable : SchedulerState Qty → Prop :=
  Transition.Reachable IsNewScheduler SchedulerStep

/-- The states of the runs in which every update of the map tells the copies apart. -/
def SchedulerState.ReachableTelling : SchedulerState Qty → Prop :=
  Transition.Reachable IsNewScheduler
    (Transition.guarded SchedulerOperation.TellsCopies SchedulerStep)

theorem SchedulerState.ReachableTelling.invariant {state : SchedulerState Qty}
    (hreach : state.ReachableTelling) : state.Invariant := by
  refine Transition.Reachable.invariant ?_ ?_ hreach
  · rintro ⟨cache, infos⟩ ⟨rfl, ttl, rfl⟩
    constructor
    · intro name n hn
      cases hn
    · intro name n hn
      cases hn
    · intro name copy hcopy
      cases hcopy
    · intro name copy n hcopy
      cases hcopy
  · intro state op next _ hinv hstep
    obtain ⟨htells, hstep⟩ := hstep
    cases hstep with
    | call hcall => exact hinv.call hcall
    | snapshot hnodes hinfos =>
      exact hinv.snapshot (hinv.snapshot_eq htells hnodes hinfos) rfl

/-- As long as no copy is mistaken for one of a new entry, the map is that of the cache after every
call of `UpdateNodeNameToInfoMap`. -/
theorem snapshot_is_current {state next : SchedulerState Qty} {nodeOrder infoOrder : List String}
    (hreach : state.ReachableTelling)
    (hstep : Transition.guarded SchedulerOperation.TellsCopies SchedulerStep state
      (.snapshot nodeOrder infoOrder) next) :
    next.nodeNameToInfo = next.cache.nodes := by
  obtain ⟨htells, hstep⟩ := hstep
  cases hstep with
  | snapshot hnodes hinfos => exact hreach.invariant.snapshot_eq htells hnodes hinfos

/-- A cache with one pod, whose node was created as number `origin`. -/
def webCache (cpu : Int64) (origin : ℕ) : Cache Int64 :=
  { newSchedulerCache Int64 0 with
    podStates := (∅ : Map String (PodState Int64)).insert "default/web"
      ⟨webPod "first" cpu, none, false⟩
    nodes := (∅ : Map String (NodeInfo Int64)).insert "first"
      ((NodeInfo.new origin).addPod (webPod "first" cpu))
    created := origin + 1 }

def webGone : Cache Int64 := { newSchedulerCache Int64 0 with created := 1 }

theorem webAdded_step : SchedulerStep ⟨newSchedulerCache Int64 0, ∅⟩
    (.call (.addPod (webPod "first" 1))) ⟨webCache 1 0, ∅⟩ :=
  .call ⟨trivial, none, rfl⟩

theorem isOrder_first {infos : Map String (NodeInfo Int64)} (n : NodeInfo Int64)
    (hinfos : infos = (∅ : Map String (NodeInfo Int64)).insert "first" n) :
    Map.IsOrder ["first"] infos := by
  refine ⟨nodup_singleton _, fun name ↦ ?_⟩
  rw [hinfos, Finmap.mem_insert, mem_singleton, or_iff_left (Finmap.notMem_empty)]

theorem webCopied_step : SchedulerStep ⟨webCache 1 0, ∅⟩ (.snapshot ["first"] ["first"])
    ⟨webCache 1 0, (webCache 1 0).nodes⟩ :=
  .snapshot (isOrder_first _ rfl) (isOrder_first _ rfl)

/-- A second pod on the node. -/
def dbPod : Pod Int64 := ⟨"default", "db", "first", [⟨[(.cpu, 3)]⟩], .ok none⟩

def dbCache : Cache Int64 :=
  { (webCache 1 0).addPodLocked dbPod with
    podStates := (webCache 1 0).podStates.insert "default/db" ⟨dbPod, none, false⟩ }

/-- The second update of the map replaces a copy that is out of date. -/
theorem next_snapshot_is_current :
    ∃ next, SchedulerStep ⟨dbCache, (webCache 1 0).nodes⟩ (.snapshot ["first"] ["first"]) next ∧
      next.nodeNameToInfo = next.cache.nodes := by
  let both := ((NodeInfo.new 0).addPod (webPod "first" 1)).addPod dbPod
  have hstep : SchedulerStep ⟨dbCache, (webCache 1 0).nodes⟩ (.snapshot ["first"] ["first"]) _ :=
    .snapshot (isOrder_first both rfl) (isOrder_first both rfl)
  have hnew : SchedulerState.ReachableTelling ⟨newSchedulerCache Int64 0, ∅⟩ :=
    .start ⟨rfl, 0, rfl⟩
  have hadd : SchedulerStep ⟨webCache 1 0, (webCache 1 0).nodes⟩ (.call (.addPod dbPod))
      ⟨dbCache, (webCache 1 0).nodes⟩ :=
    .call ⟨trivial, none, rfl⟩
  have hreach := ((hnew.guardedNext webAdded_step trivial).guardedNext webCopied_step
    fun _ _ _ hcopy ↦ by cases hcopy).guardedNext hadd trivial
  refine ⟨_, hstep, snapshot_is_current hreach ⟨fun name copy n hcopy hn _ ↦ ?_, hstep⟩⟩
  obtain rfl : name = "first" :=
    (Finmap.mem_insert.mp (Finmap.mem_of_lookup_eq_some hcopy)).resolve_right Finmap.notMem_empty
  rw [← Option.some.inj hcopy, ← Option.some.inj hn]
  rfl

/-- The copy of a node that was deleted and created again is out of date. -/
theorem recreated_node_is_stale :
    SchedulerState.Reachable ⟨webCache 2 1, (webCache 1 0).nodes⟩ ∧
      SchedulerStep ⟨webCache 2 1, (webCache 1 0).nodes⟩ (.snapshot ["first"] ["first"])
        ⟨webCache 2 1, (webCache 1 0).nodes⟩ ∧
      (webCache 1 0).nodes ≠ (webCache 2 1).nodes := by
  have hrem : SchedulerStep ⟨webCache 1 0, (webCache 1 0).nodes⟩
      (.call (.removePod (webPod "first" 1))) ⟨webGone, (webCache 1 0).nodes⟩ :=
    .call ⟨trivial, none, rfl⟩
  have hadd : SchedulerStep ⟨webGone, (webCache 1 0).nodes⟩ (.call (.addPod (webPod "first" 2)))
      ⟨webCache 2 1, (webCache 1 0).nodes⟩ :=
    .call ⟨trivial, none, rfl⟩
  refine ⟨.next (.next (.next (.next (.start ⟨rfl, 0, rfl⟩) webAdded_step) webCopied_step)
    hrem) hadd, .snapshot (isOrder_first _ rfl) (isOrder_first _ rfl), fun heq ↦ ?_⟩
  have hpods : ((webCache 1 0).podsOf "first").map (fun pod ↦ (calculateResource pod).1.milliCPU) =
      ((webCache 2 1).podsOf "first").map fun pod ↦ (calculateResource pod).1.milliCPU := by
    unfold Cache.podsOf
    rw [heq]
  exact absurd hpods (by decide)

end Kubernetes.Scheduler

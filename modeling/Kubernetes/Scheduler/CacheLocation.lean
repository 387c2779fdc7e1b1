import Kubernetes.Scheduler.CacheListing

/-!
# Every pod is listed once, on its node

Every pod with a state is listed exactly once, for the node that its state names, and no other pod
is listed.  This holds in every run without an `AddPod` that confirms an assumed pod on another
node: that moves the pod to the list of its node and leaves the state as it is.
-/

namespace Kubernetes.Scheduler

variable {Qty : Type*} [QuantityValue Qty]

section Steps

variable {cache next : Cache Qty} {listing : Listing Qty}

variable (hplace : Placed cache listing)

include hplace

theorem Placed.expires (h : Expires cache next) :
    ∃ listing', Placed next listing' ∧ (Located cache listing → Located next listing') := by
  cases h with
  | @expired key ps next hassumed hstate hrem =>
    have hkey := hplace.state_key key ps hstate
    refine ⟨Function.update listing key none, ?_, fun hloc ↦ ?_⟩
    · exact hkey ▸ hplace.dropState hrem
    · exact hkey ▸ hloc.dropState hrem
  | failed hassumed hstate hrem =>
    exact ⟨listing, hplace.removeFailed hrem, fun hloc ↦
      hloc.of_podStates_eq (Cache.removePodLocked_podStates hrem)⟩

theorem Placed.cleaned (h : Relation.ReflTransGen Expires cache next) :
    ∃ listing', Placed next listing' ∧ (Located cache listing → Located next listing') := by
  induction h with
  | refl => exact ⟨listing, hplace, id⟩
  | tail _ hexpires ih =>
    obtain ⟨listing', hplaced', hlocated'⟩ := ih
    obtain ⟨listing'', hplaced'', hlocated''⟩ := hplaced'.expires hexpires
    exact ⟨listing'', hplaced'', hlocated'' ∘ hlocated'⟩

/-- Every call keeps the listing, and one that does not confirm a pod on another node keeps the pods
on the nodes that their states name. -/
theorem Placed.of_effect {op : Operation Qty} (hsame : op.SameKey) (h : Effect cache op next) :
    ∃ listing', Placed next listing' ∧
      (Located cache listing → op.ConfirmsInPlace cache → Located next listing') := by
  cases h with
  | unchanged => exact ⟨listing, hplace, fun hloc _ ↦ hloc⟩
  | assumed hstate =>
    exact ⟨_, hplace.addPodLocked hstate fun key ↦ Finset.mem_insert.mp,
      fun hloc _ ↦ hloc.addPodLocked _ _⟩
  | bindingFinished hstate =>
    exact ⟨listing, hplace.setState hstate _ _ (Finset.Subset.refl _),
      fun hloc _ ↦ hloc.setState hstate _ _ _⟩
  | forgotten _ hrem =>
    exact ⟨_, hplace.dropState hrem, fun hloc _ ↦ hloc.dropState hrem⟩
  | forgetFailed hrem | updateFailed hrem | removeFailed _ hrem =>
    exact ⟨listing, hplace.removeFailed hrem, fun hloc _ ↦
      hloc.of_podStates_eq (Cache.removePodLocked_podStates hrem)⟩
  | confirmed hstate =>
    exact ⟨listing, hplace.setState hstate _ _ (Finset.erase_subset _ _),
      fun hloc _ ↦ hloc.setState hstate _ _ _⟩
  | moved hassumed hstate hnode hrem =>
    exact ⟨_, hplace.moved hassumed hstate hrem,
      fun _ hconfirms ↦ absurd (hconfirms hassumed _ hstate) hnode⟩
  | added hstate =>
    exact ⟨_, hplace.addPodLocked hstate fun key ↦ .inr,
      fun hloc _ ↦ hloc.addPodLocked _ _⟩
  | @updated oldPod newPod currState next hassumed hstate hnode hrem =>
    refine ⟨_, hplace.updated hsame hassumed hrem, fun hloc _ key state hkey ↦ ?_⟩
    rw [Cache.addPodLocked_podStates, Cache.removePodLocked_podStates hrem] at hkey
    rw [Function.update_apply]
    split_ifs with heq
    · rw [heq, hstate, Option.some_inj] at hkey
      exact ⟨newPod, by rw [← hkey, hnode]⟩
    · exact hloc key state hkey
  | @removed pod currState next hassumed hstate hrem =>
    have hkey := hplace.state_key _ currState hstate
    have hdrop : ({ next with podStates := next.podStates.erase (getPodKey pod) } :
        Cache Qty) = next.dropState (getPodKey pod) := by
      rw [Cache.dropState, Cache.removePodLocked_assumedPods hrem,
        Finset.erase_eq_of_notMem hassumed]
    rw [hdrop, ← hkey]
    exact ⟨_, hplace.dropState hrem, fun hloc _ ↦ hloc.dropState hrem⟩
  | cleaned hchain =>
    obtain ⟨listing', hplaced', hlocated'⟩ := hplace.cleaned hchain
    exact ⟨listing', hplaced', fun hloc _ ↦ hlocated' hloc⟩
  | nodeAdded | nodeUpdated =>
    exact ⟨listing, hplace.of_podsOf_eq (funext fun _ ↦ Cache.podsOf_setNode ..) rfl,
      fun hloc _ ↦ hloc⟩
  | nodeRemoved hrem =>
    have hframe := Cache.removeNode_frame hrem
    refine ⟨listing, hplace.of_podsOf_eq (funext (Cache.podsOf_removeNode hrem)) ?_,
      fun hloc _ ↦ hloc.of_podStates_eq ?_⟩
    · rw [hframe]
    · rw [hframe]

end Steps

structure Cache.LocationInvariant (cache : Cache Qty) : Prop where
  assumed_known : ∀ key ∈ cache.assumedPods, key ∈ cache.podStates
  /-- A pod with a state has one entry in all lists, and it is on the node of the state. -/
  listed_once : ∀ key state, cache.podStates.lookup key = some state → ∀ name,
    ((cache.podsOf name).map getPodKey).count key = if name = state.pod.nodeName then 1 else 0
  listed_known : ∀ name n, cache.nodes.lookup name = some n → ∀ pod ∈ n.pods,
    getPodKey pod ∈ cache.podStates

omit [QuantityValue Qty] in
theorem Placed.locationInvariant {cache : Cache Qty} {listing : Listing Qty}
    (hplace : Placed cache listing) (hloc : Located cache listing) :
    cache.LocationInvariant := by
  constructor
  · intro key hkey
    obtain ⟨state, hstate, _⟩ := hplace.assumed key hkey
    exact Finmap.mem_iff.mpr ⟨state, hstate⟩
  · intro key state hstate name
    obtain ⟨listed, hlist⟩ := hloc key state hstate
    have hkey := hplace.key_eq _ _ _ hlist
    split_ifs with hname
    · apply List.count_eq_one_of_mem (hplace.nodup name)
      refine List.mem_map.mpr ⟨listed, ?_, hkey⟩
      rw [hplace.mem_iff, hkey, hname]
      exact hlist
    · rw [List.count_eq_zero, List.mem_map]
      rintro ⟨other, hother, rfl⟩
      rw [hplace.mem_iff, hlist, Option.some_inj, Prod.mk.injEq] at hother
      exact hname hother.1.symm
  · intro name n hget pod hpod
    rw [← Cache.podsOf_of_lookup hget, hplace.mem_iff] at hpod
    exact Finmap.mem_iff.mpr (hplace.known _ _ hpod)

omit [QuantityValue Qty] in
theorem placed_new (ttl : ℤ) : Placed (newSchedulerCache Qty ttl) fun _ ↦ none := by
  have hpods : ∀ name, (newSchedulerCache Qty ttl).podsOf name = [] := fun _ ↦ rfl
  refine ⟨⟨fun name pod ↦ ?_, fun name ↦ ?_, fun _ _ _ h ↦ ?_⟩, fun key state h ↦ ?_,
    fun key h ↦ ?_, fun _ _ h ↦ ?_⟩
  · simp [hpods]
  · simp [hpods]
  · cases h
  · cases h
  · exact absurd h (Finset.notMem_empty key)
  · cases h

def Cache.WellPlaced (cache : Cache Qty) : Prop :=
  ∃ listing, Placed cache listing ∧ Located cache listing

def Operation.KeepsPlaces (cache : Cache Qty) (op : Operation Qty) : Prop :=
  op.SameKey ∧ op.ConfirmsInPlace cache

/-- The caches of the runs in which no call confirms an assumed pod on another node. -/
def Cache.ReachableInPlace (ttl : ℤ) : Cache Qty → Prop :=
  Transition.Reachable (· = newSchedulerCache Qty ttl)
    (Transition.guarded Operation.KeepsPlaces CacheStep)

/-- In a run without a confirmation on another node every pod is listed once, on its node. -/
theorem Cache.ReachableInPlace.pods_located {ttl : ℤ} {cache : Cache Qty}
    (hreach : Cache.ReachableInPlace ttl cache) : cache.LocationInvariant := by
  have hplace : cache.WellPlaced := by
    refine Transition.Reachable.invariant ?_ ?_ hreach
    · rintro _ rfl
      exact ⟨_, placed_new ttl, fun _ _ hstate ↦ by cases hstate⟩
    · intro cache op next _ hinv hstep
      obtain ⟨listing, hplace, hloc⟩ := hinv
      obtain ⟨listing', hplaced', hlocated'⟩ :=
        hplace.of_effect hstep.1.1 (effect_of_step hstep.2)
      exact ⟨listing', hplaced', hlocated' hloc hstep.1.2⟩
  obtain ⟨listing, hplace, hloc⟩ := hplace
  exact hplace.locationInvariant hloc

instance : QuantityValue Int64 where
  value := id
  milliValue quantity := quantity * 1000
  amount quantity := quantity.toInt

def webPod (nodeName : String) (cpu : Int64) : Pod Int64 :=
  ⟨"default", "web", nodeName, [⟨[(.cpu, cpu)]⟩], .ok none⟩

def webAssumed : Cache Int64 :=
  { (newSchedulerCache Int64 0).addPodLocked (webPod "first" 1) with
    podStates := (∅ : Map String (PodState Int64)).insert "default/web"
      ⟨webPod "first" 1, none, false⟩
    assumedPods := {"default/web"} }

def webConfirmed : Cache Int64 := { webAssumed with assumedPods := ∅ }

def webMoved : Cache Int64 :=
  { webConfirmed with
    nodes := (∅ : Map String (NodeInfo Int64)).insert "second"
      ((NodeInfo.new 1).addPod (webPod "second" 1))
    created := 2 }

theorem webAssumed_step : CacheStep (newSchedulerCache Int64 0) (.assumePod (webPod "first" 1))
    webAssumed :=
  ⟨trivial, none, rfl⟩

theorem webConfirmed_located : webConfirmed.LocationInvariant := by
  have hnew : Cache.ReachableInPlace 0 (newSchedulerCache Int64 0) := .start rfl
  have hassumed : Cache.ReachableInPlace 0 webAssumed :=
    hnew.guardedNext webAssumed_step ⟨trivial, trivial⟩
  have hconfirm : Operation.KeepsPlaces webAssumed (.addPod (webPod "first" 1)) := by
    refine ⟨trivial, fun _ state hstate ↦ ?_⟩
    cases hstate
    rfl
  have hconfirmed : CacheStep webAssumed (.addPod (webPod "first" 1)) webConfirmed :=
    ⟨trivial, none, rfl⟩
  exact Cache.ReachableInPlace.pods_located (hassumed.guardedNext hconfirmed hconfirm)

/-- A pod that is confirmed on another node is not on the node that its state names. -/
theorem confirmed_elsewhere_misplaced :
    Cache.Reachable 0 webMoved ∧ ¬webMoved.LocationInvariant := by
  have hmoved : CacheStep webAssumed (.addPod (webPod "second" 1)) webMoved :=
    ⟨trivial, none, rfl⟩
  refine ⟨.next (.next (.start rfl) webAssumed_step) hmoved, fun hinv ↦ ?_⟩
  exact absurd (hinv.listed_once "default/web" _ rfl "first") (by decide)

end Kubernetes.Scheduler

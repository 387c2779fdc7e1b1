import Kubernetes.Scheduler.CacheEffect

/-!
# Where the scheduler cache lists its pods

Abstractly the lists of pods of all nodes are one partial function from keys of pods to the listing
node and the listed pod.  `Lists` says that the cache implements such a listing; `addPodLocked` and
`removePodLocked` are an insertion and an erasure.

`Placed` adds the states of the pods.  An assumed pod is listed as it was assumed, and every listed
pod has a state, as long as `UpdatePod` is called with two versions of one pod.  That a pod is
listed for the node that its state names is kept by all calls but one: `AddPod` of an assumed pod on
another node moves the pod and leaves its state as it is.
-/

namespace Kubernetes.Scheduler

open Function List

open scoped List

variable {Qty : Type*}

/-! ## The lists of pods after the basic operations -/

variable {err : CacheError} {pod : Pod Qty}

namespace Cache

variable {cache next : Cache Qty}

theorem podsOf_insert (name other : String) (n : NodeInfo Qty) :
    podsOf { cache with nodes := cache.nodes.insert name n } other =
      if other = name then n.pods else cache.podsOf other := by
  unfold podsOf
  rw [Map.lookup_insert]
  split_ifs <;> rfl

theorem podsOf_erase (name other : String) :
    podsOf { cache with nodes := cache.nodes.erase name } other =
      if other = name then [] else cache.podsOf other := by
  unfold podsOf
  rw [Map.lookup_erase]
  split_ifs <;> rfl

theorem podsOf_of_lookup {name : String} {n : NodeInfo Qty}
    (hget : cache.nodes.lookup name = some n) : cache.podsOf name = n.pods := by
  rw [podsOf, hget, Option.elim_some]

theorem getOrCreate_pods (cache : Cache Qty) (name : String) :
    (cache.getOrCreate name).1.pods = cache.podsOf name := by
  unfold getOrCreate podsOf
  cases cache.nodes.lookup name <;> rfl

theorem podsOf_removeNode {node : Node Qty} {err : Option CacheError}
    (h : cache.removeNode node = .ok (next, err)) (name : String) :
    next.podsOf name = cache.podsOf name := by
  unfold removeNode at h
  cases hget : cache.nodes.lookup node.name with
  | none => simp [hget] at h
  | some n =>
    simp only [hget] at h
    split_ifs at h with hempty
    · cases h
      rw [podsOf_erase]
      split_ifs with heq
      · rw [heq, podsOf_of_lookup hget]
        exact (List.isEmpty_iff.mp hempty.1).symm
      · rfl
    · cases h
      rw [podsOf_insert]
      split_ifs with heq
      · rw [heq, podsOf_of_lookup hget]
        rfl
      · rfl

variable [QuantityValue Qty]

section

variable (cache : Cache Qty)

theorem podsOf_addPodLocked (pod : Pod Qty) (name : String) :
    (cache.addPodLocked pod).podsOf name =
      if name = pod.nodeName then cache.podsOf name ++ [pod] else cache.podsOf name := by
  have hpods : (cache.addPodLocked pod).podsOf name = if name = pod.nodeName then
      ((cache.getOrCreate pod.nodeName).1.addPod pod).pods else cache.podsOf name :=
    podsOf_insert pod.nodeName name _
  rw [hpods]
  split_ifs with heq
  · rw [NodeInfo.addPod, getOrCreate_pods, heq]
  · rfl

theorem mem_podsOf_addPodLocked (pod listed : Pod Qty) (name : String) :
    listed ∈ (cache.addPodLocked pod).podsOf name ↔
      listed ∈ cache.podsOf name ∨ name = pod.nodeName ∧ listed = pod := by
  rw [podsOf_addPodLocked]
  split_ifs with heq
  · rw [mem_append, mem_singleton, and_iff_right heq]
  · rw [or_iff_left fun hlisted ↦ heq hlisted.1]

theorem podsOf_setNode (node : Node Qty) (name : String) :
    (cache.setNode node).podsOf name = cache.podsOf name := by
  have hpods : (cache.setNode node).podsOf name = if name = node.name then
      ((cache.getOrCreate node.name).1.setNode node).pods else cache.podsOf name :=
    podsOf_insert node.name name _
  rw [hpods]
  split_ifs with heq
  · rw [(NodeInfo.setNode_frame _ node).1, getOrCreate_pods, heq]
  · rfl

end

theorem podsOf_removePodLocked (h : cache.removePodLocked pod = .ok (next, none)) :
    (∃ listed, getPodKey listed = getPodKey pod ∧
      cache.podsOf pod.nodeName ~ listed :: next.podsOf pod.nodeName) ∧
      ∀ name ≠ pod.nodeName, next.podsOf name = cache.podsOf name := by
  obtain ⟨n, n', hget, hrem, rfl⟩ := removePodLocked_eq_none h
  obtain ⟨pods, hdrop, hn'⟩ := NodeInfo.removePod_eq_none hrem
  obtain ⟨listed, hkey, hperm⟩ := NodeInfo.perm_of_dropKey hdrop
  have hpods : n'.pods = pods := by
    rw [hn']
  split_ifs with hempty
  · refine ⟨⟨listed, hkey, ?_⟩, fun name hne ↦ ?_⟩
    · rw [podsOf_erase, if_pos rfl, podsOf_of_lookup hget]
      rwa [← hpods, List.isEmpty_iff.mp hempty.1] at hperm
    · rw [podsOf_erase, if_neg hne]
  · refine ⟨⟨listed, hkey, ?_⟩, fun name hne ↦ ?_⟩
    · rwa [podsOf_insert, if_pos rfl, podsOf_of_lookup hget, hpods]
    · rw [podsOf_insert, if_neg hne]

theorem podsOf_removePodLocked_of_some (h : cache.removePodLocked pod = .ok (next, some err)) :
    (∀ listed ∈ cache.podsOf pod.nodeName, getPodKey listed ≠ getPodKey pod) ∧
      next.podsOf = cache.podsOf := by
  obtain ⟨n, n', err', hget, hrem, rfl⟩ := removePodLocked_eq_some h
  obtain ⟨hdrop, hn'⟩ := NodeInfo.removePod_eq_some hrem
  rw [podsOf_of_lookup hget]
  refine ⟨NodeInfo.dropKey_eq_none.mp hdrop, funext fun name ↦ ?_⟩
  rw [podsOf_insert, hn']
  split_ifs with heq
  · rw [heq, podsOf_of_lookup hget]
  · rfl

end Cache

/-! ## The listing -/

/-- The node that lists the pod with a key, and the listed pod. -/
abbrev Listing (Qty : Type*) := String → Option (String × Pod Qty)

/-- The lists of pods of the cache implement a listing. -/
structure Lists (cache : Cache Qty) (listing : Listing Qty) : Prop where
  mem_iff : ∀ name pod, pod ∈ cache.podsOf name ↔ listing (getPodKey pod) = some (name, pod)
  nodup : ∀ name, ((cache.podsOf name).map getPodKey).Nodup
  key_eq : ∀ key name pod, listing key = some (name, pod) → getPodKey pod = key

variable {cache next : Cache Qty} {listing : Listing Qty}

namespace Lists

theorem of_podsOf_eq (hlists : Lists cache listing) (hpods : next.podsOf = cache.podsOf) :
    Lists next listing :=
  ⟨fun name pod ↦ hpods ▸ hlists.mem_iff name pod, fun name ↦ hpods ▸ hlists.nodup name,
    hlists.key_eq⟩

variable [QuantityValue Qty]

variable {pod : Pod Qty}

variable (hlists : Lists cache listing)

include hlists

theorem addPodLocked (hnew : listing (getPodKey pod) = none) :
    Lists (cache.addPodLocked pod)
      (update listing (getPodKey pod) (some (pod.nodeName, pod))) := by
  have hkey : ∀ name, ∀ listed ∈ cache.podsOf name, getPodKey listed ≠ getPodKey pod := by
    intro name listed hlisted heq
    rw [hlists.mem_iff, heq, hnew] at hlisted
    cases hlisted
  refine ⟨fun name listed ↦ ?_, fun name ↦ ?_, fun key name listed ↦ ?_⟩
  · rw [Cache.mem_podsOf_addPodLocked, update_apply]
    split_ifs with heq
    · rw [or_iff_right fun hlisted ↦ hkey name listed hlisted heq, Option.some_inj, Prod.mk.injEq]
      exact and_congr eq_comm eq_comm
    · rw [or_iff_left fun hlisted ↦ heq (congrArg getPodKey hlisted.2)]
      exact hlists.mem_iff name listed
  · rw [Cache.podsOf_addPodLocked]
    split_ifs
    · rw [map_append, nodup_append]
      refine ⟨hlists.nodup name, nodup_singleton _, fun key hmem key' hpod ↦ ?_⟩
      obtain ⟨listed, hlisted, rfl⟩ := mem_map.mp hmem
      rw [map_singleton, mem_singleton] at hpod
      exact hpod ▸ hkey name listed hlisted
    · exact hlists.nodup name
  · rw [update_apply]
    split_ifs with heq
    · rintro ⟨⟩
      exact heq.symm
    · exact hlists.key_eq key name listed

theorem removePodLocked (h : cache.removePodLocked pod = .ok (next, none)) :
    ∃ listed, listing (getPodKey pod) = some (pod.nodeName, listed) ∧
      Lists next (update listing (getPodKey pod) none) := by
  obtain ⟨⟨listed, hkey, hperm⟩, hframe⟩ := Cache.podsOf_removePodLocked h
  have hlisted : listing (getPodKey pod) = some (pod.nodeName, listed) := by
    rw [← hkey, ← hlists.mem_iff, hperm.mem_iff]
    exact mem_cons_self
  have hnodup : ((listed :: next.podsOf pod.nodeName).map getPodKey).Nodup :=
    (hperm.map getPodKey).nodup_iff.mp (hlists.nodup pod.nodeName)
  rw [map_cons, nodup_cons] at hnodup
  have hmem : ∀ name other, other ∈ next.podsOf name ↔
      other ∈ cache.podsOf name ∧ getPodKey other ≠ getPodKey pod := by
    intro name other
    by_cases hname : name = pod.nodeName
    · rw [hname, hperm.mem_iff, mem_cons]
      constructor
      · intro hother
        refine ⟨.inr hother, fun heq ↦ hnodup.1 ?_⟩
        exact mem_map.mpr ⟨other, hother, heq.trans hkey.symm⟩
      · rintro ⟨rfl | hother, hne⟩
        · exact absurd hkey hne
        · exact hother
    · rw [hframe name hname]
      refine (and_iff_left_of_imp fun hother heq ↦ hname ?_).symm
      rw [hlists.mem_iff, heq, hlisted, Option.some_inj, Prod.mk.injEq] at hother
      exact hother.1.symm
  refine ⟨listed, hlisted, fun name other ↦ ?_, fun name ↦ ?_, fun key name other ↦ ?_⟩
  · rw [hmem, hlists.mem_iff, update_apply]
    split_ifs with heq
    · simp [heq]
    · rw [and_iff_left heq]
  · by_cases hname : name = pod.nodeName
    · exact hname ▸ hnodup.2
    · exact hframe name hname ▸ hlists.nodup name
  · rw [update_apply]
    split_ifs
    · rintro ⟨⟩
    · exact hlists.key_eq key name other

theorem removePodLocked_of_some (h : cache.removePodLocked pod = .ok (next, some err)) :
    Lists next listing ∧ ∀ listed, listing (getPodKey pod) ≠ some (pod.nodeName, listed) := by
  obtain ⟨hnone, hpods⟩ := Cache.podsOf_removePodLocked_of_some h
  refine ⟨hlists.of_podsOf_eq hpods, fun listed hlisted ↦ ?_⟩
  have hkey := hlists.key_eq _ _ _ hlisted
  exact hnone listed ((hlists.mem_iff _ _).mpr (hkey ▸ hlisted)) hkey

end Lists

/-! ## The listing and the states of the pods -/

/-- How the listing relates to the states of the pods. -/
structure Placed (cache : Cache Qty) (listing : Listing Qty) : Prop
    extends Lists cache listing where
  state_key : ∀ key state, cache.podStates.lookup key = some state → getPodKey state.pod = key
  /-- An assumed pod is listed as it was assumed. -/
  assumed : ∀ key ∈ cache.assumedPods, ∃ state, cache.podStates.lookup key = some state ∧
    listing key = some (state.pod.nodeName, state.pod)
  /-- Every listed pod has a state. -/
  known : ∀ key entry, listing key = some entry → ∃ state, cache.podStates.lookup key = some state

/-- Every pod with a state is listed for the node that its state names. -/
def Located (cache : Cache Qty) (listing : Listing Qty) : Prop :=
  ∀ key state, cache.podStates.lookup key = some state →
    ∃ listed, listing key = some (state.pod.nodeName, listed)

/-- `UpdatePod` is called with two versions of one pod. -/
def Operation.SameKey : Operation Qty → Prop
  | .updatePod oldPod newPod => getPodKey newPod = getPodKey oldPod
  | _ => True

/-- `AddPod` does not confirm an assumed pod on another node. -/
def Operation.ConfirmsInPlace (cache : Cache Qty) : Operation Qty → Prop
  | .addPod pod => getPodKey pod ∈ cache.assumedPods →
      ∀ state, cache.podStates.lookup (getPodKey pod) = some state →
        state.pod.nodeName = pod.nodeName
  | _ => True

section Steps

variable {key : String}

theorem Placed.of_podsOf_eq (hplace : Placed cache listing) (hpods : next.podsOf = cache.podsOf)
    (hframe : next = { cache with nodes := next.nodes, created := next.created }) :
    Placed next listing := by
  rw [hframe] at hpods ⊢
  exact ⟨hplace.toLists.of_podsOf_eq hpods, hplace.state_key, hplace.assumed, hplace.known⟩

variable {state : PodState Qty} {assumedPods : Finset String}

section

variable (hstate : cache.podStates.lookup key = some state) (deadline : Option ℤ)
  (bindingFinished : Bool)

include hstate

theorem Placed.setState (hplace : Placed cache listing)
    (hassumed : assumedPods ⊆ cache.assumedPods) :
    Placed { cache with
      assumedPods := assumedPods
      podStates := cache.podStates.insert key ⟨state.pod, deadline, bindingFinished⟩ } listing := by
  refine ⟨{ hplace with }, ?_, ?_, ?_⟩
  · exact Map.forall_lookup_insert hplace.state_key (hplace.state_key key state hstate)
  · intro other hother
    obtain ⟨other', hother', hlist⟩ := hplace.assumed other (hassumed hother)
    rw [Map.lookup_insert]
    split_ifs with heq
    · rw [heq, hstate, Option.some_inj] at hother'
      exact ⟨_, rfl, by rw [hother', hlist]⟩
    · exact ⟨other', hother', hlist⟩
  · intro other entry hentry
    rw [Map.lookup_insert]
    split_ifs
    · exact ⟨_, rfl⟩
    · exact hplace.known other entry hentry

theorem Located.setState (hloc : Located cache listing) (assumedPods : Finset String) :
    Located { cache with
      assumedPods := assumedPods
      podStates := cache.podStates.insert key ⟨state.pod, deadline, bindingFinished⟩ }
      listing :=
  Map.forall_lookup_insert hloc (hloc key state hstate)

end

theorem Located.of_podStates_eq (hloc : Located cache listing)
    (hstates : next.podStates = cache.podStates) : Located next listing := by
  intro key state hstate
  exact hloc key state (hstates ▸ hstate)

variable [QuantityValue Qty]

variable {pod : Pod Qty}

theorem Placed.addPodLocked (hplace : Placed cache listing)
    (hstate : cache.podStates.lookup (getPodKey pod) = none)
    (hassumed : ∀ key ∈ assumedPods, key = getPodKey pod ∨ key ∈ cache.assumedPods) :
    Placed { cache.addPodLocked pod with
      podStates := cache.podStates.insert (getPodKey pod) ⟨pod, none, false⟩
      assumedPods := assumedPods }
      (update listing (getPodKey pod) (some (pod.nodeName, pod))) := by
  have hnone : listing (getPodKey pod) = none := by
    cases hentry : listing (getPodKey pod) with
    | none => rfl
    | some entry =>
      obtain ⟨state, hsome⟩ := hplace.known _ entry hentry
      cases hstate.symm.trans hsome
  have hlists := hplace.toLists.addPodLocked hnone
  refine ⟨{ hlists with }, ?_, ?_, ?_⟩
  · exact Map.forall_lookup_insert hplace.state_key rfl
  · intro key hkey
    rw [Map.lookup_insert, update_apply]
    split_ifs with heq
    · exact ⟨_, rfl, rfl⟩
    · exact hplace.assumed key ((hassumed key hkey).resolve_left heq)
  · intro key entry hentry
    rw [update_apply] at hentry
    rw [Map.lookup_insert]
    split_ifs at hentry ⊢
    · exact ⟨_, rfl⟩
    · exact hplace.known key entry hentry

theorem Located.addPodLocked (hloc : Located cache listing) (pod : Pod Qty)
    (assumedPods : Finset String) :
    Located { cache.addPodLocked pod with
      podStates := cache.podStates.insert (getPodKey pod) ⟨pod, none, false⟩
      assumedPods := assumedPods }
      (update listing (getPodKey pod) (some (pod.nodeName, pod))) := by
  intro key other hother
  rw [Map.lookup_insert] at hother
  rw [update_apply]
  split_ifs at hother ⊢
  · cases hother
    exact ⟨pod, rfl⟩
  · exact hloc key other hother

theorem Placed.dropState (hplace : Placed cache listing)
    (h : cache.removePodLocked pod = .ok (next, none)) :
    Placed (next.dropState (getPodKey pod)) (update listing (getPodKey pod) none) := by
  obtain ⟨listed, _, hlists⟩ := hplace.toLists.removePodLocked h
  refine ⟨{ hlists with }, ?_, ?_, ?_⟩
  all_goals
    simp only [Cache.dropState, Cache.removePodLocked_podStates h,
      Cache.removePodLocked_assumedPods h, Map.lookup_erase, update_apply]
  · intro key state hstate
    split_ifs at hstate
    exact hplace.state_key key state hstate
  · intro key hkey
    rw [Finset.mem_erase] at hkey
    rw [if_neg hkey.1, if_neg hkey.1]
    exact hplace.assumed key hkey.2
  · intro key entry hentry
    split_ifs at hentry ⊢
    exact hplace.known key entry hentry

theorem Located.dropState (hloc : Located cache listing)
    (h : cache.removePodLocked pod = .ok (next, none)) :
    Located (next.dropState (getPodKey pod)) (update listing (getPodKey pod) none) := by
  intro key state hstate
  simp only [Cache.dropState, Cache.removePodLocked_podStates h, Map.lookup_erase] at hstate
  rw [update_apply]
  split_ifs at hstate ⊢
  exact hloc key state hstate

variable (hplace : Placed cache listing)

include hplace

theorem Placed.removeFailed (h : cache.removePodLocked pod = .ok (next, some err)) :
    Placed next listing := by
  refine hplace.of_podsOf_eq (Cache.podsOf_removePodLocked_of_some h).2 ?_
  have hframe := Cache.removePodLocked_frame h
  rw [hframe]

/-- An assumed pod is moved to another node.  Its state still names the old one. -/
theorem Placed.moved {err : Option CacheError} (hassumed : getPodKey pod ∈ cache.assumedPods)
    (hstate : cache.podStates.lookup (getPodKey pod) = some state)
    (h : cache.removePodLocked state.pod = .ok (next, err)) :
    Placed { next.addPodLocked pod with
      assumedPods := next.assumedPods.erase (getPodKey pod)
      podStates := next.podStates.insert (getPodKey pod) { state with deadline := none } }
      (update listing (getPodKey pod) (some (pod.nodeName, pod))) := by
  have hkey : getPodKey state.pod = getPodKey pod := hplace.state_key _ state hstate
  obtain ⟨state', hstate', hlisted⟩ := hplace.assumed _ hassumed
  rw [hstate, Option.some_inj] at hstate'
  subst hstate'
  cases err with
  | some err =>
    exact absurd (hkey ▸ hlisted) ((hplace.toLists.removePodLocked_of_some h).2 state.pod)
  | none =>
    obtain ⟨listed, _, hlists⟩ := hplace.toLists.removePodLocked h
    rw [hkey] at hlists
    have hlists : Lists (next.addPodLocked pod) _ :=
      hlists.addPodLocked (update_self ..)
    rw [update_idem] at hlists
    refine ⟨{ hlists with }, ?_, ?_, ?_⟩
    all_goals
      simp only [Cache.removePodLocked_podStates h, Cache.removePodLocked_assumedPods h,
        Map.lookup_insert, update_apply]
    · intro key other hother
      split_ifs at hother with heq
      · cases hother
        rw [hkey, heq]
      · exact hplace.state_key key other hother
    · intro key hmem
      rw [Finset.mem_erase] at hmem
      rw [if_neg hmem.1, if_neg hmem.1]
      exact hplace.assumed key hmem.2
    · intro key entry hentry
      split_ifs at hentry ⊢
      · exact ⟨_, rfl⟩
      · exact hplace.known key entry hentry

theorem Placed.updated {oldPod newPod : Pod Qty} (hsame : getPodKey newPod = getPodKey oldPod)
    (hassumed : getPodKey oldPod ∉ cache.assumedPods)
    (h : cache.removePodLocked oldPod = .ok (next, none)) :
    Placed (next.addPodLocked newPod)
      (update listing (getPodKey oldPod) (some (newPod.nodeName, newPod))) := by
  obtain ⟨listed, hlisted, hlists⟩ := hplace.toLists.removePodLocked h
  rw [← hsame] at hlists
  have hlists : Lists (next.addPodLocked newPod) _ :=
    hlists.addPodLocked (update_self ..)
  rw [update_idem, hsame] at hlists
  refine ⟨hlists, ?_, ?_, ?_⟩
  all_goals
    simp only [Cache.addPodLocked_podStates, Cache.addPodLocked_assumedPods,
      Cache.removePodLocked_podStates h, Cache.removePodLocked_assumedPods h,
      update_apply]
  · exact hplace.state_key
  · intro key hkey
    have hne : key ≠ getPodKey oldPod := fun heq ↦ hassumed (heq ▸ hkey)
    rw [if_neg hne]
    exact hplace.assumed key hkey
  · intro key entry hentry
    split_ifs at hentry with heq
    · exact heq ▸ hplace.known _ _ hlisted
    · exact hplace.known key entry hentry

end Steps

end Kubernetes.Scheduler

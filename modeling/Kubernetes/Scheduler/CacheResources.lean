import Kubernetes.Scheduler.CacheLocation

/-!
# The resources of the listed pods

A `NodeInfo` is accounted for when the requested resources are the sum over the listed pods, with
and without defaults, and the pods with affinity are those of the listed ones.  A removal keeps this
if its argument requests the same as the listed pod.  But `UpdatePod` leaves the state with the old
version, whose resources a later `RemovePod` subtracts.
-/

namespace Kubernetes.Scheduler

open List

open scoped List

variable {Qty : Type*} [QuantityValue Qty]

/-! ## One node -/

/-- The aggregated information is that of the listed pods. -/
structure NodeInfo.Accounted (n : NodeInfo Qty) : Prop where
  requested : n.requestedResource = (n.pods.map fun pod ↦ (calculateResource pod).1).sum
  nonzero : n.nonzeroRequest = (n.pods.map nonzeroResource).sum
  affinity : n.podsWithAffinity ~ n.pods.filter hasPodAffinityConstraints

namespace NodeInfo

variable {n next : NodeInfo Qty}

theorem accounted_new (origin : ℕ) : (new origin : NodeInfo Qty).Accounted :=
  ⟨rfl, rfl, .refl _⟩

theorem Accounted.addPod (hacc : n.Accounted) (pod : Pod Qty) :
    (n.addPod pod).Accounted := by
  constructor
  · rw [NodeInfo.addPod, map_append, sum_append, ← hacc.requested,
      map_singleton, sum_singleton]
  · rw [NodeInfo.addPod, map_append, sum_append, ← hacc.nonzero, map_singleton, sum_singleton]
  · unfold NodeInfo.addPod
    rw [filter_append]
    cases hpod : hasPodAffinityConstraints pod with
    | false =>
      rw [filter_singleton, hpod, cond_false, append_nil]
      exact hacc.affinity
    | true =>
      rw [filter_singleton, hpod]
      exact hacc.affinity.append_right _

variable {pod : Pod Qty}

section

variable (hacc : n.Accounted)

include hacc

theorem Accounted.mem_pods (hpod : pod ∈ n.podsWithAffinity) : pod ∈ n.pods :=
  mem_of_mem_filter (hacc.affinity.mem_iff.mp hpod)

theorem Accounted.dropKey_affinity {listed : Pod Qty} {pods : List (Pod Qty)}
    (hnodup : (n.pods.map getPodKey).Nodup) (hkey : getPodKey listed = getPodKey pod)
    (hperm : n.pods ~ listed :: pods) :
    (dropKey pod n.podsWithAffinity).getD n.podsWithAffinity ~
      pods.filter hasPodAffinityConstraints := by
  have hpods : ((listed :: pods).map getPodKey).Nodup :=
    (hperm.map getPodKey).nodup_iff.mp hnodup
  rw [map_cons, nodup_cons] at hpods
  have haff := hacc.affinity.trans (hperm.filter hasPodAffinityConstraints)
  cases hlisted : hasPodAffinityConstraints listed with
  | false =>
    rw [filter_cons_of_neg (Bool.eq_false_iff.mp hlisted)] at haff
    have hnone : dropKey pod n.podsWithAffinity = none := by
      rw [dropKey_eq_none]
      intro other hother heq
      have hmem := mem_of_mem_filter (haff.mem_iff.mp hother)
      exact hpods.1 (mem_map.mpr ⟨other, hmem, heq.trans hkey.symm⟩)
    rw [hnone]
    exact haff
  | true =>
    rw [filter_cons_of_pos hlisted] at haff
    cases hdrop : dropKey pod n.podsWithAffinity with
    | none =>
      have hmem : listed ∈ n.podsWithAffinity := haff.mem_iff.mpr mem_cons_self
      exact absurd hkey (dropKey_eq_none.mp hdrop listed hmem)
    | some rest =>
      obtain ⟨other, hother, hrest⟩ := perm_of_dropKey hdrop
      have hsame : other = listed := by
        have hmem : other ∈ n.podsWithAffinity := hrest.mem_iff.mpr mem_cons_self
        rcases mem_cons.mp (hperm.mem_iff.mp (hacc.mem_pods hmem)) with heq | hmem
        · exact heq
        · exact absurd (mem_map.mpr ⟨other, hmem, hother.trans hkey.symm⟩) hpods.1
      rw [hsame] at hrest
      exact (hrest.symm.trans haff).cons_inv

theorem Accounted.removePod (hnodup : (n.pods.map getPodKey).Nodup)
    (hmatch : ∀ listed ∈ n.pods, getPodKey listed = getPodKey pod →
      calculateResource listed = calculateResource pod) (h : n.removePod pod = .ok (next, none)) :
    next.Accounted := by
  obtain ⟨pods, hdrop, rfl⟩ := removePod_eq_none h
  obtain ⟨listed, hkey, hperm⟩ := perm_of_dropKey hdrop
  have hsame := hmatch listed (hperm.mem_iff.mpr mem_cons_self) hkey
  constructor
  · have hsum := (hperm.map fun pod ↦ (calculateResource pod).1).sum_eq
    rw [map_cons, sum_cons, ← hacc.requested, hsame] at hsum
    rw [hsum, add_sub_cancel_left]
  · have hsum := (hperm.map nonzeroResource).sum_eq
    rw [map_cons, sum_cons, ← hacc.nonzero, nonzeroResource, hsame] at hsum
    rw [hsum, nonzeroResource, add_sub_cancel_left]
  · exact hacc.dropKey_affinity hnodup hkey hperm

theorem Accounted.removePod_of_some {err : NoCorrespondingPod}
    (h : n.removePod pod = .ok (next, some err)) : next = n := by
  obtain ⟨hdrop, rfl⟩ := removePod_eq_some h
  have hnone : dropKey pod n.podsWithAffinity = none := by
    rw [dropKey_eq_none]
    intro other hother
    exact dropKey_eq_none.mp hdrop other (hacc.mem_pods hother)
  rw [hnone, Option.getD_none]

theorem Accounted.setNode (node : Node Qty) : (n.setNode node).Accounted := by
  obtain ⟨hpods, hpodsWithAffinity, hreq, hnonzero, _, _⟩ := n.setNode_frame node
  constructor
  · rw [hpods, hreq, hacc.requested]
  · rw [hpods, hnonzero, hacc.nonzero]
  · rw [hpods, hpodsWithAffinity]
    exact hacc.affinity

theorem Accounted.removeNode : n.removeNode.Accounted :=
  { hacc with }

end

end NodeInfo

def Cache.Accounted (cache : Cache Qty) : Prop := cache.ForallNodes NodeInfo.Accounted

/-- The pod requests the same as the pod with its key that its node lists. -/
def Cache.Matches (cache : Cache Qty) (pod : Pod Qty) : Prop :=
  ∀ listed ∈ cache.podsOf pod.nodeName, getPodKey listed = getPodKey pod →
    calculateResource listed = calculateResource pod

namespace Cache

variable {cache next : Cache Qty} {listing : Listing Qty} {pod : Pod Qty}

section

variable (hacc : cache.Accounted)

include hacc

theorem Accounted.addPodLocked (pod : Pod Qty) : (cache.addPodLocked pod).Accounted := by
  have hentry := hacc.getOrCreate NodeInfo.accounted_new pod.nodeName
  exact hacc.insert pod.nodeName (hentry.addPod pod) _

theorem Accounted.setNode (node : Node Qty) : (cache.setNode node).Accounted := by
  have hentry := hacc.getOrCreate NodeInfo.accounted_new node.name
  exact hacc.insert node.name (hentry.setNode node) _

theorem Accounted.removePodLocked (hlists : Lists cache listing) (hmatch : cache.Matches pod)
    (h : cache.removePodLocked pod = .ok (next, none)) :
    next.Accounted := by
  obtain ⟨n, n', hget, hrem, rfl⟩ := removePodLocked_eq_none h
  have hpods := podsOf_of_lookup hget
  have hn' : n'.Accounted := by
    refine (hacc _ n hget).removePod ?_ ?_ hrem
    · exact hpods ▸ hlists.nodup pod.nodeName
    · exact fun listed hlisted ↦ hmatch listed (hpods ▸ hlisted)
  split_ifs
  · exact hacc.erase pod.nodeName
  · exact hacc.insert pod.nodeName hn' _

theorem Accounted.removeFailed {err : CacheError}
    (h : cache.removePodLocked pod = .ok (next, some err)) : next.Accounted := by
  obtain ⟨n, n', err', hget, hrem, rfl⟩ := removePodLocked_eq_some h
  have hn := hacc _ n hget
  rw [hn.removePod_of_some hrem]
  exact hacc.insert pod.nodeName hn _

end

end Cache

/-! ## Runs -/

/-- The calls that remove pods by an object that requests the same as the listed pod: the argument
of `ForgetPod` and `UpdatePod`, the pod of the state for `RemovePod`. -/
def Operation.RemovesMatching (cache : Cache Qty) : Operation Qty → Prop
  | .forgetPod pod => getPodKey pod ∈ cache.assumedPods → cache.Matches pod
  | .updatePod oldPod newPod => getPodKey newPod = getPodKey oldPod ∧
      (getPodKey oldPod ∉ cache.assumedPods → cache.Matches oldPod)
  | .removePod pod => getPodKey pod ∉ cache.assumedPods →
      ∀ state, cache.podStates.lookup (getPodKey pod) = some state → cache.Matches state.pod
  | _ => True

section Steps

variable {cache next : Cache Qty} {listing : Listing Qty} {op : Operation Qty}

theorem Operation.RemovesMatching.sameKey (h : op.RemovesMatching cache) :
    op.SameKey := by
  cases op with
  | updatePod oldPod newPod => exact h.1
  | _ => trivial

theorem Placed.matches_assumed (hplace : Placed cache listing) {key : String}
    {state : PodState Qty} (hassumed : key ∈ cache.assumedPods)
    (hstate : cache.podStates.lookup key = some state) : cache.Matches state.pod := by
  intro listed hlisted hkey
  obtain ⟨state', hstate', hlist⟩ := hplace.assumed key hassumed
  rw [hstate, Option.some_inj] at hstate'
  rw [hplace.mem_iff, hkey, hplace.state_key key state hstate, hlist, ← hstate',
    Option.some_inj, Prod.mk.injEq] at hlisted
  rw [hlisted.2]

variable (hacc : cache.Accounted) (hplace : Placed cache listing)

include hacc hplace

theorem Cache.Accounted.expires (h : Expires cache next) : next.Accounted := by
  cases h with
  | expired hassumed hstate hrem =>
    have hnext := hacc.removePodLocked hplace.toLists
      (hplace.matches_assumed hassumed hstate) hrem
    exact hnext
  | failed _ _ hrem => exact hacc.removeFailed hrem

theorem Cache.Accounted.cleaned (h : Relation.ReflTransGen Expires cache next) :
    next.Accounted := by
  have hboth : ∃ listing', Placed next listing' ∧ next.Accounted := by
    induction h with
    | refl => exact ⟨listing, hplace, hacc⟩
    | tail _ hexpires ih =>
      obtain ⟨listing', hplaced', haccounted'⟩ := ih
      obtain ⟨listing'', hplaced'', _⟩ := hplaced'.expires hexpires
      exact ⟨listing'', hplaced'', haccounted'.expires hplaced' hexpires⟩
  exact hboth.choose_spec.2

theorem Cache.Accounted.of_effect (hguard : op.RemovesMatching cache) (h : Effect cache op next) :
    next.Accounted := by
  cases h with
  | unchanged | bindingFinished | confirmed => exact hacc
  | assumed _ | added _ => exact hacc.addPodLocked _
  | forgotten hassumed hrem =>
    have hnext := hacc.removePodLocked hplace.toLists (hguard hassumed) hrem
    exact hnext
  | forgetFailed hrem | updateFailed hrem | removeFailed _ hrem =>
    exact hacc.removeFailed hrem
  | @moved pod currState next err hassumed hstate _ hrem =>
    have hnext : next.Accounted := by
      cases err with
      | none =>
        exact hacc.removePodLocked hplace.toLists
          (hplace.matches_assumed hassumed hstate) hrem
      | some err => exact hacc.removeFailed hrem
    exact hnext.addPodLocked pod
  | updated hassumed _ _ hrem =>
    exact (hacc.removePodLocked hplace.toLists (hguard.2 hassumed) hrem).addPodLocked _
  | removed hassumed hstate hrem =>
    have hnext := hacc.removePodLocked hplace.toLists (hguard hassumed _ hstate) hrem
    exact hnext
  | cleaned hchain => exact hacc.cleaned hplace hchain
  | nodeAdded | nodeUpdated => exact hacc.setNode _
  | nodeRemoved hrem => exact hacc.removeNode (fun _ ↦ .removeNode) hrem

end Steps

/-- The caches of the runs in which every removed pod requests what it is removed with. -/
def Cache.ReachableMatching (ttl : ℤ) : Cache Qty → Prop :=
  Transition.Reachable (· = newSchedulerCache Qty ttl)
    (Transition.guarded Operation.RemovesMatching CacheStep)

def Cache.PlacedAndAccounted (cache : Cache Qty) : Prop :=
  (∃ listing, Placed cache listing) ∧ cache.Accounted

/-- If every removed pod requests what it is removed with, every `NodeInfo` is accounted for. -/
theorem Cache.ReachableMatching.accounts {ttl : ℤ} {cache : Cache Qty}
    (hreach : Cache.ReachableMatching ttl cache) :
    ∀ name n, cache.nodes.lookup name = some n →
      n.requestedResource = (n.pods.map fun pod ↦ (calculateResource pod).1).sum ∧
      n.nonzeroRequest = (n.pods.map nonzeroResource).sum ∧
      n.podsWithAffinity ~ n.pods.filter hasPodAffinityConstraints := by
  have hinv : cache.PlacedAndAccounted := by
    refine Transition.Reachable.invariant ?_ ?_ hreach
    · rintro _ rfl
      exact ⟨⟨_, placed_new ttl⟩, fun _ _ hget ↦ by cases hget⟩
    · intro cache op next _ hinv hstep
      obtain ⟨⟨listing, hplace⟩, hacc⟩ := hinv
      have heffect := effect_of_step hstep.2
      obtain ⟨listing', hplaced', _⟩ := hplace.of_effect hstep.1.sameKey heffect
      exact ⟨⟨listing', hplaced'⟩, hacc.of_effect hplace hstep.1 heffect⟩
  intro name n hget
  have hn := hinv.2 name n hget
  exact ⟨hn.requested, hn.nonzero, hn.affinity⟩

/-! ## A pod whose requests change -/

def firstNode : Node Int64 := ⟨"first", [], [], none, []⟩

def firstNodeCache (pods : List (Pod Int64)) (requested nonzero : Resource)
    (states : Map String (PodState Int64)) (generation : ℕ) : Cache Int64 :=
  { newSchedulerCache Int64 0 with
    podStates := states
    nodes := (∅ : Map String (NodeInfo Int64)).insert "first"
      { (NodeInfo.new 0).setNode firstNode with
        pods := pods
        requestedResource := requested
        nonzeroRequest := nonzero
        generation := generation }
    created := 1 }

def webState : Map String (PodState Int64) :=
  (∅ : Map String (PodState Int64)).insert "default/web" ⟨webPod "first" 1, none, false⟩

def webUpdated : Cache Int64 :=
  firstNodeCache [webPod "first" 2]
    (0 + (calculateResource (webPod "first" 1)).1 - (calculateResource (webPod "first" 1)).1 +
      (calculateResource (webPod "first" 2)).1)
    (0 + nonzeroResource (webPod "first" 1) - nonzeroResource (webPod "first" 1) +
      nonzeroResource (webPod "first" 2)) webState 4

def webRemoved : Cache Int64 :=
  firstNodeCache []
    (0 + (calculateResource (webPod "first" 1)).1 - (calculateResource (webPod "first" 1)).1 +
      (calculateResource (webPod "first" 2)).1 - (calculateResource (webPod "first" 1)).1)
    (0 + nonzeroResource (webPod "first" 1) - nonzeroResource (webPod "first" 1) +
      nonzeroResource (webPod "first" 2) - nonzeroResource (webPod "first" 1)) ∅ 5

theorem webUpdated_reachable : Cache.ReachableMatching 0 webUpdated := by
  have hnew : Cache.ReachableMatching 0 (newSchedulerCache Int64 0) := .start rfl
  have hnode : CacheStep (newSchedulerCache Int64 0) (.addNode firstNode)
      (firstNodeCache [] 0 0 ∅ 1) := ⟨trivial, none, rfl⟩
  have hadd : CacheStep (firstNodeCache [] 0 0 ∅ 1) (.addPod (webPod "first" 1))
      (firstNodeCache [webPod "first" 1] (0 + (calculateResource (webPod "first" 1)).1)
        (0 + nonzeroResource (webPod "first" 1)) webState 2) := ⟨trivial, none, rfl⟩
  have hupd : CacheStep
      (firstNodeCache [webPod "first" 1] (0 + (calculateResource (webPod "first" 1)).1)
        (0 + nonzeroResource (webPod "first" 1)) webState 2)
      (.updatePod (webPod "first" 1) (webPod "first" 2)) webUpdated := ⟨trivial, none, rfl⟩
  have hadded := (hnew.guardedNext hnode trivial).guardedNext hadd trivial
  refine hadded.guardedNext hupd ⟨rfl, fun _ listed hlisted _ ↦ ?_⟩
  rw [mem_singleton.mp hlisted]

theorem webUpdated_accounts : ∃ n, webUpdated.nodes.lookup "first" = some n ∧
    n.requestedResource = (n.pods.map fun pod ↦ (calculateResource pod).1).sum ∧
    n.nonzeroRequest = (n.pods.map nonzeroResource).sum ∧
    n.podsWithAffinity ~ n.pods.filter hasPodAffinityConstraints :=
  ⟨_, rfl, Cache.ReachableMatching.accounts webUpdated_reachable "first" _ rfl⟩

/-- After the removal of the updated pod the node lists no pod and still has requested CPU. -/
theorem removed_after_update_miscounts :
    Cache.Reachable 0 webRemoved ∧
      ¬∀ name n, webRemoved.nodes.lookup name = some n →
        n.requestedResource = (n.pods.map fun pod ↦ (calculateResource pod).1).sum ∧
        n.nonzeroRequest = (n.pods.map nonzeroResource).sum ∧
        n.podsWithAffinity ~ n.pods.filter hasPodAffinityConstraints := by
  have hrem : CacheStep webUpdated (.removePod (webPod "first" 2)) webRemoved :=
    ⟨trivial, none, rfl⟩
  refine ⟨.next webUpdated_reachable.of_guarded hrem, fun haccounts ↦ ?_⟩
  have hcpu := congrArg Resource.milliCPU (haccounts "first" _ rfl).1
  exact absurd hcpu (by decide)

end Kubernetes.Scheduler

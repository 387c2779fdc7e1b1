import Kubernetes.Scheduler.Cache

/-!
# What a call of the scheduler cache can do

`Effect` lists the ways in which a call can change the cache, in terms of `addPodLocked` and
`removePodLocked`.  Every call that returns has one of these effects.  The expiry of assumed pods is
a chain of single expiries.
-/

namespace Kubernetes.Scheduler

variable {Qty : Type*} [QuantityValue Qty]

def Cache.dropState (cache : Cache Qty) (key : String) : Cache Qty :=
  { cache with
    assumedPods := cache.assumedPods.erase key
    podStates := cache.podStates.erase key }

/-- The expiry of one assumed pod.  If its removal fails the state of the pod stays. -/
inductive Expires (cache : Cache Qty) : Cache Qty → Prop
  | expired {key : String} {ps : PodState Qty} {next : Cache Qty} :
      key ∈ cache.assumedPods → cache.podStates.lookup key = some ps →
      cache.removePodLocked ps.pod = .ok (next, none) → Expires cache (next.dropState key)
  | failed {key : String} {ps : PodState Qty} {next : Cache Qty} {err : CacheError} :
      key ∈ cache.assumedPods → cache.podStates.lookup key = some ps →
      cache.removePodLocked ps.pod = .ok (next, some err) → Expires cache next

inductive Effect (cache : Cache Qty) : Operation Qty → Cache Qty → Prop
  | unchanged {op : Operation Qty} : Effect cache op cache
  | assumed {pod : Pod Qty} : cache.podStates.lookup (getPodKey pod) = none →
      Effect cache (.assumePod pod)
        { cache.addPodLocked pod with
          podStates := cache.podStates.insert (getPodKey pod) ⟨pod, none, false⟩
          assumedPods := insert (getPodKey pod) cache.assumedPods }
  | bindingFinished {pod : Pod Qty} {now : ℤ} {currState : PodState Qty}
      {deadline : Option ℤ} :
      cache.podStates.lookup (getPodKey pod) = some currState →
      Effect cache (.finishBinding pod now)
        { cache with
          podStates := cache.podStates.insert (getPodKey pod)
            { currState with bindingFinished := true, deadline := deadline } }
  | forgotten {pod : Pod Qty} {next : Cache Qty} :
      getPodKey pod ∈ cache.assumedPods → cache.removePodLocked pod = .ok (next, none) →
      Effect cache (.forgetPod pod) (next.dropState (getPodKey pod))
  | forgetFailed {pod : Pod Qty} {next : Cache Qty} {err : CacheError} :
      cache.removePodLocked pod = .ok (next, some err) → Effect cache (.forgetPod pod) next
  | confirmed {pod : Pod Qty} {currState : PodState Qty} :
      cache.podStates.lookup (getPodKey pod) = some currState →
      Effect cache (.addPod pod)
        { cache with
          assumedPods := cache.assumedPods.erase (getPodKey pod)
          podStates := cache.podStates.insert (getPodKey pod)
            { currState with deadline := none } }
  | moved {pod : Pod Qty} {currState : PodState Qty} {next : Cache Qty}
      {err : Option CacheError} : getPodKey pod ∈ cache.assumedPods →
      cache.podStates.lookup (getPodKey pod) = some currState →
      currState.pod.nodeName ≠ pod.nodeName →
      cache.removePodLocked currState.pod = .ok (next, err) →
      Effect cache (.addPod pod)
        { next.addPodLocked pod with
          assumedPods := next.assumedPods.erase (getPodKey pod)
          podStates := next.podStates.insert (getPodKey pod) { currState with deadline := none } }
  | added {pod : Pod Qty} : cache.podStates.lookup (getPodKey pod) = none →
      Effect cache (.addPod pod)
        { cache.addPodLocked pod with
          podStates := cache.podStates.insert (getPodKey pod) ⟨pod, none, false⟩ }
  | updated {oldPod newPod : Pod Qty} {currState : PodState Qty}
      {next : Cache Qty} : getPodKey oldPod ∉ cache.assumedPods →
      cache.podStates.lookup (getPodKey oldPod) = some currState →
      currState.pod.nodeName = newPod.nodeName →
      cache.removePodLocked oldPod = .ok (next, none) →
      Effect cache (.updatePod oldPod newPod) (next.addPodLocked newPod)
  | updateFailed {oldPod newPod : Pod Qty} {next : Cache Qty} {err : CacheError} :
      cache.removePodLocked oldPod = .ok (next, some err) →
      Effect cache (.updatePod oldPod newPod) next
  | removed {pod : Pod Qty} {currState : PodState Qty} {next : Cache Qty} :
      getPodKey pod ∉ cache.assumedPods →
      cache.podStates.lookup (getPodKey pod) = some currState →
      cache.removePodLocked currState.pod = .ok (next, none) →
      Effect cache (.removePod pod)
        { next with podStates := next.podStates.erase (getPodKey pod) }
  | removeFailed {pod : Pod Qty} {currState : PodState Qty} {next : Cache Qty}
      {err : CacheError} : cache.podStates.lookup (getPodKey pod) = some currState →
      cache.removePodLocked currState.pod = .ok (next, some err) →
      Effect cache (.removePod pod) next
  | cleaned {now : ℤ} {order : List String} {next : Cache Qty} :
      Relation.ReflTransGen Expires cache next →
      Effect cache (.cleanupAssumedPods now order) next
  | nodeAdded {node : Node Qty} : Effect cache (.addNode node) (cache.setNode node)
  | nodeUpdated {oldNode newNode : Node Qty} :
      Effect cache (.updateNode oldNode newNode) (cache.setNode newNode)
  | nodeRemoved {node : Node Qty} {next : Cache Qty} {err : Option CacheError} :
      cache.removeNode node = .ok (next, err) → Effect cache (.removeNode node) next

section

variable (cache : Cache Qty) (pod : Pod Qty)

@[simp]
theorem Cache.addPodLocked_podStates :
    (cache.addPodLocked pod).podStates = cache.podStates := rfl

@[simp]
theorem Cache.addPodLocked_assumedPods :
    (cache.addPodLocked pod).assumedPods = cache.assumedPods := rfl

end

variable {cache : Cache Qty} {pod : Pod Qty}

variable {next : Cache Qty}

/-- A removal that succeeds drops an entry without pods and without a node. -/
theorem Cache.removePodLocked_eq_none (h : cache.removePodLocked pod = .ok (next, none)) :
    ∃ n n', cache.nodes.lookup pod.nodeName = some n ∧ n.removePod pod = .ok (n', none) ∧
      next = { cache with
        nodes :=
          if n'.pods.isEmpty ∧ n'.node.isNone then cache.nodes.erase pod.nodeName
          else cache.nodes.insert pod.nodeName n' } := by
  unfold removePodLocked at h
  split at h
  · cases h
  · rename_i n hget
    split at h
    · cases h
    · cases h
    · rename_i n' hrem
      refine ⟨n, n', hget, hrem, ?_⟩
      split_ifs at h ⊢ <;> cases h <;> rfl

theorem Cache.removePodLocked_eq_some {err : CacheError}
    (h : cache.removePodLocked pod = .ok (next, some err)) :
    ∃ n n' err', cache.nodes.lookup pod.nodeName = some n ∧
      n.removePod pod = .ok (n', some err') ∧
      next = { cache with nodes := cache.nodes.insert pod.nodeName n' } := by
  unfold removePodLocked at h
  split at h
  · cases h
  · rename_i n hget
    split at h
    · cases h
    · rename_i n' err' hrem
      cases h
      exact ⟨n, n', err', hget, hrem, rfl⟩
    · split_ifs at h <;> cases h

variable {err : Option CacheError}

section

variable (h : cache.removePodLocked pod = .ok (next, err))

include h

theorem Cache.removePodLocked_frame : next = { cache with nodes := next.nodes } := by
  cases err with
  | none =>
    obtain ⟨_, _, _, _, rfl⟩ := removePodLocked_eq_none h
    rfl
  | some err =>
    obtain ⟨_, _, _, _, _, rfl⟩ := removePodLocked_eq_some h
    rfl

theorem Cache.removePodLocked_podStates : next.podStates = cache.podStates := by
  rw [removePodLocked_frame h]

theorem Cache.removePodLocked_assumedPods : next.assumedPods = cache.assumedPods := by
  rw [removePodLocked_frame h]

end

omit [QuantityValue Qty] in
theorem Cache.removeNode_frame {node : Node Qty}
    (h : cache.removeNode node = .ok (next, err)) : next = { cache with nodes := next.nodes } := by
  unfold removeNode at h
  split at h
  · cases h
  · dsimp only at h
    split_ifs at h <;> cases h <;> rfl

def Cache.ForallNodes (P : NodeInfo Qty → Prop) (cache : Cache Qty) : Prop :=
  ∀ name n, cache.nodes.lookup name = some n → P n

namespace Cache.ForallNodes

variable {P : NodeInfo Qty → Prop} {cache next : Cache Qty}

omit [QuantityValue Qty]

section

variable (hall : cache.ForallNodes P)

include hall

theorem insert (name : String) {n : NodeInfo Qty} (hn : P n) (created : ℕ) :
    ForallNodes P { cache with nodes := cache.nodes.insert name n, created := created } :=
  Map.forall_lookup_insert hall hn

theorem erase (name : String) : ForallNodes P { cache with nodes := cache.nodes.erase name } :=
  Map.forall_lookup_erase hall

theorem getOrCreate (hnew : ∀ origin, P (NodeInfo.new origin)) (name : String) :
    P (cache.getOrCreate name).1 := by
  unfold Cache.getOrCreate
  cases hget : cache.nodes.lookup name with
  | none => exact hnew _
  | some n => exact hall name n hget

theorem removeNode (hrem : ∀ n, P n → P n.removeNode) {node : Node Qty}
    {err : Option CacheError}
    (h : cache.removeNode node = .ok (next, err)) : next.ForallNodes P := by
  unfold Cache.removeNode at h
  split at h
  · cases h
  · next n hget =>
    dsimp only at h
    split_ifs at h <;> cases h
    · exact hall.erase node.name
    · exact hall.insert node.name (hrem n (hall _ n hget)) _

end

end Cache.ForallNodes

/-! ## Every call has one of the effects -/

variable {now : ℤ}

section Calls

variable {cache next : Cache Qty} {err : Option CacheError}

variable {pod : Pod Qty}

theorem effect_assumePod (h : cache.assumePod pod = .ok (next, err)) :
    Effect cache (.assumePod pod) next := by
  simp only [Cache.assumePod] at h
  split at h <;> cases h
  · exact .unchanged
  · next hstate => exact .assumed hstate

theorem effect_finishBinding (h : cache.finishBinding pod now = .ok (next, err)) :
    Effect cache (.finishBinding pod now) next := by
  simp only [Cache.finishBinding] at h
  split at h
  · next hstate =>
    split_ifs at h <;> cases h
    · exact .bindingFinished hstate
    · exact .unchanged
  · cases h
    exact .unchanged

theorem effect_forgetPod (h : cache.forgetPod pod = .ok (next, err)) :
    Effect cache (.forgetPod pod) next := by
  simp only [Cache.forgetPod] at h
  split at h
  · cases h
  · split_ifs at h with _ hassumed
    · cases h
      exact .unchanged
    · split at h
      · next hrem =>
        cases h
        exact .forgotten hassumed hrem
      · next hfailed =>
        cases err with
        | none => exact absurd h (hfailed next)
        | some err => exact .forgetFailed h
    · cases h
      exact .unchanged

theorem effect_addPod (h : cache.addPod pod = .ok (next, err)) :
    Effect cache (.addPod pod) next := by
  simp only [Cache.addPod, Cache.moveAssumed] at h
  split at h
  · next currState hstate =>
    split_ifs at h with hassumed hnode
    · cases hrem : cache.removePodLocked currState.pod with
      | error crash => simp [hrem] at h
      | ok result =>
        simp only [hrem] at h
        cases h
        exact .moved hassumed hstate hnode hrem
    · cases h
      exact .confirmed hstate
    · cases h
      exact .unchanged
  · next hstate =>
    cases h
    exact .added hstate

theorem effect_updatePod {oldPod newPod : Pod Qty}
    (h : cache.updatePod oldPod newPod = .ok (next, err)) :
    Effect cache (.updatePod oldPod newPod) next := by
  simp only [Cache.updatePod, Cache.updatePodLocked] at h
  split at h
  · next hstate =>
    split_ifs at h with hassumed hnode
    · cases h
      exact .unchanged
    · split at h
      · next hrem =>
        cases h
        exact .updated hassumed hstate (not_not.mp hnode) hrem
      · next hfailed =>
        cases err with
        | none => exact absurd h (hfailed next)
        | some err => exact .updateFailed h
  · cases h
    exact .unchanged

theorem effect_removePod (h : cache.removePod pod = .ok (next, err)) :
    Effect cache (.removePod pod) next := by
  simp only [Cache.removePod] at h
  split at h
  · next hstate =>
    split_ifs at h with hassumed hnode
    · cases h
      exact .unchanged
    · split at h
      · next hrem =>
        cases h
        exact .removed hassumed hstate hrem
      · next hfailed =>
        cases err with
        | none => exact absurd h (hfailed next)
        | some err => exact .removeFailed hstate h
  · cases h
    exact .unchanged

theorem cleanupAssumedPod_eq_ok {key : String} (hkey : key ∈ cache.assumedPods)
    (h : cache.cleanupAssumedPod now key = .ok next) :
    (next = cache ∨ Expires cache next) ∧
      ∀ other ≠ key, other ∈ next.assumedPods ↔ other ∈ cache.assumedPods := by
  unfold Cache.cleanupAssumedPod Cache.expirePod at h
  split at h
  · cases h
  · next ps hstate =>
    split_ifs at h
    · cases h
      exact ⟨.inl rfl, fun _ _ ↦ Iff.rfl⟩
    · split at h
      · cases h
      · split_ifs at h
        · rcases hrem : cache.removePodLocked ps.pod with crash | ⟨cache', _ | err'⟩ <;>
            rw [hrem] at h <;> cases h
          · refine ⟨.inr (.expired hkey hstate hrem), fun other hother ↦ ?_⟩
            rw [Finset.mem_erase, Cache.removePodLocked_assumedPods hrem, and_iff_right hother]
          · refine ⟨.inr (.failed hkey hstate hrem), fun other _ ↦ ?_⟩
            rw [Cache.removePodLocked_assumedPods hrem]
        · cases h
          exact ⟨.inl rfl, fun _ _ ↦ Iff.rfl⟩

/-- The cleanup is a chain of expiries of assumed pods. -/
theorem cleanupAssumedPods_eq_ok {order : List String} (hnodup : order.Nodup)
    (horder : ∀ key ∈ order, key ∈ cache.assumedPods)
    (h : cache.cleanupAssumedPods now order = .ok next) :
    Relation.ReflTransGen Expires cache next := by
  induction order generalizing cache with
  | nil =>
    cases h
    exact .refl
  | cons key rest ih =>
    rw [List.nodup_cons] at hnodup
    unfold Cache.cleanupAssumedPods at h
    split at h
    · next cache' hbody =>
      obtain ⟨hexpires, hframe⟩ := cleanupAssumedPod_eq_ok (horder key List.mem_cons_self) hbody
      have hrest : ∀ other ∈ rest, other ∈ cache'.assumedPods := by
        intro other hother
        have hne : other ≠ key := fun heq ↦ hnodup.1 (heq ▸ hother)
        exact (hframe other hne).mpr (horder other (List.mem_cons_of_mem _ hother))
      have hchain := ih hnodup.2 hrest h
      rcases hexpires with rfl | hexpires
      · exact hchain
      · exact hchain.head hexpires
    · cases h

theorem effect_of_step {op : Operation Qty} (h : CacheStep cache op next) :
    Effect cache op next := by
  obtain ⟨horder, err, h⟩ := h
  cases op with
  | assumePod pod => exact effect_assumePod h
  | finishBinding pod now => exact effect_finishBinding h
  | forgetPod pod => exact effect_forgetPod h
  | addPod pod => exact effect_addPod h
  | updatePod oldPod newPod => exact effect_updatePod h
  | removePod pod => exact effect_removePod h
  | cleanupAssumedPods now order =>
    simp only [Cache.apply] at h
    cases hclean : cache.cleanupAssumedPods now order with
    | error crash =>
      rw [hclean] at h
      cases h
    | ok cache' =>
      rw [hclean] at h
      cases h
      exact .cleaned (cleanupAssumedPods_eq_ok horder.1 (fun key ↦ (horder.2 key).mp) hclean)
  | addNode node =>
    cases h
    exact .nodeAdded
  | updateNode oldNode newNode =>
    cases h
    exact .nodeUpdated
  | removeNode node => exact .nodeRemoved h

end Calls

end Kubernetes.Scheduler

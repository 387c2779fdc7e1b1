import Kubernetes.Scheduler.CacheLocation

/-!
# Calls of the scheduler cache that fail cleanly

A call fails cleanly if it returns, and leaves the cache as it is if it returns an error.
`ForgetPod` and `RemoveNode` dereference what they look up before they know that it is there.  If
the entry of the node does not list the pod, a removal has already edited `podsWithAffinity`, and
its error asks the node for its name.  `UpdatePod` and `RemovePod` exit if the pod is on another
node.
-/

namespace Kubernetes.Scheduler

variable {Qty : Type*} {pod : Pod Qty} {pods : List (Pod Qty)}

namespace Cache

/-- The call returns, and an error means that nothing has changed. -/
def FailsCleanly (cache : Cache Qty) (result : CallResult Qty) : Prop :=
  ∃ next err, result = .ok (next, err) ∧ (err = none ∨ next = cache)

/-- An entry lists the pod, under its key. -/
def ListsPod (pods : List (Pod Qty)) (pod : Pod Qty) : Prop :=
  ∃ listed ∈ pods, getPodKey listed = getPodKey pod

/-- There is an entry for the node of the pod.  It lists the pod or has a node. -/
def CanRemove (cache : Cache Qty) (pod : Pod Qty) : Prop :=
  ∃ n, cache.nodes.lookup pod.nodeName = some n ∧ (ListsPod n.pods pod ∨ n.node.isSome)

/-- The entry for the node of the pod lists the pod, or has a node and does not list the pod among
those with affinity. -/
def CanRemoveCleanly (cache : Cache Qty) (pod : Pod Qty) : Prop :=
  ∃ n, cache.nodes.lookup pod.nodeName = some n ∧
    (ListsPod n.pods pod ∨ n.node.isSome ∧ ¬ListsPod n.podsWithAffinity pod)

variable (cache : Cache Qty)

@[simp]
theorem failsCleanly_none (next : Cache Qty) : cache.FailsCleanly (.ok (next, none)) :=
  ⟨next, none, rfl, .inl rfl⟩

@[simp]
theorem failsCleanly_some {cache next : Cache Qty} {err : CacheError} :
    cache.FailsCleanly (.ok (next, some err)) ↔ next = cache := by
  simp [FailsCleanly]

@[simp]
theorem not_failsCleanly_error (crash : Crash) : ¬cache.FailsCleanly (.error crash) := by
  simp [FailsCleanly]

theorem dropKey_eq_none_iff :
    NodeInfo.dropKey pod pods = none ↔ ¬ListsPod pods pod := by
  rw [NodeInfo.dropKey_eq_none, ListsPod, not_exists]
  simp

theorem dropKey_ne_self :
    NodeInfo.dropKey pod pods ≠ some pods := by
  intro h
  obtain ⟨listed, -, hperm⟩ := NodeInfo.perm_of_dropKey h
  exact absurd hperm.length_eq (by simp)

/-- A failed edit changes the entry if and only if the pod was among those with affinity. -/
theorem insert_dropKey_eq_iff {cache : Cache Qty} {n : NodeInfo Qty}
    (hget : cache.nodes.lookup pod.nodeName = some n) :
    { cache with nodes := cache.nodes.insert pod.nodeName { n with
        podsWithAffinity :=
          (NodeInfo.dropKey pod n.podsWithAffinity).getD n.podsWithAffinity } } = cache ↔
      ¬ListsPod n.podsWithAffinity pod := by
  rw [← dropKey_eq_none_iff]
  constructor
  · intro heq
    have hentry := congrArg (fun c : Cache Qty ↦ c.nodes.lookup pod.nodeName) heq
    rw [Finmap.lookup_insert, hget, Option.some.injEq] at hentry
    have hsame := congrArg NodeInfo.podsWithAffinity hentry
    cases hdrop : NodeInfo.dropKey pod n.podsWithAffinity with
    | none => rfl
    | some rest =>
      rw [hdrop] at hsame
      exact absurd (hsame ▸ hdrop) dropKey_ne_self
  · intro hdrop
    rw [hdrop]
    have hnodes : cache.nodes.insert pod.nodeName n = cache.nodes := by
      apply Finmap.ext_lookup
      intro name
      rw [Map.lookup_insert]
      split_ifs with hname
      · rw [hname, hget]
      · rfl
    exact congrArg (fun nodes ↦ { cache with nodes := nodes }) hnodes

variable [QuantityValue Qty]

theorem removePodLocked_cases (pod : Pod Qty) :
    (∃ next, cache.removePodLocked pod = .ok (next, none) ∧ cache.CanRemove pod ∧
      cache.CanRemoveCleanly pod) ∨
    (∃ next err, cache.removePodLocked pod = .ok (next, some err) ∧ cache.CanRemove pod ∧
      (next = cache ↔ cache.CanRemoveCleanly pod)) ∨
    ∃ crash, cache.removePodLocked pod = .error crash ∧ ¬cache.CanRemove pod ∧
      ¬cache.CanRemoveCleanly pod := by
  unfold removePodLocked NodeInfo.removePod CanRemove CanRemoveCleanly
  cases hget : cache.nodes.lookup pod.nodeName with
  | none => exact .inr (.inr ⟨.nilPointer, rfl, by simp, by simp⟩)
  | some n =>
    cases hdrop : NodeInfo.dropKey pod n.pods with
    | some pods =>
      have hlists : ListsPod n.pods pod := by
        by_contra hlists
        rw [← dropKey_eq_none_iff, hdrop] at hlists
        cases hlists
      left
      simp only [hdrop]
      split_ifs <;> exact ⟨_, rfl, ⟨n, rfl, .inl hlists⟩, n, rfl, .inl hlists⟩
    | none =>
      have hlists := dropKey_eq_none_iff.mp hdrop
      right
      cases hnode : n.node with
      | none =>
        simp [hdrop, hlists, hnode]
      | some node =>
        left
        simp only [hdrop, hnode]
        refine ⟨_, _, rfl, ⟨n, rfl, .inr (by simp [hnode])⟩, ?_⟩
        rw [← hnode, insert_dropKey_eq_iff hget]
        simp [hlists, hnode]

theorem calls_fail_cleanly_iff (cache : Cache Qty) (pod newPod : Pod Qty)
    (node : Node Qty) :
    cache.FailsCleanly (cache.assumePod pod) ∧
      (cache.FailsCleanly (cache.forgetPod pod) ↔
        ∃ state, cache.podStates.lookup (getPodKey pod) = some state ∧
          (state.pod.nodeName = pod.nodeName → getPodKey pod ∈ cache.assumedPods →
            cache.CanRemoveCleanly pod)) ∧
      (cache.FailsCleanly (cache.addPod pod) ↔
        ∀ state, cache.podStates.lookup (getPodKey pod) = some state →
          getPodKey pod ∈ cache.assumedPods → state.pod.nodeName ≠ pod.nodeName →
          cache.CanRemove state.pod) ∧
      (cache.FailsCleanly (cache.updatePod pod newPod) ↔
        ∀ state, cache.podStates.lookup (getPodKey pod) = some state →
          getPodKey pod ∉ cache.assumedPods →
          state.pod.nodeName = newPod.nodeName ∧ cache.CanRemoveCleanly pod) ∧
      (cache.FailsCleanly (cache.removePod pod) ↔
        ∀ state, cache.podStates.lookup (getPodKey pod) = some state →
          getPodKey pod ∉ cache.assumedPods →
          state.pod.nodeName = pod.nodeName ∧ cache.CanRemoveCleanly state.pod) ∧
      (cache.FailsCleanly (cache.removeNode node) ↔
        ∃ n, cache.nodes.lookup node.name = some n) := by
  have hremoveNode : cache.FailsCleanly (cache.removeNode node) ↔
      ∃ n, cache.nodes.lookup node.name = some n := by
    cases hget : cache.nodes.lookup node.name with
    | none => simp [removeNode, hget]
    | some n =>
      simp only [removeNode, hget]
      split_ifs <;> simp
  cases hstate : cache.podStates.lookup (getPodKey pod) with
  | none => simp [assumePod, forgetPod, addPod, updatePod, removePod, hstate, hremoveNode]
  | some state =>
    have hlocked := cache.removePodLocked_cases
    refine ⟨by simp [assumePod, hstate], ?_, ?_, ?_, ?_, hremoveNode⟩ <;>
      by_cases hassumed : getPodKey pod ∈ cache.assumedPods
    · rcases hlocked pod with ⟨_, h⟩ | ⟨_, _, h⟩ | ⟨_, h⟩ <;>
        by_cases hnode : state.pod.nodeName = pod.nodeName <;>
        simp [forgetPod, hstate, hnode, hassumed, h]
    · by_cases hnode : state.pod.nodeName = pod.nodeName <;> simp [forgetPod, hstate, hassumed, hnode]
    · rcases hlocked state.pod with ⟨_, h⟩ | ⟨_, _, h⟩ | ⟨_, h⟩ <;>
        by_cases hnode : state.pod.nodeName = pod.nodeName <;>
        simp [addPod, moveAssumed, hstate, hnode, hassumed, h]
    · simp [addPod, hstate, hassumed]
    · simp [updatePod, hstate, hassumed]
    · rcases hlocked pod with ⟨_, h⟩ | ⟨_, _, h⟩ | ⟨_, h⟩ <;>
        by_cases hnode : state.pod.nodeName = newPod.nodeName <;>
        simp [updatePod, updatePodLocked, hstate, hnode, hassumed, h]
    · simp [removePod, hstate, hassumed]
    · rcases hlocked state.pod with ⟨_, h⟩ | ⟨_, _, h⟩ | ⟨_, h⟩ <;>
        by_cases hnode : state.pod.nodeName = pod.nodeName <;>
        simp [removePod, hstate, hnode, hassumed, h]

end Cache

theorem unknown_arguments_crash :
    Cache.Reachable 0 (newSchedulerCache Int64 0) ∧
      (newSchedulerCache Int64 0).forgetPod (webPod "first" 1) = .error .nilPointer ∧
      (newSchedulerCache Int64 0).removeNode ⟨"first", [], [], none, []⟩ = .error .nilPointer :=
  ⟨.start rfl, rfl, rfl⟩

end Kubernetes.Scheduler

import Kubernetes.Scheduler.CacheEffect

/-!
# The entries of the scheduler cache over time

A call leaves each entry as it is, raises its generation, deletes it, or creates a new one.  The
only operation that could change an entry without raising its generation is a removal that does not
find the pod.  It finds none among the pods with affinity either, because every pod with affinity is
also listed.
-/

namespace Kubernetes.Scheduler

open List

variable {Qty : Type*}

/-- For each key there are at most as many pods with affinity as there are pods. -/
def NodeInfo.AffinityCounted (n : NodeInfo Qty) : Prop :=
  ∀ key, (n.podsWithAffinity.map getPodKey).count key ≤ (n.pods.map getPodKey).count key

namespace NodeInfo

variable {n next : NodeInfo Qty}

variable {pod : Pod Qty}

theorem count_dropKey {pods rest : List (Pod Qty)} (h : dropKey pod pods = some rest)
    (key : String) :
    (pods.map getPodKey).count key =
      (rest.map getPodKey).count key + if key = getPodKey pod then 1 else 0 := by
  obtain ⟨listed, hkey, hperm⟩ := perm_of_dropKey h
  rw [(hperm.map getPodKey).count_eq, map_cons, hkey]
  by_cases heq : key = getPodKey pod
  · simp [heq]
  · simp [heq, Ne.symm heq]

theorem count_eq_zero_of_dropKey {pods : List (Pod Qty)} (h : dropKey pod pods = none) :
    (pods.map getPodKey).count (getPodKey pod) = 0 := by
  rw [count_eq_zero, mem_map]
  rintro ⟨listed, hlist, hkey⟩
  exact dropKey_eq_none.mp h listed hlist hkey

variable [QuantityValue Qty]

section

variable (hcnt : n.AffinityCounted)

include hcnt

theorem AffinityCounted.addPod (pod : Pod Qty) : (n.addPod pod).AffinityCounted := by
  intro key
  have hkey := hcnt key
  unfold NodeInfo.addPod
  dsimp only
  split_ifs
  · rw [map_append, map_append, count_append, count_append]
    omega
  · rw [map_append, count_append]
    omega

theorem AffinityCounted.setNode (node : Node Qty) : (n.setNode node).AffinityCounted := by
  have hframe := n.setNode_frame node
  intro key
  rw [hframe.1, hframe.2.1]
  exact hcnt key

theorem AffinityCounted.removePod (h : n.removePod pod = .ok (next, none)) :
    next.AffinityCounted := by
  obtain ⟨pods, hdrop, rfl⟩ := removePod_eq_none h
  intro key
  have hkey := hcnt key
  rw [count_dropKey hdrop] at hkey
  cases haff : dropKey pod n.podsWithAffinity with
  | some rest =>
    rw [count_dropKey haff] at hkey
    dsimp only [Option.getD_some]
    omega
  | none =>
    rw [Option.getD_none]
    by_cases heq : key = getPodKey pod
    · rw [heq, count_eq_zero_of_dropKey haff]
      exact Nat.zero_le _
    · rwa [if_neg heq] at hkey

theorem AffinityCounted.removePod_of_some {err : NoCorrespondingPod}
    (h : n.removePod pod = .ok (next, some err)) : next = n := by
  obtain ⟨hdrop, rfl⟩ := removePod_eq_some h
  have hcount := hcnt (getPodKey pod)
  rw [count_eq_zero_of_dropKey hdrop] at hcount
  cases haff : dropKey pod n.podsWithAffinity with
  | none => rw [Option.getD_none]
  | some rest =>
    rw [count_dropKey haff, if_pos rfl] at hcount
    omega

end

end NodeInfo

/-- An entry is created by a call, or it is as before, or it has a higher generation. -/
structure Evolves (cache next : Cache Qty) : Prop where
  created_le : cache.created ≤ next.created
  entry : ∀ name n', next.nodes.lookup name = some n' →
    (cache.created ≤ n'.origin ∧ n'.origin < next.created) ∨
      ∃ n, cache.nodes.lookup name = some n ∧ n.origin = n'.origin ∧
        (n' = n ∨ n.generation < n'.generation)

namespace Evolves

variable {cache middle next : Cache Qty}

theorem of_nodes_eq (hnodes : next.nodes = cache.nodes) (hcreated : next.created = cache.created) :
    Evolves cache next := by
  refine ⟨hcreated.ge, fun name n' hn' ↦ .inr ⟨n', ?_, rfl, .inl rfl⟩⟩
  rwa [hnodes] at hn'

theorem trans (hfirst : Evolves cache middle) (hsecond : Evolves middle next) :
    Evolves cache next := by
  have hcreated := hfirst.created_le
  have hcreated' := hsecond.created_le
  refine ⟨by omega, fun name n'' hn'' ↦ ?_⟩
  rcases hsecond.entry name n'' hn'' with hnew | ⟨n', hn', horigin', hchange'⟩
  · exact .inl (by omega)
  · rcases hfirst.entry name n' hn' with hnew | ⟨n, hn, horigin, hchange⟩
    · exact .inl (by omega)
    · refine .inr ⟨n, hn, horigin.trans horigin', ?_⟩
      rcases hchange' with rfl | hlt'
      · exact hchange
      · rcases hchange with rfl | hlt
        · exact .inr hlt'
        · exact .inr (by omega)

theorem insert {name : String} {n n' : NodeInfo Qty}
    (hn : cache.nodes.lookup name = some n) (horigin : n.origin = n'.origin)
    (hchange : n' = n ∨ n.generation < n'.generation) :
    Evolves cache { cache with nodes := cache.nodes.insert name n' } := by
  refine ⟨Nat.le_refl _, Map.forall_lookup_insert (fun other m hm ↦ ?_) ?_⟩
  · exact .inr ⟨m, hm, rfl, .inl rfl⟩
  · exact .inr ⟨n, hn, horigin, hchange⟩

theorem erase (name : String) : Evolves cache { cache with nodes := cache.nodes.erase name } :=
  ⟨Nat.le_refl _, Map.forall_lookup_erase fun _ m hm ↦ .inr ⟨m, hm, rfl, .inl rfl⟩⟩

theorem getOrCreate {name : String} {n' : NodeInfo Qty}
    (horigin : n'.origin = (cache.getOrCreate name).1.origin)
    (hlt : (cache.getOrCreate name).1.generation < n'.generation) :
    Evolves cache { cache with
      nodes := cache.nodes.insert name n'
      created := (cache.getOrCreate name).2 } := by
  unfold Cache.getOrCreate at horigin hlt ⊢
  cases hn : cache.nodes.lookup name with
  | some n =>
    rw [hn] at horigin hlt
    exact insert hn horigin.symm (.inr hlt)
  | none =>
    rw [hn] at horigin
    refine ⟨Nat.le_succ _, Map.forall_lookup_insert (fun other m hm ↦ ?_) ?_⟩
    · exact .inr ⟨m, hm, rfl, .inl rfl⟩
    · rw [horigin]
      exact .inl ⟨Nat.le_refl _, Nat.lt_succ_self _⟩

end Evolves

variable [QuantityValue Qty]

/-- The changes that calls are made of, as far as the entries of the nodes are concerned. -/
inductive Change (cache : Cache Qty) : Cache Qty → Prop
  | states {next : Cache Qty} : next.nodes = cache.nodes → next.created = cache.created →
      Change cache next
  | podAdded (pod : Pod Qty) : Change cache (cache.addPodLocked pod)
  | podRemoved {pod : Pod Qty} {next : Cache Qty} {err : Option CacheError} :
      cache.removePodLocked pod = .ok (next, err) → Change cache next
  | nodeSet (node : Node Qty) : Change cache (cache.setNode node)
  | nodeRemoved {node : Node Qty} {next : Cache Qty} {err : Option CacheError} :
      cache.removeNode node = .ok (next, err) → Change cache next

section Calls

open Relation

variable {cache next : Cache Qty}

theorem changes_of_expires (h : Expires cache next) : ReflTransGen Change cache next := by
  cases h with
  | expired _ _ hrem => exact .tail (.single (.podRemoved hrem)) (.states rfl rfl)
  | failed _ _ hrem => exact .single (.podRemoved hrem)

variable {op : Operation Qty}

theorem changes_of_effect (h : Effect cache op next) :
    ReflTransGen Change cache next := by
  cases h with
  | unchanged => exact .refl
  | assumed _ | added _ => exact .tail (.single (.podAdded _)) (.states rfl rfl)
  | bindingFinished | confirmed => exact .single (.states rfl rfl)
  | forgotten _ hrem | removed _ _ hrem =>
    exact .tail (.single (.podRemoved hrem)) (.states rfl rfl)
  | forgetFailed hrem | updateFailed hrem | removeFailed _ hrem =>
    exact .single (.podRemoved hrem)
  | moved _ _ _ hrem =>
    exact .tail (.tail (.single (.podRemoved hrem)) (.podAdded _)) (.states rfl rfl)
  | updated _ _ _ hrem => exact .tail (.single (.podRemoved hrem)) (.podAdded _)
  | cleaned hchain =>
    induction hchain with
    | refl => exact .refl
    | tail _ hexpires ih => exact ih.trans (changes_of_expires hexpires)
  | nodeAdded | nodeUpdated => exact .single (.nodeSet _)
  | nodeRemoved hrem => exact .single (.nodeRemoved hrem)

section

variable (hcnt : cache.ForallNodes NodeInfo.AffinityCounted)

include hcnt

theorem affinityCounted_of_change (h : Change cache next) :
    next.ForallNodes NodeInfo.AffinityCounted := by
  have hnew : ∀ origin, (NodeInfo.new origin : NodeInfo Qty).AffinityCounted :=
    fun _ _ ↦ Nat.le_refl _
  cases h with
  | states hnodes _ =>
    intro name n hget
    exact hcnt name n (hnodes ▸ hget)
  | podAdded pod =>
    exact hcnt.insert pod.nodeName ((hcnt.getOrCreate hnew _).addPod pod) _
  | @podRemoved pod next err hrem =>
    cases err with
    | none =>
      obtain ⟨n, n', hget, hn', rfl⟩ := Cache.removePodLocked_eq_none hrem
      split_ifs
      · exact hcnt.erase pod.nodeName
      · exact hcnt.insert pod.nodeName ((hcnt _ n hget).removePod hn') _
    | some err =>
      obtain ⟨n, n', _, hget, hn', rfl⟩ := Cache.removePodLocked_eq_some hrem
      rw [(hcnt _ n hget).removePod_of_some hn']
      exact hcnt.insert pod.nodeName (hcnt _ n hget) _
  | nodeSet node =>
    exact hcnt.insert node.name ((hcnt.getOrCreate hnew _).setNode node) _
  | nodeRemoved hrem => exact hcnt.removeNode (fun _ hn ↦ hn) hrem

theorem evolves_of_change (h : Change cache next) : Evolves cache next := by
  cases h with
  | states hnodes hcreated => exact .of_nodes_eq hnodes hcreated
  | podAdded pod => exact .getOrCreate rfl (Nat.lt_succ_self _)
  | @podRemoved pod next err hrem =>
    cases err with
    | none =>
      obtain ⟨n, n', hget, hn', rfl⟩ := Cache.removePodLocked_eq_none hrem
      obtain ⟨pods, _, rfl⟩ := NodeInfo.removePod_eq_none hn'
      split_ifs
      · exact .erase pod.nodeName
      · exact .insert hget rfl (.inr (Nat.lt_succ_self _))
    | some err =>
      obtain ⟨n, n', _, hget, hn', rfl⟩ := Cache.removePodLocked_eq_some hrem
      have hsame := (hcnt _ n hget).removePod_of_some hn'
      exact .insert hget (by rw [hsame]) (.inl hsame)
  | nodeSet node =>
    have hframe := (cache.getOrCreate node.name).1.setNode_frame node
    exact .getOrCreate hframe.2.2.2.2.2 (hframe.2.2.2.2.1 ▸ Nat.lt_succ_self _)
  | @nodeRemoved node next err hrem =>
    unfold Cache.removeNode at hrem
    cases hget : cache.nodes.lookup node.name with
    | none => simp [hget] at hrem
    | some n =>
      simp only [hget] at hrem
      split_ifs at hrem
      · cases hrem
        exact .erase node.name
      · cases hrem
        exact .insert hget rfl (.inr (Nat.lt_succ_self _))

theorem evolves_of_effect (h : Effect cache op next) :
    next.ForallNodes NodeInfo.AffinityCounted ∧ Evolves cache next := by
  have hchanges := changes_of_effect h
  clear h
  induction hchanges with
  | refl => exact ⟨hcnt, .of_nodes_eq rfl rfl⟩
  | tail _ hchange ih =>
    exact ⟨affinityCounted_of_change ih.1 hchange, ih.2.trans (evolves_of_change ih.1 hchange)⟩

end

end Calls

end Kubernetes.Scheduler

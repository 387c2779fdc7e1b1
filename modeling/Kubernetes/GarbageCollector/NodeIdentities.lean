import Kubernetes.GarbageCollector.OwnershipGraph

/-!
# Identities of graph nodes

The identity of a node is what an event or an owner reference says about the object.  It never
changes after the node was allocated, so a property of what the events say is a property of all
nodes.
-/

namespace Kubernetes.GarbageCollector.Propagator

open List

variable {P Q : ObjectReference → Prop} {p q r : Propagator} {n u : Pointer}

/-- All nodes have identities with the property, and only allocated nodes are pointed to. -/
structure Identified (P : ObjectReference → Prop) (p : Propagator) : Prop where
  identity : ∀ n < p.next, P (p.nodes n).identity
  wellFormed : p.WellFormed
  dependents : ∀ n < p.next, ∀ v ∈ (p.nodes n).dependents, v < p.next
  dirtyQueue : ∀ n ∈ p.dirtyQueue, n < p.next

theorem identified_new : Propagator.new.Identified P where
  identity _ hn := absurd hn (Nat.not_lt_zero _)
  wellFormed := wellFormed_new
  dependents _ hn := absurd hn (Nat.not_lt_zero _)
  dirtyQueue _ hn := absurd hn not_mem_nil

theorem Identified.mono (hp : p.Identified P) (himp : ∀ ref, P ref → Q ref) : p.Identified Q where
  identity n hn := himp _ (hp.identity n hn)
  wellFormed := hp.wellFormed
  dependents := hp.dependents
  dirtyQueue := hp.dirtyQueue

structure Extends (p q : Propagator) : Prop where
  next_le : p.next ≤ q.next
  identity : ∀ n < p.next, (q.nodes n).identity = (p.nodes n).identity

theorem Extends.refl (p : Propagator) : p.Extends p := ⟨le_rfl, fun _ _ ↦ rfl⟩

theorem Extends.trans (hpq : p.Extends q) (hqr : q.Extends r) : p.Extends r where
  next_le := hpq.next_le.trans hqr.next_le
  identity n hn := calc
    (r.nodes n).identity = (q.nodes n).identity := hqr.identity n (hn.trans_le hpq.next_le)
    _ = (p.nodes n).identity := hpq.identity n hn

/-- A change of the graph that keeps the identities and does not touch the cache. -/
structure Carries (P : ObjectReference → Prop) (p q : Propagator) : Prop extends p.Extends q where
  cache : q.absentOwnerCache = p.absentOwnerCache
  identified : q.Identified P

theorem Carries.trans (hpq : Carries P p q) (hqr : Carries P q r) : Carries P p r where
  toExtends := hpq.toExtends.trans hqr.toExtends
  cache := hqr.cache.trans hpq.cache
  identified := hqr.identified

variable {identity : ObjectReference}

section

variable (hp : p.Identified P)

include hp

theorem Identified.carries_refl : Carries P p p := ⟨.refl p, rfl, hp⟩

theorem Identified.setDependents {dependents : Finset Pointer}
    (hdeps : ∀ v ∈ dependents, v < p.next) : Carries P p (p.setDependents u dependents) where
  next_le := le_rfl
  identity := (grows_setDependents p u dependents).identity
  cache := rfl
  identified := {
    identity := fun n hn ↦ by
      rw [(grows_setDependents p u dependents).identity n hn]
      exact hp.identity n hn
    wellFormed := (grows_setDependents p u dependents).wellFormed hp.wellFormed
    dependents := fun n hn v hv ↦ by
      by_cases hnode : n = u
      · rw [hnode, setDependents_nodes_self] at hv
        exact hdeps v hv
      · rw [setDependents_nodes_of_ne hnode] at hv
        exact hp.dependents n hn v hv
    dirtyQueue := hp.dirtyQueue }

theorem Identified.write (hid : P identity) (owners : List OwnerReference) :
    Carries P p (p.write identity owners) where
  next_le := Nat.le_succ _
  identity n hn := by rw [write_nodes_of_ne hn.ne]
  cache := rfl
  identified := {
    identity := fun n hn ↦ by
      by_cases hnext : n = p.next
      · rw [hnext, write_nodes_next]
        exact hid
      · rw [write_nodes_of_ne hnext]
        exact hp.identity n (lt_of_le_of_ne (Nat.lt_succ_iff.mp hn) hnext)
    wellFormed := wellFormed_write hp.wellFormed
    dependents := fun n hn v hv ↦ by
      by_cases hnext : n = p.next
      · rw [hnext, write_nodes_next] at hv
        exact absurd hv (Finset.notMem_empty v)
      · rw [write_nodes_of_ne hnext] at hv
        have hlt : n < p.next := lt_of_le_of_ne (Nat.lt_succ_iff.mp hn) hnext
        exact (hp.dependents n hlt v hv).trans (Nat.lt_succ_self _)
    dirtyQueue := fun n hn ↦ (hp.dirtyQueue n hn).trans (Nat.lt_succ_self _) }

theorem Identified.enqueue (more : List Pointer) (hmore : ∀ v ∈ more, v < p.next) :
    Carries P p { p with dirtyQueue := p.dirtyQueue ++ more } where
  toExtends := ⟨le_rfl, fun _ _ ↦ rfl⟩
  cache := rfl
  identified := {
    identity := hp.identity
    wellFormed := { hp.wellFormed with }
    dependents := hp.dependents
    dirtyQueue := fun n hn ↦ (mem_append.mp hn).elim (hp.dirtyQueue n) (hmore n) }

theorem Identified.addDependent (hu : u < p.next) (hn : n < p.next) :
    Carries P p (p.addDependent u n) := by
  apply hp.setDependents
  intro v hv
  rcases Finset.mem_insert.mp hv with rfl | hold
  · exact hn
  · exact hp.dependents u hu v hold

/-- A virtual node has the reference of its dependent, in the namespace of the dependent. -/
theorem Identified.addDependentToOwner (hn : n < p.next) {owner : OwnerReference}
    (howner : P ⟨owner, (p.nodes n).identity.ns⟩) : Carries P p (addDependentToOwner n p owner) := by
  unfold Propagator.addDependentToOwner
  cases hget : p.uidToNode.lookup owner.uid with
  | some ownerNode => exact hp.addDependent (hp.wellFormed.lt _ _ hget) hn
  | none =>
    have hwrite := hp.write howner []
    have hnext : p.next < p.next + 1 := Nat.lt_succ_self _
    have hqueued := hwrite.identified.enqueue [p.next] fun v hv ↦ by
      rw [mem_singleton.mp hv]
      exact hnext
    exact (hwrite.trans hqueued).trans
      (hqueued.identified.addDependent hnext (hn.trans hnext))

theorem Identified.addDependentToOwners (hn : n < p.next) (owners : List OwnerReference)
    (howners : ∀ owner ∈ owners, P ⟨owner, (p.nodes n).identity.ns⟩) :
    Carries P p (p.addDependentToOwners n owners) := by
  induction owners generalizing p with
  | nil => exact hp.carries_refl
  | cons owner owners ih =>
    have hfirst := hp.addDependentToOwner hn (howners owner mem_cons_self)
    refine hfirst.trans (ih hfirst.identified (hn.trans_le hfirst.next_le) fun other hother ↦ ?_)
    rw [hfirst.identity n hn]
    exact howners other (mem_cons_of_mem _ hother)

theorem Identified.removeDependentFromOwners (n : Pointer) (owners : List OwnerReference) :
    Carries P p (p.removeDependentFromOwners n owners) := by
  induction owners generalizing p with
  | nil => exact hp.carries_refl
  | cons owner owners ih =>
    have hfirst : Carries P p (removeDependentFromOwner n p owner) := by
      unfold removeDependentFromOwner
      cases hget : p.uidToNode.lookup owner.uid with
      | none => exact hp.carries_refl
      | some ownerNode =>
        apply hp.setDependents
        intro v hv
        exact hp.dependents ownerNode (hp.wellFormed.lt _ _ hget) v (Finset.mem_of_mem_erase hv)
    exact hfirst.trans (ih hfirst.identified)

theorem Identified.insertNode {owners : List OwnerReference} (hid : P identity)
    (howners : ∀ owner ∈ owners, P ⟨owner, identity.ns⟩) :
    Carries P p (p.insertNode identity owners) := by
  have hwrite := hp.write hid owners
  refine hwrite.trans (hwrite.identified.addDependentToOwners (Nat.lt_succ_self _) owners ?_)
  rw [write_nodes_next]
  exact howners

theorem Identified.setOwners (n : Pointer) (refs : List OwnerReference) :
    Carries P p
      { p with nodes := Function.update p.nodes n { p.nodes n with owners := refs } } := by
  -- Neither the identities nor the dependents change.
  have hsame (v : Pointer) :
      (Function.update p.nodes n { p.nodes n with owners := refs } v).identity =
          (p.nodes v).identity ∧
        (Function.update p.nodes n { p.nodes n with owners := refs } v).dependents =
          (p.nodes v).dependents := by
    rw [Function.update_apply]
    split_ifs with hv
    · rw [hv]
      exact ⟨rfl, rfl⟩
    · exact ⟨rfl, rfl⟩
  have hid (v : Pointer) := (hsame v).1
  refine ⟨⟨le_rfl, fun v _ ↦ hid v⟩, rfl, ⟨fun v hv ↦ ?_, ⟨hp.wellFormed.lt, fun uid v hv ↦ ?_⟩,
    fun v hv w hw ↦ ?_, hp.dirtyQueue⟩⟩
  · exact (hid v).symm ▸ hp.identity v hv
  · exact (congrArg (·.uid) (hid v)).trans (hp.wellFormed.uid uid v hv)
  · exact hp.dependents v hv w ((hsame v).2 ▸ hw)

end

theorem mem_of_mem_added {loops : Loops} {old new : List OwnerReference} {ref : OwnerReference}
    (href : ref ∈ (referencesDiffs loops old new).1) : ref ∈ new := by
  obtain ⟨uid, -, hget⟩ := mem_filterMap.mp href
  -- The map of the references has nothing else.
  clear href
  induction new using List.reverseRecOn with
  | nil => simp [uidToRef] at hget
  | append_singleton refs last ih =>
    rw [uidToRef, foldl_append] at hget
    change (Finmap.insert last.uid last (uidToRef refs)).lookup uid = some ref at hget
    rw [Map.lookup_insert] at hget
    split_ifs at hget with huid
    · cases hget
      exact mem_append_right _ (mem_singleton_self _)
    · exact mem_append_left _ (ih hget)

section

variable (hp : p.Identified P)

include hp

theorem Identified.updateOwners (hn : n < p.next) (loops : Loops) {refs : List OwnerReference}
    (hrefs : ∀ ref ∈ refs, P ⟨ref, (p.nodes n).identity.ns⟩) :
    Carries P p (p.updateOwners loops n refs) := by
  unfold Propagator.updateOwners
  dsimp only
  split_ifs
  · exact hp.carries_refl
  · have hset := hp.setOwners n refs
    have hadd := hset.identified.addDependentToOwners (n := n) hn
      (referencesDiffs loops (p.nodes n).owners refs).1 fun ref href ↦ by
        rw [hset.identity n hn]
        exact hrefs ref (mem_of_mem_added href)
    exact (hset.trans hadd).trans (hadd.identified.removeDependentFromOwners n _)

theorem Identified.removeNode (n : Pointer) : Carries P p (p.removeNode n) := by
  have herase : Carries P p
      { p with uidToNode := Finmap.erase (p.nodes n).identity.uid p.uidToNode } := by
    refine ⟨⟨le_rfl, fun _ _ ↦ rfl⟩, rfl, ⟨hp.identity, ⟨?_, ?_⟩, hp.dependents, hp.dirtyQueue⟩⟩
    · exact Map.forall_lookup_erase hp.wellFormed.lt
    · exact Map.forall_lookup_erase hp.wellFormed.uid
  exact herase.trans (herase.identified.removeDependentFromOwners n _)

theorem Identified.addToOrphanQueue (orphan : Bool) (n : Pointer) :
    Carries P p (p.addToOrphanQueue orphan n) := by
  unfold Propagator.addToOrphanQueue
  split_ifs
  · exact ⟨⟨le_rfl, fun _ _ ↦ rfl⟩, rfl, ⟨hp.identity, { hp.wellFormed with },
      hp.dependents, hp.dirtyQueue⟩⟩
  · exact hp.carries_refl

theorem Identified.deleteNode (hn : n < p.next) {loops : Loops}
    (hloop : loops.dependents.toFinset = ((p.removeNode n).nodes n).dependents) (uid : UID) :
    p.Extends (p.deleteNode loops n uid) ∧ (p.deleteNode loops n uid).Identified P ∧
      ∀ other ∈ (p.deleteNode loops n uid).absentOwnerCache.entries,
        other = uid ∨ other ∈ p.absentOwnerCache.entries := by
  have hrem := hp.removeNode n
  have hqueue := hrem.identified.enqueue loops.dependents fun v hv ↦ by
    apply hrem.identified.dependents n (hn.trans_le hrem.next_le)
    rw [← hloop]
    exact mem_toFinset.mpr hv
  have hextends := (hrem.trans hqueue).toExtends
  have hidentified := hqueue.identified
  refine ⟨{ hextends with }, ⟨hidentified.identity,
    { hidentified.wellFormed with }, hidentified.dependents,
    hidentified.dirtyQueue⟩, fun other hother ↦ ?_⟩
  unfold Propagator.deleteNode at hother
  dsimp only at hother
  rw [hrem.cache] at hother
  split_ifs at hother
  · exact .inr hother
  · exact UIDCache.mem_add hother

/-- An event keeps the identities.  Only a deletion adds to the cache. -/
theorem Identified.step {event : Event} (hstep : p.Step event q)
    (hobj : event.eventType ≠ .deleteEvent → P event.obj.toObjectReference)
    (howners : event.eventType ≠ .deleteEvent →
      ∀ ref ∈ event.obj.ownerReferences, P ⟨ref, event.obj.ns⟩)
    (hns : event.eventType ≠ .deleteEvent →
      ∀ n, p.uidToNode.lookup event.obj.uid = some n → (p.nodes n).identity.ns = event.obj.ns) :
    p.Extends q ∧ q.Identified P ∧ ∀ uid ∈ q.absentOwnerCache.entries,
      event.eventType = .deleteEvent ∧ uid = event.obj.uid ∨ uid ∈ p.absentOwnerCache.entries := by
  obtain ⟨loops, hvisit, rfl⟩ := hstep
  have hcarried {target : Propagator} (hcarries : Carries P p target) :
      p.Extends target ∧ target.Identified P ∧ ∀ uid ∈ target.absentOwnerCache.entries,
        event.eventType = .deleteEvent ∧ uid = event.obj.uid ∨ uid ∈ p.absentOwnerCache.entries :=
    ⟨hcarries.toExtends, hcarries.identified, fun uid huid ↦ .inr (hcarries.cache ▸ huid)⟩
  have hwritten (hwrite : event.eventType ≠ .deleteEvent) :
      Carries P p (p.processEvent loops event) := by
    cases hget : p.uidToNode.lookup event.obj.uid with
    | none =>
      have heq : p.processEvent loops event =
          (p.insertNode event.obj.toObjectReference event.obj.ownerReferences).addToOrphanQueue
            (shouldOrphanDependents event event.obj) p.next := by
        cases htype : event.eventType with
        | deleteEvent => exact absurd htype hwrite
        | addEvent | updateEvent => simp only [processEvent, htype, hget]
      have hinsert := hp.insertNode (hobj hwrite) (howners hwrite)
      rw [heq]
      exact hinsert.trans (hinsert.identified.addToOrphanQueue _ _)
    | some n =>
      have heq : p.processEvent loops event =
          (p.addToOrphanQueue (shouldOrphanDependents event event.obj) n).updateOwners loops n
            event.obj.ownerReferences := by
        cases htype : event.eventType with
        | deleteEvent => exact absurd htype hwrite
        | addEvent | updateEvent => simp only [processEvent, htype, hget]
      have hn : n < p.next := hp.wellFormed.lt _ _ hget
      have horphan := hp.addToOrphanQueue (shouldOrphanDependents event event.obj) n
      rw [heq]
      refine horphan.trans (horphan.identified.updateOwners (hn.trans_le horphan.next_le) loops ?_)
      intro ref href
      rw [horphan.identity n hn, hns hwrite n hget]
      exact howners hwrite ref href
  by_cases hdelete : event.eventType = .deleteEvent
  · cases hget : p.uidToNode.lookup event.obj.uid with
    | none =>
      have heq : p.processEvent loops event = p := by simp only [processEvent, hdelete, hget]
      rw [heq]
      exact hcarried hp.carries_refl
    | some n =>
      have heq : p.processEvent loops event = p.deleteNode loops n event.obj.uid := by
        simp only [processEvent, hdelete, hget]
      obtain ⟨hextends, hidentified, hcache⟩ := hp.deleteNode (hp.wellFormed.lt _ _ hget)
        (hvisit.dependents n hget).2 event.obj.uid
      rw [heq]
      exact ⟨hextends, hidentified, fun uid huid ↦
        (hcache uid huid).imp_left fun heq ↦ ⟨hdelete, heq⟩⟩
  · exact hcarried (hwritten hdelete)

end

end Kubernetes.GarbageCollector.Propagator

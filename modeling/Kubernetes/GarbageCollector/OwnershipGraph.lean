import Kubernetes.GarbageCollector.Propagator

/-!
# What the ownership graph records

The dependents of a node are graph nodes that list its UID as an owner.  The converse fails for a
node that was already there when the owner was deleted: a later node for the same UID starts without
dependents.  But the deletion has put the node into the dirty queue.
-/

namespace Kubernetes.GarbageCollector

open Finset Function Option

namespace Propagator

variable {p q r : Propagator} {n u v : Pointer} {uid other : UID}

def InGraph (p : Propagator) (n : Pointer) : Prop := ∃ uid, Finmap.lookup uid p.uidToNode = some n

/-- A node of the graph has recorded the UID among its owners. -/
def Lists (p : Propagator) (n : Pointer) (uid : UID) : Prop :=
  p.InGraph n ∧ uid ∈ uids (p.nodes n).owners

def dependentsOf (p : Propagator) (uid : UID) : Option (Finset Pointer) :=
  (Finmap.lookup uid p.uidToNode).map fun n ↦ (p.nodes n).dependents

/-- The pointers of the graph are allocated, and they are found by their UIDs. -/
structure WellFormed (p : Propagator) : Prop where
  lt : ∀ uid n, Finmap.lookup uid p.uidToNode = some n → n < p.next
  uid : ∀ uid n, Finmap.lookup uid p.uidToNode = some n → (p.nodes n).identity.uid = uid

theorem WellFormed.uid_inj (hwf : p.WellFormed) (huid : p.uidToNode.lookup uid = some n)
    (hother : p.uidToNode.lookup other = some n) : uid = other := by
  rw [← hwf.uid uid n huid, hwf.uid other n hother]

theorem wellFormed_new : Propagator.new.WellFormed where
  lt uid n hget := by simp [new] at hget
  uid uid n hget := by simp [new] at hget

/-! ## What the loops change -/

/-- The loops over owners keep the nodes, and create only nodes without owners. -/
structure Grows (p q : Propagator) : Prop where
  next_le : p.next ≤ q.next
  identity : ∀ n < p.next, (q.nodes n).identity = (p.nodes n).identity
  owners : ∀ n < p.next, (q.nodes n).owners = (p.nodes n).owners
  lookup : ∀ uid n, Finmap.lookup uid p.uidToNode = some n → Finmap.lookup uid q.uidToNode = some n
  created : ∀ uid n, Finmap.lookup uid q.uidToNode = some n →
    Finmap.lookup uid p.uidToNode = some n ∨
      p.next ≤ n ∧ n < q.next ∧ (q.nodes n).owners = [] ∧ (q.nodes n).identity.uid = uid
  dirtyQueue : p.dirtyQueue <+: q.dirtyQueue

theorem Grows.refl (p : Propagator) : p.Grows p where
  next_le := le_rfl
  identity _ _ := rfl
  owners _ _ := rfl
  lookup _ _ hget := hget
  created _ _ hget := .inl hget
  dirtyQueue := List.prefix_rfl

theorem Grows.trans (hpq : p.Grows q) (hqr : q.Grows r) : p.Grows r where
  next_le := hpq.next_le.trans hqr.next_le
  identity n hn := (hqr.identity n (hn.trans_le hpq.next_le)).trans (hpq.identity n hn)
  owners n hn := (hqr.owners n (hn.trans_le hpq.next_le)).trans (hpq.owners n hn)
  lookup uid n hget := hqr.lookup uid n (hpq.lookup uid n hget)
  created uid n hget := by
    rcases hqr.created uid n hget with hq | ⟨hle, hlt, howners, huid⟩
    · refine (hpq.created uid n hq).imp_right ?_
      rintro ⟨hle, hlt, howners, huid⟩
      refine ⟨hle, hlt.trans_le hqr.next_le, ?_, ?_⟩
      · rw [hqr.owners n hlt, howners]
      · rw [hqr.identity n hlt, huid]
    · exact .inr ⟨hpq.next_le.trans hle, hlt, howners, huid⟩
  dirtyQueue := hpq.dirtyQueue.trans hqr.dirtyQueue

theorem Grows.wellFormed (hgrows : p.Grows q) (hwf : p.WellFormed) : q.WellFormed where
  lt uid n hget := by
    rcases hgrows.created uid n hget with hp | ⟨-, hlt, -⟩
    · exact (hwf.lt uid n hp).trans_le hgrows.next_le
    · exact hlt
  uid uid n hget := by
    rcases hgrows.created uid n hget with hp | ⟨-, -, -, huid⟩
    · rw [hgrows.identity n (hwf.lt uid n hp), hwf.uid uid n hp]
    · exact huid

theorem Grows.lists_iff (hgrows : p.Grows q) (hwf : p.WellFormed) :
    q.Lists v uid ↔ p.Lists v uid := by
  constructor
  · rintro ⟨⟨key, hkey⟩, hmem⟩
    rcases hgrows.created key v hkey with hp | ⟨-, -, howners, -⟩
    · rw [hgrows.owners v (hwf.lt key v hp)] at hmem
      exact ⟨⟨key, hp⟩, hmem⟩
    · rw [howners] at hmem
      simp [uids] at hmem
  · rintro ⟨⟨key, hkey⟩, hmem⟩
    refine ⟨⟨key, hgrows.lookup key v hkey⟩, ?_⟩
    rw [hgrows.owners v (hwf.lt key v hkey)]
    exact hmem

def setDependents (p : Propagator) (u : Pointer) (dependents : Finset Pointer) : Propagator :=
  { p with nodes := Function.update p.nodes u { p.nodes u with dependents := dependents } }

theorem setDependents_nodes_self (dependents : Finset Pointer) :
    (p.setDependents u dependents).nodes u = { p.nodes u with dependents := dependents } :=
  update_self ..

theorem setDependents_nodes_of_ne (hne : n ≠ u) (dependents : Finset Pointer) :
    (p.setDependents u dependents).nodes n = p.nodes n :=
  update_of_ne hne ..

theorem grows_setDependents (p : Propagator) (u : Pointer) (dependents : Finset Pointer) :
    p.Grows (p.setDependents u dependents) where
  next_le := le_rfl
  identity n _ := by
    by_cases hn : n = u
    · rw [hn, setDependents_nodes_self]
    · rw [setDependents_nodes_of_ne hn]
  owners n _ := by
    by_cases hn : n = u
    · rw [hn, setDependents_nodes_self]
    · rw [setDependents_nodes_of_ne hn]
  lookup _ _ hget := hget
  created _ _ hget := .inl hget
  dirtyQueue := List.prefix_rfl

theorem dependentsOf_of_lookup (hget : p.uidToNode.lookup uid = some n) :
    p.dependentsOf uid = some (p.nodes n).dependents := by
  rw [dependentsOf, hget, map_some]

theorem dependentsOf_of_none (hget : p.uidToNode.lookup uid = none) :
    p.dependentsOf uid = none := by
  rw [dependentsOf, hget, map_none]

theorem dependentsOf_setDependents (hwf : p.WellFormed)
    (hget : p.uidToNode.lookup other = some u) (dependents : Finset Pointer) (uid : UID) :
    (p.setDependents u dependents).dependentsOf uid =
      if uid = other then some dependents else p.dependentsOf uid := by
  have hsame : (p.setDependents u dependents).uidToNode = p.uidToNode := rfl
  split_ifs with huid
  · rw [huid, dependentsOf_of_lookup (n := u) (by rw [hsame, hget]), setDependents_nodes_self]
  · cases hn : p.uidToNode.lookup uid with
    | none => rw [dependentsOf_of_none hn, dependentsOf_of_none (by rw [hsame, hn])]
    | some n =>
      have hne : n ≠ u := by
        rintro rfl
        exact huid (hwf.uid_inj hn hget)
      rw [dependentsOf_of_lookup hn, dependentsOf_of_lookup (n := n) (by rw [hsame, hn]),
        setDependents_nodes_of_ne hne]

section Write

variable {identity : ObjectReference} {owners : List OwnerReference}

theorem write_nodes_next : (p.write identity owners).nodes p.next = ⟨identity, ∅, owners⟩ :=
  update_self ..

theorem write_nodes_of_ne (hne : n ≠ p.next) : (p.write identity owners).nodes n = p.nodes n :=
  update_of_ne hne ..

theorem lookup_write (uid : UID) :
    (p.write identity owners).uidToNode.lookup uid =
      if uid = identity.uid then some p.next else p.uidToNode.lookup uid :=
  Map.lookup_insert ..

theorem wellFormed_write (hwf : p.WellFormed) : (p.write identity owners).WellFormed where
  lt uid n hget := by
    rw [lookup_write] at hget
    split_ifs at hget
    · cases hget
      exact Nat.lt_succ_self _
    · exact (hwf.lt uid n hget).trans (Nat.lt_succ_self _)
  uid uid n hget := by
    rw [lookup_write] at hget
    split_ifs at hget with huid
    · cases hget
      rw [write_nodes_next, huid]
    · rw [write_nodes_of_ne (hwf.lt uid n hget).ne, hwf.uid uid n hget]

theorem grows_write (hfresh : p.uidToNode.lookup identity.uid = none) :
    p.Grows (p.write identity []) where
  next_le := Nat.le_succ _
  identity n hn := by rw [write_nodes_of_ne hn.ne]
  owners n hn := by rw [write_nodes_of_ne hn.ne]
  lookup key n hget := by
    rw [lookup_write, if_neg]
    · exact hget
    · rintro rfl
      rw [hfresh] at hget
      cases hget
  created key n hget := by
    rw [lookup_write] at hget
    split_ifs at hget with hkey
    · cases hget
      refine .inr ⟨le_rfl, Nat.lt_succ_self _, ?_, ?_⟩
      · rw [write_nodes_next]
      · rw [write_nodes_next, hkey]
    · exact .inl hget
  dirtyQueue := List.prefix_rfl

theorem dependentsOf_write (hwf : p.WellFormed) (uid : UID) :
    (p.write identity owners).dependentsOf uid =
      if uid = identity.uid then some ∅ else p.dependentsOf uid := by
  have hget : (p.write identity owners).uidToNode.lookup uid =
      if uid = identity.uid then some p.next else p.uidToNode.lookup uid :=
    lookup_write uid
  split_ifs at hget ⊢ with huid
  · rw [dependentsOf_of_lookup hget, write_nodes_next]
  · cases hn : p.uidToNode.lookup uid with
    | none => rw [dependentsOf_of_none hn, dependentsOf_of_none (hget.trans hn)]
    | some n =>
      rw [dependentsOf_of_lookup hn, dependentsOf_of_lookup (hget.trans hn),
        write_nodes_of_ne (hwf.lt uid n hn).ne]

end Write

theorem grows_enqueue (p : Propagator) (more : List Pointer) :
    p.Grows { p with dirtyQueue := p.dirtyQueue ++ more } where
  next_le := le_rfl
  identity _ _ := rfl
  owners _ _ := rfl
  lookup _ _ hget := hget
  created _ _ hget := .inl hget
  dirtyQueue := List.prefix_append _ _

theorem addDependentToOwner_spec (hwf : p.WellFormed) (n : Pointer) (owner : OwnerReference) :
    p.Grows (addDependentToOwner n p owner) ∧
      ∀ uid, (addDependentToOwner n p owner).dependentsOf uid =
        if uid = owner.uid then some (insert n ((p.dependentsOf uid).getD ∅))
        else p.dependentsOf uid := by
  cases hget : p.uidToNode.lookup owner.uid with
  | some ownerNode =>
    have heq : addDependentToOwner n p owner =
        p.setDependents ownerNode (insert n (p.nodes ownerNode).dependents) := by
      rw [addDependentToOwner, hget]
      rfl
    rw [heq]
    refine ⟨grows_setDependents .., fun uid ↦ ?_⟩
    rw [dependentsOf_setDependents hwf hget]
    split_ifs with huid
    · rw [huid, dependentsOf_of_lookup hget, getD_some]
    · rfl
  | none =>
    let virtual : Propagator := p.write ⟨owner, (p.nodes n).identity.ns⟩ []
    let queued : Propagator := { virtual with dirtyQueue := virtual.dirtyQueue ++ [p.next] }
    have heq : addDependentToOwner n p owner =
        queued.setDependents p.next (insert n (queued.nodes p.next).dependents) := by
      rw [addDependentToOwner, hget]
      rfl
    have hvirtual : p.Grows virtual := grows_write hget
    have hqueued : p.Grows queued := hvirtual.trans (grows_enqueue virtual _)
    have hnode : queued.uidToNode.lookup owner.uid = some p.next :=
      (@lookup_write p _ [] owner.uid).trans (if_pos rfl)
    have hempty : (queued.nodes p.next).dependents = ∅ :=
      congrArg Node.dependents (write_nodes_next (p := p))
    rw [heq, hempty]
    refine ⟨hqueued.trans (grows_setDependents ..), fun uid ↦ ?_⟩
    rw [dependentsOf_setDependents (hqueued.wellFormed hwf) hnode]
    split_ifs with huid
    · rw [huid, dependentsOf_of_none hget, getD_none]
    · exact (dependentsOf_write hwf uid).trans (if_neg huid)

variable {refs : List OwnerReference}

theorem mem_uids : uid ∈ uids refs ↔ ∃ ref ∈ refs, ref.uid = uid := by
  simp [uids]

theorem uids_cons (ref : OwnerReference) (refs : List OwnerReference) :
    uids (ref :: refs) = insert ref.uid (uids refs) := by
  simp [uids]

/-- A loop over the owners does to the dependents of each of them what one iteration does. -/
theorem foldl_owners_spec {f : Propagator → OwnerReference → Propagator}
    {b : Option (Finset Pointer) → Option (Finset Pointer)}
    (hbody : ∀ {p : Propagator}, p.WellFormed → ∀ owner, p.Grows (f p owner) ∧
      ∀ uid, (f p owner).dependentsOf uid =
        if uid = owner.uid then b (p.dependentsOf uid) else p.dependentsOf uid)
    (htwice : ∀ dependents, b (b dependents) = b dependents)
    (hwf : p.WellFormed) (owners : List OwnerReference) :
    p.Grows (owners.foldl f p) ∧
      ∀ uid, (owners.foldl f p).dependentsOf uid =
        if uid ∈ uids owners then b (p.dependentsOf uid) else p.dependentsOf uid := by
  induction owners generalizing p with
  | nil => exact ⟨.refl p, fun uid ↦ by simp [uids]⟩
  | cons owner owners ih =>
    obtain ⟨hgrows, hfirst⟩ := hbody hwf owner
    obtain ⟨hrest, hdeps⟩ := ih (hgrows.wellFormed hwf)
    refine ⟨hgrows.trans hrest, fun uid ↦ ?_⟩
    rw [List.foldl_cons, hdeps, hfirst, uids_cons]
    by_cases huid : uid = owner.uid <;> simp [huid, htwice]

theorem addDependentToOwners_spec (hwf : p.WellFormed) (n : Pointer)
    (owners : List OwnerReference) :
    p.Grows (p.addDependentToOwners n owners) ∧
      ∀ uid, (p.addDependentToOwners n owners).dependentsOf uid =
        if uid ∈ uids owners then some (insert n ((p.dependentsOf uid).getD ∅))
        else p.dependentsOf uid := by
  refine foldl_owners_spec (b := fun dependents ↦ some (insert n (dependents.getD ∅)))
    (fun hwf ↦ addDependentToOwner_spec hwf n) (fun _ ↦ ?_) hwf owners
  simp

variable {owner : OwnerReference}

theorem removeDependentFromOwner_of_lookup (hget : p.uidToNode.lookup owner.uid = some u) :
    removeDependentFromOwner n p owner =
      p.setDependents u ((p.nodes u).dependents.erase n) := by
  rw [removeDependentFromOwner, hget]
  rfl

theorem removeDependentFromOwner_of_none (hget : p.uidToNode.lookup owner.uid = none) :
    removeDependentFromOwner n p owner = p := by
  rw [removeDependentFromOwner, hget]

theorem removeDependentFromOwner_spec (hwf : p.WellFormed) (n : Pointer) (owner : OwnerReference) :
    p.Grows (removeDependentFromOwner n p owner) ∧
      ∀ uid, (removeDependentFromOwner n p owner).dependentsOf uid =
        if uid = owner.uid then (p.dependentsOf uid).map (·.erase n) else p.dependentsOf uid := by
  cases hget : p.uidToNode.lookup owner.uid with
  | some ownerNode =>
    rw [removeDependentFromOwner_of_lookup hget]
    refine ⟨grows_setDependents .., fun uid ↦ ?_⟩
    rw [dependentsOf_setDependents hwf hget]
    split_ifs with huid
    · rw [huid, dependentsOf_of_lookup hget, map_some]
    · rfl
  | none =>
    rw [removeDependentFromOwner_of_none hget]
    refine ⟨.refl p, fun uid ↦ ?_⟩
    split_ifs with huid
    · rw [huid, dependentsOf_of_none hget, map_none]
    · rfl

theorem removeDependentFromOwners_spec (hwf : p.WellFormed) (n : Pointer)
    (owners : List OwnerReference) :
    p.Grows (p.removeDependentFromOwners n owners) ∧
      ∀ uid, (p.removeDependentFromOwners n owners).dependentsOf uid =
        if uid ∈ uids owners then (p.dependentsOf uid).map (·.erase n)
        else p.dependentsOf uid := by
  refine foldl_owners_spec (b := Option.map (·.erase n))
    (fun hwf ↦ removeDependentFromOwner_spec hwf n) ?_ hwf owners
  intro dependents
  cases dependents <;> simp

/-! ## Insertion, update and deletion of a node -/

theorem insertNode_spec (hwf : p.WellFormed) {identity : ObjectReference}
    {owners : List OwnerReference} (hfresh : p.uidToNode.lookup identity.uid = none) :
    (p.insertNode identity owners).WellFormed ∧
      (∀ v uid, (p.insertNode identity owners).Lists v uid ↔
        p.Lists v uid ∨ v = p.next ∧ uid ∈ uids owners) ∧
      ∀ uid, (p.insertNode identity owners).dependentsOf uid =
        if uid ∈ uids owners then some (insert p.next ((p.dependentsOf uid).getD ∅))
        else if uid = identity.uid then some ∅ else p.dependentsOf uid := by
  have hwrite : (p.write identity owners).WellFormed := wellFormed_write hwf
  obtain ⟨hgrows, hdeps⟩ := addDependentToOwners_spec hwrite p.next owners
  refine ⟨hgrows.wellFormed hwrite, fun v uid ↦ (hgrows.lists_iff hwrite).trans ?_, fun uid ↦ ?_⟩
  · constructor
    · rintro ⟨⟨key, hkey⟩, hmem⟩
      rw [lookup_write] at hkey
      split_ifs at hkey
      · cases hkey
        rw [write_nodes_next] at hmem
        exact .inr ⟨rfl, hmem⟩
      · rw [write_nodes_of_ne (hwf.lt key v hkey).ne] at hmem
        exact .inl ⟨⟨key, hkey⟩, hmem⟩
    · rintro (⟨⟨key, hkey⟩, hmem⟩ | ⟨rfl, hmem⟩)
      · refine ⟨⟨key, ?_⟩, ?_⟩
        · rw [lookup_write, if_neg]
          · exact hkey
          · rintro rfl
            rw [hfresh] at hkey
            cases hkey
        · rw [write_nodes_of_ne (hwf.lt key v hkey).ne]
          exact hmem
      · refine ⟨⟨identity.uid, (lookup_write _).trans (if_pos rfl)⟩, ?_⟩
        rw [write_nodes_next]
        exact hmem
  · rw [insertNode, hdeps, dependentsOf_write hwf]
    by_cases huid : uid = identity.uid
    · rw [if_pos huid, huid, dependentsOf_of_none hfresh]
      rfl
    · rw [if_neg huid]

theorem lookup_uidToRef (refs : List OwnerReference) (uid : UID) :
    (uid ∈ uids refs → ∃ ref, (uidToRef refs).lookup uid = some ref) ∧
      ∀ ref, (uidToRef refs).lookup uid = some ref → ref.uid = uid := by
  induction refs using List.reverseRecOn with
  | nil => simp [uids, uidToRef]
  | append_singleton refs last ih =>
    have hinsert : uidToRef (refs ++ [last]) = Finmap.insert last.uid last (uidToRef refs) := by
      rw [uidToRef, List.foldl_append]
      rfl
    rw [hinsert, Map.lookup_insert]
    split_ifs with huid
    · refine ⟨fun _ ↦ ⟨last, rfl⟩, fun ref href ↦ ?_⟩
      cases href
      exact huid.symm
    · refine ⟨fun hmem ↦ ih.1 ?_, ih.2⟩
      obtain ⟨ref, href, hrefUid⟩ := mem_uids.mp hmem
      refine mem_uids.mpr ⟨ref, ?_, hrefUid⟩
      rcases List.mem_append.mp href with hrefs | hlast
      · exact hrefs
      · rw [List.mem_singleton.mp hlast] at hrefUid
        exact absurd hrefUid.symm huid

theorem uids_filterMap {order : List UID} (horder : ∀ uid ∈ order, uid ∈ uids refs) :
    uids (order.filterMap fun uid ↦ (uidToRef refs).lookup uid) = order.toFinset := by
  ext uid
  rw [mem_uids, List.mem_toFinset]
  constructor
  · rintro ⟨ref, href, rfl⟩
    obtain ⟨key, hkey, hget⟩ := List.mem_filterMap.mp href
    rw [(lookup_uidToRef refs key).2 ref hget]
    exact hkey
  · intro hmem
    obtain ⟨ref, hget⟩ := (lookup_uidToRef refs uid).1 (horder uid hmem)
    exact ⟨ref, List.mem_filterMap.mpr ⟨uid, hmem, hget⟩,
      (lookup_uidToRef refs uid).2 ref hget⟩

variable {loops : Loops}

/-- An update of the owners of a graph node moves it between the dependents of the owners. -/
theorem updateOwners_spec (hwf : p.WellFormed) (hgraph : p.InGraph n)
    (hadded : loops.added.toFinset = uids refs \ uids (p.nodes n).owners)
    (hremoved : loops.removed.toFinset = uids (p.nodes n).owners \ uids refs) :
    (p.updateOwners loops n refs).WellFormed ∧
      (∀ v uid, (p.updateOwners loops n refs).Lists v uid ↔
        if v = n then uid ∈ uids refs else p.Lists v uid) ∧
      ∀ uid, (p.updateOwners loops n refs).dependentsOf uid =
        if uid ∈ uids refs \ uids (p.nodes n).owners then
          some (insert n ((p.dependentsOf uid).getD ∅))
        else if uid ∈ uids (p.nodes n).owners \ uids refs then
          (p.dependentsOf uid).map (·.erase n)
        else p.dependentsOf uid := by
  have haddedRefs : uids (referencesDiffs loops (p.nodes n).owners refs).1 =
      uids refs \ uids (p.nodes n).owners := by
    rw [referencesDiffs, uids_filterMap, hadded]
    intro uid huid
    exact (mem_sdiff.mp (hadded ▸ List.mem_toFinset.mpr huid)).1
  have hremovedRefs : uids (referencesDiffs loops (p.nodes n).owners refs).2 =
      uids (p.nodes n).owners \ uids refs := by
    rw [referencesDiffs, uids_filterMap, hremoved]
    intro uid huid
    exact (mem_sdiff.mp (hremoved ▸ List.mem_toFinset.mpr huid)).1
  rw [updateOwners]
  generalize referencesDiffs loops (p.nodes n).owners refs = diffs at haddedRefs hremovedRefs
  obtain ⟨added, removed⟩ := diffs
  dsimp only at haddedRefs hremovedRefs ⊢
  rw [← haddedRefs, ← hremovedRefs]
  split_ifs with hsame
  · obtain ⟨rfl, rfl⟩ := hsame
    have heq : uids refs = uids (p.nodes n).owners :=
      (sdiff_eq_empty_iff_subset.mp haddedRefs.symm).antisymm
        (sdiff_eq_empty_iff_subset.mp hremovedRefs.symm)
    refine ⟨hwf, fun v uid ↦ ?_, fun uid ↦ by simp [uids]⟩
    split_ifs with hv
    · rw [hv, heq]
      exact ⟨fun hlists ↦ hlists.2, fun hmem ↦ ⟨hgraph, hmem⟩⟩
    · exact Iff.rfl
  · let recorded : Propagator :=
      { p with nodes := Function.update p.nodes n { p.nodes n with owners := refs } }
    have hother : ∀ v, v ≠ n → recorded.nodes v = p.nodes v := fun v hv ↦ update_of_ne hv ..
    have hself : recorded.nodes n = { p.nodes n with owners := refs } := update_self ..
    have hdeps : ∀ uid, recorded.dependentsOf uid = p.dependentsOf uid := by
      intro uid
      cases hget : p.uidToNode.lookup uid with
      | none => rw [dependentsOf_of_none hget, dependentsOf_of_none (p := recorded) hget]
      | some v =>
        rw [dependentsOf_of_lookup hget, dependentsOf_of_lookup (p := recorded) hget]
        by_cases hv : v = n
        · rw [hv, hself]
        · rw [hother v hv]
    have hrec : recorded.WellFormed := by
      refine ⟨hwf.lt, fun uid v hget ↦ ?_⟩
      have huid := hwf.uid uid v hget
      by_cases hv : v = n
      · rw [hv, hself]
        exact hv ▸ huid
      · rw [hother v hv, huid]
    obtain ⟨hgrowsAdd, hadd⟩ := addDependentToOwners_spec hrec n added
    obtain ⟨hgrowsRemove, hrem⟩ :=
      removeDependentFromOwners_spec (hgrowsAdd.wellFormed hrec) n removed
    have hgrows := hgrowsAdd.trans hgrowsRemove
    refine ⟨hgrows.wellFormed hrec, fun v uid ↦ (hgrows.lists_iff hrec).trans ?_,
      fun uid ↦ ?_⟩
    · split_ifs with hv
      · rw [hv]
        refine ⟨fun hlists ↦ ?_, fun hmem ↦ ⟨hgraph, ?_⟩⟩
        · exact (congrArg (fun node : Node ↦ uid ∈ uids node.owners) hself).mp hlists.2
        · exact (congrArg (fun node : Node ↦ uid ∈ uids node.owners) hself).mpr hmem
      · exact and_congr_right' (by rw [hother v hv])
    · have hdisjoint : uid ∈ uids removed → uid ∉ uids added := by
        rw [haddedRefs, hremovedRefs, mem_sdiff, mem_sdiff]
        exact fun hin hout ↦ hin.2 hout.1
      rw [hrem, hadd, hdeps]
      by_cases hin : uid ∈ uids added
      · rw [if_neg fun hout ↦ hdisjoint hout hin, if_pos hin, if_pos hin]
      · rw [if_neg hin, if_neg hin]

theorem removeDependentFromOwners_nodes (hout : ¬ p.InGraph u) (owners : List OwnerReference) :
    (p.removeDependentFromOwners n owners).nodes u = p.nodes u := by
  induction owners generalizing p with
  | nil => rfl
  | cons owner owners ih =>
    rw [removeDependentFromOwners, List.foldl_cons, ← removeDependentFromOwners]
    cases hget : p.uidToNode.lookup owner.uid with
    | some ownerNode =>
      have hne : u ≠ ownerNode := by
        rintro rfl
        exact hout ⟨_, hget⟩
      rw [removeDependentFromOwner_of_lookup hget, ih (p := p.setDependents ownerNode _) hout,
        setDependents_nodes_of_ne hne]
    | none => rw [removeDependentFromOwner_of_none hget, ih hout]

theorem removeNode_spec (hwf : p.WellFormed) (hget : p.uidToNode.lookup uid = some n) :
    (p.removeNode n).WellFormed ∧
      (∀ v key, (p.removeNode n).Lists v key ↔ p.Lists v key ∧ v ≠ n) ∧
      (∀ key, (p.removeNode n).dependentsOf key =
        if key = uid then none
        else if key ∈ uids (p.nodes n).owners then (p.dependentsOf key).map (·.erase n)
        else p.dependentsOf key) ∧
      p.dirtyQueue <+: (p.removeNode n).dirtyQueue ∧
      ((p.removeNode n).nodes n).dependents = (p.nodes n).dependents := by
  let erased : Propagator := { p with uidToNode := Finmap.erase uid p.uidToNode }
  have hrem : p.removeNode n = erased.removeDependentFromOwners n (p.nodes n).owners := by
    rw [removeNode, hwf.uid uid n hget]
  have herased : ∀ key, erased.uidToNode.lookup key =
      if key = uid then none else p.uidToNode.lookup key :=
    fun key ↦ Map.lookup_erase ..
  have hsub : ∀ key v, erased.uidToNode.lookup key = some v →
      key ≠ uid ∧ p.uidToNode.lookup key = some v := by
    intro key v hv
    rw [herased] at hv
    split_ifs at hv with hkey
    exact ⟨hkey, hv⟩
  have hwfErased : erased.WellFormed :=
    ⟨fun key v hv ↦ hwf.lt key v (hsub key v hv).2, fun key v hv ↦ hwf.uid key v (hsub key v hv).2⟩
  have hout : ¬ erased.InGraph n := by
    rintro ⟨key, hkey⟩
    obtain ⟨hne, hp⟩ := hsub key n hkey
    exact hne (hwf.uid_inj hp hget)
  obtain ⟨hgrows, hdeps⟩ :=
    removeDependentFromOwners_spec hwfErased n (p.nodes n).owners
  rw [hrem]
  refine ⟨hgrows.wellFormed hwfErased, fun v key ↦ (hgrows.lists_iff hwfErased).trans ?_,
    fun key ↦ ?_, hgrows.dirtyQueue, ?_⟩
  · constructor
    · rintro ⟨⟨at_, hat⟩, hmem⟩
      refine ⟨⟨⟨at_, (hsub at_ v hat).2⟩, hmem⟩, ?_⟩
      rintro rfl
      exact hout ⟨at_, hat⟩
    · rintro ⟨⟨⟨at_, hat⟩, hmem⟩, hne⟩
      refine ⟨⟨at_, ?_⟩, hmem⟩
      rw [herased, if_neg]
      · exact hat
      · rintro rfl
        exact hne (Option.some.inj (hat.symm.trans hget))
  · rw [hdeps]
    by_cases hkey : key = uid
    · rw [if_pos hkey, hkey, dependentsOf_of_none (p := erased) (by rw [herased, if_pos rfl]),
        map_none, ite_self]
    · have hsame : erased.dependentsOf key = p.dependentsOf key := by
        rw [dependentsOf, dependentsOf, herased, if_neg hkey]
      rw [if_neg hkey, hsame]
  · rw [removeDependentFromOwners_nodes hout]

/-! ## Runs -/

/-- A deletion event for the UID puts the node into the dirty queue. -/
def Enqueues (p : Propagator) (event : Event) (q : Propagator) (v : Pointer) (uid : UID) : Prop :=
  event.eventType = .deleteEvent ∧ event.obj.uid = uid ∧ v ∈ q.dirtyQueue.drop p.dirtyQueue.length

/-- A run from an empty graph, with the events and the states before them, the last one first. -/
inductive History : List (Propagator × Event) → Propagator → Prop
  | start : History [] .new
  | next {history : List (Propagator × Event)} {p q : Propagator} {event : Event} :
      History history p → p.Step event q → History ((p, event) :: history) q

/-- A deletion event for the UID has put the node into the dirty queue, and the node has listed the
UID since. -/
def NotifiedSince (v : Pointer) (uid : UID) : List (Propagator × Event) → Propagator → Prop
  | [], _ => False
  | (p, event) :: history, q =>
    q.Lists v uid ∧ (p.Lists v uid ∧ p.Enqueues event q v uid ∨ NotifiedSince v uid history p)

/-- What the graph records, as a fact about one state and its history. -/
structure Recorded (history : List (Propagator × Event)) (p : Propagator) : Prop where
  wellFormed : p.WellFormed
  lists : ∀ uid dependents, p.dependentsOf uid = some dependents → ∀ v ∈ dependents, p.Lists v uid
  dependents : ∀ v uid, p.Lists v uid →
    (∃ dependents, p.dependentsOf uid = some dependents ∧ v ∈ dependents) ∨
      NotifiedSince v uid history p

section Step

variable {history : List (Propagator × Event)} {event : Event} {refs : List OwnerReference}

theorem recorded_new : Recorded [] .new where
  wellFormed := wellFormed_new
  lists uid dependents hdeps := by simp [dependentsOf, new] at hdeps
  dependents v uid hlists := by
    obtain ⟨⟨key, hkey⟩, -⟩ := hlists
    simp [new] at hkey

section

variable (hrec : Recorded history p)

include hrec

theorem Recorded.inserted (hq : q.WellFormed)
    (hlists : ∀ v uid, q.Lists v uid ↔ p.Lists v uid ∨ v = p.next ∧ uid ∈ uids refs)
    (hfresh : p.dependentsOf other = none) (hdeps : ∀ uid, q.dependentsOf uid =
      if uid ∈ uids refs then some (insert p.next ((p.dependentsOf uid).getD ∅))
      else if uid = other then some ∅ else p.dependentsOf uid) :
    Recorded ((p, event) :: history) q where
  wellFormed := hq
  lists uid dependents heq v hv := by
    rw [hlists]
    rw [hdeps] at heq
    split_ifs at heq with hmem huid
    · rw [← Option.some.inj heq] at hv
      rcases mem_insert.mp hv with rfl | hv
      · exact .inr ⟨rfl, hmem⟩
      · cases hold : p.dependentsOf uid with
        | none => simp [hold] at hv
        | some before =>
          rw [hold] at hv
          exact .inl (hrec.lists uid before hold v hv)
    · rw [← Option.some.inj heq] at hv
      simp at hv
    · exact .inl (hrec.lists uid dependents heq v hv)
  dependents v uid hlistsQ := by
    rw [hdeps]
    rcases (hlists v uid).mp hlistsQ with hold | ⟨rfl, hmem⟩
    · rcases hrec.dependents v uid hold with ⟨before, hbefore, hv⟩ | hnotified
      · refine .inl ?_
        rw [hbefore]
        split_ifs with hmem huid
        · exact ⟨_, rfl, mem_insert_of_mem hv⟩
        · rw [huid, hfresh] at hbefore
          cases hbefore
        · exact ⟨before, rfl, hv⟩
      · exact .inr ⟨hlistsQ, .inr hnotified⟩
    · rw [if_pos hmem]
      exact .inl ⟨_, rfl, mem_insert_self ..⟩

theorem Recorded.updated (hgraph : p.InGraph n) (hq : q.WellFormed)
    (hlists : ∀ v uid, q.Lists v uid ↔ if v = n then uid ∈ uids refs else p.Lists v uid)
    (hdeps : ∀ uid, q.dependentsOf uid =
      if uid ∈ uids refs \ uids (p.nodes n).owners then some (insert n ((p.dependentsOf uid).getD ∅))
      else if uid ∈ uids (p.nodes n).owners \ uids refs then (p.dependentsOf uid).map (·.erase n)
      else p.dependentsOf uid) : Recorded ((p, event) :: history) q where
  wellFormed := hq
  lists uid dependents heq v hv := by
    rw [hdeps] at heq
    rw [hlists]
    by_cases hvn : v = n
    · rw [if_pos hvn]
      split_ifs at heq with hadded hremoved
      · exact (mem_sdiff.mp hadded).1
      · obtain ⟨before, hbefore, rfl⟩ := map_eq_some_iff.mp heq
        exact absurd hvn (ne_of_mem_erase hv)
      · have hold := (hrec.lists uid dependents heq v hv).2
        rw [hvn] at hold
        by_contra hmem
        exact hremoved (mem_sdiff.mpr ⟨hold, hmem⟩)
    · rw [if_neg hvn]
      split_ifs at heq with hadded hremoved
      · rw [← Option.some.inj heq] at hv
        have hold := (mem_insert.mp hv).resolve_left hvn
        cases hbefore : p.dependentsOf uid with
        | none => simp [hbefore] at hold
        | some before =>
          rw [hbefore] at hold
          exact hrec.lists uid before hbefore v hold
      · obtain ⟨before, hbefore, rfl⟩ := map_eq_some_iff.mp heq
        exact hrec.lists uid before hbefore v (mem_of_mem_erase hv)
      · exact hrec.lists uid dependents heq v hv
  dependents v uid hlistsQ := by
    have hmem := (hlists v uid).mp hlistsQ
    by_cases hadded : uid ∈ uids refs \ uids (p.nodes n).owners ∧ v = n
    · rw [hdeps, if_pos hadded.1, hadded.2]
      exact .inl ⟨_, rfl, mem_insert_self ..⟩
    · -- Every other node listed the UID before the update.
      have hold : p.Lists v uid := by
        split_ifs at hmem with hv
        · rw [hv]
          refine ⟨hgraph, ?_⟩
          by_contra hout
          exact hadded ⟨mem_sdiff.mpr ⟨hmem, hout⟩, hv⟩
        · exact hmem
      rcases hrec.dependents v uid hold with ⟨before, hbefore, hv⟩ | hnotified
      · refine .inl ?_
        rw [hdeps, hbefore]
        split_ifs with hin hout
        · exact ⟨_, rfl, mem_insert_of_mem hv⟩
        · refine ⟨_, rfl, mem_erase.mpr ⟨?_, hv⟩⟩
          rintro rfl
          rw [if_pos rfl] at hmem
          exact (mem_sdiff.mp hout).2 hmem
        · exact ⟨before, rfl, hv⟩
      · exact .inr ⟨hlistsQ, .inr hnotified⟩

theorem Recorded.deleted (hget : p.uidToNode.lookup uid = some n) (hq : q.WellFormed)
    (hlists : ∀ v key, q.Lists v key ↔ p.Lists v key ∧ v ≠ n)
    (hdeps : ∀ key, q.dependentsOf key =
      if key = uid then none
      else if key ∈ uids (p.nodes n).owners then (p.dependentsOf key).map (·.erase n)
      else p.dependentsOf key)
    (henqueues : ∀ v ∈ (p.nodes n).dependents, p.Enqueues event q v uid) :
    Recorded ((p, event) :: history) q where
  wellFormed := hq
  lists key dependents heq v hv := by
    rw [hdeps] at heq
    rw [hlists]
    split_ifs at heq with hkey hmem
    · obtain ⟨before, hbefore, rfl⟩ := map_eq_some_iff.mp heq
      exact ⟨hrec.lists key before hbefore v (mem_of_mem_erase hv), ne_of_mem_erase hv⟩
    · have hold := hrec.lists key dependents heq v hv
      refine ⟨hold, ?_⟩
      rintro rfl
      exact hmem hold.2
  dependents v key hlistsQ := by
    obtain ⟨hold, hne⟩ := (hlists v key).mp hlistsQ
    rcases hrec.dependents v key hold with ⟨before, hbefore, hv⟩ | hnotified
    · rw [hdeps, hbefore]
      split_ifs with hkey hmem
      · rw [hkey, dependentsOf_of_lookup hget] at hbefore
        rw [← Option.some.inj hbefore] at hv
        exact .inr ⟨hlistsQ, .inl ⟨hold, hkey ▸ henqueues v hv⟩⟩
      · exact .inl ⟨_, rfl, mem_erase.mpr ⟨hne, hv⟩⟩
      · exact .inl ⟨before, rfl, hv⟩
    · exact .inr ⟨hlistsQ, .inr hnotified⟩

theorem Recorded.same : Recorded ((p, event) :: history) p where
  wellFormed := hrec.wellFormed
  lists := hrec.lists
  dependents v uid hlists :=
    (hrec.dependents v uid hlists).imp_right fun hnotified ↦ ⟨hlists, .inr hnotified⟩

end

theorem addToOrphanQueue_eq (p : Propagator) (orphan : Bool) (n : Pointer) :
    ∃ queue, p.addToOrphanQueue orphan n = { p with orphanQueue := queue } := by
  cases orphan with
  | true => exact ⟨_, rfl⟩
  | false => exact ⟨p.orphanQueue, rfl⟩

section

variable (hrec : Recorded history p)

include hrec

theorem Recorded.orphaned {queue : List Pointer} :
    Recorded history { p with orphanQueue := queue } where
  wellFormed := { hrec.wellFormed with }
  lists := hrec.lists
  dependents v uid hlists := by
    refine (hrec.dependents v uid hlists).imp_right fun hnotified ↦ ?_
    cases history <;> exact hnotified

theorem Recorded.insertion (hget : p.uidToNode.lookup event.obj.uid = none) :
    Recorded ((p, event) :: history)
      (p.insertNode event.obj.toObjectReference event.obj.ownerReferences
        |>.addToOrphanQueue (shouldOrphanDependents event event.obj) p.next) := by
  obtain ⟨hwf, hlists, hdeps⟩ := @insertNode_spec p hrec.wellFormed
    event.obj.toObjectReference event.obj.ownerReferences hget
  obtain ⟨queue, hqueue⟩ := addToOrphanQueue_eq
    (p.insertNode event.obj.toObjectReference event.obj.ownerReferences)
    (shouldOrphanDependents event event.obj) p.next
  rw [hqueue]
  exact (hrec.inserted hwf hlists (dependentsOf_of_none hget) hdeps).orphaned

section

variable (hvisit : loops.Visit p event) (hget : p.uidToNode.lookup event.obj.uid = some n)

include hvisit hget

theorem Recorded.update :
    Recorded ((p, event) :: history)
      (p.addToOrphanQueue (shouldOrphanDependents event event.obj) n
        |>.updateOwners loops n event.obj.ownerReferences) := by
  obtain ⟨queue, hqueue⟩ :=
    addToOrphanQueue_eq p (shouldOrphanDependents event event.obj) n
  rw [hqueue]
  have hgraph : p.InGraph n := ⟨_, hget⟩
  have hwf : WellFormed { p with orphanQueue := queue } :=
    { hrec.wellFormed with }
  obtain ⟨hwf', hlists, hdeps⟩ := updateOwners_spec hwf hgraph
    (hvisit.added n hget).2 (hvisit.removed n hget).2
  exact hrec.updated hgraph hwf' hlists hdeps

theorem Recorded.deletion (htype : event.eventType = .deleteEvent) :
    Recorded ((p, event) :: history) (p.deleteNode loops n event.obj.uid) := by
  obtain ⟨hwf, hlists, hdeps, hqueue, hsame⟩ :=
    removeNode_spec hrec.wellFormed hget
  refine hrec.deleted hget { hwf with } hlists hdeps fun v hv ↦
    ⟨htype, rfl, ?_⟩
  have hvisited : v ∈ loops.dependents := by
    rw [← List.mem_toFinset, (hvisit.dependents n hget).2, hsame]
    exact hv
  have hdrop : (p.deleteNode loops n event.obj.uid).dirtyQueue.drop p.dirtyQueue.length =
      (p.removeNode n).dirtyQueue.drop p.dirtyQueue.length ++ loops.dependents :=
    List.drop_append_of_le_length hqueue.length_le
  rw [hdrop]
  exact List.mem_append_right _ hvisited

end

theorem Recorded.step (hstep : p.Step event q) : Recorded ((p, event) :: history) q := by
  obtain ⟨loops, hvisit, rfl⟩ := hstep
  rw [processEvent]
  cases htype : event.eventType <;> cases hget : p.uidToNode.lookup event.obj.uid
  case addEvent.none => exact hrec.insertion hget
  case addEvent.some n => exact hrec.update hvisit hget
  case updateEvent.none => exact hrec.insertion hget
  case updateEvent.some n => exact hrec.update hvisit hget
  case deleteEvent.none => exact hrec.same
  case deleteEvent.some n => exact hrec.deletion hvisit hget htype

end

theorem History.recorded (hhist : History history p) : Recorded history p := by
  induction hhist with
  | start => exact recorded_new
  | next _ hstep ih => exact ih.step hstep

theorem dependentsOf_of_deleteEvent (hrec : Recorded history p) (hstep : p.Step event q)
    (htype : event.eventType = .deleteEvent) : q.dependentsOf event.obj.uid = none := by
  obtain ⟨loops, hvisit, rfl⟩ := hstep
  rw [processEvent, htype]
  cases hget : p.uidToNode.lookup event.obj.uid with
  | none => exact dependentsOf_of_none hget
  | some n =>
    obtain ⟨-, -, hdeps, -⟩ := removeNode_spec hrec.wellFormed hget
    exact (hdeps event.obj.uid).trans (if_pos rfl)

/-- In every run the dependents of a graph node are graph nodes that list its UID.  A node that
lists it is among them, unless a deletion event has put it into the dirty queue since.  After a
deletion event all nodes that list the UID have been put there. -/
theorem History.ownership_graph (hhist : History history p) :
    (∀ u v, p.InGraph u → v ∈ (p.nodes u).dependents → p.Lists v (p.nodes u).identity.uid) ∧
    (∀ u v, p.InGraph u → p.Lists v (p.nodes u).identity.uid →
      v ∈ (p.nodes u).dependents ∨ NotifiedSince v (p.nodes u).identity.uid history p) ∧
    ∀ event q, p.Step event q → event.eventType = .deleteEvent →
      ∀ v, q.Lists v event.obj.uid → NotifiedSince v event.obj.uid ((p, event) :: history) q := by
  have hrec := hhist.recorded
  have hnode : ∀ u, p.InGraph u →
      p.dependentsOf (p.nodes u).identity.uid = some (p.nodes u).dependents := by
    rintro u ⟨uid, hget⟩
    rw [hrec.wellFormed.uid uid u hget, dependentsOf_of_lookup hget]
  refine ⟨fun u v hu hv ↦ ?_, fun u v hu hlists ↦ ?_, fun event q hstep htype v hlists ↦ ?_⟩
  · exact hrec.lists _ _ (hnode u hu) v hv
  · refine (hrec.dependents v _ hlists).imp_left ?_
    rintro ⟨dependents, hdeps, hv⟩
    rw [hnode u hu] at hdeps
    exact Option.some.inj hdeps ▸ hv
  · have hnone := dependentsOf_of_deleteEvent hrec hstep htype
    refine ((hrec.step hstep).dependents v event.obj.uid hlists).resolve_left ?_
    rintro ⟨dependents, hdeps, -⟩
    rw [hnone] at hdeps
    cases hdeps

end Step

instance (loops : Loops) (p : Propagator) (event : Event) : Decidable (loops.Visit p event) :=
  decidable_of_iff (∀ n ∈ Finmap.lookup event.obj.uid p.uidToNode,
    (loops.added.Nodup ∧
      loops.added.toFinset = uids event.obj.ownerReferences \ uids (p.nodes n).owners) ∧
    (loops.removed.Nodup ∧
      loops.removed.toFinset = uids (p.nodes n).owners \ uids event.obj.ownerReferences) ∧
    loops.dependents.Nodup ∧ loops.dependents.toFinset = ((p.removeNode n).nodes n).dependents)
    ⟨fun h ↦ ⟨fun n hn ↦ (h n hn).1, fun n hn ↦ (h n hn).2.1, fun n hn ↦ (h n hn).2.2⟩,
      fun h n hn ↦ ⟨h.added n hn, h.removed n hn, h.dependents n hn⟩⟩

def sampleOwner : OwnerReference := ⟨"v1", "ReplicationController", "rc", "u"⟩

def sampleAdded (uid : UID) : Event :=
  ⟨.addEvent, ⟨⟨⟨"v1", "Pod", uid, uid⟩, "ns"⟩, [sampleOwner], false, []⟩, none⟩

def sampleDeleted : Event := ⟨.deleteEvent, ⟨⟨sampleOwner, "ns"⟩, [], false, []⟩, none⟩

def sampleFirst : Propagator := Propagator.new.processEvent ⟨[], [], []⟩ (sampleAdded "v")

def sampleSecond : Propagator := sampleFirst.processEvent ⟨[], [], [0]⟩ sampleDeleted

/-- A second dependent is observed, and its owner gets another virtual node. -/
def sampleThird : Propagator := sampleSecond.processEvent ⟨[], [], []⟩ (sampleAdded "w")

theorem sampleThird_history :
    History [(sampleSecond, sampleAdded "w"), (sampleFirst, sampleDeleted), (.new, sampleAdded "v")]
      sampleThird := by
  have hfirst : Propagator.new.Step (sampleAdded "v") sampleFirst :=
    ⟨⟨[], [], []⟩, by decide +kernel, rfl⟩
  have hsecond : sampleFirst.Step sampleDeleted sampleSecond :=
    ⟨⟨[], [], [0]⟩, by decide +kernel, rfl⟩
  have hthird : sampleSecond.Step (sampleAdded "w") sampleThird :=
    ⟨⟨[], [], []⟩, by decide +kernel, rfl⟩
  exact .next (.next (.next .start hfirst) hsecond) hthird

theorem sampleThird_graph :
    sampleThird.InGraph 3 ∧ (sampleThird.nodes 3).identity.uid = "u" ∧
      sampleThird.Lists 0 "u" ∧ 0 ∉ (sampleThird.nodes 3).dependents :=
  ⟨⟨"u", by decide +kernel⟩, by decide +kernel, ⟨⟨"v", by decide +kernel⟩, by decide +kernel⟩,
    by decide +kernel⟩

/-- The new node for the owner lacks the first dependent, but the deletion has put it into the dirty
queue. -/
theorem first_dependent_notified :
    sampleThird.Lists 0 "u" ∧ NotifiedSince 0 "u" [(sampleSecond, sampleAdded "w"),
      (sampleFirst, sampleDeleted), (.new, sampleAdded "v")] sampleThird := by
  obtain ⟨hgraph, huid, hlists, hmissing⟩ := sampleThird_graph
  have hnotified := sampleThird_history.ownership_graph.2.1 3 0 hgraph (huid ▸ hlists)
  exact ⟨hlists, hnotified.resolve_left hmissing⟩

/-- A graph node that lists the UID of another one need not be among its dependents. -/
theorem dependent_missing :
    ∃ history p, History history p ∧ ∃ u v, p.InGraph u ∧ p.InGraph v ∧
      (p.nodes u).identity.uid ∈ uids (p.nodes v).owners ∧ v ∉ (p.nodes u).dependents := by
  obtain ⟨hgraph, huid, hlists, hmissing⟩ := sampleThird_graph
  exact ⟨_, _, sampleThird_history, 3, 0, hgraph, hlists.1, huid ▸ hlists.2, hmissing⟩

end Propagator

end Kubernetes.GarbageCollector

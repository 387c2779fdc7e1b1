import Kubernetes.Client.InformerTarget

/-!
# Convergence of an informer after a relist

A drained informer has its target in the indexer, so the question is which target `Replace` sets.
`Replace` looks for deletions among the known objects only, and a `sync` is dropped when the newest
pending delta of the key is a deletion.  The target is the list exactly when neither matters.
-/

namespace Kubernetes.Client

open Finmap List

variable {Object : Type} {keyFunc : Object → Except String String} {next : InformerState Object}

namespace InformerState

theorem replace_cases (state : InformerState Object) (order : List String)
    (list : List (Obj Object)) :
    let listed := DeltaFIFO.replaceItems (config keyFunc) list state.fifo []
    (listed.2.2 ≠ none ∧ state.replace keyFunc order list = (listed.1, listed.2.2)) ∨
      (listed.2.2 = none ∧ ∃ count, state.replace keyFunc order list =
        ((listed.1.replaceDeleteKnown (config keyFunc) (state.informer.indexer.knownObjects order)
          listed.2.1 order 0).1.populate count, none)) := by
  unfold InformerState.replace DeltaFIFO.replace
  generalize DeltaFIFO.replaceItems (config keyFunc) list state.fifo [] = listed
  obtain ⟨fifo, keys, err⟩ := listed
  cases err with
  | some err => exact .inl ⟨by simp, rfl⟩
  | none =>
    refine .inr ⟨rfl, ?_⟩
    have hnone := (DeltaFIFO.replaceDeleteKnown_spec keyFunc
      (state.informer.indexer.knownObjects order) keys state.informer.indexer order fifo 0).1
    simp only [Store.knownObjects] at hnone ⊢
    generalize fifo.replaceDeleteKnown (config keyFunc) _ keys order 0 = result at hnone ⊢
    obtain ⟨fifo', count, err⟩ := result
    subst hnone
    exact ⟨_, rfl⟩

variable {state : InformerState Object}

/-- After a successful `Replace` the target is the list, except where the newest pending delta is a
deletion, and what was pending under keys neither listed nor known. -/
theorem target_replace {order : List String} (horder : Map.IsOrder order state.informer.indexer)
    {list : List (Obj Object)} (hok : (state.replace keyFunc order list).2 = none)
    (hdistinct : list.Pairwise fun a b ↦ keyOf keyFunc a ≠ keyOf keyFunc b) :
    (∀ obj ∈ list, ∃ key, keyOf keyFunc obj = .ok key ∧
      Client.target (state.replace keyFunc order list).1 state.informer.indexer key =
        if state.fifo.willObjectBeDeletedLocked key = true then none else some obj) ∧
    ∀ key, (∀ obj ∈ list, keyOf keyFunc obj ≠ .ok key) →
      Client.target (state.replace keyFunc order list).1 state.informer.indexer key =
        if key ∈ state.informer.indexer then none else state.target key := by
  rcases state.replace_cases order list with ⟨herr, h⟩ | ⟨hlisted, count, h⟩
  · rw [h] at hok
    exact absurd hok herr
  · obtain ⟨hkeys, hframe, htarget⟩ :=
      DeltaFIFO.replaceItems_spec state.informer.indexer list state.fifo [] hlisted hdistinct
    have hreplace : ∀ key,
        Client.target (state.replace keyFunc order list).1 state.informer.indexer key =
          if key ∈ state.informer.indexer ∧
              key ∉ (DeltaFIFO.replaceItems (config keyFunc) list state.fifo []).2.1 then none
          else Client.target (DeltaFIFO.replaceItems (config keyFunc) list state.fifo []).1
            state.informer.indexer key := by
      intro key
      rw [h, DeltaFIFO.target_congr (DeltaFIFO.deltasAt_populate _ count key),
        (DeltaFIFO.replaceDeleteKnown_spec keyFunc _ _ _ order _ 0).2 key]
      simp only [horder.2 key]
    refine ⟨fun obj hobj ↦ ?_, fun key hunlisted ↦ ?_⟩
    · obtain ⟨key, hkey, hobjTarget⟩ := htarget obj hobj
      refine ⟨key, hkey, ?_⟩
      have hmem := (hkeys key).mpr (.inr ⟨obj, hobj, hkey⟩)
      rw [hreplace key, if_neg fun hkey ↦ hkey.2 hmem, hobjTarget]
    · have hnotMem : key ∉ (DeltaFIFO.replaceItems (config keyFunc) list state.fifo []).2.1 := by
        rw [hkeys key]
        rintro (hnil | ⟨obj, hobj, hkey⟩)
        · exact not_mem_nil hnil
        · exact hunlisted obj hobj hkey
      rw [hreplace key, DeltaFIFO.target_congr (hframe key hunlisted)]
      simp only [hnotMem, not_false_eq_true, and_true]
      rfl

section

variable (hstate : state.Consistent keyFunc)

include hstate

theorem Consistent.replace (order : List String) (list : List (Obj Object)) :
    (state.replace keyFunc order list).1.Consistent keyFunc :=
  (DeltaFIFO.consistent_kept keyFunc).replace hstate.fifo (some _) [] list

theorem Consistent.add (obj : Obj Object) : (state.add keyFunc obj).1.Consistent keyFunc :=
  hstate.fifo.setPopulated.queueActionLocked .added obj

theorem Consistent.update (obj : Obj Object) : (state.update keyFunc obj).1.Consistent keyFunc :=
  hstate.fifo.setPopulated.queueActionLocked .updated obj

theorem Consistent.delete (obj : Obj Object) : (state.delete keyFunc obj).1.Consistent keyFunc :=
  (DeltaFIFO.consistent_kept keyFunc).delete hstate.fifo _ obj

/-- A turn of a resync queues at most the indexed object of a key with nothing pending, its target
already. -/
theorem Consistent.syncKey (key : String) :
    (state.syncKey keyFunc key).1.Consistent keyFunc ∧
      ∀ other, Client.target (state.syncKey keyFunc key).1 state.informer.indexer other =
        state.target other := by
  cases hget : state.informer.indexer.lookup key with
  | none =>
    simpa [InformerState.syncKey, DeltaFIFO.syncKey, Store.knownObjects, hget]
      using ⟨hstate.fifo, fun _ ↦ rfl⟩
  | some obj =>
    have hkey := hstate.keyed key obj hget
    by_cases hpend : state.fifo.deltasAt key = []
    · have hkept : state.fifo.willObjectBeDeletedLocked key = false := by
        simp [DeltaFIFO.willObjectBeDeletedLocked, hpend, Deltas.newest]
      have hsync : (state.syncKey keyFunc key).1 =
          (state.fifo.queueActionLocked (config keyFunc) .sync obj).1 := by
        simp only [InformerState.syncKey, DeltaFIFO.syncKey, Store.knownObjects, hget, config,
          hkey, hpend, ne_eq, not_true_eq_false, if_false]
        rcases state.fifo.queueActionLocked _ .sync obj with ⟨fifo, _ | err⟩ <;> rfl
      rw [hsync]
      refine ⟨hstate.fifo.queueActionLocked .sync obj, fun other ↦ ?_⟩
      rw [DeltaFIFO.target_queueActionLocked state.fifo _ hkey (by simp [hkept]) other]
      split_ifs with heq
      · subst heq
        simp [target, Client.target, hpend, Deltas.newest, hget, Delta.outcome]
      · rfl
    · have hsync : (state.syncKey keyFunc key).1 = state.fifo := by
        simp [InformerState.syncKey, DeltaFIFO.syncKey, Store.knownObjects, hget, hkey,
          hpend, config]
      rw [hsync]
      exact ⟨hstate.fifo, fun _ ↦ rfl⟩

theorem Consistent.step {op : InformerOp Object} (hstep : InformerStep keyFunc state op next) :
    next.Consistent keyFunc := by
  cases hstep with
  | add obj => exact ⟨hstate.add obj, hstate.keyed⟩
  | update obj => exact ⟨hstate.update obj, hstate.keyed⟩
  | delete obj => exact ⟨hstate.delete obj, hstate.keyed⟩
  | replace order horder list => exact ⟨hstate.replace order list, hstate.keyed⟩
  | resync order horder => exact { hstate with }
  | syncKey before after key rest hresync => exact ⟨(hstate.syncKey key).1, hstate.keyed⟩
  | pop => exact hstate.pop.1

end

theorem Reachable.consistent (hreach : InformerState.Reachable keyFunc state) :
    state.Consistent keyFunc := by
  refine Transition.Reachable.invariant ?_ ?_ hreach
  · rintro state ⟨hfifo, hindexer, -, -⟩
    refine ⟨hfifo ▸ DeltaFIFO.consistent_new, fun key obj h ↦ ?_⟩
    simp [hindexer] at h
  · intro state op next _ hstate hstep
    exact hstate.step hstep

/-- A step of a drain: a pop, or a turn of a resync that is already running. -/
def DrainStep (keyFunc : Object → Except String String) (state next : InformerState Object) :
    Prop :=
  InformerStep keyFunc state .pop next ∨ ∃ key, InformerStep keyFunc state (.syncKey key) next

def Drains (keyFunc : Object → Except String String) (state final : InformerState Object) : Prop :=
  Relation.ReflTransGen (DrainStep keyFunc) state final ∧ final.fifo.queue = []

section

variable (hstate : state.Consistent keyFunc)

include hstate

theorem Consistent.drainStep (hstep : DrainStep keyFunc state next) :
    next.Consistent keyFunc ∧ ∀ key, next.target key = state.target key := by
  rcases hstep with hpop | ⟨key, hsync⟩
  · refine ⟨hstate.step hpop, ?_⟩
    cases hpop
    exact hstate.pop.2
  · refine ⟨hstate.step hsync, ?_⟩
    cases hsync
    exact (hstate.syncKey key).2

theorem lookup_of_queue_nil (hqueue : state.fifo.queue = []) (key : String) :
    state.informer.indexer.lookup key = state.target key := by
  have hnotMem : key ∉ state.fifo.items := by
    rw [← hstate.fifo.mem_queue, hqueue]
    exact not_mem_nil
  simp [target, Client.target, DeltaFIFO.deltasAt_of_notMem hnotMem, Deltas.newest]

theorem Consistent.drains {final : InformerState Object} (hdrains : Drains keyFunc state final)
    (key : String) : final.informer.indexer.lookup key = state.target key := by
  obtain ⟨hsteps, hqueue⟩ := hdrains
  have hkept : final.Consistent keyFunc ∧ ∀ key, final.target key = state.target key := by
    clear hqueue
    induction hsteps with
    | refl => exact ⟨hstate, fun _ ↦ rfl⟩
    | tail _ hstep ih =>
      obtain ⟨hnext, htarget⟩ := ih.1.drainStep hstep
      exact ⟨hnext, fun key ↦ (htarget key).trans (ih.2 key)⟩
  rw [lookup_of_queue_nil hkept.1 hqueue, hkept.2 key]

/-- Every queue can be drained: a pop makes it shorter. -/
theorem Consistent.exists_drains : ∃ final, Drains keyFunc state final := by
  induction hlen : state.fifo.queue.length generalizing state with
  | zero => exact ⟨state, .refl, length_eq_zero_iff.mp hlen⟩
  | succ length ih =>
    obtain ⟨id, rest, hqueue⟩ := exists_cons_of_length_eq_add_one hlen
    obtain ⟨item, -, hpop⟩ := pop_of_queue_cons hstate hqueue
    have hrest : (state.pop keyFunc).fifo.queue.length = length := by
      rw [hqueue] at hlen
      rw [hpop]
      exact Nat.succ.inj hlen
    obtain ⟨final, hsteps, hnil⟩ := ih hstate.pop.1 hrest
    exact ⟨final, .head (.inl .pop) hsteps, hnil⟩

end

end InformerState

/-! ## Convergence after a relist -/

/-- The store holds the listed objects under their keys, and nothing else. -/
def Store.Holds (keyFunc : Object → Except String String) (store : Store Object)
    (list : List (Obj Object)) : Prop :=
  ∀ key obj, store.lookup key = some obj ↔ obj ∈ list ∧ keyOf keyFunc obj = .ok key

/-- No listed key has a newest pending deletion, and every pending key neither listed nor indexed
has one. -/
structure InformerState.ReplaceSafe (keyFunc : Object → Except String String)
    (state : InformerState Object) (list : List (Obj Object)) : Prop where
  listed : ∀ obj ∈ list, ∀ key, keyOf keyFunc obj = .ok key →
    state.fifo.willObjectBeDeletedLocked key = false
  pending : ∀ key ∈ state.fifo.items, (∀ obj ∈ list, keyOf keyFunc obj ≠ .ok key) →
    key ∉ state.informer.indexer → state.fifo.willObjectBeDeletedLocked key = true

namespace InformerState

/-- A key outside the indexer is heading for nothing unless something other than a deletion is
pending. -/
theorem target_eq_none_iff {state : InformerState Object} (hstate : state.Consistent keyFunc)
    {key : String} (hkey : key ∉ state.informer.indexer) :
    state.target key = none ↔
      (key ∈ state.fifo.items → state.fifo.willObjectBeDeletedLocked key = true) := by
  rw [hstate.fifo.mem_items_iff, target, Client.target, DeltaFIFO.willObjectBeDeletedLocked]
  cases hnewest : Deltas.newest (state.fifo.deltasAt key) with
  | none => simp [newest_eq_none.mp hnewest, lookup_eq_none.mpr hkey]
  | some delta =>
    have hne : state.fifo.deltasAt key ≠ [] := by
      intro hnil
      rw [newest_eq_none.mpr hnil] at hnewest
      cases hnewest
    simp [hne, Delta.outcome]

/-- A relist converges exactly if the pending deltas do not get in its way: the queue can be
drained, and every drain leaves the listed objects in the indexer iff the state before was
`ReplaceSafe`. -/
theorem replace_converges_iff {state : InformerState Object}
    (hreach : InformerState.Reachable keyFunc state) {order : List String}
    (horder : Map.IsOrder order state.informer.indexer) {list : List (Obj Object)}
    (hdistinct : list.Pairwise fun a b ↦ keyOf keyFunc a ≠ keyOf keyFunc b)
    (hok : (state.replace keyFunc order list).2 = none) :
    let replaced := { state with fifo := (state.replace keyFunc order list).1 }
    (∃ final, Drains keyFunc replaced final) ∧
      ∀ final, Drains keyFunc replaced final →
        (final.informer.indexer.Holds keyFunc list ↔ state.ReplaceSafe keyFunc list) := by
  intro replaced
  have hstate := hreach.consistent
  have hreplaced : replaced.Consistent keyFunc := ⟨hstate.replace order list, hstate.keyed⟩
  obtain ⟨hlisted, hunlisted⟩ := target_replace horder hok hdistinct
  refine ⟨hreplaced.exists_drains, fun final hdrains ↦ ?_⟩
  have hget := hreplaced.drains hdrains
  constructor
  · intro hholds
    refine ⟨fun obj hobj key hkey ↦ ?_, fun key hpend hnone hindexer ↦ ?_⟩
    · obtain ⟨key', hkey', htarget⟩ := hlisted obj hobj
      cases Except.ok.inj (hkey.symm.trans hkey')
      by_contra hdel
      have hsome := (hholds key obj).mpr ⟨hobj, hkey⟩
      rw [hget key, target, htarget, if_pos (Bool.of_not_eq_false hdel)] at hsome
      cases hsome
    · refine (target_eq_none_iff hstate hindexer).mp ?_ hpend
      have htarget := hunlisted key hnone
      rw [if_neg hindexer] at htarget
      rw [← htarget, Option.eq_none_iff_forall_ne_some]
      intro obj hobj
      obtain ⟨hmem, hkey⟩ := (hholds key obj).mp ((hget key).trans hobj)
      exact hnone obj hmem hkey
  · intro hsafe key obj
    rw [hget key]
    by_cases hlist : ∃ obj ∈ list, keyOf keyFunc obj = .ok key
    · obtain ⟨listed, hmem, hkey⟩ := hlist
      obtain ⟨key', hkey', htarget⟩ := hlisted listed hmem
      cases Except.ok.inj (hkey.symm.trans hkey')
      rw [hsafe.listed listed hmem key hkey, if_neg Bool.false_ne_true] at htarget
      rw [target, htarget, Option.some.injEq]
      constructor
      · rintro rfl
        exact ⟨hmem, hkey⟩
      · rintro ⟨hobj, hobjKey⟩
        by_contra hne
        have hsymm : Std.Symm fun a b : Obj Object ↦ keyOf keyFunc a ≠ keyOf keyFunc b :=
          ⟨fun _ _ h ↦ h.symm⟩
        exact hdistinct.forall hmem hobj hne (hkey.trans hobjKey.symm)
    · push Not at hlist
      have hnone : replaced.target key = none := by
        rw [target, hunlisted key hlist]
        split_ifs with hindexer
        · rfl
        · exact (target_eq_none_iff hstate hindexer).mpr
            fun hpend ↦ hsafe.pending key hpend hlist hindexer
      rw [hnone]
      constructor
      · intro h
        cases h
      · rintro ⟨hobj, hkey⟩
        exact absurd hkey (hlist obj hobj)

/-- An informer of strings that are their own keys, with an addition of `a` pending. -/
def pendingAdded : InformerState String :=
  let new : InformerState String := ⟨newDeltaFIFO, ⟨∅, []⟩, []⟩
  { new with fifo := (new.add .ok (.object "a")).1 }

def pendingDeleted : InformerState String :=
  let popped := pendingAdded.pop .ok
  { popped with fifo := (popped.delete .ok (.object "a")).1 }

theorem pendingAdded_reachable : InformerState.Reachable .ok pendingAdded :=
  .next (.start ⟨rfl, rfl, by simp, rfl⟩) (.add (.object "a"))

theorem pendingAdded_items :
    pendingAdded.fifo.items = Finmap.insert "a" [⟨.added, .object "a"⟩] ∅ :=
  rfl

theorem pendingAdded_order : Map.IsOrder [] pendingAdded.informer.indexer :=
  ⟨nodup_nil, fun _ ↦ by rfl⟩

theorem replace_converges_pendingAdded :
    ∃ final, Drains .ok
        { pendingAdded with fifo := (pendingAdded.replace .ok [] [.object "a"]).1 } final ∧
      final.informer.indexer.Holds .ok [.object "a"] := by
  obtain ⟨⟨final, hdrains⟩, hiff⟩ := replace_converges_iff pendingAdded_reachable
    pendingAdded_order (pairwise_singleton _ (.object "a")) rfl
  refine ⟨final, hdrains, (hiff final hdrains).mpr ⟨?_, ?_⟩⟩
  · intro obj hobj key hkey
    cases List.mem_singleton.mp hobj
    cases hkey
    rfl
  · intro key hpend hlist
    have hkey : key = "a" := by
      rw [pendingAdded_items, mem_insert] at hpend
      exact hpend.resolve_right (notMem_empty)
    exact absurd (hkey ▸ rfl) (hlist (.object "a") mem_cons_self)

/-- An empty list does not remove the pending addition of `a`, and a list with `a` does not bring
`a` back, since its `sync` is dropped for the pending deletion. -/
theorem replace_diverges :
    (InformerState.Reachable .ok pendingAdded ∧
      Map.IsOrder [] pendingAdded.informer.indexer ∧
      (pendingAdded.replace .ok [] []).2 = none ∧
      ∃ final, Drains .ok { pendingAdded with fifo := (pendingAdded.replace .ok [] []).1 } final ∧
        ¬final.informer.indexer.Holds .ok []) ∧
    (InformerState.Reachable .ok pendingDeleted ∧
      Map.IsOrder ["a"] pendingDeleted.informer.indexer ∧
      (pendingDeleted.replace .ok ["a"] [.object "a"]).2 = none ∧
      ∃ final, Drains .ok
          { pendingDeleted with fifo := (pendingDeleted.replace .ok ["a"] [.object "a"]).1 } final ∧
        ¬final.informer.indexer.Holds .ok [.object "a"]) := by
  refine ⟨⟨pendingAdded_reachable, pendingAdded_order, rfl, _,
      ⟨.single (.inl .pop), rfl⟩, fun hholds ↦ ?_⟩,
    ⟨.next (.next pendingAdded_reachable .pop) (.delete (.object "a")),
      ⟨nodup_singleton _, fun _ ↦ by rfl⟩, rfl, _,
      ⟨.single (.inl .pop), rfl⟩, fun hholds ↦ ?_⟩⟩
  · exact not_mem_nil ((hholds "a" (.object "a")).mp rfl).1
  · cases (hholds "a" (.object "a")).mpr ⟨mem_cons_self, rfl⟩

end InformerState

end Kubernetes.Client

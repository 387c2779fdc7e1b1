import Kubernetes.Basic.Transition
import Kubernetes.Registry.StoreDeletion

/-!
# What is removed from the storage

A call decides on a version of the object that has no finalizers, or whose finalizers the call
itself takes away: an update to an object without finalizers, after the grace period is over, and a
deletion that does not orphan the dependents, if the orphan finalizer is the only one.

The version that is removed is the one decided on, if nothing was written in between.  Otherwise
only a precondition on the UID tells whether it is at least the same object.
-/

namespace Kubernetes.Registry.Generic

open Transition

variable {Extra : Type*}

/-- The observed version has no finalizers, or the request takes them away. -/
def Justified (request : Request Extra) (observed : Object Extra) : Prop :=
  observed.finalizers = [] ∨
    match request with
    | .delete options =>
      options.orphanDependents = some false ∧ ∀ name ∈ observed.finalizers, name = finalizerOrphan
    | .update deleteObj =>
      deleteObj.finalizers = [] ∧ observed.deletionGracePeriodSeconds = some 0

def HasUID (uidPrecondition : Option String) (obj : Object Extra) : Prop :=
  ∀ uid, uidPrecondition = some uid → obj.uid = uid

variable {obj : Object Extra} {uidPrecondition : Option String}

theorem hasUID_of_not_any (h : ¬uidPrecondition.any (· ≠ obj.uid) = true) :
    HasUID uidPrecondition obj := by
  intro uid huid
  rw [huid, Option.any_some, decide_eq_true_eq, not_not] at h
  exact h.symm

structure Decision.Sound (decision : Decision Extra) : Prop where
  justified : Justified decision.request decision.observed
  uid : HasUID decision.uidPrecondition decision.observed

/-- The observed version is still stored, unless something was written since. -/
structure Decision.Current (storage : Storage Extra) (decision : Decision Extra) : Prop where
  decidedAt_le : decision.decidedAt ≤ storage.revision
  stored : storage.revision = decision.decidedAt → storage.stored = some decision.observed

/-- A request leaves the storage alone or makes a new revision. -/
def Advances (storage next : Storage Extra) : Prop :=
  next = storage ∨ storage.revision < next.revision

variable {storage next : Storage Extra}

theorem Decision.Current.advances {decision : Decision Extra} (h : decision.Current storage)
    (hadvances : Advances storage next) : decision.Current next := by
  obtain rfl | hlt := hadvances
  · exact h
  · have hle := h.decidedAt_le
    exact ⟨hle.trans hlt.le, fun heq ↦ absurd heq (by omega)⟩

variable {options : DeleteOptions} {e : Store Extra}

theorem beforeDelete_eq_ok {now : ℤ} {before : BeforeDelete Extra}
    (h : beforeDelete e now obj options = .ok before) :
    HasUID options.uidPrecondition obj ∧ before.obj.uid = obj.uid ∧
      before.obj.finalizers = obj.finalizers := by
  unfold beforeDelete at h
  by_cases huid : options.uidPrecondition.any (· ≠ obj.uid) = true
  · rw [if_pos huid] at h
    cases h
  rw [if_neg huid] at h
  refine ⟨hasUID_of_not_any huid, ?_⟩
  -- the object keeps its UID and its finalizers in every branch
  dsimp only at h
  repeat' split at h
  all_goals
    cases h <;> exact ⟨rfl, rfl⟩

/-- The orphan finalizer is added, or dropped because the options tell so, or nothing changes. -/
theorem shouldUpdateFinalizers_cases (e : Store Extra) (finalizers : List String)
    (options : DeleteOptions) :
    shouldUpdateFinalizers e finalizers options = (true, finalizers ++ [finalizerOrphan]) ∨
      (options.orphanDependents = some false ∧
        shouldUpdateFinalizers e finalizers options =
          (true, finalizers.filter (· ≠ finalizerOrphan))) ∨
      shouldUpdateFinalizers e finalizers options = (false, finalizers) := by
  unfold shouldUpdateFinalizers
  dsimp only
  split_ifs with hadd hdrop
  · exact .inl rfl
  · rw [Bool.and_eq_true] at hdrop
    obtain ⟨hshould, hhas⟩ := hdrop
    refine .inr (.inl ⟨?_, rfl⟩)
    -- the finalizer is there, so only the options can tell not to orphan
    cases horphan : options.orphanDependents with
    | none => simp [horphan, hhas] at hshould
    | some orphan => simpa [horphan] using hshould
  · exact .inr (.inr rfl)

theorem justified_of_setFinalizers {observed : Object Extra}
    (hsame : obj.finalizers = observed.finalizers)
    (h : (setFinalizers e obj options).finalizers = []) : Justified (.delete options) observed := by
  unfold setFinalizers at h
  dsimp only at h
  rw [hsame] at h
  obtain hadd | ⟨horphan, hdrop⟩ | hkeep :=
    shouldUpdateFinalizers_cases e observed.finalizers options
  · simp [hadd] at h
  · rw [hdrop] at h
    refine .inr ⟨horphan, fun name hname ↦ ?_⟩
    simpa using List.filter_eq_nil_iff.mp h name hname
  · rw [hkeep] at h
    exact .inl h

section Closures

variable {e : Store Extra} {now : ℤ} {options : DeleteOptions} {existing : Object Extra}

theorem gracefulDeletionAndFinalizers_eq_ok {assigned : DeletionAssigned}
    (h : gracefulDeletionAndFinalizers e now options existing = .ok (obj, assigned)) :
    obj.uid = existing.uid ∧ (assigned.pendingFinalizers = false → obj.finalizers = []) := by
  unfold gracefulDeletionAndFinalizers at h
  split at h
  · cases h
  · next before hbefore =>
    obtain ⟨-, huid, -⟩ := beforeDelete_eq_ok hbefore
    dsimp only at h
    split_ifs at h
    · cases h
      exact ⟨huid, fun hpend ↦ by cases hpend⟩
    · cases h
      exact ⟨huid, fun hpend ↦ by simpa using hpend⟩

theorem gracefulDeletionAndFinalizers_deleteNow {changed : DeleteOptions}
    (h : gracefulDeletionAndFinalizers e now options existing = .error (.deleteNow changed)) :
    Justified (.delete changed) existing := by
  unfold gracefulDeletionAndFinalizers at h
  split at h
  · cases h
  · next before hbefore =>
    obtain ⟨-, -, hfin⟩ := beforeDelete_eq_ok hbefore
    dsimp only at h
    split_ifs at h with hgracefulPending hgraceful hpend
    · cases h
    · obtain rfl : before.options = changed := UpdateError.deleteNow.inj (Except.error.inj h)
      exact justified_of_setFinalizers hfin (by simpa using hpend)

theorem updateObject_emptiedFinalizers {uid : String} {objInfo : ObjectInfo Extra}
    {deleteObj : Object Extra}
    (h : updateObject e uid objInfo existing = .error (.emptiedFinalizers deleteObj)) :
    Justified (.update deleteObj) existing := by
  unfold updateObject at h
  split at h
  · cases h
  · split_ifs at h with hver hcreate
    · split at h <;> cases h
    · cases h
    · split at h
      · cases h
      · split at h
        · cases h
        · split_ifs at h with hdelete
          cases h
          unfold shouldDelete at hdelete
          rw [Bool.and_eq_true, Bool.and_eq_true, decide_eq_true_eq, List.isEmpty_iff] at hdelete
          exact .inr ⟨hdelete.1.2, hdelete.2⟩

end Closures

section Requests

variable [DecidableEq Extra] {Assigned : Type*} {storage next : Storage Extra}
variable {notFound : Option (Object Extra)} {uidPrecondition : Option String}
variable {tryUpdate : Object Extra → Except (UpdateError Extra) (Object Extra × Assigned)}

theorem guaranteedUpdate_eq_ok {assigned : Assigned}
    (h : storage.guaranteedUpdate notFound uidPrecondition tryUpdate = .ok (next, assigned)) :
    ∃ existing obj, storage.existing notFound = some existing ∧ HasUID uidPrecondition existing ∧
      tryUpdate existing = .ok (obj, assigned) ∧ Advances storage next ∧
      ∃ version, next.stored = some (obj.encode version) := by
  unfold Storage.guaranteedUpdate at h
  split at h
  · cases h
  · next existing hexisting =>
    by_cases huid : uidPrecondition.any (· ≠ existing.uid) = true
    · rw [if_pos huid] at h
      cases h
    rw [if_neg huid] at h
    split at h
    · cases h
    · next obj computed htry =>
      split_ifs at h with hsame
      · cases h
        exact ⟨existing, obj, hexisting, hasUID_of_not_any huid, htry, .inl rfl, _, hsame⟩
      · cases h
        exact ⟨existing, obj, hexisting, hasUID_of_not_any huid, htry, .inr (Nat.lt_succ_self _),
          _, rfl⟩

theorem guaranteedUpdate_eq_error {err : UpdateError Extra} (herr : err ≠ .failed)
    (h : storage.guaranteedUpdate notFound uidPrecondition tryUpdate = .error err) :
    ∃ existing, storage.existing notFound = some existing ∧ HasUID uidPrecondition existing ∧
      tryUpdate existing = .error err := by
  unfold Storage.guaranteedUpdate at h
  split at h
  · exact absurd (Except.error.inj h).symm herr
  · next existing hexisting =>
    by_cases huid : uidPrecondition.any (· ≠ existing.uid) = true
    · rw [if_pos huid] at h
      exact absurd (Except.error.inj h).symm herr
    rw [if_neg huid] at h
    split at h
    · next found htry =>
      rw [← Except.error.inj h]
      exact ⟨existing, hexisting, hasUID_of_not_any huid, htry⟩
    · split_ifs at h

end Requests

/-! ## One step -/

namespace System

/-- A call that is about to remove the object has decided soundly. -/
def CallOk (storage : Storage Extra) (call : Option (Call Extra)) : Prop :=
  ∀ decision, call = some (.removing decision) → decision.Sound ∧ decision.Current storage

theorem callOk_none (storage : Storage Extra) : CallOk storage none := fun _ h ↦ by cases h

theorem callOk_toRemoval {storage : Storage Extra} {request : Request Extra}
    (hstored : ∀ observed, storage.stored = some observed →
      Justified request observed ∧ HasUID uidPrecondition observed) :
    CallOk storage (toRemoval storage request uidPrecondition) := by
  intro decision hdecision
  obtain ⟨observed, hobs, heq⟩ := Option.map_eq_some_iff.mp hdecision
  cases heq
  obtain ⟨hjustified, huid⟩ := hstored observed hobs
  exact ⟨⟨hjustified, huid⟩, ⟨le_refl _, fun _ ↦ hobs⟩⟩

variable {e : Store Extra}

theorem callOk_startDelete (hgc : e.enableGarbageCollection = true) (now : ℤ)
    (options : Option DeleteOptions) (storage : Storage Extra) :
    CallOk storage (startDelete e now options storage) := by
  unfold startDelete
  split
  · exact callOk_none storage
  · next obj hobj =>
    dsimp only
    split
    · exact callOk_none storage
    · next before hbefore =>
      obtain ⟨huid, -, hfin⟩ := beforeDelete_eq_ok hbefore
      split_ifs with hpend hupd
      · exact callOk_none storage
      · intro decision hdecision
        cases hdecision
      · -- the version that was read has no finalizers
        apply callOk_toRemoval
        intro observed hobs
        obtain rfl : obj = observed := Option.some.inj (hobj.symm.trans hobs)
        simp only [Bool.or_eq_true, not_or, Bool.not_eq_true, Bool.not_eq_false',
          List.isEmpty_iff] at hupd
        exact ⟨.inl (hfin ▸ hupd.1.2), huid⟩

/-! ## Runs -/

/-- The call had decided on a version without finalizers that it would keep, and removed that
version if nothing was written since, and in any case one with the UID of the precondition. -/
structure SoundRemoval (removal : Removal Extra) : Prop where
  justified : Justified removal.decision.request removal.decision.observed
  unwritten : removal.removedAt = removal.decision.decidedAt →
    removal.removed = removal.decision.observed
  observedUID : HasUID removal.decision.uidPrecondition removal.decision.observed
  removedUID : HasUID removal.decision.uidPrecondition removal.removed

structure Sound (s : System Extra) : Prop where
  calls : ∀ id, CallOk s.storage (Finmap.lookup id s.calls)
  removals : ∀ removal ∈ s.removals, SoundRemoval removal

variable {call : Option (Call Extra)}

theorem CallOk.advances (h : CallOk storage call) (hadvances : Advances storage next) :
    CallOk next call := by
  intro decision hdecision
  obtain ⟨hsound, hcur⟩ := h decision hdecision
  exact ⟨hsound, hcur.advances hadvances⟩

theorem lookup_setCall (s : System Extra) (id other : ℕ) (call : Option (Call Extra)) :
    (s.setCall id call).calls.lookup other =
      if other = id then call else s.calls.lookup other := by
  cases call with
  | none => exact Map.lookup_erase ..
  | some call => exact Map.lookup_insert ..

theorem Sound.setCall {s next : System Extra} (hsound : Sound s)
    (hadvances : Advances s.storage next.storage) (hcalls : next.calls = s.calls)
    (hremovals : ∀ removal ∈ next.removals, SoundRemoval removal) (id : ℕ)
    (hcall : CallOk next.storage call) : Sound (next.setCall id call) := by
  refine ⟨fun other ↦ ?_, hremovals⟩
  rw [lookup_setCall, hcalls]
  split_ifs
  · exact hcall
  · exact (hsound.calls other).advances hadvances

theorem sound_remove {s : System Extra} (hsound : Sound s) {id : ℕ} {decision : Decision Extra}
    (hcall : s.calls.lookup id = some (.removing decision)) : Sound (s.remove id decision) := by
  obtain ⟨hdecision, hcur⟩ := hsound.calls id decision hcall
  unfold remove Storage.delete
  cases hstored : s.storage.stored with
  | none => exact hsound.setCall (.inl rfl) rfl hsound.removals id (callOk_none _)
  | some removed =>
    by_cases huid : decision.uidPrecondition.any (· ≠ removed.uid) = true
    · simp only [if_pos huid]
      exact hsound.setCall (.inl rfl) rfl hsound.removals id (callOk_none _)
    · simp only [if_neg huid]
      refine hsound.setCall ?_ ?_ ?_ id (callOk_none _)
      · exact .inr (Nat.lt_succ_self _)
      · rfl
      intro removal hremoval
      obtain hold | hnew := List.mem_append.mp hremoval
      · exact hsound.removals removal hold
      · obtain rfl := List.mem_singleton.mp hnew
        refine ⟨hdecision.justified, ?_, hdecision.uid, hasUID_of_not_any huid⟩
        intro hunwritten
        exact Option.some.inj (hstored.symm.trans (hcur.stored hunwritten))

variable [DecidableEq Extra]

theorem updateForDeletion_spec (hgc : e.enableGarbageCollection = true) (now : ℤ)
    (options : DeleteOptions) (uidPrecondition : Option String) (storage : Storage Extra) :
    Advances storage (updateForDeletion e now options uidPrecondition storage).1 ∧
      CallOk (updateForDeletion e now options uidPrecondition storage).1
        (updateForDeletion e now options uidPrecondition storage).2 := by
  unfold updateForDeletion
  rw [if_pos hgc]
  dsimp only
  split
  · next next assigned hupd =>
    obtain ⟨existing, obj, hexisting, huid, htry, hadvances, version, hstored⟩ :=
      guaranteedUpdate_eq_ok hupd
    obtain ⟨hsame, hfin⟩ := gracefulDeletionAndFinalizers_eq_ok htry
    split_ifs with hpend hgraceful
    · exact ⟨hadvances, callOk_none next⟩
    · exact ⟨hadvances, callOk_none next⟩
    · -- the version without finalizers was written by the call itself
      refine ⟨hadvances, callOk_toRemoval fun observed hobs ↦ ?_⟩
      obtain rfl := Option.some.inj (hstored.symm.trans hobs)
      exact ⟨.inl (hfin (Bool.eq_false_iff.mpr hpend)),
        fun uid hprecondition ↦ hsame.trans (huid uid hprecondition)⟩
  · next changed hupd =>
    obtain ⟨existing, hexisting, huid, htry⟩ := guaranteedUpdate_eq_error (by simp) hupd
    refine ⟨.inl rfl, callOk_toRemoval fun observed hobs ↦ ?_⟩
    rw [Storage.existing, hobs] at hexisting
    obtain rfl := Option.some.inj hexisting
    exact ⟨gracefulDeletionAndFinalizers_deleteNow htry, huid⟩
  · exact ⟨.inl rfl, callOk_none storage⟩

theorem startUpdate_spec (uid : String) (objInfo : ObjectInfo Extra) (storage : Storage Extra) :
    Advances storage (startUpdate e uid objInfo storage).1 ∧
      CallOk (startUpdate e uid objInfo storage).1 (startUpdate e uid objInfo storage).2 := by
  unfold startUpdate
  dsimp only
  split
  · next next _ hupd =>
    obtain ⟨_, _, _, _, _, hadvances, _⟩ := guaranteedUpdate_eq_ok hupd
    exact ⟨hadvances, callOk_none next⟩
  · next deleteObj hupd =>
    obtain ⟨existing, hexisting, huid, htry⟩ := guaranteedUpdate_eq_error (by simp) hupd
    refine ⟨.inl rfl, callOk_toRemoval fun observed hobs ↦ ?_⟩
    rw [Storage.existing, hobs] at hexisting
    obtain rfl := Option.some.inj hexisting
    exact ⟨updateObject_emptiedFinalizers htry, huid⟩
  · exact ⟨.inl rfl, callOk_none storage⟩

theorem sound_step (hgc : e.enableGarbageCollection = true) {s next : System Extra}
    {label : Label Extra} (hsound : Sound s) (hstep : Step e s label next) : Sound next := by
  unfold Step exec at hstep
  cases label with
  | delete id now options =>
    dsimp only at hstep
    split at hstep
    · cases hstep
    · cases hstep
      exact hsound.setCall (.inl rfl) rfl hsound.removals id
        (callOk_startDelete hgc now options s.storage)
  | update id uid objInfo =>
    dsimp only at hstep
    split at hstep
    · cases hstep
    · split_ifs at hstep
      cases hstep
      obtain ⟨hadvances, hcall⟩ := startUpdate_spec (e := e) uid objInfo s.storage
      refine hsound.setCall ?_ ?_ ?_ id ?_
      · exact hadvances
      · rfl
      · exact hsound.removals
      · exact hcall
  | create uid obj =>
    dsimp only at hstep
    split_ifs at hstep
    split at hstep
    · cases hstep
      exact ⟨fun id ↦ (hsound.calls id).advances (.inr (Nat.lt_succ_self _)), hsound.removals⟩
    · cases hstep
  | advance id now =>
    dsimp only at hstep
    split at hstep
    · cases hstep
    · next options uidPrecondition _ =>
      cases hstep
      obtain ⟨hadvances, hcall⟩ :=
        updateForDeletion_spec hgc now options uidPrecondition s.storage
      refine hsound.setCall ?_ ?_ ?_ id ?_
      · exact hadvances
      · rfl
      · exact hsound.removals
      · exact hcall
    · next decision hcall =>
      cases hstep
      exact sound_remove hsound hcall

/-- With garbage collection, every removal in every run is sound. -/
theorem removals_sound (hgc : e.enableGarbageCollection = true) {s : System Extra}
    (hreach : Reachable Initial (Step e) s) : ∀ removal ∈ s.removals, SoundRemoval removal := by
  have hsound : Sound s := by
    apply Reachable.invariant _ _ hreach
    · intro start hstart
      refine ⟨fun id ↦ ?_, ?_⟩
      · rw [hstart.1]
        exact callOk_none _
      · rw [hstart.2]
        exact fun _ h ↦ absurd h List.not_mem_nil
    · exact fun _ _ _ _ hsound hstep ↦ sound_step hgc hsound hstep
  exact hsound.removals

def plainStore : Store Unit where
  enableGarbageCollection := true
  repairMalformedUpdates := true
  newExtra := ()
  checkGracefulDelete := none
  orphanByDefault := false
  allowCreateOnUpdate := false
  allowUnconditionalUpdate := true
  prepareForCreate := id
  validate _ := true
  prepareForUpdate obj _ := obj
  validateUpdate _ _ := true
  canonicalize := id

def plainObject (finalizers : List String) (deleting : Bool) : Object Unit :=
  ⟨"1", 1, finalizers, if deleting then some 0 else none, if deleting then some 0 else none, 0, ()⟩

def start (obj : Object Unit) : System Unit := ⟨⟨some obj, 1⟩, ∅, ["1"], []⟩

def run (s : System Unit) (labels : List (Label Unit)) : Option (System Unit) :=
  labels.foldlM (exec plainStore) s

def setTo (finalizers : List String) : ObjectInfo Unit :=
  ⟨none, fun obj ↦ some { obj with finalizers := finalizers }⟩

theorem exists_removal (obj : Object Unit) (labels : List (Label Unit)) {p : Removal Unit → Prop}
    [DecidablePred p] (hrun : (run (start obj) labels).any (fun s ↦ s.removals.any (p ·)) = true) :
    ∃ s, Reachable Initial (Step plainStore) s ∧ ∃ removal ∈ s.removals, p removal := by
  obtain ⟨s, hs, hremovals⟩ := (Option.any_eq_true _ _).mp hrun
  obtain ⟨removal, hremoval, hp⟩ := List.any_eq_true.mp hremovals
  exact ⟨s, Reachable.of_foldlM (fun _ _ _ h ↦ h) (.start ⟨rfl, rfl⟩) hs, removal, hremoval,
    of_decide_eq_true hp⟩

/-- A finalizer holds the deleted object until an update takes it away. -/
theorem plain_object_removed :
    ∃ s, Reachable Initial (Step plainStore) s ∧ ∃ removal ∈ s.removals,
      removal.decision.observed.finalizers = ["example.com/hold"] ∧ SoundRemoval removal := by
  obtain ⟨s, hreach, removal, hremoval, hheld⟩ :=
    exists_removal (p := fun removal ↦ removal.decision.observed.finalizers = ["example.com/hold"])
      (plainObject ["example.com/hold"] false)
      [.delete 0 0 none, .advance 0 0, .update 1 "2" (setTo []), .advance 1 0] (by decide +kernel)
  exact ⟨s, hreach, removal, hremoval, hheld, removals_sound rfl hreach removal hremoval⟩

/-- An update that empties the finalizers removes the object with its finalizers stored.  A deletion
removes a finalizer added after it had read the object, and a later object. -/
theorem finalizers_removed :
    (∃ s, Reachable Initial (Step plainStore) s ∧ ∃ removal ∈ s.removals,
      removal.removed.finalizers ≠ [] ∧ removal.removedAt = removal.decision.decidedAt) ∧
    (∃ s, Reachable Initial (Step plainStore) s ∧ ∃ removal ∈ s.removals,
      removal.decision.observed.finalizers = [] ∧ removal.removed.finalizers ≠ []) ∧
    ∃ s, Reachable Initial (Step plainStore) s ∧ ∃ removal ∈ s.removals,
      removal.removed.uid ≠ removal.decision.observed.uid := by
  refine ⟨?_, ?_, ?_⟩
  · exact exists_removal (plainObject ["example.com/hold"] true)
      [.update 0 "2" (setTo []), .advance 0 0] (by decide +kernel)
  · exact exists_removal (plainObject [] false)
      [.delete 0 0 none, .update 1 "2" (setTo ["example.com/hold"]), .advance 0 0]
      (by decide +kernel)
  · exact exists_removal (plainObject [] false)
      [.delete 0 0 none, .delete 1 0 none, .advance 1 0, .create "2" (plainObject [] false),
        .advance 0 0]
      (by decide +kernel)

end System

end Kubernetes.Registry.Generic

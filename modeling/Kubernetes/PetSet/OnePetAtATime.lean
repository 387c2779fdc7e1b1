import Kubernetes.Basic.Transition
import Kubernetes.PetSet.Syncer

/-!
# A stateful set changes one pet at a time

A pass changes a pet only if no pet blocks, and this pet blocks from then on.  A pass without a
record searches all pods for one that blocks.  With a record, only the recorded pet is looked at;
when it has disappeared or become healthy, the pass goes on without a search.  A record of a pet
that has disappeared is not even removed.
-/

namespace Kubernetes.PetSet

open Kubernetes.Transition

section Pass

variable {Name : Type} [DecidableEq Name] (answers : Answers Name)

/-- Part of a pass changes at most one pet, which blocks afterwards, and none if a pet blocks. -/
def Advances (pass later : Pass Name) : Prop :=
  later.blockingPet = pass.blockingPet ∧ later.changes = pass.changes ∨
    pass.blockingPet = none ∧ later.blockingPet.isSome = true ∧
      (later.changes = pass.changes ∨ ∃ change, later.changes = change :: pass.changes)

theorem Advances.refl {Name : Type} (pass : Pass Name) : Advances pass pass := .inl ⟨rfl, rfl⟩

theorem Advances.trans {Name : Type} {first second third : Pass Name}
    (hfirst : Advances first second) (hsecond : Advances second third) : Advances first third := by
  rcases hfirst with ⟨hpet, hchanges⟩ | ⟨hnone, hsome, hchanges⟩
  · unfold Advances at hsecond ⊢
    rw [hpet, hchanges] at hsecond
    exact hsecond
  · rcases hsecond with ⟨hpet, hchanges'⟩ | ⟨hnone', _, _⟩
    · rw [← hpet] at hsome
      rw [← hchanges'] at hchanges
      exact .inr ⟨hnone, hsome, hchanges⟩
    · rw [hnone'] at hsome
      cases hsome

variable (pass : Pass Name)

theorem apply_keeps (name : Name) (reply : Reply Name) :
    (pass.apply name reply).blockingPet = pass.blockingPet ∧
      (pass.apply name reply).changes = pass.changes := by
  unfold Pass.apply
  rcases reply.effect with _ | _ | pod <;> exact ⟨rfl, rfl⟩

theorem Advances.createPet (name : Name) : Advances pass (pass.createPet answers name).1 := by
  unfold Pass.createPet
  cases hpet : pass.blockingPet with
  | some pet => exact .refl pass
  | none =>
    obtain ⟨hblocking, hchanges⟩ := apply_keeps
      { pass with blockingPet := some name, changes := .create name :: pass.changes } name
      (answers.create name)
    refine .inr ⟨hpet, ?_, .inr ⟨.create name, hchanges⟩⟩
    rw [hblocking]
    rfl

theorem Advances.sync (name : Name) : Advances pass (pass.sync answers name).1 := by
  unfold Pass.sync
  by_cases hget : answers.getFails name = true
  · rw [if_pos hget]
    exact .refl pass
  · by_cases hclaims : answers.syncPVCsFails name = true
    · rw [if_neg hget, if_pos hclaims]
      exact .refl pass
    · rw [if_neg hget, if_neg hclaims]
      cases pass.pods.lookup name with
      | none => exact .createPet answers pass name
      | some realPet =>
        have hdel : Advances pass (pass.apply name (answers.deleteFailedPod name)) :=
          .inl (apply_keeps pass name _)
        simp only
        by_cases hfailed : realPet.phase = .failed
        · rw [if_pos hfailed]
          by_cases herror : (answers.deleteFailedPod name).error = true
          · rw [if_pos herror]
            exact hdel
          · rw [if_neg herror]
            exact hdel.trans (.createPet answers _ name)
        · rw [if_neg hfailed]
          exact .refl pass

theorem Advances.delete (name : Name) : Advances pass (pass.delete answers name).1 := by
  unfold Pass.delete
  by_cases hget : answers.getFails name = true
  · rw [if_pos hget]
    exact .refl pass
  · rw [if_neg hget]
    cases pass.pods.lookup name with
    | none => exact .refl pass
    | some realPet =>
      cases hpet : pass.blockingPet with
      | some pet => exact .refl pass
      | none =>
        simp only
        by_cases hdying : realPet.isDying = true
        · rw [if_pos hdying]
          exact .inr ⟨hpet, rfl, .inl rfl⟩
        · rw [if_neg hdying]
          obtain ⟨hblocking, hchanges⟩ := apply_keeps
            { pass with blockingPet := some name, changes := .delete name :: pass.changes } name
            (answers.delete name)
          refine .inr ⟨hpet, ?_, .inr ⟨.delete name, hchanges⟩⟩
          rw [hblocking]
          rfl

theorem Advances.visit (pet : Option (Pcb Name)) : Advances pass (pass.visit answers pet) := by
  have hcount : ∀ visited : Pass Name × Option SyncError, Advances pass visited.1 →
      Advances pass
        (if visited.2 = some .other then { visited.1 with errs := visited.1.errs + 1 }
          else visited.1) := by
    intro visited hvisited
    split_ifs
    · exact hvisited
    · exact hvisited
  cases pet with
  | none => exact .refl pass
  | some pet =>
    apply hcount
    cases pet.event with
    | syncPet => exact .sync answers pass pet.name
    | deletePet => exact .delete answers pass pet.name

theorem Advances.foldl_visit (pets : List (Option (Pcb Name))) :
    Advances pass (pets.foldl (Pass.visit answers) pass) := by
  induction pets generalizing pass with
  | nil => exact .refl pass
  | cons pet pets ih => exact (Advances.visit answers pass pet).trans (ih _)

theorem Advances.foldl_visitNext (petName : ℕ → Name) (state : List (Option (Pcb Name)) × Pass Name)
    (ids : List ℕ) : Advances state.2 (ids.foldl (visitNext answers petName) state).2 := by
  induction ids generalizing state with
  | nil => exact .refl state.2
  | cons id ids ih =>
    refine Advances.trans ?_ (ih _)
    unfold visitNext
    simp only
    split_ifs
    · exact Advances.trans (.inl ⟨rfl, rfl⟩) (.visit answers _ _)
    · exact .visit answers _ _

end Pass

variable {Name : Type} [DecidableEq Name]

/-- If the recorded pet has disappeared or become healthy, all pods are fit. -/
def ClearsSafely (controller : StatefulSetController Name) : Label Name → Prop
  | .pass _ _ => ∀ name, controller.recorded = some name →
    (∀ pod, controller.pods.lookup name = some pod → pod.Fit) →
      ∀ other pod, controller.pods.lookup other = some pod → pod.Fit
  | _ => True

variable {controller : StatefulSetController Name} {listing : List (Name × Pod Name)}

variable {answers : Answers Name} {replicas : ℕ}

theorem fit_of_unblocked {recorded : Option Name} (hlist : Map.IsListing listing controller.pods)
    (hclears : ClearsSafely controller (.pass answers replicas))
    (hget : getBlockingPet answers controller.recorded controller.pods
      (listing.map Prod.snd) = some (none, recorded)) :
    ∀ name pod, controller.pods.lookup name = some pod → pod.Fit := by
  unfold getBlockingPet at hget
  cases hrec : controller.recorded with
  | none =>
    -- the search has found no pod
    rw [hrec] at hget
    have hfound := (Prod.mk.inj (Option.some.inj hget)).1
    rw [Option.map_eq_none_iff, List.find?_eq_none] at hfound
    intro name pod hpod
    have hmem : pod ∈ listing.map Prod.snd :=
      List.mem_map.mpr ⟨(name, pod), (hlist.2 name pod).mpr hpod, rfl⟩
    have hfit := hfound pod hmem
    rw [decide_eq_true_eq, not_not] at hfit
    exact hfit
  | some name =>
    rw [hrec] at hget
    apply hclears name hrec
    intro pod hpod
    simp only at hget
    split_ifs at hget
    rw [hpod] at hget
    simp only at hget
    split_ifs at hget with hfit
    · exact hfit
    · cases hget

/-- Every pass so far has made at most one change, and only while the other pods were fit. -/
def Careful (controller : StatefulSetController Name) : Prop :=
  ∀ pass ∈ controller.passes, pass.2.length ≤ 1 ∧
    ∀ change ∈ pass.2, ∀ name pod, pass.1.lookup name = some pod → name ≠ change.name → pod.Fit

variable [LE Name] [DecidableLE Name]

theorem Careful.syncStatefulSet (hcareful : Careful controller) {petName : ℕ → Name}
    (hlist : Map.IsListing listing controller.pods)
    (hclears : ClearsSafely controller (.pass answers replicas)) :
    Careful (controller.syncStatefulSet answers petName replicas (listing.map Prod.snd)).1 := by
  unfold StatefulSetController.syncStatefulSet
  cases hget : getBlockingPet answers controller.recorded controller.pods
      (listing.map Prod.snd) with
  | none =>
    intro pass hpass
    rcases List.mem_cons.mp hpass with rfl | hold
    · simp
    · exact hcareful pass hold
  | some got =>
    set synced := (List.range replicas).foldl (visitNext answers petName)
      (newPetQueue (listing.map Prod.snd),
        (⟨controller.pods, got.1, 0, 0, []⟩ : Pass Name)) with hsynced
    have hadvances : Advances ⟨controller.pods, got.1, 0, 0, []⟩
        (synced.1.reverse.foldl (Pass.visit answers) synced.2) :=
      (Advances.foldl_visitNext answers petName _ _).trans (.foldl_visit answers _ _)
    intro pass hpass
    rcases List.mem_cons.mp hpass with rfl | hold
    · rcases hadvances with ⟨_, hchanges⟩ | ⟨hnone, _, hchanges⟩
      · rw [hchanges]
        exact ⟨Nat.zero_le 1, fun change hchange ↦ nomatch hchange⟩
      · have hfit := fit_of_unblocked hlist hclears
          (hget.trans (congrArg some (Prod.ext hnone rfl)))
        refine ⟨?_, fun change _ name pod hpod _ ↦ hfit name pod hpod⟩
        rcases hchanges with hchanges | ⟨change, hchanges⟩
        · rw [hchanges]
          exact Nat.zero_le 1
        · rw [hchanges]
          exact le_rfl
    · exact hcareful pass hold

/-- If passes clear their records only while all pods are fit, a pass changes at most one pet, while
all others are healthy and not being deleted. -/
theorem one_pet_at_a_time (petName : ℕ → Name) (controller : StatefulSetController Name)
    (hreach : Reachable Initial (guarded ClearsSafely (Step petName)) controller) :
    ∀ pass ∈ controller.passes, pass.2.length ≤ 1 ∧
      ∀ change ∈ pass.2, ∀ name pod, pass.1.lookup name = some pod → name ≠ change.name →
        pod.isHealthy = true ∧ pod.isDying = false := by
  have hcareful : Careful controller := by
    refine Reachable.invariant ?_ ?_ hreach
    · intro state hinitial pass hpass
      rw [hinitial.2] at hpass
      cases hpass
    · intro state label target _ hcareful hstep
      obtain ⟨hguard, hstep⟩ := hstep
      cases hstep with
      | change | restart => exact hcareful
      | pass answers replicas listing hlist =>
        exact hcareful.syncStatefulSet hlist hguard
  exact hcareful

/-- All calls succeed; a pet that is created is pending, and one that is deleted is gone. -/
def calmAnswers : Answers ℕ where
  newPCBFails _ := false
  blockingGetFails := false
  getFails _ := false
  syncPVCsFails _ := false
  updateFails _ := false
  deleteFailedPod _ := ⟨false, some none⟩
  create name := ⟨false, some (some ⟨name, 0, .pending, false, none, none⟩)⟩
  delete _ := ⟨false, some none⟩

def runningPod (ready : Bool) : Pod ℕ := ⟨0, 0, .running, ready, none, none⟩

theorem one_pet_at_a_time_scaling :
    ∃ controller : StatefulSetController ℕ,
      Reachable Initial (guarded ClearsSafely (Step fun id ↦ id)) controller ∧
      controller.passes.map Prod.snd = [[.create 1]] ∧
      ∀ pass ∈ controller.passes, pass.2.length ≤ 1 := by
  have hstart : Reachable Initial (guarded ClearsSafely (Step fun id ↦ id))
      (⟨Finmap.singleton 0 (runningPod true), none, []⟩ : StatefulSetController ℕ) :=
    .start ⟨rfl, rfl⟩
  have hscaled := hstart.guardedNext (.pass _ calmAnswers 2 [(0, runningPod true)]
    (Map.isListing_singleton 0 _)) nofun
  refine ⟨_, hscaled, by decide +kernel, ?_⟩
  intro pass hpass
  exact (one_pet_at_a_time (fun id ↦ id) _ hscaled pass hpass).1

/-- Pet 1 is created and disappears while pet 0 is not ready any more.  Its record hides this, and
pet 1 is created again. -/
theorem pet_created_beside_unready :
    ∃ controller : StatefulSetController ℕ,
      Reachable Initial (Step fun id ↦ id) controller ∧
      ∃ pass ∈ controller.passes, ∃ change ∈ pass.2, ∃ pod,
        pass.1.lookup 0 = some pod ∧ 0 ≠ change.name ∧ pod.isHealthy = false := by
  have hstart : Reachable Initial (Step fun id ↦ id)
      (⟨Finmap.singleton 0 (runningPod true), none, []⟩ : StatefulSetController ℕ) :=
    .start ⟨rfl, rfl⟩
  have hscaled := hstart.next (.pass _ calmAnswers 2 [(0, runningPod true)]
    (Map.isListing_singleton 0 _))
  have hchanged := hscaled.next (.change _ (Finmap.singleton 0 (runningPod false)))
  have hagain := hchanged.next (.pass _ calmAnswers 2 [(0, runningPod false)]
    (Map.isListing_singleton 0 _))
  refine ⟨_, hagain, (Finmap.singleton 0 (runningPod false), [.create 1]), ?_, .create 1,
    List.mem_singleton.mpr rfl, runningPod false, ?_, by decide, by decide⟩
  · exact List.mem_cons.mpr (.inl (by decide +kernel))
  · exact Finmap.lookup_singleton_eq

end Kubernetes.PetSet

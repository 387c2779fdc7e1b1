import Kubernetes.Basic.Transition
import Kubernetes.NamespaceController.SyncNamespace

/-!
# Which namespaces are deleted

A call finalizes the incarnation whose content it found empty.  The first deletion carries the UID
of the namespace that the call got.  The second one carries none, so it concerns the incarnation
that has the name by then, which a user may have created meanwhile.
-/

namespace Kubernetes.NamespaceController

open Kubernetes.Transition List Option

/-- If there is nothing to wait for, the items have been listed as empty, or cannot be listed. -/
theorem remaining_of_estimate_zero {answers : ContentAnswers}
    (hzero : deleteAllContentForGroupVersionResource answers = some 0) :
    answers.remaining = .ok [] ∨ answers.remaining = .notSupported := by
  obtain ⟨estimate, _, hclient⟩ := bind_eq_some_iff.mp hzero
  obtain ⟨_, _, hdel⟩ := bind_eq_some_iff.mp hclient
  obtain ⟨_, _, heach⟩ := bind_eq_some_iff.mp hdel
  obtain ⟨_, _, hverified⟩ := bind_eq_some_iff.mp heach
  cases hremaining : answers.remaining with
  | ok items =>
    rw [hremaining, verifyEmpty] at hverified
    split_ifs at hverified with hleft
    · exact absurd hverified (by decide)
    · obtain rfl := Option.some.inj hverified
      exact .inl (congrArg Answer.ok (not_not.mp fun hitems ↦ hleft ⟨hitems, rfl⟩))
  | notSupported => exact .inr rfl
  | failed =>
    rw [hremaining] at hverified
    cases hverified

variable {Resource : Type}

theorem estimate_le_of_foldlM {answers : Resource → ContentAnswers} {resources : List Resource}
    {start total : ℕ}
    (htotal : resources.foldlM (fun estimate resource ↦ do
      let resourceEstimate ← deleteAllContentForGroupVersionResource (answers resource)
      return max estimate resourceEstimate) start = some total) :
    start ≤ total ∧ ∀ resource ∈ resources, ∃ estimate ≤ total,
      deleteAllContentForGroupVersionResource (answers resource) = some estimate := by
  induction resources generalizing start with
  | nil =>
    obtain rfl := Option.some.inj htotal
    exact ⟨le_rfl, fun _ hmem ↦ absurd hmem not_mem_nil⟩
  | cons resource resources ih =>
    rw [foldlM_cons] at htotal
    obtain ⟨middle, hmiddle, hrest⟩ := bind_eq_some_iff.mp htotal
    obtain ⟨estimate, hestimate, hmax⟩ := bind_eq_some_iff.mp hmiddle
    obtain rfl := Option.some.inj hmax
    obtain ⟨hle, hall⟩ := ih hrest
    refine ⟨(le_max_left _ _).trans hle, ?_⟩
    intro other hother
    rcases mem_cons.mp hother with rfl | hother
    · exact ⟨estimate, (le_max_right _ _).trans hle, hestimate⟩
    · exact hall other hother

variable (listable : Resource → Prop)

/-- Every type that can be deleted and listed was listed as empty. -/
def Content.Emptied (content : Content Resource) : Prop :=
  ∀ resource ∈ content.deletableResources, listable resource →
    (content.answers resource).remaining = .ok []

variable {listable} {content : Content Resource}

/-- A deletion is issued of the incarnation that was found terminating, without finalizers. -/
def IssuedDelete.Justified (issued : IssuedDelete) : Prop :=
  issued.target = issued.observed.uid ∧ issued.observed.deletionTimestamp ≠ none ∧
    issued.finalizers = ∅

/-- A finalizer is removed from the incarnation that was found terminating, after it was found
empty. -/
def Finalization.Justified (listable : Resource → Prop) (finalization : Finalization Resource) :
    Prop :=
  finalization.target = finalization.observed.uid ∧
    finalization.observed.deletionTimestamp ≠ none ∧ finalization.content.Emptied listable

def Phase.Sound (listable : Resource → Prop) : Phase Resource → Prop
  | .deletingFinalized ns => ns.deletionTimestamp ≠ none ∧ ns.finalizers = ∅
  | .emptying ns => ns.deletionTimestamp ≠ none
  | .finalizing ns latest content | .refreshing ns latest content =>
    latest.uid = ns.uid ∧ ns.deletionTimestamp ≠ none ∧ content.Emptied listable
  | .deletingEmptied ns result => ns.deletionTimestamp ≠ none ∧ result.finalizers = ∅
  | .idle | .getting | .updatingStatus _ | .refreshingStatus _ => True

structure Inv (listable : Resource → Prop) (c : Cluster Resource) : Prop where
  calls : ∀ id, (c.calls id).Sound listable
  deletes : ∀ issued ∈ c.deletes, issued.Justified
  finalizations : ∀ finalization ∈ c.finalizations, finalization.Justified listable

variable {c d : Cluster Resource}

theorem Inv.enter (hinv : Inv listable c) (id : ℕ) {phase : Phase Resource}
    (hphase : phase.Sound listable) : Inv listable (c.enter id phase) := by
  refine ⟨?_, hinv.deletes, hinv.finalizations⟩
  intro other
  change (Function.update c.calls id phase other).Sound listable
  rw [Function.update_apply]
  split_ifs
  · exact hphase
  · exact hinv.calls other

theorem sound_observe (ns : Namespace) : (observe ns : Phase Resource).Sound listable := by
  unfold observe
  split_ifs with hdeletion hfin
  · trivial
  · exact ⟨hdeletion, hfin⟩
  · exact hdeletion

theorem Inv.delete (hinv : Inv listable c) {precondition : Option ℕ} {now : ℤ}
    {observed : Namespace} {finalizers : Finset String}
    (htarget : ∀ ns, c.stored = some ns → precondition.all (· = ns.uid) = true →
      ns.uid = observed.uid)
    (hobs : observed.deletionTimestamp ≠ none) (hfin : finalizers = ∅) :
    Inv listable (c.delete precondition now observed finalizers) := by
  unfold Cluster.delete
  cases hstored : c.stored with
  | none => exact hinv
  | some ns =>
    dsimp only
    split_ifs with hprecondition
    · refine ⟨hinv.calls, ?_, hinv.finalizations⟩
      intro issued hissued
      rcases mem_cons.mp hissued with rfl | hold
      · exact ⟨htarget ns hstored hprecondition, hobs, hfin⟩
      · exact hinv.deletes issued hold
    · exact hinv

theorem Inv.finalize (hinv : Inv listable c) {id : ℕ} {ns latest current : Namespace}
    (hphase : c.calls id = .finalizing ns latest content) (hver : current.SameVersion latest)
    (finalizers : Finset String) :
    Inv listable (c.finalize ns content current finalizers) := by
  have hsound := hinv.calls id
  rw [hphase] at hsound
  refine ⟨hinv.calls, hinv.deletes, ?_⟩
  intro finalization hmem
  rcases mem_cons.mp hmem with rfl | hold
  · exact ⟨hver.1.trans hsound.1, hsound.2⟩
  · exact hinv.finalizations finalization hold

/-- The deletion of an emptied namespace finds no namespace of the name, or the emptied one. -/
def NotRecreated (c : Cluster Resource) : Label → Prop
  | .deleteEmptied id => ∀ ns result current, c.calls id = .deletingEmptied ns result →
    c.stored = some current → current.uid = ns.uid
  | _ => True

theorem Inv.step {finalizerToken : String} {label : Label} (hinv : Inv listable c)
    (hguard : NotRecreated c label) (hstep : Step finalizerToken listable c label d) :
    Inv listable d := by
  have hsound : ∀ id phase, c.calls id = phase → phase.Sound listable :=
    fun id _ hphase ↦ hphase ▸ hinv.calls id
  cases hstep with
  | create | change | delete => exact { hinv with }
  | start id | abort id | get id | statusConflict id | refreshStatus id =>
    exact hinv.enter id trivial
  | keepStatus id latest hphase hkept => exact hinv.enter id (sound_observe latest)
  | updateStatus id latest current hphase hold hstored hver =>
    have hupdated : Inv listable (c.store { current with phase := .terminating }) :=
      { hinv with }
    exact hupdated.enter id (sound_observe _)
  | deleteFinalized id ns now hphase =>
    obtain ⟨hdeletion, hfin⟩ := hsound id _ hphase
    refine Inv.enter ?_ id trivial
    refine hinv.delete (fun current _ huid ↦ ?_) hdeletion hfin
    exact (of_decide_eq_true huid).symm
  | empty id ns content hphase hlistable hzero =>
    refine hinv.enter id ⟨rfl, hsound id _ hphase, fun resource hmem hlist ↦ ?_⟩
    obtain ⟨estimate, hle, hestimate⟩ := (estimate_le_of_foldlM hzero).2 resource hmem
    obtain rfl := Nat.le_zero.mp hle
    exact (remaining_of_estimate_zero hestimate).resolve_right (hlistable resource hlist)
  | finalize id ns latest content current hphase hstored hver =>
    refine (hinv.finalize hphase hver _).enter id ?_
    split_ifs with hempty
    · exact ⟨(hsound id _ hphase).2.1, hempty⟩
    · trivial
  | finalizeLost id ns latest content current hphase hstored hver =>
    exact (hinv.finalize hphase hver _).enter id trivial
  | finalizeConflict id ns latest content hphase =>
    have hfinalizing := hsound id _ hphase
    exact hinv.enter id hfinalizing
  | refresh id ns previous latest content hphase hstored huid =>
    obtain ⟨hprev, hrest⟩ := hsound id _ hphase
    exact hinv.enter id ⟨huid.symm.trans hprev, hrest⟩
  | finalizeNotFound id ns latest content hphase hstored =>
    exact hinv.enter id ⟨(hsound id _ hphase).2.1, rfl⟩
  | deleteEmptied id ns result now hphase =>
    obtain ⟨hdeletion, hfin⟩ := hsound id _ hphase
    refine Inv.enter ?_ id trivial
    exact hinv.delete (fun current hstored _ ↦ hguard ns result current hphase hstored) hdeletion
      hfin

/-- If no emptied namespace is recreated before its deletion is issued, calls delete and finalize
only incarnations that they found terminating, and empty before they finalize them. -/
theorem namespace_deletions_justified (finalizerToken : String) (listable : Resource → Prop)
    (c : Cluster Resource)
    (hreach : Reachable Initial (guarded NotRecreated (Step finalizerToken listable)) c) :
    (∀ issued ∈ c.deletes, issued.Justified) ∧
      ∀ finalization ∈ c.finalizations, finalization.Justified listable := by
  have hinv : Inv listable c := by
    refine Reachable.invariant ?_ ?_ hreach
    · intro c hinit
      obtain ⟨hcalls, hdeletes, hfinalizations⟩ := hinit
      refine ⟨fun id ↦ ?_, ?_, ?_⟩
      · rw [hcalls id]
        trivial
      · simp [hdeletes]
      · simp [hfinalizations]
    · exact fun _ _ _ _ hinv hstep ↦ hinv.step hstep.1 hstep.2
  exact ⟨hinv.deletes, hinv.finalizations⟩

def terminating : Namespace := ⟨7, 8, some 0, .terminating, {"kubernetes"}⟩

def emptied : Namespace := { terminating with finalizers := ∅, resourceVersion := 9 }

def noContent : Content Unit :=
  ⟨[((), ["list", "delete"])], fun _ ↦ ⟨some 0, true, .ok (), .ok (), true, .ok []⟩⟩

theorem reachable_deletingEmptied :
    ∃ c : Cluster Unit,
      Reachable Initial (guarded NotRecreated (Step "kubernetes" fun _ ↦ True)) c ∧
      c.calls 0 = .deletingEmptied terminating emptied ∧ c.stored = some emptied ∧
      c.clock = 10 ∧ c.deletes = [] := by
  have hstart : Reachable Initial (guarded NotRecreated (Step "kubernetes" fun _ ↦ True))
      (⟨some terminating, 9, fun _ ↦ .idle, [], []⟩ : Cluster Unit) :=
    .start ⟨fun _ ↦ rfl, rfl, rfl⟩
  have hgot := (hstart.guardedNext (.start _ 0 rfl) trivial).guardedNext
    (.get _ 0 terminating rfl rfl) trivial
  have hkept := hgot.guardedNext (.keepStatus _ 0 terminating rfl (.inr rfl)) trivial
  have hempty := hkept.guardedNext
    (.empty _ 0 terminating noContent rfl (fun _ _ ↦ nofun) (by decide +kernel)) trivial
  have hfinalized := hempty.guardedNext
    (.finalize _ 0 terminating terminating noContent terminating rfl rfl ⟨rfl, rfl⟩) trivial
  exact ⟨_, hfinalized, rfl, rfl, rfl, rfl⟩

theorem emptied_namespace_deleted :
    ∃ c : Cluster Unit,
      Reachable Initial (guarded NotRecreated (Step "kubernetes" fun _ ↦ True)) c ∧
      c.stored = none ∧ c.deletes.length = 1 ∧ ∀ issued ∈ c.deletes, issued.Justified := by
  obtain ⟨c, hreach, hcall, hstored, -, hdeletes⟩ := reachable_deletingEmptied
  have hdel := hreach.guardedNext (.deleteEmptied c 0 terminating emptied 0 hcall) (by
    intro ns result current hphase hcur
    cases hcall.symm.trans hphase
    cases hstored.symm.trans hcur
    rfl)
  refine ⟨_, hdel, ?_, ?_, (namespace_deletions_justified _ _ _ hdel).1⟩
  · simp [Cluster.enter, Cluster.delete, hstored, emptied, terminating, Namespace.delete]
  · simp [Cluster.enter, Cluster.delete, hstored, hdeletes]

/-- Another controller deletes the emptied namespace first, a user creates one of the same name, and
the call deletes that. -/
theorem recreated_namespace_deleted :
    ∃ c : Cluster Unit, Reachable Initial (Step "kubernetes" fun _ ↦ True) c ∧
      ∃ issued ∈ c.deletes, ¬issued.Justified := by
  obtain ⟨c, hreach, hcall, hstored, hclock, -⟩ := reachable_deletingEmptied
  have hremoved := hreach.of_guarded.next (.delete c emptied 0 hstored)
  have hcreated := hremoved.next (.create _ {"kubernetes"} rfl)
  have hdel := hcreated.next (.deleteEmptied _ 0 terminating emptied 0 hcall)
  refine ⟨_, hdel, _, mem_cons_self, ?_⟩
  intro hjustified
  have huid : c.clock + 1 = 7 := hjustified.1
  omega

end Kubernetes.NamespaceController

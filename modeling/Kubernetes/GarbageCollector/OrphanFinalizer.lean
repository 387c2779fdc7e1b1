import Kubernetes.GarbageCollector.Propagator
import Kubernetes.Workqueue.Queue

/-!
# The orphan finalizer

An owner that is deleted without its dependents has the orphan finalizer.  The garbage collector
patches the dependents of such owners to drop the reference, and then removes the finalizer.  The
answers of the API server are arbitrary.
-/

namespace Kubernetes.GarbageCollector

open List Workqueue

inductive ApiError
  | notFound
  | conflict
  | other
  deriving DecidableEq, Repr

/-- The answers to the patch of a dependent, and to the requests for the owner in each attempt. -/
structure ApiServer where
  patchObject : Pointer → Except ApiError Unit
  getObject : ℕ → Except ApiError (List String)
  updateObject : ℕ → Except ApiError Unit

/-- The patch that drops an owner reference.  The UID of the dependent is a precondition. -/
structure DeleteOwnerRefPatch where
  ownerUID : UID
  uid : UID
  deriving DecidableEq, Repr

inductive Call
  | patch (dependent : Pointer) (patch : DeleteOwnerRefPatch) (answer : Except ApiError Unit)
  | get (answer : Except ApiError (List String))
  | update (finalizers : List String) (answer : Except ApiError Unit)

inductive OrphanError
  | failedDependents (errorsSlice : List (ObjectReference × ApiError))
  | cannotGet
  | cannotUpdate (err : ApiError) (tried : ℕ)
  | updateMaxRetries
  deriving DecidableEq, Repr

/-- The variables of the loop of `orhpanDependents`, and the requests it has made. -/
structure Orphaning where
  failedDependents : List ObjectReference
  errorsSlice : List (ObjectReference × ApiError)
  calls : List Call

section

variable (server : ApiServer) (p : Propagator) (owner : ObjectReference)

def orphanDependent (state : Orphaning) (dependent : Pointer) : Orphaning :=
  let identity := (p.nodes dependent).identity
  let answer := server.patchObject dependent
  { state with
    errorsSlice :=
      match answer with
      | .ok _ | .error .notFound => state.errorsSlice
      | .error err => state.errorsSlice ++ [(identity, err)]
    calls := state.calls ++ [.patch dependent ⟨owner.uid, identity.uid⟩ answer] }

def orhpanDependents (dependents : List Pointer) : Option OrphanError × List Call :=
  let state := dependents.foldl (orphanDependent server p owner) ⟨[], [], []⟩
  if state.failedDependents.length ≠ 0 then
    (some (.failedDependents state.errorsSlice), state.calls)
  else (none, state.calls)

end

def retries : ℕ := 5

/-- The loop of `removeOrphanFinalizer`.  The finalizers before the orphan finalizer are written. -/
def removeOrphanFinalizerLoop (server : ApiServer) : ℕ → ℕ → Option OrphanError × List Call
  | 0, _ => (some .updateMaxRetries, [])
  | remaining + 1, count =>
    match server.getObject count with
    | .error err => (some .cannotGet, [.get (.error err)])
    | .ok finalizers =>
      if finalizerOrphan ∈ finalizers then
        let newFinalizers := finalizers.takeWhile (· ≠ finalizerOrphan)
        let calls := [.get (.ok finalizers), .update newFinalizers (server.updateObject count)]
        match server.updateObject count with
        | .ok _ => (none, calls)
        | .error .conflict =>
          let (err, rest) := removeOrphanFinalizerLoop server remaining (count + 1)
          (err, calls ++ rest)
        | .error err => (some (.cannotUpdate err (count + 1)), calls)
      else (none, [.get (.ok finalizers)])

def removeOrphanFinalizer (server : ApiServer) : Option OrphanError × List Call :=
  removeOrphanFinalizerLoop server retries 0

/-- Orphan the dependents of an owner of the queue, in an order, and remove its finalizer, or add
the owner again if this fails. -/
def orphanFinalizer (server : ApiServer) (p : Propagator) (dependents : List Pointer)
    (orphanQueue : Queue Pointer) : Queue Pointer × List Call :=
  match orphanQueue.get with
  | (.item owner, orphanQueue) =>
    match orhpanDependents server p (p.nodes owner).identity dependents with
    | (some _, calls) => (((orphanQueue.add owner).1.done owner).1, calls)
    | (none, calls) =>
      match removeOrphanFinalizer server with
      | (some _, rest) => (((orphanQueue.add owner).1.done owner).1, calls ++ rest)
      | (none, rest) => ((orphanQueue.done owner).1, calls ++ rest)
  | (_, orphanQueue) => (orphanQueue, [])

variable {server : ApiServer} {p : Propagator} {owner : Pointer} {dependents : List Pointer}

def Orphaned (calls : List Call) (dependent : Pointer) : Prop :=
  ∃ patch answer, .patch dependent patch answer ∈ calls ∧
    (answer = .ok () ∨ answer = .error .notFound)

def patchCall (server : ApiServer) (p : Propagator) (owner : ObjectReference)
    (dependent : Pointer) : Call :=
  .patch dependent ⟨owner.uid, (p.nodes dependent).identity.uid⟩ (server.patchObject dependent)

theorem foldl_orphanDependent (owner : ObjectReference) (state : Orphaning) :
    (dependents.foldl (orphanDependent server p owner) state).failedDependents =
        state.failedDependents ∧
      (dependents.foldl (orphanDependent server p owner) state).calls =
        state.calls ++ dependents.map (patchCall server p owner) := by
  induction dependents generalizing state with
  | nil => simp
  | cons dependent dependents ih =>
    obtain ⟨hfailed, hcalls⟩ := ih (orphanDependent server p owner state dependent)
    rw [foldl_cons]
    refine ⟨hfailed, ?_⟩
    rw [hcalls]
    simp [orphanDependent, patchCall]

/-- No error of a patch is reported: nothing is ever added to `failedDependents`. -/
theorem orhpanDependents_eq (owner : ObjectReference) :
    orhpanDependents server p owner dependents =
      (none, dependents.map (patchCall server p owner)) := by
  obtain ⟨hfailed, hcalls⟩ := @foldl_orphanDependent server p dependents owner ⟨[], [], []⟩
  rw [orhpanDependents, hfailed, hcalls]
  simp

theorem orphaned_map_patchCall {owner : ObjectReference} {rest : List Call} {dependent : Pointer}
    (hmem : dependent ∈ dependents)
    (hrest : ∀ other patch answer, .patch other patch answer ∉ rest) :
    Orphaned (dependents.map (patchCall server p owner) ++ rest) dependent ↔
      server.patchObject dependent = .ok () ∨ server.patchObject dependent = .error .notFound := by
  constructor
  · rintro ⟨patch, answer, hcall, hanswer⟩
    rcases mem_append.mp hcall with hpatch | hother
    · obtain ⟨other, -, hother⟩ := mem_map.mp hpatch
      injection hother with hsame _ hserver
      rw [← hsame, hserver]
      exact hanswer
    · exact absurd hother (hrest _ _ _)
  · intro hanswer
    exact ⟨_, _, mem_append_left _ (mem_map_of_mem hmem), hanswer⟩

/-! ## The finalizer -/

section

variable (server : ApiServer)

/-- The owner is read with its orphan finalizer, and the update conflicts. -/
def ApiServer.ConflictsAt (count : ℕ) : Prop :=
  (∃ finalizers, server.getObject count = .ok finalizers ∧ finalizerOrphan ∈ finalizers) ∧
    server.updateObject count = .error .conflict

/-- The owner cannot be read, or it has the orphan finalizer and the update fails without a
conflict. -/
def ApiServer.FailsAt (count : ℕ) : Prop :=
  (∃ err, server.getObject count = .error err) ∨
    (∃ finalizers, server.getObject count = .ok finalizers ∧ finalizerOrphan ∈ finalizers) ∧
      ∃ err, err ≠ .conflict ∧ server.updateObject count = .error err

/-- Up to some attempt all updates conflict, and that attempt fails or is one too many. -/
def ApiServer.RefusesFrom (remaining count : ℕ) : Prop :=
  ∃ tries ≤ remaining, (∀ earlier < tries, server.ConflictsAt (count + earlier)) ∧
    (tries < remaining → server.FailsAt (count + tries))

def ApiServer.RefusesRemoval : Prop := server.RefusesFrom retries 0

end

theorem refusesFrom_succ {remaining count : ℕ} :
    server.RefusesFrom (remaining + 1) count ↔
      server.FailsAt count ∨
        server.ConflictsAt count ∧ server.RefusesFrom remaining (count + 1) := by
  constructor
  · rintro ⟨tries, hle, hconflicts, hfails⟩
    cases tries with
    | zero => exact .inl (hfails (Nat.succ_pos _))
    | succ tries =>
      refine .inr ⟨hconflicts 0 (Nat.succ_pos _), tries, Nat.le_of_succ_le_succ hle, ?_, ?_⟩
      · intro earlier hlt
        rw [Nat.add_assoc, Nat.add_comm 1 earlier]
        exact hconflicts (earlier + 1) (Nat.succ_lt_succ hlt)
      · intro hlt
        rw [Nat.add_assoc, Nat.add_comm 1 tries]
        exact hfails (Nat.succ_lt_succ hlt)
  · rintro (hfails | ⟨hconflict, tries, hle, hconflicts, hfails⟩)
    · exact ⟨0, Nat.zero_le _, fun _ h ↦ absurd h (Nat.not_lt_zero _), fun _ ↦ hfails⟩
    · refine ⟨tries + 1, Nat.succ_le_succ hle, ?_, ?_⟩
      · intro earlier hlt
        cases earlier with
        | zero => exact hconflict
        | succ earlier =>
          rw [Nat.add_comm earlier 1, ← Nat.add_assoc]
          exact hconflicts earlier (Nat.lt_of_succ_lt_succ hlt)
      · intro hlt
        rw [Nat.add_comm tries 1, ← Nat.add_assoc]
        exact hfails (Nat.lt_of_succ_lt_succ hlt)

section Attempt

variable {count : ℕ} {finalizers : List String}

section

variable (hget : server.getObject count = .ok finalizers)

include hget

theorem failsAt_of_read (hmem : finalizerOrphan ∈ finalizers) :
    server.FailsAt count ↔ ∃ err, err ≠ .conflict ∧ server.updateObject count = .error err := by
  rw [ApiServer.FailsAt, hget]
  simp [hmem]

theorem conflictsAt_of_read (hmem : finalizerOrphan ∈ finalizers) :
    server.ConflictsAt count ↔ server.updateObject count = .error .conflict := by
  rw [ApiServer.ConflictsAt, hget]
  simp [hmem]

theorem not_refusesFrom_of_read {remaining : ℕ} (hmem : finalizerOrphan ∉ finalizers) :
    ¬ server.RefusesFrom (remaining + 1) count := by
  rw [refusesFrom_succ, ApiServer.FailsAt, ApiServer.ConflictsAt, hget]
  simp [hmem]

end

end Attempt

/-- The loop patches nothing, and fails exactly if the answers refuse the removal; then no update
has succeeded. -/
structure Removes (server : ApiServer) (remaining count : ℕ)
    (result : Option OrphanError × List Call) : Prop where
  noPatch : ∀ other patch answer, .patch other patch answer ∉ result.2
  refused : result.1 ≠ none ↔ server.RefusesFrom remaining count
  noUpdate : result.1 ≠ none → ∀ finalizers, .update finalizers (.ok ()) ∉ result.2

theorem removes_removeOrphanFinalizerLoop (remaining count : ℕ) :
    Removes server remaining count (removeOrphanFinalizerLoop server remaining count) := by
  induction remaining generalizing count with
  | zero =>
    refine ⟨by simp [removeOrphanFinalizerLoop],
      iff_of_true (by simp [removeOrphanFinalizerLoop]) ⟨0, le_rfl, ?_, ?_⟩,
      by simp [removeOrphanFinalizerLoop]⟩
    · exact fun _ h ↦ absurd h (Nat.not_lt_zero _)
    · exact fun h ↦ absurd h (Nat.lt_irrefl _)
  | succ remaining ih =>
    rw [removeOrphanFinalizerLoop]
    cases hget : server.getObject count with
    | error err =>
      exact ⟨by simp, iff_of_true (by simp) (refusesFrom_succ.mpr (.inl (.inl ⟨err, hget⟩))),
        by simp⟩
    | ok finalizers =>
      dsimp only
      by_cases hmem : finalizerOrphan ∈ finalizers
      · have hfails := failsAt_of_read hget hmem
        have hconflicts := conflictsAt_of_read hget hmem
        rw [if_pos hmem]
        cases hupd : server.updateObject count with
        | ok answer =>
          refine ⟨by simp, iff_of_false (by simp) ?_, by simp⟩
          rw [refusesFrom_succ, hfails, hconflicts, hupd]
          simp
        | error err =>
          by_cases hconflict : err = .conflict
          · subst hconflict
            obtain ⟨hnoPatch, hrefused, hnoUpdate⟩ := ih (count + 1)
            refine ⟨by simp [hnoPatch], ?_, fun herr ↦ by simpa using hnoUpdate herr⟩
            rw [refusesFrom_succ, hfails, hconflicts, hupd]
            simpa using hrefused
          · have hrefuses : server.RefusesFrom (remaining + 1) count :=
              refusesFrom_succ.mpr (.inl (hfails.mpr ⟨err, hconflict, hupd⟩))
            cases err with
            | conflict => exact absurd rfl hconflict
            | notFound | other => exact ⟨by simp, iff_of_true (by simp) hrefuses, by simp⟩
      · rw [if_neg hmem]
        exact ⟨by simp, iff_of_false (by simp) (not_refusesFrom_of_read hget hmem), by simp⟩

theorem takeWhile_eq_filter_iff {α : Type} {p : α → Bool} {l : List α} :
    l.takeWhile p = l.filter p ↔ ∀ a ∈ l.dropWhile p, ¬ p a := by
  have hfilter : l.filter p = l.takeWhile p ++ (l.dropWhile p).filter p := by
    conv_lhs => rw [← takeWhile_append_dropWhile (p := p) (l := l), filter_append]
    rw [filter_eq_self.mpr fun a ha ↦ all_eq_true.mp all_takeWhile a ha]
  rw [hfilter, self_eq_append_right, filter_eq_nil_iff]

/-- One of the attempts reads these finalizers, the orphan finalizer among them, and its update
succeeds. -/
def ApiServer.ReplacesFrom (server : ApiServer) : ℕ → ℕ → List String → Prop
  | 0, _, _ => False
  | remaining + 1, count, finalizers =>
    server.getObject count = .ok finalizers ∧ finalizerOrphan ∈ finalizers ∧
        server.updateObject count = .ok () ∨
      server.ConflictsAt count ∧ server.ReplacesFrom remaining (count + 1) finalizers

/-- What a successful update writes stops at the first orphan finalizer that was read. -/
theorem infix_removeOrphanFinalizerLoop {finalizers newFinalizers : List String}
    (remaining count : ℕ) :
    [.get (.ok finalizers), .update newFinalizers (.ok ())] <:+:
        (removeOrphanFinalizerLoop server remaining count).2 ↔
      server.ReplacesFrom remaining count finalizers ∧
        newFinalizers = finalizers.takeWhile (· ≠ finalizerOrphan) := by
  induction remaining generalizing count with
  | zero => simp [removeOrphanFinalizerLoop, ApiServer.ReplacesFrom]
  | succ remaining ih =>
    rw [removeOrphanFinalizerLoop, ApiServer.ReplacesFrom, ApiServer.ConflictsAt]
    cases hget : server.getObject count with
    | error err => simp [infix_cons_iff]
    | ok read =>
      by_cases hmem : finalizerOrphan ∈ read
      · cases hupd : server.updateObject count with
        | ok answer =>
          suffices finalizers = read ∧ newFinalizers = read.takeWhile (· ≠ finalizerOrphan) ↔
              (read = finalizers ∧ finalizerOrphan ∈ finalizers) ∧
                newFinalizers = finalizers.takeWhile (· ≠ finalizerOrphan) by
            simpa [hmem, infix_cons_iff]
          constructor
          · rintro ⟨rfl, hnew⟩
            exact ⟨⟨rfl, hmem⟩, hnew⟩
          · rintro ⟨⟨rfl, -⟩, hnew⟩
            exact ⟨rfl, hnew⟩
        | error err =>
          cases err with
          | conflict => simp [hmem, infix_cons_iff, ih]
          | notFound | other => simp [hmem, infix_cons_iff]
      · have hne : finalizerOrphan ∈ finalizers → read ≠ finalizers := by
          rintro hother rfl
          exact hmem hother
        simpa [hmem, infix_cons_iff] using fun hsame hother ↦ absurd hsame (hne hother)

/-- The other finalizers are kept exactly if none stands behind the orphan finalizer that is
removed. -/
theorem removeOrphanFinalizer_keeps_others_iff (server : ApiServer) :
    (∀ finalizers newFinalizers,
        [.get (.ok finalizers), .update newFinalizers (.ok ())] <:+:
          (removeOrphanFinalizer server).2 →
        newFinalizers = finalizers.filter (· ≠ finalizerOrphan)) ↔
      ∀ finalizers, server.ReplacesFrom retries 0 finalizers →
        ∀ f ∈ finalizers.dropWhile (· ≠ finalizerOrphan), f = finalizerOrphan := by
  simp only [removeOrphanFinalizer, infix_removeOrphanFinalizerLoop, and_imp, forall_eq_apply_imp_iff]
  apply forall_congr'
  intro finalizers
  apply imp_congr_right
  intro _
  rw [takeWhile_eq_filter_iff]
  simp

/-! ## The whole step -/

/-- The finalizer is removed only after all dependents are orphaned, and otherwise the owner is
queued again. -/
structure Completes (dependents : Finset Pointer) (owner : Pointer)
    (result : Queue Pointer × List Call) : Prop where
  removes : ∀ before finalizers after,
    result.2 = before ++ .update finalizers (.ok ()) :: after →
      ∀ dependent ∈ dependents, Orphaned before dependent
  requeues : (¬ ∀ dependent ∈ dependents, Orphaned result.2 dependent) → owner ∈ result.1.queue

variable {orphanQueue : Queue Pointer} {rest : List Pointer}

theorem orphanFinalizer_eq (hqueue : orphanQueue.queue = owner :: rest) :
    orphanFinalizer server p dependents orphanQueue =
      (if (removeOrphanFinalizer server).1 = none then (orphanQueue.get.2.done owner).1
        else ((orphanQueue.get.2.add owner).1.done owner).1,
        dependents.map (patchCall server p (p.nodes owner).identity) ++
          (removeOrphanFinalizer server).2) := by
  have hget : orphanQueue.get = (.item owner, orphanQueue.get.2) := by
    rw [Queue.get, hqueue]
  rw [orphanFinalizer, hget]
  dsimp only
  rw [orhpanDependents_eq]
  generalize removeOrphanFinalizer server = result
  obtain ⟨err, calls⟩ := result
  cases err <;> rfl

theorem exists_before_update {identity : ObjectReference} {calls before after : List Call}
    {finalizers : List String} {answer : Except ApiError Unit}
    (hcalls : dependents.map (patchCall server p identity) ++ calls =
      before ++ .update finalizers answer :: after) :
    ∃ middle, before = dependents.map (patchCall server p identity) ++ middle ∧
      calls = middle ++ .update finalizers answer :: after := by
  rcases append_eq_append_iff.mp hcalls with ⟨middle, hbefore, hrest⟩ | ⟨patches, hpatches, hrest⟩
  · exact ⟨middle, hbefore, hrest⟩
  · cases patches with
    | nil => exact ⟨[], by simpa using hpatches.symm, by simpa using hrest.symm⟩
    | cons first patches =>
      obtain ⟨rfl, -⟩ := cons_eq_cons.mp hrest
      have hmem : Call.update finalizers answer ∈ dependents.map (patchCall server p identity) := by
        rw [hpatches]
        exact mem_append_right _ mem_cons_self
      obtain ⟨dependent, -, hpatch⟩ := mem_map.mp hmem
      cases hpatch

section

variable (hwf : orphanQueue.WellFormed) (hopen : orphanQueue.shuttingDown = false)
  (hqueue : orphanQueue.queue = owner :: rest)

include hwf hopen hqueue

theorem mem_queue_done_get :
    owner ∉ (orphanQueue.get.2.done owner).1.queue ∧
      owner ∈ ((orphanQueue.get.2.add owner).1.done owner).1.queue := by
  have hnodup := hwf.nodup
  rw [hqueue, nodup_cons] at hnodup
  have hget : orphanQueue.get.2 = { orphanQueue with
      queue := rest
      processing := insert owner orphanQueue.processing
      dirty := orphanQueue.dirty.erase owner } := by
    rw [Queue.get, hqueue]
  rw [Queue.mem_queue_done, Queue.mem_queue_done, Queue.mem_dirty_add, hget]
  simp [hnodup.1, hopen]

/-- Orphaning is complete before the finalizer goes exactly if every patch succeeds or finds no
object, or the removal is refused. -/
theorem orphanFinalizer_completes_iff (horder : dependents.toFinset = (p.nodes owner).dependents) :
    Completes (p.nodes owner).dependents owner
        (orphanFinalizer server p dependents orphanQueue) ↔
      (∀ dependent ∈ (p.nodes owner).dependents, server.patchObject dependent = .ok () ∨
        server.patchObject dependent = .error .notFound) ∨
      server.RefusesRemoval := by
  obtain ⟨hnoPatch, hrefused, hnoUpdate⟩ :=
    @removes_removeOrphanFinalizerLoop server retries 0
  change (removeOrphanFinalizer server).1 ≠ none ↔ server.RefusesRemoval at hrefused
  have hmem : ∀ dependent ∈ (p.nodes owner).dependents, dependent ∈ dependents := by
    intro dependent hdep
    rwa [← mem_toFinset, horder]
  have horphaned : ∀ dependent ∈ (p.nodes owner).dependents, ∀ calls,
      (∀ other patch answer, .patch other patch answer ∉ calls) →
      (Orphaned (dependents.map (patchCall server p (p.nodes owner).identity) ++ calls) dependent ↔
        server.patchObject dependent = .ok () ∨ server.patchObject dependent = .error .notFound) :=
    fun dependent hdep calls hcalls ↦ orphaned_map_patchCall (hmem dependent hdep) hcalls
  obtain ⟨hgone, hback⟩ := mem_queue_done_get hwf hopen hqueue
  rw [orphanFinalizer_eq hqueue]
  constructor
  · intro hcompletes
    by_contra hnot
    rw [not_or, ← hrefused, not_not] at hnot
    have hagain := hcompletes.requeues fun hall ↦ hnot.1 fun dependent hdep ↦
      (horphaned dependent hdep _ hnoPatch).mp (hall dependent hdep)
    rw [if_pos hnot.2] at hagain
    exact hgone hagain
  · rintro (hpatched | hrefuses)
    · refine ⟨fun before finalizers after hcalls dependent hdep ↦ ?_, fun hnot ↦ ?_⟩
      · obtain ⟨middle, rfl, hmiddle⟩ := exists_before_update hcalls
        refine (horphaned dependent hdep middle fun other patch answer hpatch ↦ ?_).mpr
          (hpatched dependent hdep)
        refine hnoPatch other patch answer ?_
        change _ ∈ (removeOrphanFinalizer server).2
        rw [hmiddle]
        exact mem_append_left _ hpatch
      · exact absurd (fun dependent hdep ↦
          (horphaned dependent hdep _ hnoPatch).mpr (hpatched dependent hdep)) hnot
    · have herr := hrefused.mpr hrefuses
      refine ⟨fun before finalizers after hcalls ↦ ?_, fun _ ↦ ?_⟩
      · obtain ⟨middle, -, hmiddle⟩ := exists_before_update hcalls
        refine absurd ?_ (hnoUpdate herr finalizers)
        change _ ∈ (removeOrphanFinalizer server).2
        rw [hmiddle]
        exact mem_append_right _ mem_cons_self
      · rw [if_neg herr]
        exact hback

end

def sampleGraph : Propagator :=
  { Propagator.new with
    nodes := fun n ↦
      if n = 0 then ⟨⟨⟨"v1", "ReplicationController", "rc", "u"⟩, "ns"⟩, {1}, []⟩
      else ⟨⟨⟨"v1", "Pod", "pod", "v"⟩, "ns"⟩, ∅, [⟨"v1", "ReplicationController", "rc", "u"⟩]⟩ }

/-- The server gives one answer to all patches, and it allows the removal of the finalizer. -/
def sampleServer (answer : Except ApiError Unit) : ApiServer where
  patchObject := fun _ ↦ answer
  getObject := fun _ ↦ .ok [finalizerOrphan]
  updateObject := fun _ ↦ .ok ()

def sampleQueue : Queue Pointer := (Queue.new.add 0).1

/-- The dependent is gone already, and the finalizer is removed. -/
theorem orphanFinalizer_completes_notFound :
    (sampleServer (.error .notFound)).patchObject 1 = .error .notFound ∧
      Completes (sampleGraph.nodes 0).dependents 0
        (orphanFinalizer (sampleServer (.error .notFound)) sampleGraph [1] sampleQueue) :=
  ⟨rfl, (orphanFinalizer_completes_iff (Queue.wellFormed_new.add 0) rfl rfl (by decide)).mpr
    (.inl fun _ _ ↦ .inr rfl)⟩

/-- The patch fails, the finalizer is removed, and the owner is not queued any more. -/
theorem failed_patch_forgotten :
    (orphanFinalizer (sampleServer (.error .other)) sampleGraph [1] sampleQueue).2 =
      [.patch 1 ⟨"u", "v"⟩ (.error .other), .get (.ok [finalizerOrphan]), .update [] (.ok ())] ∧
    (orphanFinalizer (sampleServer (.error .other)) sampleGraph [1] sampleQueue).1.queue = [] ∧
    ¬ Completes (sampleGraph.nodes 0).dependents 0
      (orphanFinalizer (sampleServer (.error .other)) sampleGraph [1] sampleQueue) := by
  have hcalls : (orphanFinalizer (sampleServer (.error .other)) sampleGraph [1] sampleQueue).2 =
      [.patch 1 ⟨"u", "v"⟩ (.error .other), .get (.ok [finalizerOrphan]), .update [] (.ok ())] :=
    rfl
  refine ⟨hcalls, rfl, fun hcompletes ↦ ?_⟩
  obtain ⟨patch, answer, hmem, hanswer⟩ := hcompletes.removes
    [.patch 1 ⟨"u", "v"⟩ (.error .other), .get (.ok [finalizerOrphan])] [] [] hcalls 1 (by decide)
  simp only [mem_cons, not_mem_nil, or_false, reduceCtorEq, Call.patch.injEq] at hmem
  rw [hmem.2.2] at hanswer
  simp at hanswer

theorem finalizer_behind_orphan_lost :
    (removeOrphanFinalizer
        { sampleServer (.ok ()) with getObject := fun _ ↦ .ok [finalizerOrphan, "kubernetes"] }).2 =
      [.get (.ok [finalizerOrphan, "kubernetes"]), .update [] (.ok ())] ∧
    [] ≠ [finalizerOrphan, "kubernetes"].filter (· ≠ finalizerOrphan) :=
  ⟨by rfl, by decide⟩

end Kubernetes.GarbageCollector

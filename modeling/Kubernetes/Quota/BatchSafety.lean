import Kubernetes.Quota.WorkBatches

/-!
# No waiter is lost

If nobody adds work for a namespace while a worker that found no work for it has not yet completed
it, every waiter is in one place until it is finished, and no two workers check waiters of one
namespace.  Without the condition all of this fails: the worker has released the namespace already,
and its `completeWork` acts on the work of others.
-/

namespace Kubernetes.Quota.Batching

open Finset Function Workqueue

variable {Ns Worker AdmissionWaiter : Type}

/-! ## The namespaces of the workers -/

namespace Phase

def engaged : Phase Ns AdmissionWaiter → Option Ns
  | .idle => none
  | .got ns | .checking ns _ | .checked ns | .emptied ns => some ns

def holding : Phase Ns AdmissionWaiter → Option Ns
  | .idle | .emptied _ => none
  | .got ns | .checking ns _ | .checked ns => some ns

def working : Phase Ns AdmissionWaiter → Option Ns
  | .idle | .emptied _ | .got _ => none
  | .checking ns _ | .checked ns => some ns

theorem engaged_iff {phase : Phase Ns AdmissionWaiter} {ns : Ns} :
    phase.engaged = some ns ↔ phase.holding = some ns ∨ phase = .emptied ns := by
  cases phase <;> simp [engaged, holding]

theorem holding_iff {phase : Phase Ns AdmissionWaiter} {ns : Ns} :
    phase.holding = some ns ↔ phase.working = some ns ∨ phase = .got ns := by
  cases phase <;> simp [holding, working]

end Phase

/-- How the work queue, the collected waiters and the workers fit together. -/
structure Safe (e : QuotaEvaluator Ns AdmissionWaiter) (phase : Worker → Phase Ns AdmissionWaiter) :
    Prop where
  queue : e.queue.WellFormed
  running : e.queue.shuttingDown = false
  unique : ∀ ns first second, (phase first).engaged = some ns → (phase second).engaged = some ns →
    first = second
  processing : ∀ ns, ns ∈ e.queue.processing ↔ ∃ worker, (phase worker).holding = some ns
  inProgress : ∀ ns, ns ∈ e.inProgress ↔ ∃ worker, (phase worker).working = some ns
  dirtyWork : ∀ ns, e.dirtyWork ns ≠ [] → ns ∈ e.inProgress ∧ ns ∈ e.queue.dirty
  work : ∀ ns, e.work ns ≠ [] →
    ns ∉ e.inProgress ∧ (ns ∈ e.queue.queue ∨ ∃ worker, phase worker = .got ns)
  got : ∀ worker ns, phase worker = .got ns → ns ∈ e.queue.dirty → e.work ns ≠ []
  emptied : ∀ worker ns, phase worker = .emptied ns → ns ∉ e.queue.dirty

variable {e : QuotaEvaluator Ns AdmissionWaiter} {phase : Worker → Phase Ns AdmissionWaiter}
variable {worker : Worker} {ns : Ns}

theorem safe_new : Safe (.new : QuotaEvaluator Ns AdmissionWaiter) fun _ : Worker ↦ .idle where
  queue := Queue.wellFormed_new
  running := rfl
  unique ns first second hfirst := by simp [Phase.engaged] at hfirst
  processing ns := by simp [QuotaEvaluator.new, Queue.new, Phase.holding]
  inProgress ns := by simp [QuotaEvaluator.new, Phase.working]
  dirtyWork ns hne := absurd rfl hne
  work ns hne := absurd rfl hne
  got worker ns hgot := by simp at hgot
  emptied worker ns hemptied := by simp at hemptied

section

variable (hsafe : Safe e phase)

include hsafe

theorem Safe.notMem_inProgress (hgot : phase worker = .got ns) :
    ns ∉ e.inProgress := by
  intro hin
  obtain ⟨other, hworking⟩ := (hsafe.inProgress ns).mp hin
  have hengaged := Phase.engaged_iff.mpr (.inl (Phase.holding_iff.mpr (.inl hworking)))
  have heq := hsafe.unique ns other worker hengaged (by rw [hgot]; rfl)
  rw [heq, hgot] at hworking
  simp [Phase.working] at hworking

theorem Safe.not_engaged (hqueued : ns ∈ e.queue.queue) (worker : Worker) :
    (phase worker).engaged ≠ some ns := by
  intro hengaged
  rcases Phase.engaged_iff.mp hengaged with hholding | hemptied
  · exact hsafe.queue.not_processing_of_mem ns hqueued ((hsafe.processing ns).mpr ⟨worker, hholding⟩)
  · exact hsafe.emptied worker ns hemptied (hsafe.queue.dirty_of_mem ns hqueued)

end

/-! ## The steps keep the invariant -/

section Steps

theorem Safe.addWork [DecidableEq Ns] (hsafe : Safe e phase) (a : AdmissionWaiter)
    (hord : ∀ worker, phase worker ≠ .emptied ns) : Safe (e.addWork ns a) phase := by
  have hdirty : ∀ other, other ∈ (e.queue.add ns).1.dirty ↔ other ∈ e.queue.dirty ∨ other = ns := by
    simp [Queue.mem_dirty_add, hsafe.running]
  have hqueue := Queue.mem_queue_add hsafe.queue hsafe.running ns
  have hemptied : ∀ worker other, phase worker = .emptied other →
      other ∉ (e.queue.add ns).1.dirty := by
    intro worker other hemptied hmem
    rcases (hdirty other).mp hmem with hold | rfl
    · exact hsafe.emptied worker other hemptied hold
    · exact hord worker hemptied
  unfold QuotaEvaluator.addWork
  dsimp only
  split_ifs with hin
  · refine ⟨hsafe.queue.add ns, by simpa using hsafe.running, hsafe.unique,
      by simpa using hsafe.processing, hsafe.inProgress, ?_, ?_, ?_, hemptied⟩
    · intro other hne
      by_cases heq : other = ns
      · exact ⟨heq ▸ hin, (hdirty other).mpr (.inr heq)⟩
      · dsimp only at hne
        rw [update_of_ne heq] at hne
        obtain ⟨hprog, hmem⟩ := hsafe.dirtyWork other hne
        exact ⟨hprog, (hdirty other).mpr (.inl hmem)⟩
    · intro other hne
      obtain ⟨hprog, hmem⟩ := hsafe.work other hne
      exact ⟨hprog, hmem.imp_left fun h ↦ (hqueue other).mpr (.inl h)⟩
    · intro worker other hgot hmem
      rcases (hdirty other).mp hmem with hold | rfl
      · exact hsafe.got worker other hgot hold
      · exact absurd hin (hsafe.notMem_inProgress hgot)
  · refine ⟨hsafe.queue.add ns, by simpa using hsafe.running, hsafe.unique,
      by simpa using hsafe.processing, hsafe.inProgress, ?_, ?_, ?_, hemptied⟩
    · intro other hne
      obtain ⟨hprog, hmem⟩ := hsafe.dirtyWork other hne
      exact ⟨hprog, (hdirty other).mpr (.inl hmem)⟩
    · intro other hne
      by_cases heq : other = ns
      · -- The namespace is queued now, unless a worker has got it and will see the waiter.
        subst heq
        refine ⟨hin, ?_⟩
        by_cases hproc : other ∈ e.queue.processing
        · obtain ⟨worker, hholding⟩ := (hsafe.processing other).mp hproc
          refine .inr ⟨worker, (Phase.holding_iff.mp hholding).resolve_left fun hworking ↦ ?_⟩
          exact hin ((hsafe.inProgress other).mpr ⟨worker, hworking⟩)
        · exact .inl ((hqueue other).mpr (.inr ⟨rfl, hproc⟩))
      · dsimp only at hne
        rw [update_of_ne heq] at hne
        obtain ⟨hprog, hmem⟩ := hsafe.work other hne
        exact ⟨hprog, hmem.imp_left fun h ↦ (hqueue other).mpr (.inl h)⟩
    · intro worker other hgot hmem
      by_cases heq : other = ns
      · subst heq
        simp
      · dsimp only
        rw [update_of_ne heq]
        exact hsafe.got worker other hgot (((hdirty other).mp hmem).resolve_right heq)

variable [DecidableEq Worker]

section Update

variable {P : Phase Ns AdmissionWaiter → Prop} {target : Phase Ns AdmissionWaiter}

theorem exists_update_of_not (hnot : ¬ P (phase worker)) :
    (∃ other, P (update phase worker target other)) ↔ P target ∨ ∃ other, P (phase other) := by
  rw [exists_update_iff phase fun _ ↦ P]
  refine or_congr_right ⟨fun ⟨other, _, hother⟩ ↦ ⟨other, hother⟩, fun ⟨other, hother⟩ ↦ ?_⟩
  exact ⟨other, fun heq ↦ hnot (heq ▸ hother), hother⟩

theorem exists_update_of_iff (hiff : P target ↔ P (phase worker)) :
    (∃ other, P (update phase worker target other)) ↔ ∃ other, P (phase other) := by
  by_cases hworker : P (phase worker)
  · exact ⟨fun _ ↦ ⟨worker, hworker⟩, fun _ ↦ ⟨worker, by
      rw [update_self]
      exact hiff.mpr hworker⟩⟩
  · rw [exists_update_of_not hworker]
    exact or_iff_right fun htarget ↦ hworker (hiff.mp htarget)

variable (hsafe : Safe e phase)

include hsafe

theorem Safe.unique_update
    (hnew : ∀ ns, target.engaged = some ns → ∀ other, (phase other).engaged = some ns →
      other = worker) :
    ∀ ns first second, (update phase worker target first).engaged = some ns →
      (update phase worker target second).engaged = some ns → first = second := by
  intro ns first second hfirst hsecond
  rw [update_apply] at hfirst hsecond
  split_ifs at hfirst hsecond with h₁ h₂ h₂
  · rw [h₁, h₂]
  · rw [h₁, hnew ns hfirst second hsecond]
  · rw [h₂, hnew ns hsecond first hfirst]
  · exact hsafe.unique ns first second hfirst hsecond

theorem Safe.exists_update_of_leave {at_ : Phase Ns AdmissionWaiter → Option Ns}
    (hat : ∀ phase ns, at_ phase = some ns → phase.engaged = some ns)
    (hengaged : (phase worker).engaged = some ns) (hleave : at_ target = none) (other : Ns) :
    (∃ first, at_ (update phase worker target first) = some other) ↔
      other ≠ ns ∧ ∃ first, at_ (phase first) = some other := by
  rw [exists_update_iff phase fun _ phase ↦ at_ phase = some other, hleave]
  simp only [reduceCtorEq, false_or]
  constructor
  · rintro ⟨first, hne, hfirst⟩
    refine ⟨?_, first, hfirst⟩
    rintro rfl
    exact hne (hsafe.unique other first worker (hat _ _ hfirst) hengaged)
  · rintro ⟨hne, first, hfirst⟩
    refine ⟨first, ?_, hfirst⟩
    rintro rfl
    have heq := (hat _ _ hfirst).symm.trans hengaged
    exact hne (Option.some.inj heq)

theorem Safe.unique_update_of_engaged (hengaged : (phase worker).engaged = some ns)
    (htarget : target.engaged = some ns) :
    ∀ ns first second, (update phase worker target first).engaged = some ns →
      (update phase worker target second).engaged = some ns → first = second := by
  refine hsafe.unique_update fun other hother first hfirst ↦ ?_
  rw [htarget] at hother
  exact hsafe.unique ns first worker (Option.some.inj hother ▸ hfirst) hengaged

end Update

theorem Safe.checkAttributes (hsafe : Safe e phase) {batch : List AdmissionWaiter}
    (hchecking : phase worker = .checking ns batch) :
    Safe e (update phase worker (.checked ns)) := by
  have hengaged : (phase worker).engaged = some ns := by
    rw [hchecking]
    rfl
  refine ⟨hsafe.queue, hsafe.running, hsafe.unique_update_of_engaged hengaged rfl, ?_, ?_,
    hsafe.dirtyWork, ?_, ?_, ?_⟩
  · intro other
    rw [exists_update_of_iff (P := fun phase ↦ phase.holding = some other)
      (by simp [hchecking, Phase.holding]), hsafe.processing other]
  · intro other
    rw [exists_update_of_iff (P := fun phase ↦ phase.working = some other)
      (by simp [hchecking, Phase.working]), hsafe.inProgress other]
  · intro other hne
    rw [exists_update_of_iff (P := fun phase ↦ phase = .got other) (by simp [hchecking])]
    exact hsafe.work other hne
  · intro first other hgot
    rw [update_apply] at hgot
    split_ifs at hgot
    exact hsafe.got first other hgot
  · intro first other hemptied
    rw [update_apply] at hemptied
    split_ifs at hemptied
    exact hsafe.emptied first other hemptied

variable [DecidableEq Ns]

section

variable (hsafe : Safe e phase)

include hsafe

theorem Safe.get (hidle : phase worker = .idle) (hitem : e.queue.get.1 = .item ns) :
    Safe { e with queue := e.queue.get.2 } (update phase worker (.got ns)) := by
  obtain ⟨rest, hqueue⟩ : ∃ rest, e.queue.queue = ns :: rest := by
    cases hitems : e.queue.queue with
    | nil =>
      rw [Queue.get_of_nil hitems] at hitem
      split_ifs at hitem
    | cons first rest =>
      rw [Queue.get_of_cons hitems] at hitem
      exact ⟨rest, by rw [GetResult.item.inj hitem]⟩
  have hqueued : ns ∈ e.queue.queue := hqueue ▸ List.mem_cons_self
  have hfree := hsafe.not_engaged hqueued
  have hwell := hsafe.queue.get
  rw [Queue.get_of_cons hqueue] at hwell ⊢
  refine ⟨hwell, hsafe.running, ?_, ?_, ?_, ?_, ?_, ?_, ?_⟩
  · exact hsafe.unique_update fun other hother first hfirst ↦
      absurd (Option.some.inj hother ▸ hfirst) (hfree first)
  · intro other
    rw [exists_update_of_not (P := fun phase ↦ phase.holding = some other)
      (by simp [hidle, Phase.holding]), mem_insert, hsafe.processing other]
    exact or_congr_left (by simp [Phase.holding, eq_comm])
  · intro other
    rw [exists_update_of_iff (P := fun phase ↦ phase.working = some other)
      (by simp [hidle, Phase.working]), hsafe.inProgress other]
  · intro other hne
    obtain ⟨hprog, hdirty⟩ := hsafe.dirtyWork other hne
    refine ⟨hprog, mem_erase.mpr ⟨?_, hdirty⟩⟩
    rintro rfl
    obtain ⟨first, hworking⟩ := (hsafe.inProgress other).mp hprog
    exact hfree first (Phase.engaged_iff.mpr (.inl (Phase.holding_iff.mpr (.inl hworking))))
  · intro other hne
    obtain ⟨hprog, hmem⟩ := hsafe.work other hne
    refine ⟨hprog, ?_⟩
    rw [exists_update_of_not (P := fun phase ↦ phase = .got other) (by simp [hidle])]
    rw [hqueue, List.mem_cons] at hmem
    rcases hmem with (rfl | hrest) | hgot
    · exact .inr (.inl rfl)
    · exact .inl hrest
    · exact .inr (.inr hgot)
  · intro first other hgot hdirty
    obtain ⟨hne, hdirty⟩ := mem_erase.mp hdirty
    rw [update_apply] at hgot
    split_ifs at hgot
    · exact absurd (Phase.got.inj hgot).symm hne
    · exact hsafe.got first other hgot hdirty
  · intro first other hemptied hdirty
    rw [update_apply] at hemptied
    split_ifs at hemptied
    exact hsafe.emptied first other hemptied (mem_of_mem_erase hdirty)

/-- The waiters of the other namespaces are still known after those of a namespace were taken. -/
theorem Safe.work_taken (hgot : phase worker = .got ns) (target : Phase Ns AdmissionWaiter)
    {other : Ns} (hne : update e.work ns [] other ≠ []) :
    other ≠ ns ∧ other ∉ e.inProgress ∧
      (other ∈ e.queue.queue ∨ ∃ first, update phase worker target first = .got other) := by
  have hother : other ≠ ns := by
    rintro rfl
    simp at hne
  rw [update_of_ne hother] at hne
  obtain ⟨hprog, hmem⟩ := hsafe.work other hne
  refine ⟨hother, hprog, hmem.imp_right fun ⟨first, hfirst⟩ ↦ ⟨first, ?_⟩⟩
  rw [update_of_ne, hfirst]
  rintro rfl
  exact hother (Phase.got.inj (hfirst.symm.trans hgot))

theorem Safe.got_of_update (hengaged : (phase worker).engaged = some ns)
    {target : Phase Ns AdmissionWaiter} (htarget : ∀ other, target ≠ .got other)
    {waiters : List AdmissionWaiter} {first : Worker} {other : Ns}
    (hgot : update phase worker target first = .got other) (hdirty : other ∈ e.queue.dirty) :
    update e.work ns waiters other ≠ [] := by
  rw [update_apply] at hgot
  split_ifs at hgot with hfirst
  · exact absurd hgot (htarget other)
  · have hother : other ≠ ns := by
      rintro rfl
      exact hfirst (hsafe.unique other first worker (by rw [hgot]; rfl) hengaged)
    rw [update_of_ne hother]
    exact hsafe.got first other hgot hdirty

theorem Safe.take (hgot : phase worker = .got ns) (batch : List AdmissionWaiter) :
    Safe { e with
        work := update e.work ns []
        dirtyWork := update e.dirtyWork ns []
        inProgress := insert ns e.inProgress }
      (update phase worker (.checking ns batch)) := by
  have hengaged : (phase worker).engaged = some ns := by
    rw [hgot]
    rfl
  refine ⟨hsafe.queue, hsafe.running, hsafe.unique_update_of_engaged hengaged rfl, ?_, ?_, ?_, ?_,
    fun first other ↦ hsafe.got_of_update hengaged (by simp), ?_⟩
  · intro other
    rw [exists_update_of_iff (P := fun phase ↦ phase.holding = some other)
      (by simp [hgot, Phase.holding]), hsafe.processing other]
  · intro other
    rw [exists_update_of_not (P := fun phase ↦ phase.working = some other)
      (by simp [hgot, Phase.working]), mem_insert, hsafe.inProgress other]
    exact or_congr_left (by simp [Phase.working, eq_comm])
  · intro other hne
    have hother : other ≠ ns := by
      rintro rfl
      simp at hne
    dsimp only at hne
    rw [update_of_ne hother] at hne
    exact (hsafe.dirtyWork other hne).imp_left mem_insert_of_mem
  · intro other hne
    obtain ⟨hother, hprog, hmem⟩ := hsafe.work_taken hgot _ hne
    exact ⟨by simp [hother, hprog], hmem⟩
  · intro first other hemptied
    rw [update_apply] at hemptied
    split_ifs at hemptied
    exact hsafe.emptied first other hemptied

theorem Safe.takeNothing (hgot : phase worker = .got ns) (hwork : e.work ns = []) :
    Safe { e with
        queue := (e.queue.done ns).1
        work := update e.work ns []
        dirtyWork := update e.dirtyWork ns []
        inProgress := e.inProgress.erase ns }
      (update phase worker (.emptied ns)) := by
  have hengaged : (phase worker).engaged = some ns := by
    rw [hgot]
    rfl
  -- Whoever made the namespace dirty since it was got would have left a waiter.
  have hclean : ns ∉ e.queue.dirty := fun hdirty ↦ hsafe.got worker ns hgot hdirty hwork
  have hholding : ns ∈ e.queue.processing :=
    (hsafe.processing ns).mpr ⟨worker, by rw [hgot]; rfl⟩
  refine ⟨hsafe.queue.done hholding, by simpa using hsafe.running,
    hsafe.unique_update_of_engaged hengaged rfl, ?_, ?_, ?_, ?_,
    fun first other hgot hdirty ↦ hsafe.got_of_update hengaged (by simp) hgot
      (by simpa using hdirty), ?_⟩
  · intro other
    rw [hsafe.exists_update_of_leave (fun _ _ h ↦ Phase.engaged_iff.mpr (.inl h)) hengaged rfl,
      ← hsafe.processing other]
    simp
  · intro other
    rw [hsafe.exists_update_of_leave (fun _ _ h ↦ Phase.engaged_iff.mpr
      (.inl (Phase.holding_iff.mpr (.inl h)))) hengaged rfl, ← hsafe.inProgress other]
    simp
  · intro other hne
    have hother : other ≠ ns := by
      rintro rfl
      simp at hne
    dsimp only at hne
    rw [update_of_ne hother] at hne
    simpa [hother] using hsafe.dirtyWork other hne
  · intro other hne
    obtain ⟨hother, hprog, hmem⟩ := hsafe.work_taken hgot _ hne
    refine ⟨fun h ↦ hprog (mem_of_mem_erase h), hmem.imp_left fun h ↦ ?_⟩
    exact (Queue.mem_queue_done _ _ _).mpr (.inl h)
  · intro first other hemptied hdirty
    rw [Queue.dirty_done] at hdirty
    rw [update_apply] at hemptied
    split_ifs at hemptied
    · exact hclean (Phase.emptied.inj hemptied ▸ hdirty)
    · exact hsafe.emptied first other hemptied hdirty

end

theorem Safe.completeWork (hsafe : Safe e phase)
    (hdone : phase worker = .checked ns ∨ phase worker = .emptied ns) :
    Safe (e.completeWork ns) (update phase worker .idle) := by
  have hengaged : (phase worker).engaged = some ns := by
    rcases hdone with hdone | hdone <;> rw [hdone] <;> rfl
  have hwell : (e.queue.done ns).1.WellFormed := by
    rcases hdone with hchecked | hemptied
    · exact hsafe.queue.done ((hsafe.processing ns).mpr ⟨worker, by rw [hchecked]; rfl⟩)
    · -- The namespace was released before, and nobody has got it since.
      rw [Queue.done_of_clean ?_ (hsafe.emptied worker ns hemptied)]
      · exact hsafe.queue
      · intro hproc
        obtain ⟨other, hholding⟩ := (hsafe.processing ns).mp hproc
        have heq := hsafe.unique ns other worker (Phase.engaged_iff.mpr (.inl hholding)) hengaged
        rw [heq, hemptied] at hholding
        simp [Phase.holding] at hholding
  have hnotGot : ∀ other, phase worker ≠ .got other := by
    rcases hdone with hdone | hdone <;> simp [hdone]
  refine ⟨hwell, by simpa [QuotaEvaluator.completeWork] using hsafe.running,
    hsafe.unique_update (by simp [Phase.engaged]), ?_, ?_, ?_, ?_,
    fun first other hgot hdirty ↦ hsafe.got_of_update hengaged (by simp) hgot
      (by simpa [QuotaEvaluator.completeWork] using hdirty), ?_⟩
  · intro other
    rw [hsafe.exists_update_of_leave (fun _ _ h ↦ Phase.engaged_iff.mpr (.inl h)) hengaged rfl,
      ← hsafe.processing other]
    simp [QuotaEvaluator.completeWork]
  · intro other
    rw [hsafe.exists_update_of_leave (fun _ _ h ↦ Phase.engaged_iff.mpr
      (.inl (Phase.holding_iff.mpr (.inl h)))) hengaged rfl, ← hsafe.inProgress other]
    simp [QuotaEvaluator.completeWork]
  · intro other hne
    have hother : other ≠ ns := by
      rintro rfl
      simp [QuotaEvaluator.completeWork] at hne
    simp only [QuotaEvaluator.completeWork, update_of_ne hother] at hne
    simpa [QuotaEvaluator.completeWork, hother] using hsafe.dirtyWork other hne
  · intro other hne
    by_cases hother : other = ns
    · -- The waiters that came meanwhile made the namespace dirty, so it is queued again.
      subst hother
      simp only [QuotaEvaluator.completeWork, update_self] at hne
      refine ⟨by simp [QuotaEvaluator.completeWork], .inl ?_⟩
      exact (Queue.mem_queue_done _ _ _).mpr (.inr ⟨rfl, (hsafe.dirtyWork other hne).2⟩)
    · simp only [QuotaEvaluator.completeWork, update_of_ne hother] at hne
      obtain ⟨hprog, hmem⟩ := hsafe.work other hne
      refine ⟨fun h ↦ hprog (mem_of_mem_erase h), ?_⟩
      rw [exists_update_of_iff (P := fun phase ↦ phase = .got other) (by simp [hnotGot other])]
      exact hmem.imp_left fun h ↦ (Queue.mem_queue_done _ _ _).mpr (.inl h)
  · intro first other hemptied hdirty
    simp only [QuotaEvaluator.completeWork, Queue.dirty_done] at hdirty
    rw [update_apply] at hemptied
    split_ifs at hemptied
    exact hsafe.emptied first other hemptied hdirty

end Steps

end Kubernetes.Quota.Batching

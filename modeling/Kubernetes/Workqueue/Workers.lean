import Kubernetes.Basic.Condition
import Kubernetes.Basic.Transition
import Kubernetes.Workqueue.Queue

/-!
# Producers and workers on a work queue

Any number of producers add items, any number of workers get items and finish them, and somebody may
shut the queue down.  `Get` may sleep on the condition variable and look again when it is woken.  A
worker finishes only what it holds; no call reads `held`.
-/

namespace Kubernetes.Workqueue

open List

variable {Worker Item : Type} [DecidableEq Worker] [DecidableEq Item]

/-- The queue, the workers inside `Get`, and the items the workers hold. -/
structure System (Worker Item : Type) where
  queue : Queue Item
  cond : Condition Worker
  held : List (Worker × Item)

namespace System

def get (state : System Worker Item) (worker : Worker) : System Worker Item :=
  match state.queue.get with
  | (.wait, queue) => { state with queue := queue, cond := state.cond.wait worker }
  | (.shutdown, queue) => { state with queue := queue }
  | (.item item, queue) => { state with queue := queue, held := (worker, item) :: state.held }

def resume (state : System Worker Item) (worker : Worker) : System Worker Item :=
  { state with cond := state.cond.resume worker }

end System

/-- The calls.  A `get` carries what the worker saw, which is `wait` as long as it sleeps. -/
inductive Op (Worker Item : Type)
  | add (item : Item)
  | get (worker : Worker) (result : GetResult Item)
  | done (worker : Worker) (item : Item)
  | shutDown
  deriving DecidableEq, Repr

inductive Step : System Worker Item → Op Worker Item → System Worker Item → Prop
  | add (state : System Worker Item) (item : Item) (cond : Condition Worker)
      (hsignal : Condition.SignalIf (state.queue.add item).2 state.cond cond) :
      Step state (.add item) { state with queue := (state.queue.add item).1, cond := cond }
  | get (state : System Worker Item) (worker : Worker) (hactive : ¬state.cond.IsWaiting worker) :
      Step state (.get worker state.queue.get.1) (state.get worker)
  | resume (state : System Worker Item) (worker : Worker) (hwoken : worker ∈ state.cond.woken) :
      Step state (.get worker state.queue.get.1) ((state.resume worker).get worker)
  | done (state : System Worker Item) (worker : Worker) (item : Item)
      (hactive : ¬state.cond.IsWaiting worker) (hheld : (worker, item) ∈ state.held)
      (cond : Condition Worker)
      (hsignal : Condition.SignalIf (state.queue.done item).2 state.cond cond) :
      Step state (.done worker item)
        { queue := (state.queue.done item).1
          cond := cond
          held := state.held.erase (worker, item) }
  | shutDown (state : System Worker Item) :
      Step state .shutDown
        { state with queue := state.queue.shutDown, cond := state.cond.broadcast }

variable {next : System Worker Item} {op : Op Worker Item} {worker : Worker}

namespace System

def new : System Worker Item where
  queue := .new
  cond := .new
  held := []

def Reachable : System Worker Item → Prop := Transition.Reachable (· = new) Step

/-- The queue is well formed, the items worked on are those held, each by one worker, and no
wake-up is lost. -/
structure Safe (state : System Worker Item) : Prop where
  queue : state.queue.WellFormed
  processing_iff : ∀ item, item ∈ state.queue.processing ↔ ∃ worker, (worker, item) ∈ state.held
  held_nodup : (state.held.map Prod.snd).Nodup
  separate : state.cond.Separate
  covers : state.cond.Covers state.queue.queue.length
  awake : state.queue.shuttingDown = true → state.cond.sleeping = ∅

omit [DecidableEq Worker] [DecidableEq Item] in
theorem safe_new : (new : System Worker Item).Safe where
  queue := Queue.wellFormed_new
  processing_iff item := by simp [new, Queue.new]
  held_nodup := nodup_nil
  separate := Finset.disjoint_empty_left _
  covers hsleeping := absurd hsleeping Finset.not_nonempty_empty
  awake h := nomatch h

variable {state : System Worker Item} {item : Item}

omit [DecidableEq Worker] [DecidableEq Item] in
theorem Safe.worker_eq (hstate : state.Safe) {first second : Worker}
    (hfirst : (first, item) ∈ state.held)
    (hsecond : (second, item) ∈ state.held) : first = second :=
  congrArg Prod.fst (inj_on_of_nodup_map hstate.held_nodup hfirst hsecond rfl)

/-- What a worker takes was held by nobody, and if it goes to sleep there is nothing to take.  The
lock may come from a wake-up, so one unit less has to be covered before. -/
theorem safe_get (state : System Worker Item) (hqueue : state.queue.WellFormed)
    (hproc : ∀ item, item ∈ state.queue.processing ↔ ∃ worker, (worker, item) ∈ state.held)
    (hnodup : (state.held.map Prod.snd).Nodup) (hsep : state.cond.Separate)
    (hcovers : state.cond.Covers (state.queue.queue.length - 1))
    (hawake : state.queue.shuttingDown = true → state.cond.sleeping = ∅)
    (hwoken : worker ∉ state.cond.woken) : (state.get worker).Safe := by
  have hget := hqueue.get
  unfold System.get
  cases hitems : state.queue.queue with
  | nil =>
    rw [Queue.get_of_nil hitems]
    cases hshut : state.queue.shuttingDown with
    | true => exact ⟨hqueue, hproc, hnodup, hsep, by simpa [hitems] using hcovers, hawake⟩
    | false =>
      refine ⟨hqueue, hproc, hnodup, hsep.wait hwoken, ?_, fun h ↦ ?_⟩
      · simp only [Bool.false_eq_true, if_false, hitems]
        exact fun _ ↦ Nat.zero_le _
      · exact nomatch hshut.symm.trans h
  | cons item rest =>
    rw [hitems] at hcovers
    rw [Queue.get_of_cons hitems] at hget ⊢
    have hidle : item ∉ state.queue.processing :=
      hqueue.not_processing_of_mem item (hitems ▸ mem_cons_self)
    refine ⟨hget, fun other ↦ ?_, ?_, hsep, hcovers, hawake⟩
    · simp only [Finset.mem_insert, mem_cons, Prod.mk.injEq, exists_or, hproc other]
      simp
    · rw [map_cons, nodup_cons]
      refine ⟨fun hmem ↦ ?_, hnodup⟩
      obtain ⟨⟨holder, other⟩, hheld, rfl⟩ := mem_map.mp hmem
      exact hidle ((hproc _).mpr ⟨holder, hheld⟩)

theorem Safe.done (hstate : state.Safe) (hheld : (worker, item) ∈ state.held)
    {cond : Condition Worker}
    (hsignal : Condition.SignalIf (state.queue.done item).2 state.cond cond) :
    Safe
      { queue := (state.queue.done item).1
        cond := cond
        held := state.held.erase (worker, item) } where
  queue := hstate.queue.done ((hstate.processing_iff item).mpr ⟨worker, hheld⟩)
  processing_iff other := by
    rw [Queue.processing_done, Finset.mem_erase, hstate.processing_iff other]
    have hnodup := List.Nodup.of_map _ hstate.held_nodup
    constructor
    · rintro ⟨hne, holder, hother⟩
      exact ⟨holder, (mem_erase_of_ne fun heq ↦ hne (congrArg Prod.snd heq)).mpr hother⟩
    · rintro ⟨holder, hother⟩
      obtain ⟨hne, hmem⟩ := hnodup.mem_erase_iff.mp hother
      refine ⟨fun heq ↦ hne ?_, holder, hmem⟩
      subst heq
      rw [hstate.worker_eq hmem hheld]
  held_nodup := hstate.held_nodup.sublist (erase_sublist.map Prod.snd)
  separate := hstate.separate.signalIf hsignal
  covers := by
    rw [Queue.length_done]
    exact hstate.covers.signalIf hstate.separate hsignal
  awake hshut := by
    rw [Queue.shuttingDown_done] at hshut
    have hsleeping := hstate.awake hshut
    exact Finset.subset_empty.mp (hsleeping ▸ hsignal.sleeping_subset)

theorem Safe.step (hstate : state.Safe) (hstep : Step state op next) :
    next.Safe := by
  cases hstep with
  | add item cond hsignal =>
    refine ⟨hstate.queue.add item, ?_, hstate.held_nodup, hstate.separate.signalIf hsignal, ?_,
      fun hshut ↦ ?_⟩
    · simpa using hstate.processing_iff
    · rw [Queue.length_add]
      exact hstate.covers.signalIf hstate.separate hsignal
    · rw [Queue.shuttingDown_add] at hshut
      have hsleeping := hstate.awake hshut
      exact Finset.subset_empty.mp (hsleeping ▸ hsignal.sleeping_subset)
  | get worker hactive =>
    exact safe_get state hstate.queue hstate.processing_iff hstate.held_nodup hstate.separate
      (hstate.covers.mono (Nat.sub_le _ _)) hstate.awake fun hwoken ↦ hactive (.inr hwoken)
  | resume worker hwoken =>
    exact safe_get (state.resume worker) hstate.queue hstate.processing_iff
      hstate.held_nodup (hstate.separate.resume worker) (hstate.covers.resume worker) hstate.awake
      (Finset.notMem_erase _ _)
  | done worker item hactive hheld cond hsignal => exact hstate.done hheld hsignal
  | shutDown =>
    exact ⟨hstate.queue.shutDown, hstate.processing_iff, hstate.held_nodup, .broadcast _,
      fun hsleeping ↦ absurd hsleeping Finset.not_nonempty_empty, fun _ ↦ rfl⟩

theorem Reachable.safe (hreach : state.Reachable) : state.Safe :=
  Transition.Reachable.invariant (fun _ h ↦ h ▸ safe_new)
    (fun _ _ _ _ hstate hstep ↦ hstate.step hstep) hreach

theorem dirty_get (state : System Worker Item) (worker : Worker)
    (hdirty : item ∈ state.queue.dirty) (hres : state.queue.get.1 ≠ .item item) :
    item ∈ (state.get worker).queue.dirty := by
  unfold System.get
  cases hitems : state.queue.queue with
  | nil =>
    rw [Queue.get_of_nil hitems]
    cases state.queue.shuttingDown <;> exact hdirty
  | cons first rest =>
    rw [Queue.get_of_cons hitems] at hres ⊢
    exact Finset.mem_erase.mpr ⟨fun heq ↦ hres (heq ▸ rfl), hdirty⟩

theorem dirty_step (hstep : Step state op next) (hdirty : item ∈ state.queue.dirty)
    (hop : ∀ worker, op ≠ .get worker (.item item)) :
    item ∈ next.queue.dirty := by
  cases hstep with
  | add other cond hsignal => exact (Queue.mem_dirty_add _ _ _).mpr (.inl hdirty)
  | get worker hactive => exact state.dirty_get worker hdirty fun heq ↦ hop worker (heq ▸ rfl)
  | resume worker hwoken =>
    exact (state.resume worker).dirty_get worker hdirty fun heq ↦ hop worker (heq ▸ rfl)
  | done worker other hactive hheld cond hsignal =>
    rw [Queue.dirty_done]
    exact hdirty
  | shutDown => exact hdirty

theorem dirty_run {final : System Worker Item} {ops : List (Op Worker Item)}
    (hrun : Transition.Run Step state ops final) (hdirty : item ∈ state.queue.dirty)
    (hops : ∀ worker, .get worker (.item item) ∉ ops) : item ∈ final.queue.dirty := by
  induction hrun with
  | nil => exact hdirty
  | cons hstep _ ih =>
    refine ih (dirty_step hstep hdirty fun worker heq ↦ hops worker ?_) fun worker hmem ↦
      hops worker (mem_cons_of_mem _ hmem)
    rw [heq]
    exact mem_cons_self

/-- In every reachable state the queue has no duplicates, its items are dirty and nobody works on
them, a dirty item is queued or worked on, and no item is held by two workers.  While workers sleep
there is a woken one for every queued item, and after the shutdown nobody sleeps.  After an `Add`
before the shutdown, a run in which the item ends up neither queued nor held contains a `Get` that
returns it. -/
theorem Reachable.queue_safe {state : System Worker Item} (hreach : state.Reachable) :
    (state.queue.queue.Nodup ∧
      (∀ item ∈ state.queue.queue, item ∈ state.queue.dirty ∧ item ∉ state.queue.processing) ∧
      ∀ item ∈ state.queue.dirty, item ∈ state.queue.queue ∨ item ∈ state.queue.processing) ∧
    (∀ first second item, (first, item) ∈ state.held → (second, item) ∈ state.held →
      first = second) ∧
    (state.cond.Covers state.queue.queue.length ∧
      (state.queue.shuttingDown = true → state.cond.sleeping = ∅)) ∧
    ∀ item next, Step state (.add item) next → state.queue.shuttingDown = false →
      ∀ ops final, Transition.Run Step next ops final → item ∉ final.queue.queue →
        (∀ worker, (worker, item) ∉ final.held) → ∃ worker, .get worker (.item item) ∈ ops := by
  have hsafe := hreach.safe
  refine ⟨⟨hsafe.queue.nodup, fun item hitem ↦ ⟨hsafe.queue.dirty_of_mem item hitem,
    hsafe.queue.not_processing_of_mem item hitem⟩, hsafe.queue.mem_of_dirty⟩,
    fun first second item hfirst hsecond ↦ hsafe.worker_eq hfirst hsecond,
    ⟨hsafe.covers, hsafe.awake⟩, ?_⟩
  intro item next hadd hopen ops final hrun hqueue hheld
  by_contra hnever
  have hdirty : item ∈ next.queue.dirty := by
    cases hadd with
    | add _ cond hsignal => exact (Queue.mem_dirty_add _ _ _).mpr (.inr ⟨rfl, hopen⟩)
  have hfinal : final.Safe := Reachable.safe (hrun.reachable (hreach.next hadd))
  have hlast := dirty_run hrun hdirty fun worker hmem ↦ hnever ⟨worker, hmem⟩
  rcases hfinal.queue.mem_of_dirty item hlast with hmem | hproc
  · exact hqueue hmem
  · obtain ⟨worker, hmem⟩ := (hfinal.processing_iff item).mp hproc
    exact hheld worker hmem

def holding : System ℕ ℕ where
  queue := ⟨[], ∅, {7}, false⟩
  cond := .new
  held := [(1, 7)]

def readded : System ℕ ℕ := { holding with queue := ⟨[], {7}, {7}, false⟩ }

def requeued : System ℕ ℕ where
  queue := ⟨[7], {7}, ∅, false⟩
  cond := .new
  held := []

theorem holding_reachable : holding.Reachable := by
  have hadd : Step new (.add 7) requeued := .add new 7 .new (.nobody rfl)
  have hget : Step requeued (.get 1 (.item 7)) holding := .get requeued 1 (by decide)
  exact .next (.next (.start rfl) hadd) hget

/-- An item that is added while it is worked on is got again. -/
theorem readded_got :
    (∃ final, Transition.Run Step readded [.done 1 7, .get 1 (.item 7), .done 1 7] final) ∧
      ∃ worker, Op.get worker (.item 7) ∈ [Op.done 1 7, .get 1 (.item 7), .done 1 7] := by
  have hadd : Step holding (.add 7) readded := .add holding 7 .new rfl
  have hdone : Step readded (.done 1 7) requeued :=
    .done readded 1 7 (by decide) mem_cons_self .new (.nobody rfl)
  have hget : Step requeued (.get 1 (.item 7)) holding := .get requeued 1 (by decide)
  have hlast : Step holding (.done 1 7) new :=
    .done holding 1 7 (by decide) mem_cons_self .new rfl
  have hrun : Transition.Run Step readded [.done 1 7, .get 1 (.item 7), .done 1 7] new :=
    .cons hdone (.cons hget (.cons hlast (.nil new)))
  exact ⟨⟨new, hrun⟩, (Reachable.queue_safe holding_reachable).2.2.2 7 readded hadd rfl _ new hrun
    not_mem_nil fun _ ↦ not_mem_nil⟩

end System

end Kubernetes.Workqueue

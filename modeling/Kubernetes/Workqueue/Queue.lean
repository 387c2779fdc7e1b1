import Mathlib.Data.Finset.Basic

/-!
# The work queue

`Type` keeps the order in which items are to be worked on, the set of dirty items, which need to be
worked on, and the set of items being worked on.  An item that gets dirty while somebody works on it
is queued again when that work is done.

Every operation runs under the lock.  `add` and `done` say whether they signal the condition
variable, and `get` whether the caller goes to sleep.
-/

namespace Kubernetes.Workqueue

open Finset List

variable {Item : Type}

structure Queue (Item : Type) where
  queue : List Item
  dirty : Finset Item
  processing : Finset Item
  shuttingDown : Bool

inductive GetResult (Item : Type)
  | wait
  | shutdown
  | item (item : Item)
  deriving DecidableEq, Repr

namespace Queue

def new : Queue Item where
  queue := []
  dirty := ∅
  processing := ∅
  shuttingDown := false

def len (q : Queue Item) : ℕ := q.queue.length

variable [DecidableEq Item]

/-- `Add` marks an item as needing work.  An item that is being worked on is not queued yet. -/
def add (q : Queue Item) (item : Item) : Queue Item × Bool :=
  if q.shuttingDown then (q, false)
  else if item ∈ q.dirty then (q, false)
  else if item ∈ q.processing then ({ q with dirty := insert item q.dirty }, false)
  else ({ q with dirty := insert item q.dirty, queue := q.queue ++ [item] }, true)

/-- One turn of the loop of `Get`, and what follows the loop. -/
def get (q : Queue Item) : GetResult Item × Queue Item :=
  match q.queue with
  | [] => (if q.shuttingDown then .shutdown else .wait, q)
  | item :: rest =>
    (.item item,
      { q with
        queue := rest
        processing := insert item q.processing
        dirty := q.dirty.erase item })

/-- `Done` ends the work on an item, and queues the item again if it got dirty meanwhile. -/
def done (q : Queue Item) (item : Item) : Queue Item × Bool :=
  let finished := { q with processing := q.processing.erase item }
  if item ∈ q.dirty then ({ finished with queue := q.queue ++ [item] }, true)
  else (finished, false)

def shutDown (q : Queue Item) : Queue Item := { q with shuttingDown := true }

/-- Queued items are the dirty items nobody works on, each once. -/
structure WellFormed (q : Queue Item) : Prop where
  nodup : q.queue.Nodup
  dirty_of_mem : ∀ item ∈ q.queue, item ∈ q.dirty
  not_processing_of_mem : ∀ item ∈ q.queue, item ∉ q.processing
  mem_of_dirty : ∀ item ∈ q.dirty, item ∈ q.queue ∨ item ∈ q.processing

omit [DecidableEq Item] in
theorem wellFormed_new : (new : Queue Item).WellFormed where
  nodup := nodup_nil
  dirty_of_mem _ h := absurd h not_mem_nil
  not_processing_of_mem _ h := absurd h not_mem_nil
  mem_of_dirty _ h := absurd h (notMem_empty _)

variable {q : Queue Item} {item : Item}

/-- Appending a dirty item that is neither queued nor worked on keeps the invariant of the rest. -/
theorem WellFormed.enqueue (hnodup : q.queue.Nodup) (hfresh : item ∉ q.queue)
    (hdirty : item ∈ q.dirty) (hidle : item ∉ q.processing)
    (hmem : ∀ other ∈ q.queue, other ∈ q.dirty ∧ other ∉ q.processing)
    (hrest : ∀ other ∈ q.dirty, other ≠ item → other ∈ q.queue ∨ other ∈ q.processing) :
    WellFormed { q with queue := q.queue ++ [item] } where
  nodup := by
    rw [← concat_eq_append]
    exact hnodup.concat hfresh
  dirty_of_mem other h := by
    rcases List.mem_append.mp h with hold | hnew
    · exact (hmem other hold).1
    · rw [List.mem_singleton.mp hnew]
      exact hdirty
  not_processing_of_mem other h := by
    rcases List.mem_append.mp h with hold | hnew
    · exact (hmem other hold).2
    · rw [List.mem_singleton.mp hnew]
      exact hidle
  mem_of_dirty other h := by
    by_cases heq : other = item
    · exact .inl (mem_append_right _ (List.mem_singleton.mpr heq))
    · exact (hrest other h heq).imp_left (mem_append_left _)

theorem WellFormed.add (hq : q.WellFormed) (item : Item) : (q.add item).1.WellFormed := by
  unfold Queue.add
  split_ifs with hshut hdirty hproc
  · exact hq
  · exact hq
  · exact
      { nodup := hq.nodup
        dirty_of_mem := fun other h ↦ mem_insert_of_mem (hq.dirty_of_mem other h)
        not_processing_of_mem := hq.not_processing_of_mem
        mem_of_dirty := fun other h ↦ by
          rcases mem_insert.mp h with rfl | hold
          · exact .inr hproc
          · exact hq.mem_of_dirty other hold }
  · apply WellFormed.enqueue (q := { q with dirty := insert item q.dirty }) hq.nodup
    · exact fun h ↦ hdirty (hq.dirty_of_mem item h)
    · exact mem_insert_self _ _
    · exact hproc
    · exact fun other h ↦
        ⟨mem_insert_of_mem (hq.dirty_of_mem other h), hq.not_processing_of_mem other h⟩
    · exact fun other h hne ↦ hq.mem_of_dirty other (mem_of_mem_insert_of_ne h hne)

theorem WellFormed.get (hq : q.WellFormed) : q.get.2.WellFormed := by
  unfold Queue.get
  split
  · exact hq
  · rename_i item rest hqueue
    have hnodup := hq.nodup
    rw [hqueue, nodup_cons] at hnodup
    have hmem : ∀ other ∈ rest, other ∈ q.queue := fun other h ↦ by
      rw [hqueue]
      exact mem_cons_of_mem _ h
    have hne : ∀ other ∈ rest, other ≠ item := fun other h heq ↦ hnodup.1 (heq ▸ h)
    exact
      { nodup := hnodup.2
        dirty_of_mem := fun other h ↦
          mem_erase.mpr ⟨hne other h, hq.dirty_of_mem other (hmem other h)⟩
        not_processing_of_mem := fun other h hproc ↦
          (mem_insert.mp hproc).elim (hne other h)
            (hq.not_processing_of_mem other (hmem other h))
        mem_of_dirty := fun other h ↦ by
          obtain ⟨hother, hdirty⟩ := mem_erase.mp h
          rcases hq.mem_of_dirty other hdirty with hold | hproc
          · rw [hqueue] at hold
            exact .inl ((List.mem_cons.mp hold).resolve_left hother)
          · exact .inr (mem_insert_of_mem hproc) }

theorem WellFormed.done (hq : q.WellFormed) (hitem : item ∈ q.processing) :
    (q.done item).1.WellFormed := by
  have hidle : ∀ other ∈ q.queue, other ∉ q.processing.erase item := fun other h hproc ↦
    hq.not_processing_of_mem other h (mem_of_mem_erase hproc)
  have hrest : ∀ other ∈ q.dirty, other ≠ item →
      other ∈ q.queue ∨ other ∈ q.processing.erase item := fun other h hne ↦
    (hq.mem_of_dirty other h).imp_right fun hproc ↦ mem_erase.mpr ⟨hne, hproc⟩
  unfold Queue.done
  split_ifs with hdirty
  · apply WellFormed.enqueue (q := { q with processing := q.processing.erase item }) hq.nodup
    · exact fun h ↦ hq.not_processing_of_mem item h hitem
    · exact hdirty
    · exact notMem_erase _ _
    · exact fun other h ↦ ⟨hq.dirty_of_mem other h, hidle other h⟩
    · exact hrest
  · exact
      { nodup := hq.nodup
        dirty_of_mem := hq.dirty_of_mem
        not_processing_of_mem := hidle
        mem_of_dirty := fun other h ↦ hrest other h fun heq ↦ hdirty (heq ▸ h) }

omit [DecidableEq Item] in
theorem WellFormed.shutDown (hq : q.WellFormed) : q.shutDown.WellFormed :=
  { hq with }

@[simp]
theorem processing_add (q : Queue Item) (item : Item) :
    (q.add item).1.processing = q.processing := by
  unfold Queue.add
  split_ifs <;> rfl

@[simp]
theorem shuttingDown_add (q : Queue Item) (item : Item) :
    (q.add item).1.shuttingDown = q.shuttingDown := by
  unfold Queue.add
  split_ifs <;> rfl

theorem mem_dirty_add (q : Queue Item) (item other : Item) :
    other ∈ (q.add item).1.dirty ↔ other ∈ q.dirty ∨ (other = item ∧ q.shuttingDown = false) := by
  unfold Queue.add
  split_ifs with hshut hdirty hproc
  · simp [hshut]
  · constructor
    · exact .inl
    · rintro (h | ⟨rfl, -⟩)
      · exact h
      · exact hdirty
  · simp [hshut, or_comm]
  · simp [hshut, or_comm]

theorem mem_queue_add (hq : q.WellFormed) (hopen : q.shuttingDown = false) (item other : Item) :
    other ∈ (q.add item).1.queue ↔ other ∈ q.queue ∨ (other = item ∧ item ∉ q.processing) := by
  unfold Queue.add
  split_ifs with hshut hdirty hproc
  · simp [hopen] at hshut
  · refine ⟨.inl, fun h ↦ h.elim id ?_⟩
    rintro ⟨rfl, hidle⟩
    exact (hq.mem_of_dirty _ hdirty).resolve_right hidle
  · simp [hproc]
  · simp [hproc]

section

variable (q : Queue Item) (item : Item)

theorem length_add :
    (q.add item).1.queue.length = q.queue.length + (q.add item).2.toNat := by
  unfold Queue.add
  split_ifs <;> simp

@[simp]
theorem dirty_done : (q.done item).1.dirty = q.dirty := by
  unfold Queue.done
  split_ifs <;> rfl

@[simp]
theorem processing_done :
    (q.done item).1.processing = q.processing.erase item := by
  unfold Queue.done
  split_ifs <;> rfl

end

theorem mem_queue_done (q : Queue Item) (item other : Item) :
    other ∈ (q.done item).1.queue ↔ other ∈ q.queue ∨ (other = item ∧ item ∈ q.dirty) := by
  unfold Queue.done
  split_ifs with hdirty
  · simp [hdirty]
  · simp [hdirty]

theorem done_of_clean (hidle : item ∉ q.processing) (hclean : item ∉ q.dirty) :
    (q.done item).1 = q := by
  simp [Queue.done, hclean, erase_eq_of_notMem hidle]

@[simp]
theorem shuttingDown_done (q : Queue Item) (item : Item) :
    (q.done item).1.shuttingDown = q.shuttingDown := by
  unfold Queue.done
  split_ifs <;> rfl

theorem length_done (q : Queue Item) (item : Item) :
    (q.done item).1.queue.length = q.queue.length + (q.done item).2.toNat := by
  unfold Queue.done
  split_ifs <;> simp

theorem get_of_nil (hqueue : q.queue = []) :
    q.get = (if q.shuttingDown then .shutdown else .wait, q) := by
  simp [Queue.get, hqueue]

theorem get_of_cons {rest : List Item} (hqueue : q.queue = item :: rest) :
    q.get = (.item item,
      { q with
        queue := rest
        processing := insert item q.processing
        dirty := q.dirty.erase item }) := by
  simp [Queue.get, hqueue]

end Queue

end Kubernetes.Workqueue

import Mathlib.Data.Finset.Card

/-!
# Condition variables

Some threads sleep in `wait`, and some have been woken and still have to take the lock again.
`signal` wakes some sleeping thread if there is one; `broadcast` wakes them all.

The threads wait for units of work.  `Covers cond count` says that no unit is left to nobody: if a
thread sleeps, there are at least as many woken threads as units.
-/

namespace Kubernetes

open Finset

structure Condition (Thread : Type*) where
  sleeping : Finset Thread
  woken : Finset Thread

variable {count : ℕ}

namespace Condition

variable {Thread : Type*}

def new : Condition Thread where
  sleeping := ∅
  woken := ∅

def Separate (cond : Condition Thread) : Prop := Disjoint cond.sleeping cond.woken

/-- With a thread asleep there is a woken thread for each of the units. -/
def Covers (cond : Condition Thread) (count : ℕ) : Prop :=
  cond.sleeping.Nonempty → count ≤ cond.woken.card

variable {cond : Condition Thread}

theorem Covers.mono {count fewer : ℕ} (hcond : cond.Covers count) (hfewer : fewer ≤ count) :
    cond.Covers fewer :=
  fun hsleeping ↦ hfewer.trans (hcond hsleeping)

variable [DecidableEq Thread]

def IsWaiting (cond : Condition Thread) (thread : Thread) : Prop :=
  thread ∈ cond.sleeping ∨ thread ∈ cond.woken

instance (cond : Condition Thread) (thread : Thread) : Decidable (cond.IsWaiting thread) :=
  inferInstanceAs (Decidable (_ ∨ _))

section

variable (cond : Condition Thread) (thread : Thread)

def wait : Condition Thread :=
  { cond with sleeping := insert thread cond.sleeping }

def resume : Condition Thread :=
  { cond with woken := cond.woken.erase thread }

def wake : Condition Thread where
  sleeping := cond.sleeping.erase thread
  woken := insert thread cond.woken

end

inductive Signal (cond : Condition Thread) : Condition Thread → Prop
  | nobody (hnobody : cond.sleeping = ∅) : Signal cond cond
  | one (thread : Thread) (hsleeping : thread ∈ cond.sleeping) : Signal cond (cond.wake thread)

def SignalIf (signals : Bool) (cond next : Condition Thread) : Prop :=
  if signals then Signal cond next else next = cond

def broadcast (cond : Condition Thread) : Condition Thread where
  sleeping := ∅
  woken := cond.sleeping ∪ cond.woken

variable {next : Condition Thread} {signals : Bool}

theorem SignalIf.sleeping_subset (hsignal : SignalIf signals cond next) :
    next.sleeping ⊆ cond.sleeping := by
  cases signals with
  | false => exact (hsignal : next = cond) ▸ Finset.Subset.refl _
  | true =>
    cases (hsignal : Signal cond next) with
    | nobody => exact Finset.Subset.refl _
    | one thread => exact erase_subset _ _

section

variable (hcond : cond.Separate)

include hcond

theorem Separate.wait {thread : Thread} (hwoken : thread ∉ cond.woken) :
    (cond.wait thread).Separate :=
  disjoint_insert_left.mpr ⟨hwoken, hcond⟩

theorem Separate.resume (thread : Thread) : (cond.resume thread).Separate :=
  disjoint_of_subset_right (erase_subset _ _) hcond

theorem Separate.wake (thread : Thread) : (cond.wake thread).Separate :=
  disjoint_insert_right.mpr ⟨notMem_erase _ _, disjoint_of_subset_left (erase_subset _ _) hcond⟩

theorem Separate.signalIf (hsignal : SignalIf signals cond next) :
    next.Separate := by
  cases signals with
  | false => exact (hsignal : next = cond) ▸ hcond
  | true =>
    cases (hsignal : Signal cond next) with
    | nobody => exact hcond
    | one thread => exact hcond.wake thread

end

theorem Separate.broadcast (cond : Condition Thread) : cond.broadcast.Separate :=
  disjoint_empty_left _

variable (hcond : cond.Covers count)

include hcond

/-- A woken thread that takes a unit leaves the other units to the other woken threads. -/
theorem Covers.resume (thread : Thread) :
    (cond.resume thread).Covers (count - 1) := by
  intro hsleeping
  have hcount := hcond hsleeping
  have hcard := pred_card_le_card_erase (s := cond.woken) (a := thread)
  change count - 1 ≤ (cond.woken.erase thread).card
  omega

/-- A signal pays for one more unit. -/
theorem Covers.signal (hsep : cond.Separate) (hsignal : Signal cond next) :
    next.Covers (count + 1) := by
  cases hsignal with
  | nobody hnobody =>
    intro hsleeping
    rw [hnobody] at hsleeping
    exact absurd hsleeping Finset.not_nonempty_empty
  | one thread hsleeping =>
    intro _
    have hwoken : thread ∉ cond.woken := disjoint_left.mp hsep hsleeping
    change count + 1 ≤ (insert thread cond.woken).card
    rw [card_insert_of_notMem hwoken]
    exact Nat.succ_le_succ (hcond ⟨thread, hsleeping⟩)

theorem Covers.signalIf (hsep : cond.Separate) (hsignal : SignalIf signals cond next) :
    next.Covers (count + signals.toNat) := by
  cases signals with
  | false => exact (hsignal : next = cond) ▸ hcond
  | true => exact hcond.signal hsep hsignal

end Condition

end Kubernetes

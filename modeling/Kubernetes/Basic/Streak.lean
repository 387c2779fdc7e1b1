import Mathlib.Data.List.Basic
import Mathlib.Order.Basic

/-!
# Streaks

In a history of events, the latest first, a condition may have held without a break up to now.
`start` is the time at which this streak began, as a program computes it that remembers only this.
If times do not decrease, the streak is old enough exactly if the condition has held since some
event that is.
-/

namespace Kubernetes.Streak

open List

variable {Event Time : Type*} (time : Event → Time) (met : Event → Prop) [DecidablePred met]

/-- When the current streak began, if the condition holds at the latest event. -/
def start : List Event → Option Time
  | [] => none
  | event :: older => if met event then some ((start older).getD (time event)) else none

/-- The condition has held at every event since this one. -/
def HeldSince (history : List Event) (first : Event) : Prop :=
  ∃ recent older, history = recent ++ first :: older ∧ met first ∧ ∀ event ∈ recent, met event

variable {time met}

variable {history : List Event}

theorem exists_heldSince_of_start {begun : Time} (hstart : start time met history = some begun) :
    ∃ first, HeldSince met history first ∧ time first = begun := by
  induction history with
  | nil => cases hstart
  | cons event older ih =>
    rw [start] at hstart
    split_ifs at hstart with hmet
    cases holder : start time met older with
    | none =>
      rw [holder] at hstart
      refine ⟨event, ⟨[], older, rfl, hmet, ?_⟩, Option.some.inj hstart⟩
      simp
    | some earlier =>
      rw [holder] at hstart
      obtain ⟨first, ⟨recent, rest, hhist, hfirst, hrecent⟩, htime⟩ := ih
        (holder.trans hstart)
      refine ⟨first, ⟨event :: recent, rest, ?_, hfirst, ?_⟩, htime⟩
      · rw [hhist, cons_append]
      · intro other hmem
        rcases mem_cons.mp hmem with hsame | hother
        · exact hsame ▸ hmet
        · exact hrecent other hother

def LatestFirst [LE Time] (time : Event → Time) (history : List Event) : Prop :=
  history.Pairwise fun later earlier ↦ time earlier ≤ time later

variable [Preorder Time]

theorem start_le_of_heldSince (hordered : LatestFirst time history) {first : Event}
    (hheld : HeldSince met history first) :
    ∃ begun, start time met history = some begun ∧ begun ≤ time first := by
  obtain ⟨recent, older, hhist, hfirst, hrecent⟩ := hheld
  induction recent generalizing history with
  | nil =>
    rw [nil_append] at hhist
    rw [hhist, start, if_pos hfirst]
    refine ⟨_, rfl, ?_⟩
    cases holder : start time met older with
    | none => exact le_rfl
    | some begun =>
      -- the streak goes further back, to an event before this one
      obtain ⟨earlier, ⟨_, _, hsplit, _⟩, htime⟩ := exists_heldSince_of_start holder
      rw [hhist] at hordered
      have hmem : earlier ∈ older := by
        rw [hsplit]
        exact mem_append_right _ mem_cons_self
      exact htime ▸ (pairwise_cons.mp hordered).1 earlier hmem
  | cons event recent ih =>
    rw [cons_append] at hhist
    rw [hhist] at hordered ⊢
    obtain ⟨begun, hbegun, hle⟩ := ih (pairwise_cons.mp hordered).2 rfl
      fun other hmem ↦ hrecent other (mem_cons_of_mem _ hmem)
    refine ⟨begun, ?_, hle⟩
    rw [start, if_pos (hrecent event mem_cons_self), hbegun, Option.getD_some]

/-- Remembering when the streak began is enough to tell whether it is old enough. -/
theorem exists_start_le_iff (hordered : LatestFirst time history) (bound : Time) :
    (∃ begun, start time met history = some begun ∧ begun ≤ bound) ↔
      ∃ first, HeldSince met history first ∧ time first ≤ bound := by
  constructor
  · rintro ⟨begun, hstart, hle⟩
    obtain ⟨first, hheld, htime⟩ := exists_heldSince_of_start hstart
    exact ⟨first, hheld, htime ▸ hle⟩
  · rintro ⟨first, hheld, hle⟩
    obtain ⟨begun, hstart, hbegun⟩ := start_le_of_heldSince hordered hheld
    exact ⟨begun, hstart, hbegun.trans hle⟩

end Kubernetes.Streak

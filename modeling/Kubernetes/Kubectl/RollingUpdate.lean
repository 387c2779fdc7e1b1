import Mathlib.Algebra.Order.Ring.Int
import Mathlib.Logic.Function.Iterate

/-!
# Rolling updates by the client

`Update` replaces the pods of an old controller by those of a new one.  Each iteration scales the
new controller up as far as the surge allows, and then the old one down as far as the available pods
of the new one allow.  Scaling calls succeed, and the sizes are small enough for `int32`.

`scaleUp` removes surplus pods of the new controller only by accident, if the surge leaves room
beyond them.
-/

namespace Kubernetes.Kubectl

/-- The desired size and the fenceposts, as `Update` resolves and checks them. -/
structure RollingUpdate where
  desired : ℕ
  maxSurge : ℕ
  maxUnavailable : ℕ
  fenceposts : 0 < desired → maxUnavailable ≠ 0 ∨ maxSurge ≠ 0

@[ext]
structure Sizes where
  old : ℤ
  new : ℤ
  deriving DecidableEq

def Sizes.total (s : Sizes) : ℤ := s.old + s.new

namespace RollingUpdate

variable (u : RollingUpdate)

def minAvailable : ℤ := if u.desired = 0 then 0 else max 0 (u.desired - u.maxUnavailable)

def scaleUp (s : Sizes) : Sizes :=
  if s.new = u.desired then s
  else
    let increment :=
      if s.old = 0 then u.desired - s.new else u.desired + u.maxSurge - (s.old + s.new)
    if increment ≤ 0 then s
    else { s with new := if u.desired < s.new + increment then u.desired else s.new + increment }

def scaleDown (s : Sizes) (newAvailable : ℤ) : Sizes :=
  if s.old = 0 then s
  else
    let allPods := s.old + s.new
    let newUnavailable := s.new - newAvailable
    let decrement := allPods - u.minAvailable - newUnavailable
    if decrement ≤ 0 then s
    else if s.new = u.desired ∧ newAvailable = u.desired then { s with old := 0 }
    else { s with old := if s.old - decrement < 0 then 0 else s.old - decrement }

def Done (s : Sizes) : Prop := s.new = u.desired ∧ s.old = 0

instance (s : Sizes) : Decidable (u.Done s) := inferInstanceAs (Decidable (_ ∧ _))

def iteration (s : Sizes) (newAvailable : ℤ) : Sizes :=
  if u.Done s then s else u.scaleDown (u.scaleUp s) newAvailable

/-- An iteration that finds all pods of the new controller available. -/
def iterationAvailable (s : Sizes) : Sizes := u.iteration s (u.scaleUp s).new

structure InBounds (s : Sizes) (newAvailable : ℤ) : Prop where
  up : (u.scaleUp s).total ≤ max s.total (u.desired + u.maxSurge)
  down : (u.scaleDown (u.scaleUp s) newAvailable).total ≤
    max (u.scaleUp s).total (u.desired + u.maxSurge)
  available : min ((u.scaleUp s).old + newAvailable) u.minAvailable ≤
    (u.scaleDown (u.scaleUp s) newAvailable).old + newAvailable

/-- The bounds hold whatever is available, and the loop comes to its end, with a change in each
iteration, if all new pods are. -/
structure Correct (start : Sizes) : Prop where
  bounds : ∀ (counts : List ℤ) newAvailable,
    u.InBounds (counts.foldl u.iteration start) newAvailable
  progress : ∀ n, ¬ u.Done (u.iterationAvailable^[n] start) →
    u.iterationAvailable (u.iterationAvailable^[n] start) ≠ u.iterationAvailable^[n] start
  ends : ∃ n, u.Done (u.iterationAvailable^[n] start)

variable {u} {s : Sizes}

theorem minAvailable_le : u.minAvailable ≤ u.desired := by
  unfold minAvailable
  split_ifs <;> omega

theorem scaleUp_old : (u.scaleUp s).old = s.old := by
  simp only [scaleUp]
  split_ifs <;> rfl

/-- The size up to which the surge lets the new controller grow. -/
def limit (u : RollingUpdate) (s : Sizes) : ℤ :=
  if s.old = 0 then u.desired else u.desired + u.maxSurge - s.old

theorem limit_le : u.limit s ≤ u.desired + u.maxSurge - s.old := by
  unfold limit
  split_ifs <;> omega

theorem scaleUp_new : (u.scaleUp s).new =
    if s.new = u.desired ∨ u.limit s ≤ s.new then s.new else min (u.limit s) u.desired := by
  unfold scaleUp limit
  split_ifs <;> grind

theorem scaleDown_new (newAvailable : ℤ) : (u.scaleDown s newAvailable).new = s.new := by
  simp only [scaleDown]
  split_ifs <;> rfl

theorem scaleDown_old (newAvailable : ℤ) :
    (u.scaleDown s newAvailable).old =
      if s.old = 0 ∨ s.old + newAvailable ≤ u.minAvailable then s.old
      else if s.new = u.desired ∧ newAvailable = u.desired then 0
      else max 0 (u.minAvailable - newAvailable) := by
  unfold scaleDown
  split_ifs <;> grind

theorem inBounds (hold : 0 ≤ s.old) (newAvailable : ℤ) : u.InBounds s newAvailable := by
  have hmin := u.minAvailable_le
  have hlimit := u.limit_le (s := s)
  have hup := u.scaleUp_new (s := s)
  have hdown := u.scaleDown_old (s := u.scaleUp s) newAvailable
  rw [scaleUp_old] at hdown
  refine ⟨?_, ?_, ?_⟩
  · rw [Sizes.total, Sizes.total, scaleUp_old]
    grind
  · rw [Sizes.total, Sizes.total, scaleUp_old, scaleDown_new]
    grind
  · rw [scaleUp_old]
    grind

theorem old_iteration (hold : 0 ≤ s.old) (newAvailable : ℤ) :
    0 ≤ (u.iteration s newAvailable).old := by
  have hdown := u.scaleDown_old (s := u.scaleUp s) newAvailable
  rw [scaleUp_old] at hdown
  unfold iteration
  split_ifs <;> grind

theorem old_foldl (hold : 0 ≤ s.old) (counts : List ℤ) :
    0 ≤ (counts.foldl u.iteration s).old := by
  induction counts generalizing s with
  | nil => exact hold
  | cons newAvailable rest ih => exact ih (old_iteration hold newAvailable)

/-- The sizes after an iteration that is not the last, if it finds all new pods available. -/
theorem iterationAvailable_sizes (hdone : ¬ u.Done s) :
    (u.iterationAvailable s).new =
        (if s.new = u.desired ∨ u.limit s ≤ s.new then s.new else min (u.limit s) u.desired) ∧
      (u.iterationAvailable s).old =
        if s.old = 0 ∨ s.old + (u.iterationAvailable s).new ≤ u.minAvailable then s.old
        else if (u.iterationAvailable s).new = u.desired then 0
        else max 0 (u.minAvailable - (u.iterationAvailable s).new) := by
  rw [iterationAvailable, iteration, if_neg hdone, scaleDown_new, scaleDown_old, scaleUp_old]
  simp only [and_self, and_true]
  exact scaleUp_new

/-- The new controller has no surplus pods. -/
structure NoSurplus (u : RollingUpdate) (s : Sizes) : Prop where
  old : 0 ≤ s.old
  new : 0 ≤ s.new
  le : s.new ≤ u.desired

section

variable (hs : u.NoSurplus s)

include hs

theorem iterationAvailable_nearer (hdone : ¬ u.Done s) :
    u.NoSurplus (u.iterationAvailable s) ∧
      (u.iterationAvailable s).old - (u.iterationAvailable s).new < s.old - s.new := by
  obtain ⟨hold, hnew, hle⟩ := hs
  have hmin := u.minAvailable_le
  have hpos : 0 < u.desired → u.minAvailable = max 0 (u.desired - u.maxUnavailable : ℤ) :=
    fun hpos ↦ if_neg hpos.ne'
  have hfenceposts := u.fenceposts
  obtain ⟨hup, hdown⟩ := iterationAvailable_sizes hdone
  unfold Done at hdone
  unfold limit at hup
  split_ifs at hup hdown <;> exact ⟨⟨by omega, by omega, by omega⟩, by omega⟩

theorem NoSurplus.iterate (n : ℕ) : u.NoSurplus (u.iterationAvailable^[n] s) := by
  induction n with
  | zero => exact hs
  | succ n ih =>
    rw [Function.iterate_succ_apply']
    by_cases hdone : u.Done (u.iterationAvailable^[n] s)
    · rwa [iterationAvailable, iteration, if_pos hdone]
    · exact (iterationAvailable_nearer ih hdone).1

theorem NoSurplus.progress (n : ℕ) (hdone : ¬ u.Done (u.iterationAvailable^[n] s)) :
    u.iterationAvailable (u.iterationAvailable^[n] s) ≠ u.iterationAvailable^[n] s := by
  intro hsame
  have hnearer := (iterationAvailable_nearer (hs.iterate n) hdone).2
  rw [hsame] at hnearer
  exact lt_irrefl _ hnearer

theorem NoSurplus.exists_done : ∃ n, u.Done (u.iterationAvailable^[n] s) := by
  induction hdistance : (s.old - s.new + u.desired).toNat using Nat.strong_induction_on
    generalizing s with
  | _ distance ih =>
    by_cases hdone : u.Done s
    · exact ⟨0, hdone⟩
    · obtain ⟨hnext, hnearer⟩ := iterationAvailable_nearer hs hdone
      have hold := hnext.old
      have hle := hnext.le
      obtain ⟨n, hn⟩ := ih _ (by omega) hnext rfl
      exact ⟨n + 1, hn⟩

end

/-- Surplus pods of the new controller go only if the surge leaves room beyond them. -/
theorem iterationAvailable_of_lt (hold : 0 ≤ s.old) (hlt : u.desired < s.new) :
    u.iterationAvailable s =
      ⟨0, if 0 < s.old ∧ s.total < u.desired + u.maxSurge then u.desired else s.new⟩ := by
  have hmin := u.minAvailable_le
  obtain ⟨hup, hdown⟩ := iterationAvailable_sizes (fun hdone : u.Done s ↦ hlt.ne' hdone.1)
  apply Sizes.ext
  · dsimp only
    split_ifs at hup hdown <;> omega
  · unfold limit at hup
    dsimp only [Sizes.total]
    split_ifs at hup ⊢ <;> omega

/-- The loop keeps its bounds, and ends if all new pods are available, unless it starts with a
surplus that the surge leaves no room beyond. -/
theorem correct_iff (u : RollingUpdate) (old new : ℕ) :
    u.Correct ⟨old, new⟩ ↔ new ≤ u.desired ∨ 0 < old ∧ old + new < u.desired + u.maxSurge := by
  have hbounds : ∀ (counts : List ℤ) newAvailable,
      u.InBounds (counts.foldl u.iteration ⟨old, new⟩) newAvailable :=
    fun counts ↦ inBounds (old_foldl (Int.natCast_nonneg old) counts)
  by_cases hle : new ≤ u.desired
  · have hs : u.NoSurplus ⟨old, new⟩ :=
      ⟨Int.natCast_nonneg old, Int.natCast_nonneg new, Int.ofNat_le.mpr hle⟩
    exact iff_of_true ⟨hbounds, hs.progress, hs.exists_done⟩ (.inl hle)
  have hlt : (u.desired : ℤ) < new := by omega
  have hfirst := iterationAvailable_of_lt (s := ⟨old, new⟩) (Int.natCast_nonneg old) hlt
  rw [or_iff_right hle]
  constructor
  · intro hcorrect
    by_contra hroom
    rw [if_neg (by simp only [Sizes.total]; omega)] at hfirst
    have hstuck : u.iterationAvailable ⟨0, new⟩ = ⟨0, new⟩ := by
      simp [iterationAvailable_of_lt (s := ⟨0, new⟩) le_rfl hlt]
    have hprog := hcorrect.progress 1
    rw [Function.iterate_one, hfirst] at hprog
    exact hprog (fun hdone ↦ hlt.ne' hdone.1) hstuck
  · intro hroom
    rw [if_pos (by simp only [Sizes.total]; omega)] at hfirst
    refine ⟨hbounds, fun n ↦ ?_, 1, ?_⟩
    · cases n with
      | zero =>
        intro _ hsame
        rw [Function.iterate_zero, id, hfirst, Sizes.mk.injEq] at hsame
        exact hlt.ne hsame.2
      | succ n =>
        rw [Function.iterate_succ_apply, hfirst]
        exact NoSurplus.progress ⟨le_rfl, Int.natCast_nonneg _, le_rfl⟩ n
    · rw [Function.iterate_one, hfirst]
      exact ⟨rfl, rfl⟩

/-- A new controller that is one pod too large stays so. -/
theorem surplus_stays : ¬ (⟨1, 1, 1, by decide⟩ : RollingUpdate).Correct ⟨0, 2⟩ :=
  fun hcorrect ↦ hcorrect.progress 0 (by decide) (by decide)

end RollingUpdate

end Kubernetes.Kubectl

import Kubernetes.Scheduler.NodeInfo

/-!
# Taints and tolerations

A node with taints is closed to the pods that do not tolerate them, except for the taints with the
effect `PreferNoSchedule`, which only matter for priorities.  The check answers for an empty list of
tolerations before it looks at the effects.  Taints and tolerations are given by what is read from
the annotations.
-/

namespace Kubernetes.Predicates

open Scheduler List

inductive TolerationOperator
  | unset
  | opEqual
  | opExists
  | other (text : String)
  deriving DecidableEq, Repr

structure Toleration where
  key : String
  operator : TolerationOperator
  value : String
  effect : String
  deriving DecidableEq, Repr

def taintEffectPreferNoSchedule : String := "PreferNoSchedule"

def tolerationToleratesTaint (toleration : Toleration) (taint : Taint) : Bool :=
  if toleration.effect ≠ "" ∧ toleration.effect ≠ taint.effect then false
  else if toleration.key ≠ taint.key then false
  else if (toleration.operator = .unset ∨ toleration.operator = .opEqual) ∧
      toleration.value = taint.value then true
  else toleration.operator = .opExists

def taintToleratedByTolerations (taint : Taint) (tolerations : List Toleration) : Bool :=
  tolerations.any (tolerationToleratesTaint · taint)

def tolerationsToleratesTaints (tolerations : List Toleration) (taints : List Taint) : Bool :=
  if taints.length = 0 then true
  else if tolerations.length = 0 then false
  else taints.all fun taint ↦ taint.effect = taintEffectPreferNoSchedule ||
    taintToleratedByTolerations taint tolerations

/-- Without an error the answer is `false` with the reason `ErrTaintsTolerationsNotMatch`, or
`true`. -/
def podToleratesNodeTaints (tolerations : Except String (List Toleration))
    (taints : Except String (List Taint)) : Except String Bool := do
  let taints ← taints
  let tolerations ← tolerations
  return tolerationsToleratesTaints tolerations taints

variable {tolerations : List Toleration} {taints : List Taint}

def Tolerated (tolerations : List Toleration) (taints : List Taint) : Prop :=
  ∀ taint ∈ taints, taint.effect ≠ taintEffectPreferNoSchedule →
    ∃ toleration ∈ tolerations, tolerationToleratesTaint toleration taint = true

def Fits (tolerations : List Toleration) (taints : List Taint) : Prop :=
  podToleratesNodeTaints (.ok tolerations) (.ok taints) = .ok true

/-- The check is exact, and the node still fits with one more toleration or `PreferNoSchedule` taint
anywhere. -/
structure CheckExact (tolerations : List Toleration) (taints : List Taint) : Prop where
  exact : tolerationsToleratesTaints tolerations taints = true ↔ Tolerated tolerations taints
  toleration : ∀ front back toleration, tolerations = front ++ back → Fits tolerations taints →
    Fits (front ++ toleration :: back) taints
  taint : ∀ front back taint, taints = front ++ back →
    taint.effect = taintEffectPreferNoSchedule → Fits tolerations taints →
    Fits tolerations (front ++ taint :: back)

theorem fits_iff : Fits tolerations taints ↔ tolerationsToleratesTaints tolerations taints = true :=
  Except.ok.injEq _ _ ▸ Iff.rfl

/-- Only an empty list of tolerations is treated apart. -/
theorem tolerationsToleratesTaints_iff : tolerationsToleratesTaints tolerations taints = true ↔
    Tolerated tolerations taints ∧ (tolerations = [] → taints = []) := by
  unfold tolerationsToleratesTaints
  split_ifs with htaints htolerations
  · rw [length_eq_zero_iff] at htaints
    simp [Tolerated, htaints]
  · rw [length_eq_zero_iff] at htaints htolerations
    simp [htaints, htolerations]
  · rw [length_eq_zero_iff] at htolerations
    simp [Tolerated, taintToleratedByTolerations, htolerations, or_iff_not_imp_left]

theorem Tolerated.mono {more : List Toleration} {others : List Taint}
    (htolerated : Tolerated tolerations taints) (hmore : tolerations ⊆ more)
    (hothers : ∀ taint ∈ others, taint.effect ≠ taintEffectPreferNoSchedule → taint ∈ taints) :
    Tolerated more others := by
  intro taint hmem heffect
  obtain ⟨toleration, htoleration, htolerates⟩ :=
    htolerated taint (hothers taint hmem heffect) heffect
  exact ⟨toleration, hmore htoleration, htolerates⟩

theorem checkExact_iff : CheckExact tolerations taints ↔
    tolerations ≠ [] ∨ ∃ taint ∈ taints, taint.effect ≠ taintEffectPreferNoSchedule := by
  constructor
  · -- Without tolerations and closing taints, one taint more is too much.
    intro hexact
    by_contra hnot
    push Not at hnot
    obtain ⟨rfl, hprefer⟩ := hnot
    have hfits : Fits [] taints := by
      rw [fits_iff, hexact.exact]
      exact fun taint hmem heffect ↦ absurd (hprefer taint hmem) heffect
    have hmore := hexact.taint [] taints ⟨"", "", taintEffectPreferNoSchedule⟩ rfl rfl hfits
    rw [fits_iff, tolerationsToleratesTaints_iff] at hmore
    cases hmore.2 rfl
  · intro hcond
    have hfits {more : List Taint} (htolerated : Tolerated tolerations more)
        (hmore : taints ⊆ more) : tolerations = [] → more = [] := by
      rintro rfl
      obtain hne | ⟨taint, hmem, heffect⟩ := hcond
      · exact absurd rfl hne
      · obtain ⟨toleration, htoleration, -⟩ := htolerated taint (hmore hmem) heffect
        cases htoleration
    constructor
    · rw [tolerationsToleratesTaints_iff, and_iff_left_iff_imp]
      exact fun htolerated ↦ hfits htolerated (Subset.refl taints)
    · intro front back toleration hsplit hnode
      rw [fits_iff, tolerationsToleratesTaints_iff] at hnode ⊢
      refine ⟨hnode.1.mono ?_ fun taint hmem _ ↦ hmem, by simp⟩
      simp [hsplit]
    · intro front back taint hsplit heffect hnode
      rw [fits_iff, tolerationsToleratesTaints_iff] at hnode ⊢
      have htolerated : Tolerated tolerations (front ++ taint :: back) := by
        refine hnode.1.mono (Subset.refl tolerations) fun other hmem hother ↦ ?_
        rw [hsplit]
        rw [mem_append, mem_cons, ← or_assoc, or_right_comm, or_comm, ← mem_append] at hmem
        exact hmem.resolve_left fun heq ↦ hother (heq ▸ heffect)
      refine ⟨htolerated, hfits htolerated ?_⟩
      simp [hsplit]

/-- A pod without tolerations does not fit on a node whose only taint is about priorities. -/
theorem preferred_taint_refused :
    ¬ CheckExact [] [⟨"dedicated", "web", taintEffectPreferNoSchedule⟩] := by
  intro hexact
  have htolerated : Tolerated [] [⟨"dedicated", "web", taintEffectPreferNoSchedule⟩] := by
    simp [Tolerated]
  cases hexact.exact.mpr htolerated

end Kubernetes.Predicates

import Mathlib.Logic.Relation

/-!
# Labelled transition systems

A system is a predicate of initial states and a labelled step relation.  `guarded` keeps the steps
that meet a condition on the label and on the state before, so `Reachable init (guarded guard step)`
are the states of the runs that meet it.
-/

namespace Kubernetes.Transition

variable {State Label : Type*}

inductive Reachable (init : State → Prop) (step : State → Label → State → Prop) : State → Prop
  | start {state : State} : init state → Reachable init step state
  | next {state target : State} {label : Label} :
      Reachable init step state → step state label target → Reachable init step target

/-- The steps that meet a condition on the label and the state before. -/
def guarded (guard : State → Label → Prop) (step : State → Label → State → Prop) :
    State → Label → State → Prop :=
  fun state label target ↦ guard state label ∧ step state label target

variable {init : State → Prop} {step : State → Label → State → Prop}

/-- What holds initially and is kept by every step from a reachable state is an invariant. -/
theorem Reachable.invariant {Inv : State → Prop} (hinit : ∀ state, init state → Inv state)
    (hstep : ∀ state label target, Reachable init step state → Inv state →
      step state label target → Inv target)
    {state : State} (hreach : Reachable init step state) : Inv state := by
  induction hreach with
  | start h => exact hinit _ h
  | next hprev h ih => exact hstep _ _ _ hprev ih h

variable {state target : State} {guard : State → Label → Prop}

theorem Reachable.guardedNext {label : Label} (hreach : Reachable init (guarded guard step) state)
    (hstep : step state label target) (hguard : guard state label) :
    Reachable init (guarded guard step) target :=
  .next hreach ⟨hguard, hstep⟩

theorem Reachable.of_guarded {state : State} (hreach : Reachable init (guarded guard step) state) :
    Reachable init step state := by
  induction hreach with
  | start h => exact .start h
  | next _ h ih => exact .next ih h.2

/-- A finite run with the labels of its steps, first step first. -/
inductive Run (step : State → Label → State → Prop) : State → List Label → State → Prop
  | nil (state : State) : Run step state [] state
  | cons {state middle target : State} {label : Label} {labels : List Label} :
      step state label middle → Run step middle labels target →
        Run step state (label :: labels) target

theorem Run.reachable {labels : List Label} (hrun : Run step state labels target)
    (hreach : Reachable init step state) :
    Reachable init step target := by
  induction hrun with
  | nil => exact hreach
  | cons hstep _ ih => exact ih (.next hreach hstep)

/-- A function that executes enabled steps reaches reachable states. -/
theorem Reachable.of_foldlM {exec : State → Label → Option State}
    (hexec : ∀ state label target, exec state label = some target → step state label target)
    {labels : List Label} (hreach : Reachable init step state)
    (hrun : labels.foldlM exec state = some target) : Reachable init step target := by
  induction labels generalizing state with
  | nil =>
    exact Option.some.inj hrun ▸ hreach
  | cons label labels ih =>
    obtain ⟨middle, hmiddle, hrest⟩ := Option.bind_eq_some_iff.mp hrun
    exact ih (.next hreach (hexec state label middle hmiddle)) hrest

end Kubernetes.Transition

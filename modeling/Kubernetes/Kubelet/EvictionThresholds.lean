import Kubernetes.Basic.Map

/-!
# The eviction thresholds of the kubelet

On each pass the eviction manager finds the thresholds that are met, remembers since when, and keeps
the ones that have been met for their grace period.  A threshold that has fired stays until its
minimum reclaim is reached.  Node conditions are reported for some time after they were last
observed.

Amounts are integers, the percentage of a capacity is a parameter because the source computes it
with floating point numbers, and the zero time is `0`.  The map keyed by thresholds compares the
addresses of their quantities, which are those of the configuration.
-/

namespace Kubernetes.Kubelet.Eviction

inductive Signal
  | memoryAvailable
  | nodeFsAvailable
  | nodeFsInodesFree
  | imageFsAvailable
  | imageFsInodesFree
  deriving DecidableEq, Repr

inductive NodeConditionType
  | memoryPressure
  | diskPressure
  deriving DecidableEq, Repr

/-- The only operator that the source knows, and any other text. -/
inductive ThresholdOperator
  | lessThan
  | other (text : String)
  deriving DecidableEq, Repr

variable {Percentage : Type}

/-- Only the quantity is used if there is one. -/
structure ThresholdValue (Percentage : Type) where
  quantity : Option ℤ
  percentage : Percentage
  deriving DecidableEq, Repr

structure Threshold (Percentage : Type) where
  signal : Signal
  operator : ThresholdOperator
  value : ThresholdValue Percentage
  gracePeriod : ℤ
  minReclaim : Option (ThresholdValue Percentage)
  deriving DecidableEq, Repr

structure SignalObservation where
  capacity : ℤ
  available : ℤ
  time : ℕ
  deriving DecidableEq, Repr

abbrev SignalObservations := Signal → Option SignalObservation

structure Config (Percentage : Type) where
  pressureTransitionPeriod : ℤ
  thresholds : List (Threshold Percentage)

structure Manager (Percentage : Type) where
  nodeConditions : List NodeConditionType
  thresholdsFirstObservedAt : Map (Threshold Percentage) ℤ
  nodeConditionsLastObservedAt : Map NodeConditionType ℤ
  thresholdsMet : List (Threshold Percentage)
  lastObservations : SignalObservations

def Manager.initial : Manager Percentage where
  nodeConditions := []
  thresholdsFirstObservedAt := ∅
  nodeConditionsLastObservedAt := ∅
  thresholdsMet := []
  lastObservations _ := none

def signalToNodeCondition : Signal → NodeConditionType
  | .memoryAvailable => .memoryPressure
  | .imageFsAvailable => .diskPressure
  | .nodeFsAvailable => .diskPressure
  | .imageFsInodesFree => .diskPressure
  | .nodeFsInodesFree => .diskPressure

section Met

variable (share : Percentage → ℤ → ℤ)

def getThresholdQuantity (value : ThresholdValue Percentage) (capacity : ℤ) : ℤ :=
  match value.quantity with
  | some quantity => quantity
  | none => share value.percentage capacity

def thresholdQuantity (enforceMinReclaim : Bool) (threshold : Threshold Percentage)
    (capacity : ℤ) : ℤ :=
  match enforceMinReclaim, threshold.minReclaim with
  | true, some minReclaim =>
    getThresholdQuantity share threshold.value capacity +
      getThresholdQuantity share minReclaim capacity
  | _, _ => getThresholdQuantity share threshold.value capacity

def thresholdMet (observations : SignalObservations) (enforceMinReclaim : Bool)
    (threshold : Threshold Percentage) : Bool :=
  match observations threshold.signal with
  | none => false
  | some observed =>
    match threshold.operator with
    | .lessThan =>
      decide (observed.available < thresholdQuantity share enforceMinReclaim threshold
        observed.capacity)
    | .other _ => false

def thresholdsMet (thresholds : List (Threshold Percentage)) (observations : SignalObservations)
    (enforceMinReclaim : Bool) : List (Threshold Percentage) :=
  thresholds.filter (thresholdMet share observations enforceMinReclaim)

end Met

/-- The statistics of the signal are new: there were none, they carry no time, or a later time. -/
def updatedStats (observations lastObservations : SignalObservations) (signal : Signal) : Bool :=
  match observations signal with
  | none => false
  | some observed =>
    match lastObservations signal with
    | none => true
    | some last => decide (observed.time = 0 ∨ last.time < observed.time)

def thresholdsUpdatedStats (thresholds : List (Threshold Percentage))
    (observations lastObservations : SignalObservations) : List (Threshold Percentage) :=
  thresholds.filter fun threshold ↦ updatedStats observations lastObservations threshold.signal

def nodeConditions (thresholds : List (Threshold Percentage)) : List NodeConditionType :=
  thresholds.foldl (fun results threshold ↦
    if signalToNodeCondition threshold.signal ∈ results then results
    else results ++ [signalToNodeCondition threshold.signal]) []

/-- The conditions observed now, and the others with their old time. -/
def nodeConditionsLastObservedAt (conditions : List NodeConditionType)
    (lastObservedAt : Map NodeConditionType ℤ) (now : ℤ) : Map NodeConditionType ℤ :=
  conditions.foldl (fun results condition ↦ results.insert condition now) ∅ ∪ lastObservedAt

/-- The loop goes over the entries in the order of the listing. -/
def nodeConditionsObservedSince (listing : List (NodeConditionType × ℤ)) (period now : ℤ) :
    List NodeConditionType :=
  (listing.filter fun entry ↦ now - entry.2 < period).map Prod.fst

def thresholdsMetGracePeriod (listing : List (Threshold Percentage × ℤ)) (now : ℤ) :
    List (Threshold Percentage) :=
  (listing.filter fun entry ↦ ¬now - entry.2 < entry.1.gracePeriod).map Prod.fst

section Merge

variable [DecidableEq Percentage]

def compareThresholdValue (a b : ThresholdValue Percentage) : Bool :=
  match a.quantity, b.quantity with
  | some quantity, some quantity' => decide (quantity = quantity')
  | some _, none => false
  | none, some _ => false
  | none, none => decide (a.percentage = b.percentage)

/-- The comparison of `hasThreshold`, which does not look at the minimum reclaim. -/
def sameThreshold (input item : Threshold Percentage) : Bool :=
  decide (input.gracePeriod = item.gracePeriod) && decide (input.operator = item.operator) &&
    decide (input.signal = item.signal) && compareThresholdValue input.value item.value

def hasThreshold (inputs : List (Threshold Percentage)) (item : Threshold Percentage) : Bool :=
  inputs.any fun input ↦ sameThreshold input item

def mergeThresholds (inputsA inputsB : List (Threshold Percentage)) : List (Threshold Percentage) :=
  inputsB.foldl (fun results threshold ↦
    if hasThreshold results threshold = true then results else results ++ [threshold]) inputsA

def thresholdsFirstObservedAt (thresholds : List (Threshold Percentage))
    (lastObservedAt : Map (Threshold Percentage) ℤ) (now : ℤ) : Map (Threshold Percentage) ℤ :=
  thresholds.foldl (fun results threshold ↦
    results.insert threshold ((lastObservedAt.lookup threshold).getD now)) ∅

/-- A pass that got its observations: the time, and the orders in which the two maps are visited. -/
structure Pass (Percentage : Type) where
  now : ℤ
  observations : SignalObservations
  thresholdListing : List (Threshold Percentage × ℤ)
  conditionListing : List (NodeConditionType × ℤ)

namespace Manager

variable (share : Percentage → ℤ → ℤ) (config : Config Percentage)

section

variable (manager : Manager Percentage)

/-- The thresholds met on this pass whose statistics have been updated since the last one. -/
def activeThresholds (observations : SignalObservations) : List (Threshold Percentage) :=
  let thresholds := Eviction.thresholdsMet share config.thresholds observations false
  let thresholds :=
    if 0 < manager.thresholdsMet.length then
      mergeThresholds thresholds
        (Eviction.thresholdsMet share manager.thresholdsMet observations true)
    else
      thresholds
  thresholdsUpdatedStats thresholds observations manager.lastObservations

def firstObservedAt (pass : Pass Percentage) : Map (Threshold Percentage) ℤ :=
  Eviction.thresholdsFirstObservedAt (manager.activeThresholds share config pass.observations)
    manager.thresholdsFirstObservedAt pass.now

def conditionsLastObservedAt (pass : Pass Percentage) : Map NodeConditionType ℤ :=
  Eviction.nodeConditionsLastObservedAt
    (Eviction.nodeConditions (manager.activeThresholds share config pass.observations))
    manager.nodeConditionsLastObservedAt pass.now

/-- `synchronize` up to the update of the internal state. -/
def synchronize (pass : Pass Percentage) : Manager Percentage :=
  if config.thresholds.length = 0 then
    manager
  else
    { nodeConditions := nodeConditionsObservedSince pass.conditionListing
        config.pressureTransitionPeriod pass.now
      thresholdsFirstObservedAt := manager.firstObservedAt share config pass
      nodeConditionsLastObservedAt := manager.conditionsLastObservedAt share config pass
      thresholdsMet := thresholdsMetGracePeriod pass.thresholdListing pass.now
      lastObservations := pass.observations }

end

end Manager

end Merge

end Kubernetes.Kubelet.Eviction

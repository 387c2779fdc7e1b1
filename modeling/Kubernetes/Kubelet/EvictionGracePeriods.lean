import Kubernetes.Basic.Streak
import Kubernetes.Basic.Transition
import Kubernetes.Kubelet.EvictionThresholds

/-!
# When eviction thresholds fire

A threshold is due if it has been met on every pass since one at least its grace period ago, where
one that has fired counts as met until its minimum reclaim is reached.  The manager keeps only the
time at which each threshold was first observed, and forgets it on a pass on which the threshold is
not active.

Thresholds whose statistics have not been updated since the last pass are dropped first, so such a
pass also forgets.  If every pass that meets it has new statistics for its signal, a threshold fires
exactly when it is due.
-/

namespace Kubernetes.Kubelet.Eviction

open List Transition

variable {Percentage : Type} [DecidableEq Percentage]

structure Observed (Percentage : Type) where
  now : ℤ
  observations : SignalObservations
  fired : List (Threshold Percentage)

structure Tracked (Percentage : Type) where
  manager : Manager Percentage
  history : List (Observed Percentage)

def Tracked.initial : Tracked Percentage := ⟨.initial, []⟩

section

variable (share : Percentage → ℤ → ℤ) (config : Config Percentage)

/-- The threshold is met on a pass by its value, or, once it has fired, with minimum reclaim. -/
def MetIn (threshold : Threshold Percentage) (observed : Observed Percentage) : Prop :=
  threshold ∈ config.thresholds ∧ thresholdMet share observed.observations false threshold = true ∨
    threshold ∈ observed.fired ∧ thresholdMet share observed.observations true threshold = true

instance instDecidableMetIn (threshold : Threshold Percentage) :
    DecidablePred (MetIn share config threshold) :=
  fun _ ↦ inferInstanceAs (Decidable (_ ∧ _ ∨ _ ∧ _))

/-- The threshold has been met on every pass since one at least its grace period before the latest.
-/
def Due (threshold : Threshold Percentage) (history : List (Observed Percentage)) : Prop :=
  ∃ latest, history.head? = some latest ∧
    ∃ first, Streak.HeldSince (MetIn share config threshold) history first ∧
      threshold.gracePeriod ≤ latest.now - first.now

def Tracked.next (tracked : Tracked Percentage) (pass : Pass Percentage) : Tracked Percentage where
  manager := tracked.manager.synchronize share config pass
  history := ⟨pass.now, pass.observations, tracked.manager.thresholdsMet⟩ :: tracked.history

/-- A call of `synchronize` returns early or is a pass.  Time does not go back, and maps are visited
in some order. -/
inductive Step : Tracked Percentage → Option (Pass Percentage) → Tracked Percentage → Prop
  | early (tracked : Tracked Percentage) : Step tracked none tracked
  | pass (tracked : Tracked Percentage) (pass : Pass Percentage) :
      (∀ latest ∈ tracked.history.head?, latest.now ≤ pass.now) →
      Map.IsListing pass.thresholdListing (tracked.manager.firstObservedAt share config pass) →
      Map.IsListing pass.conditionListing
        (tracked.manager.conditionsLastObservedAt share config pass) →
      Step tracked (some pass) (tracked.next share config pass)

end

section

variable (share : Percentage → ℤ → ℤ) (config : Config Percentage)
variable (threshold : Threshold Percentage) (tracked : Tracked Percentage)

/-- A pass on which the threshold is met has new statistics. -/
def NewStats (pass : Option (Pass Percentage)) : Prop :=
  ∀ made ∈ pass, MetIn share config threshold
      ⟨made.now, made.observations, tracked.manager.thresholdsMet⟩ →
    updatedStats made.observations tracked.manager.lastObservations threshold.signal = true

instance instDecidableNewStats (pass : Option (Pass Percentage)) :
    Decidable (NewStats share config threshold tracked pass) :=
  inferInstanceAs (Decidable (∀ made ∈ pass, _ → _ = true))

end

/-- No other threshold of the configuration has the same signal, operator, value and grace period.
-/
def Config.Distinguishes (config : Config Percentage) (threshold : Threshold Percentage) : Prop :=
  ∀ other ∈ config.thresholds, sameThreshold other threshold = true → other = threshold

/-! ## The active thresholds -/

variable {share : Percentage → ℤ → ℤ} {config : Config Percentage}
  {threshold : Threshold Percentage}

variable {inputsA inputsB : List (Threshold Percentage)}

theorem mem_of_mem_mergeThresholds (hmem : threshold ∈ mergeThresholds inputsA inputsB) :
    threshold ∈ inputsA ∨ threshold ∈ inputsB := by
  induction inputsB generalizing inputsA with
  | nil => exact .inl hmem
  | cons input inputsB ih =>
    unfold mergeThresholds at hmem
    rw [foldl_cons] at hmem
    rcases ih hmem with hresults | hrest
    · split_ifs at hresults
      · exact .inl hresults
      · rcases mem_append.mp hresults with hold | hnew
        · exact .inl hold
        · exact .inr (mem_singleton.mp hnew ▸ mem_cons_self)
    · exact .inr (mem_cons_of_mem _ hrest)

theorem mem_mergeThresholds_left (inputsB : List (Threshold Percentage))
    (hmem : threshold ∈ inputsA) : threshold ∈ mergeThresholds inputsA inputsB := by
  induction inputsB generalizing inputsA with
  | nil => exact hmem
  | cons input inputsB ih =>
    unfold mergeThresholds
    rw [foldl_cons]
    apply ih
    split_ifs
    · exact hmem
    · exact mem_append_left _ hmem

/-- A threshold that the configuration distinguishes is not taken for another one. -/
theorem mem_mergeThresholds_right (hdistinct : config.Distinguishes threshold)
    (hA : ∀ input ∈ inputsA, input ∈ config.thresholds)
    (hB : ∀ input ∈ inputsB, input ∈ config.thresholds) (hmem : threshold ∈ inputsB) :
    threshold ∈ mergeThresholds inputsA inputsB := by
  induction inputsB generalizing inputsA with
  | nil => exact absurd hmem not_mem_nil
  | cons input inputsB ih =>
    unfold mergeThresholds
    rw [foldl_cons]
    have hB' : ∀ other ∈ inputsB, other ∈ config.thresholds :=
      fun other hother ↦ hB other (mem_cons_of_mem _ hother)
    by_cases hhead : input = threshold
    · -- now it is there already or it is added
      apply mem_mergeThresholds_left
      split_ifs with hhas
      · obtain ⟨other, hother, hsame⟩ := any_eq_true.mp hhas
        rw [hhead] at hsame
        exact hdistinct other (hA other hother) hsame ▸ hother
      · exact mem_append_right _ (mem_singleton.mpr hhead.symm)
    · have hrest : threshold ∈ inputsB := by
        rcases mem_cons.mp hmem with hsame | hrest
        · exact absurd hsame.symm hhead
        · exact hrest
      apply ih _ hB' hrest
      intro other hother
      split_ifs at hother
      · exact hA other hother
      · rcases mem_append.mp hother with hold | hnew
        · exact hA other hold
        · rw [mem_singleton.mp hnew]
          exact hB input mem_cons_self

variable {observations : SignalObservations} {manager : Manager Percentage}

/-- With new statistics, the active thresholds are those that are met. -/
theorem mem_activeThresholds (hdistinct : config.Distinguishes threshold)
    (hconfigured : ∀ fired ∈ manager.thresholdsMet, fired ∈ config.thresholds)
    {now : ℤ} (hnew : MetIn share config threshold ⟨now, observations, manager.thresholdsMet⟩ →
      updatedStats observations manager.lastObservations threshold.signal = true) :
    threshold ∈ manager.activeThresholds share config observations ↔
      MetIn share config threshold ⟨now, observations, manager.thresholdsMet⟩ := by
  set byValue := thresholdsMet share config.thresholds observations false
  set unresolved := thresholdsMet share manager.thresholdsMet observations true
  have hmerged : threshold ∈ (if 0 < manager.thresholdsMet.length then
      mergeThresholds byValue unresolved else byValue) ↔
        threshold ∈ byValue ∨ threshold ∈ unresolved := by
    split_ifs with hfired
    · constructor
      · exact mem_of_mem_mergeThresholds
      · rintro (hvalue | hreclaim)
        · exact mem_mergeThresholds_left unresolved hvalue
        · apply mem_mergeThresholds_right hdistinct _ _ hreclaim
          · intro input hinput
            exact (mem_filter.mp hinput).1
          · intro input hinput
            exact hconfigured input (mem_filter.mp hinput).1
    · have hnone : manager.thresholdsMet = [] :=
        eq_nil_of_length_eq_zero (Nat.eq_zero_of_not_pos hfired)
      have hempty : unresolved = [] := by
        simp [unresolved, thresholdsMet, hnone]
      rw [hempty, or_iff_left not_mem_nil]
  have hmet : threshold ∈ byValue ∨ threshold ∈ unresolved ↔
      MetIn share config threshold ⟨now, observations, manager.thresholdsMet⟩ :=
    or_congr mem_filter mem_filter
  rw [← hmet, ← hmerged]
  unfold Manager.activeThresholds thresholdsUpdatedStats
  rw [mem_filter]
  exact and_iff_left_of_imp fun hactive ↦ hnew (hmet.mp (hmerged.mp hactive))

theorem configured_of_mem_activeThresholds
    (hconfigured : ∀ fired ∈ manager.thresholdsMet, fired ∈ config.thresholds)
    (hmem : threshold ∈ manager.activeThresholds share config observations) :
    threshold ∈ config.thresholds := by
  have hmerged := (mem_filter.mp hmem).1
  split_ifs at hmerged
  · rcases mem_of_mem_mergeThresholds hmerged with hvalue | hreclaim
    · exact (mem_filter.mp hvalue).1
    · exact hconfigured threshold (mem_filter.mp hreclaim).1
  · exact (mem_filter.mp hmerged).1

theorem lookup_thresholdsFirstObservedAt (thresholds : List (Threshold Percentage))
    (lastObservedAt : Map (Threshold Percentage) ℤ) (now : ℤ) :
    (thresholdsFirstObservedAt thresholds lastObservedAt now).lookup threshold =
      if threshold ∈ thresholds then some ((lastObservedAt.lookup threshold).getD now)
      else none := by
  suffices hloop : ∀ results : Map (Threshold Percentage) ℤ,
      Finmap.lookup threshold (thresholds.foldl (fun results threshold ↦
        results.insert threshold ((lastObservedAt.lookup threshold).getD now)) results) =
      if threshold ∈ thresholds then some ((lastObservedAt.lookup threshold).getD now)
      else results.lookup threshold by
    exact hloop ∅
  induction thresholds with
  | nil =>
    simp
  | cons head thresholds ih =>
    intro results
    rw [foldl_cons, ih, Map.lookup_insert]
    by_cases hhead : threshold = head
    · rw [if_pos hhead, hhead, ite_self, if_pos mem_cons_self]
    · simp [hhead]

/-! ## Runs -/

/-- The manager remembers when the streak of passes on which the threshold is met began, and the
threshold has fired if that is long enough ago. -/
structure Remembers (share : Percentage → ℤ → ℤ) (config : Config Percentage)
    (threshold : Threshold Percentage) (tracked : Tracked Percentage) : Prop where
  first : Finmap.lookup threshold tracked.manager.thresholdsFirstObservedAt =
    Streak.start Observed.now (MetIn share config threshold) tracked.history
  fired : threshold ∈ tracked.manager.thresholdsMet ↔
    ∃ latest, tracked.history.head? = some latest ∧
      ∃ begun, Streak.start Observed.now (MetIn share config threshold) tracked.history =
        some begun ∧ begun ≤ latest.now - threshold.gracePeriod
  configured : ∀ fired ∈ tracked.manager.thresholdsMet, fired ∈ config.thresholds
  known : ∀ known ∈ tracked.manager.thresholdsFirstObservedAt, known ∈ config.thresholds
  ordered : Streak.LatestFirst Observed.now tracked.history

variable {tracked : Tracked Percentage}

theorem Remembers.due_iff (hremembers : Remembers share config threshold tracked) :
    threshold ∈ tracked.manager.thresholdsMet ↔ Due share config threshold tracked.history := by
  rw [hremembers.fired]
  refine exists_congr fun latest ↦ and_congr_right fun _ ↦ ?_
  rw [Streak.exists_start_le_iff hremembers.ordered]
  refine exists_congr fun first ↦ and_congr_right fun _ ↦ ?_
  omega

variable {pass : Pass Percentage}

theorem latestFirst_next (hordered : Streak.LatestFirst Observed.now tracked.history)
    (htime : ∀ latest ∈ tracked.history.head?, latest.now ≤ pass.now) :
    Streak.LatestFirst Observed.now (tracked.next share config pass).history := by
  apply pairwise_cons.mpr
  refine ⟨?_, hordered⟩
  intro earlier hmem
  cases hhist : tracked.history with
  | nil => simp [hhist] at hmem
  | cons latest older =>
    rw [hhist] at hmem hordered htime
    have hlatest : latest.now ≤ pass.now := htime latest rfl
    rcases mem_cons.mp hmem with hsame | holder
    · exact hsame ▸ hlatest
    · exact ((pairwise_cons.mp hordered).1 earlier holder).trans hlatest

theorem mem_thresholdsMetGracePeriod {listing : List (Threshold Percentage × ℤ)}
    {observedAt : Map (Threshold Percentage) ℤ} (hlist : Map.IsListing listing observedAt)
    (now : ℤ) :
    threshold ∈ thresholdsMetGracePeriod listing now ↔
      ∃ begun, observedAt.lookup threshold = some begun ∧ begun ≤ now - threshold.gracePeriod := by
  unfold thresholdsMetGracePeriod
  simp only [mem_map, mem_filter, Prod.exists, decide_eq_true_eq, exists_and_right, exists_eq_right]
  refine exists_congr fun begun ↦ and_congr (hlist.2 threshold begun) ?_
  omega

theorem Remembers.next (hremembers : Remembers share config threshold tracked)
    (hdistinct : config.Distinguishes threshold)
    (hnew : NewStats share config threshold tracked (some pass))
    (htime : ∀ latest ∈ tracked.history.head?, latest.now ≤ pass.now)
    (hlist : Map.IsListing pass.thresholdListing
      (tracked.manager.firstObservedAt share config pass)) :
    Remembers share config threshold (tracked.next share config pass) := by
  have hordered : Streak.LatestFirst Observed.now (tracked.next share config pass).history :=
    latestFirst_next hremembers.ordered htime
  have hactive : threshold ∈ tracked.manager.activeThresholds share config pass.observations ↔
      MetIn share config threshold ⟨pass.now, pass.observations, tracked.manager.thresholdsMet⟩ :=
    mem_activeThresholds hdistinct hremembers.configured (hnew pass rfl)
  have hget (other : Threshold Percentage) :
      (tracked.manager.firstObservedAt share config pass).lookup other =
        if other ∈ tracked.manager.activeThresholds share config pass.observations then
          some ((tracked.manager.thresholdsFirstObservedAt.lookup other).getD pass.now)
        else none :=
    lookup_thresholdsFirstObservedAt _ _ _
  have hfirst : (tracked.manager.firstObservedAt share config pass).lookup threshold =
      Streak.start Observed.now (MetIn share config threshold)
        (tracked.next share config pass).history := by
    rw [hget threshold, hremembers.first]
    change _ = if MetIn share config threshold _ then _ else _
    simp only [hactive]
  by_cases hempty : config.thresholds.length = 0
  · -- nothing is configured, so nothing is met or remembered
    have hmanager : (tracked.next share config pass).manager = tracked.manager := if_pos hempty
    have hnone (other : Threshold Percentage) : other ∉ config.thresholds := by
      rw [eq_nil_of_length_eq_zero hempty]
      exact not_mem_nil
    have hstart : Streak.start Observed.now (MetIn share config threshold)
        (tracked.next share config pass).history = none := by
      rw [← hfirst, hget threshold, if_neg]
      intro hmem
      exact hnone threshold (configured_of_mem_activeThresholds hremembers.configured hmem)
    constructor
    · rw [hmanager, hstart]
      exact Finmap.lookup_eq_none.mpr fun hmem ↦ hnone threshold (hremembers.known threshold hmem)
    · rw [hmanager, hstart]
      apply iff_of_false
      · exact fun hmem ↦ hnone threshold (hremembers.configured threshold hmem)
      · simp
    · rw [hmanager]
      exact hremembers.configured
    · rw [hmanager]
      exact hremembers.known
    · exact hordered
  · have hmanager : (tracked.next share config pass).manager =
        { nodeConditions := nodeConditionsObservedSince pass.conditionListing
            config.pressureTransitionPeriod pass.now
          thresholdsFirstObservedAt := tracked.manager.firstObservedAt share config pass
          nodeConditionsLastObservedAt := tracked.manager.conditionsLastObservedAt share config pass
          thresholdsMet := thresholdsMetGracePeriod pass.thresholdListing pass.now
          lastObservations := pass.observations } :=
      if_neg hempty
    have hknown : ∀ known ∈ tracked.manager.firstObservedAt share config pass,
        known ∈ config.thresholds := by
      intro known hknown
      obtain ⟨begun, hbegun⟩ := Finmap.mem_iff.mp hknown
      rw [hget known] at hbegun
      split_ifs at hbegun with hmem
      exact configured_of_mem_activeThresholds hremembers.configured hmem
    constructor
    · rw [hmanager]
      exact hfirst
    · rw [hmanager, mem_thresholdsMetGracePeriod hlist, hfirst]
      simp [Tracked.next]
    · rw [hmanager]
      intro fired hfired
      obtain ⟨begun, hbegun, _⟩ := (mem_thresholdsMetGracePeriod hlist pass.now).mp hfired
      exact hknown fired (Finmap.mem_iff.mpr ⟨begun, hbegun⟩)
    · rw [hmanager]
      exact hknown
    · exact hordered

/-- If each pass that meets it has new statistics of its signal, a threshold that the configuration
does not repeat has fired exactly if it is due. -/
theorem thresholds_fire_when_due (share : Percentage → ℤ → ℤ) (config : Config Percentage)
    (threshold : Threshold Percentage) (hdistinct : config.Distinguishes threshold)
    {tracked : Tracked Percentage}
    (hreach : Reachable (· = Tracked.initial)
      (guarded (NewStats share config threshold) (Step share config)) tracked) :
    threshold ∈ tracked.manager.thresholdsMet ↔ Due share config threshold tracked.history := by
  have hremembers : Remembers share config threshold tracked := by
    apply hreach.invariant
    · intro tracked hinitial
      rw [hinitial]
      constructor
      · rfl
      · apply iff_of_false not_mem_nil
        rintro ⟨_, hnone, _⟩
        cases hnone
      · intro fired hfired
        exact absurd hfired not_mem_nil
      · intro known hknown
        exact absurd hknown Finmap.notMem_empty
      · exact List.Pairwise.nil
    · intro tracked pass target _ hremembers hstep
      obtain ⟨hnew, hstep⟩ := hstep
      cases hstep with
      | early => exact hremembers
      | pass pass htime hlist _ => exact hremembers.next hdistinct hnew htime hlist
  exact hremembers.due_iff

/-! ## Examples -/

def softMemory : Threshold Unit where
  signal := .memoryAvailable
  operator := .lessThan
  value := ⟨some 100, ()⟩
  gracePeriod := 10
  minReclaim := some ⟨some 50, ()⟩

def softConfig : Config Unit := ⟨0, [softMemory]⟩

/-- A pass with an amount of memory observed at some time.  The maps have at most one entry each. -/
def memoryPass (now available : ℤ) (time : ℕ) (begun : Option ℤ) (lastObserved : ℤ) :
    Pass Unit where
  now := now
  observations signal :=
    if signal = .memoryAvailable then some ⟨1000, available, time⟩ else none
  thresholdListing := begun.toList.map fun begun ↦ (softMemory, begun)
  conditionListing := [(.memoryPressure, lastObserved)]

theorem step_memoryPass {tracked : Tracked Unit} {now available : ℤ} {time : ℕ}
    {begun : Option ℤ} {lastObserved : ℤ}
    (htime : ∀ latest ∈ tracked.history.head?, latest.now ≤ now)
    (hbegun : tracked.manager.firstObservedAt (fun _ _ ↦ 0) softConfig
        (memoryPass now available time begun lastObserved) =
      begun.elim ∅ fun begun ↦ Finmap.singleton softMemory begun)
    (hobs : tracked.manager.conditionsLastObservedAt (fun _ _ ↦ 0) softConfig
        (memoryPass now available time begun lastObserved) =
      Finmap.singleton .memoryPressure lastObserved) :
    Step (fun _ _ ↦ 0) softConfig tracked
      (some (memoryPass now available time begun lastObserved))
      (tracked.next (fun _ _ ↦ 0) softConfig
        (memoryPass now available time begun lastObserved)) := by
  apply Step.pass _ _ htime
  · rw [hbegun]
    cases begun with
    | none => exact Map.isListing_empty
    | some begun => exact Map.isListing_singleton softMemory begun
  · rw [hobs]
    exact Map.isListing_singleton _ _

/-- Three passes; on the third the value is no longer met, but the minimum reclaim is not reached.
-/
def reclaimingRun : Tracked Unit :=
  ((Tracked.initial.next (fun _ _ ↦ 0) softConfig (memoryPass 0 50 1 (some 0) 0)).next
      (fun _ _ ↦ 0) softConfig (memoryPass 12 50 2 (some 0) 12)).next
    (fun _ _ ↦ 0) softConfig (memoryPass 20 120 3 (some 0) 20)

theorem reclaiming_still_due : Due (fun _ _ ↦ 0) softConfig softMemory reclaimingRun.history := by
  have hdistinct : softConfig.Distinguishes softMemory := by
    intro other hother _
    exact mem_singleton.mp hother
  have hreach : Reachable (· = Tracked.initial)
      (guarded (NewStats (fun _ _ ↦ 0) softConfig softMemory) (Step (fun _ _ ↦ 0) softConfig))
      reclaimingRun := by
    refine .next (.next (.next (.start rfl) ⟨?_, step_memoryPass ?_ ?_ ?_⟩)
      ⟨?_, step_memoryPass ?_ ?_ ?_⟩) ⟨?_, step_memoryPass ?_ ?_ ?_⟩
    all_goals decide +kernel
  apply (thresholds_fire_when_due (fun _ _ ↦ 0) softConfig softMemory hdistinct hreach).mp
  decide +kernel

/-- On the second pass the statistics are those of the first. -/
def staleRun : Tracked Unit :=
  ((Tracked.initial.next (fun _ _ ↦ 0) softConfig (memoryPass 0 50 1 (some 0) 0)).next
      (fun _ _ ↦ 0) softConfig (memoryPass 5 50 1 none 0)).next
    (fun _ _ ↦ 0) softConfig (memoryPass 12 50 2 (some 12) 12)

/-- A threshold met for longer than its grace period has not fired, since one pass saw unchanged
statistics. -/
theorem stale_pass_forgets :
    Reachable (· = Tracked.initial) (Step (fun _ _ ↦ 0) softConfig) staleRun ∧
      softConfig.Distinguishes softMemory ∧
      Due (fun _ _ ↦ 0) softConfig softMemory staleRun.history ∧
      softMemory ∉ staleRun.manager.thresholdsMet := by
  refine ⟨?_, ?_, ?_, ?_⟩
  · refine .next (.next (.next (.start rfl) (step_memoryPass ?_ ?_ ?_))
      (step_memoryPass ?_ ?_ ?_)) (step_memoryPass ?_ ?_ ?_)
    all_goals decide +kernel
  · intro other hother _
    exact mem_singleton.mp hother
  · refine ⟨_, rfl, _, ⟨[_, _], [], rfl, ?_, ?_⟩, ?_⟩
    all_goals decide +kernel
  · decide +kernel

end Kubernetes.Kubelet.Eviction

import Mathlib.Algebra.BigOperators.Group.List.Basic
import Mathlib.Algebra.Order.Ring.Unbundled.Rat
import Mathlib.Data.Prod.Lex
import Mathlib.Order.OrderDual

/-!
# The ranking of pods for eviction

Under pressure the kubelet evicts the first pod of a ranking: by QoS class, and within a class by
the usage of the starved resource.  Usages are integers, and requests may be fractions.
-/

namespace Kubernetes.Kubelet.Eviction

inductive QOSClass
  | bestEffort
  | burstable
  | guaranteed
  deriving DecidableEq, Repr

structure FsStats where
  usedBytes : Option UInt64
  inodesUsed : Option UInt64
  deriving DecidableEq, Repr

structure ContainerStats where
  workingSetBytes : Option UInt64
  rootfs : Option FsStats
  logs : Option FsStats
  deriving DecidableEq, Repr

structure PodStats where
  containers : List ContainerStats
  volumeStats : List (String × FsStats)
  deriving DecidableEq, Repr

/-- A pod with what is read from its specification.  There is no memory request if `PodUsageFunc`
fails. -/
structure Pod where
  uid : String
  qos : QOSClass
  localVolumeNames : List String
  memoryRequest : Option ℚ
  deriving DecidableEq, Repr

inductive FsStatsType
  | root
  | logs
  | localVolumeSource
  deriving DecidableEq, Repr

/-- The conversion of a reported number, which is zero if it is unknown. -/
def toQuantity (number : Option UInt64) : ℤ := (number.map fun used ↦ used.toInt64.toInt).getD 0

def diskUsage (fsStats : Option FsStats) : ℤ := toQuantity (fsStats.bind (·.usedBytes))

def inodeUsage (fsStats : Option FsStats) : ℤ := toQuantity (fsStats.bind (·.inodesUsed))

def podMemoryUsage (podStats : PodStats) : ℤ :=
  (podStats.containers.map fun container ↦ toQuantity container.workingSetBytes).sum

/-- The usage of a disk resource, which is `diskUsage` or `inodeUsage`. -/
def podDiskUsage (podStats : PodStats) (pod : Pod) (statsToMeasure : List FsStatsType)
    (diskResource : Option FsStats → ℤ) : ℤ :=
  (podStats.containers.map fun container ↦
    (if .root ∈ statsToMeasure then diskResource container.rootfs else 0) +
      if .logs ∈ statsToMeasure then diskResource container.logs else 0).sum +
  if .localVolumeSource ∈ statsToMeasure then
    (pod.localVolumeNames.map fun name ↦
      diskResource ((podStats.volumeStats.find? (·.1 = name)).map (·.2))).sum
  else 0

def qosComparator (p1 p2 : Pod) : ℤ :=
  if p1.qos = p2.qos then 0
  else if p1.qos = .bestEffort then -1
  else if p1.qos = .burstable then if p2.qos = .guaranteed then -1 else 1
  else 1

variable (stats : Pod → Option PodStats) (usage : PodStats → Pod → Option ℚ)

/-- The common part of `memory` and `disk`: the larger usage comes first. -/
def compareUsage (p1 p2 : Pod) : ℤ :=
  match stats p1 with
  | none => -1
  | some p1Stats =>
    match stats p2 with
    | none => 1
    | some p2Stats =>
      match usage p1Stats p1 with
      | none => -1
      | some p1Usage =>
        match usage p2Stats p2 with
        | none => 1
        | some p2Usage => if p2Usage < p1Usage then -1 else if p1Usage < p2Usage then 1 else 0

def relativeMemoryUsage (podStats : PodStats) (pod : Pod) : Option ℚ :=
  pod.memoryRequest.map (podMemoryUsage podStats - ·)

def memory : Pod → Pod → ℤ := compareUsage stats relativeMemoryUsage

def disk (statsToMeasure : List FsStatsType) (diskResource : Option FsStats → ℤ) : Pod → Pod → ℤ :=
  compareUsage stats fun podStats pod ↦ some (podDiskUsage podStats pod statsToMeasure diskResource)

/-- `Less` of a `multiSorter`.  The last comparator is the final decider. -/
def less : List (Pod → Pod → ℤ) → Pod → Pod → Bool
  | [], _, _ => false
  | [cmp], p1, p2 => cmp p1 p2 < 0
  | cmp :: rest, p1, p2 =>
    if cmp p1 p2 < 0 then true else if cmp p1 p2 > 0 then false else less rest p1 p2

def QOSClass.rank : QOSClass → ℕ
  | .bestEffort => 0
  | .burstable => 1
  | .guaranteed => 2

/-- The comparator, after the one by QoS, is a proper order, and a list sorted by it has the pods of
a class by usage. -/
structure RanksProperly (pods : List Pod) (cmp : Pod → Pod → ℤ) : Prop where
  order : IsStrictWeakOrder { p // p ∈ pods } fun p1 p2 ↦ less [qosComparator, cmp] p1 p2
  qos : ∀ p1 ∈ pods, ∀ p2 ∈ pods, p1.qos.rank < p2.qos.rank → less [qosComparator, cmp] p1 p2
  ranked : ∀ ranked : List Pod, ranked.Perm pods →
    ranked.Pairwise (fun p1 p2 ↦ ¬ less [qosComparator, cmp] p2 p1) →
    ranked.Pairwise fun p1 p2 ↦ p1.qos = p2.qos →
      ∀ p1Usage ∈ (stats p1).bind (usage · p1), ∀ p2Usage ∈ (stats p2).bind (usage · p2),
        p2Usage ≤ p1Usage

variable {stats usage} {p1 p2 : Pod} {pods : List Pod}

theorem less_self (hunknown : (stats p1).bind (usage · p1) = none) :
    less [qosComparator, compareUsage stats usage] p1 p1 := by
  cases hstats : stats p1 with
  | none => simp [less, qosComparator, compareUsage, hstats]
  | some podStats =>
    rw [hstats, Option.bind_some] at hunknown
    simp [less, qosComparator, compareUsage, hstats, hunknown]

def rankKey (stats : Pod → Option PodStats) (usage : PodStats → Pod → Option ℚ) (p : Pod) :
    ℕ ×ₗ ℚᵒᵈ :=
  toLex (p.qos.rank, .toDual (((stats p).bind (usage · p)).getD 0))

theorem less_iff (h1 : (stats p1).bind (usage · p1) ≠ none)
    (h2 : (stats p2).bind (usage · p2) ≠ none) :
    less [qosComparator, compareUsage stats usage] p1 p2 ↔
      rankKey stats usage p1 < rankKey stats usage p2 := by
  obtain ⟨p1Usage, hp1⟩ := Option.ne_none_iff_exists'.mp h1
  obtain ⟨p2Usage, hp2⟩ := Option.ne_none_iff_exists'.mp h2
  obtain ⟨p1Stats, hstats1, husage1⟩ := Option.bind_eq_some_iff.mp hp1
  obtain ⟨p2Stats, hstats2, husage2⟩ := Option.bind_eq_some_iff.mp hp2
  have hcompare : compareUsage stats usage p1 p2 < 0 ↔ p2Usage < p1Usage := by
    simp only [compareUsage, hstats1, hstats2, husage1, husage2]
    split_ifs <;> simp_all
  rw [rankKey, rankKey, hp1, hp2, Prod.Lex.toLex_lt_toLex]
  cases hqos1 : p1.qos <;> cases hqos2 : p2.qos <;>
    simp [less, qosComparator, QOSClass.rank, hqos1, hqos2, hcompare]

theorem ranksProperly_iff :
    RanksProperly stats usage pods (compareUsage stats usage) ↔
      ∀ p ∈ pods, (stats p).bind (usage · p) ≠ none := by
  constructor
  · intro hproper p hp hunknown
    exact hproper.order.irrefl ⟨p, hp⟩ (less_self hunknown)
  · intro hknown
    have hless : ∀ p1 ∈ pods, ∀ p2 ∈ pods, (less [qosComparator, compareUsage stats usage] p1 p2 ↔
        rankKey stats usage p1 < rankKey stats usage p2) :=
      fun p1 hp1 p2 hp2 ↦ less_iff (hknown p1 hp1) (hknown p2 hp2)
    constructor
    · have heq : (fun p1 p2 : { p // p ∈ pods } ↦
          (less [qosComparator, compareUsage stats usage] p1 p2 : Prop)) =
          Function.onFun (· < ·) fun p ↦ rankKey stats usage p.1 := by
        funext p1 p2
        exact propext (hless p1 p1.2 p2 p2.2)
      have hkeys : IsStrictWeakOrder (ℕ ×ₗ ℚᵒᵈ) (· < ·) := isStrictWeakOrder_of_isOrderConnected
      rw [heq]
      infer_instance
    · intro p1 hp1 p2 hp2 hqos
      rw [hless p1 hp1 p2 hp2]
      exact Prod.Lex.toLex_lt_toLex.mpr (.inl hqos)
    · intro ranked hperm hsorted
      apply hsorted.imp_of_mem
      intro p1 p2 hp1 hp2 hnot hqos p1Usage h1 p2Usage h2
      rw [hless p2 (hperm.mem_iff.mp hp2) p1 (hperm.mem_iff.mp hp1), rankKey, rankKey, h1, h2,
        Prod.Lex.toLex_lt_toLex, hqos] at hnot
      by_contra hlt
      exact hnot (.inr ⟨rfl, not_le.mp hlt⟩)

/-- The rankings are proper exactly if every pod has statistics, and for memory a request that can
be computed. -/
theorem rankings_proper_iff (stats : Pod → Option PodStats) (pods : List Pod) :
    (RanksProperly stats relativeMemoryUsage pods (memory stats) ↔
        ∀ p ∈ pods, (stats p).isSome ∧ p.memoryRequest.isSome) ∧
      ∀ statsToMeasure diskResource,
        (RanksProperly stats
            (fun podStats p ↦ some (podDiskUsage podStats p statsToMeasure diskResource)) pods
            (disk stats statsToMeasure diskResource) ↔
          ∀ p ∈ pods, (stats p).isSome) := by
  refine ⟨ranksProperly_iff.trans (forall₂_congr fun p _ ↦ ?_), fun statsToMeasure diskResource ↦
    ranksProperly_iff.trans (forall₂_congr fun p _ ↦ ?_)⟩
  · cases stats p <;> simp [relativeMemoryUsage, Option.isSome_iff_ne_none]
  · cases stats p <;> simp

/-- Of two pods without statistics each comes before the other. -/
theorem unknown_pods_unordered :
    less [qosComparator, memory fun _ ↦ none] ⟨"a", .burstable, [], some 0⟩
        ⟨"b", .burstable, [], some 0⟩ ∧
      less [qosComparator, memory fun _ ↦ none] ⟨"b", .burstable, [], some 0⟩
        ⟨"a", .burstable, [], some 0⟩ :=
  ⟨rfl, rfl⟩

end Kubernetes.Kubelet.Eviction

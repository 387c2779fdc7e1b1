import Kubernetes.Kubelet.ProbeWorker

/-!
# Probe thresholds

A result should be recorded only after as many probes of the container in a row as the threshold
asks for.  The worker counts equal results, but does not start again with a new container ID.  This
cannot matter where the first probe of a container gives another result than the last one, or one
with a threshold of one.
-/

namespace Kubernetes.Kubelet.Prober

open List

/-- A result that was recorded because of its threshold, with all probes completed by then, latest
first. -/
structure Recording where
  containerID : ContainerID
  result : Result
  completed : List (ContainerID × Result)
  deriving DecidableEq, Repr

structure History where
  worker : Worker
  manager : Manager
  completed : List (ContainerID × Result)
  recordings : List Recording

/-- The last probes, as many as the threshold asks for, were made against the container and gave the
result. -/
def Recording.Justified (spec : Probe) (recording : Recording) : Prop :=
  List.replicate (spec.threshold recording.result).toNat
    (recording.containerID, recording.result) <+: recording.completed

instance instDecidableJustified (spec : Probe) (recording : Recording) :
    Decidable (recording.Justified spec) :=
  inferInstanceAs (Decidable (_ <+: _))

def History.start (manager : Manager) : History := ⟨newWorker, manager, [], []⟩

variable (settings : Settings)

def History.doProbe (history : History) (observation : Observation) : History :=
  let call := Prober.doProbe settings history.worker history.manager observation
  let completed := call.completed.toList ++ history.completed
  { worker := call.worker
    manager := call.manager
    completed := completed
    recordings := call.recorded.toList.map (fun probe ↦ ⟨probe.1, probe.2, completed⟩) ++
      history.recordings }

/-- A probe of another container than the last one gives another result, or one result is enough. -/
def Unmixed (history : History) (observation : Observation) : Prop :=
  (examine settings history.worker history.manager observation.status).2.2 = none →
    ∀ result ∈ observation.outcome, ∀ last ∈ history.completed.head?,
      last.1 ≠ (examine settings history.worker history.manager observation.status).1.containerID →
        last.2 ≠ result ∨ settings.spec.threshold result ≤ 1

instance instDecidableUnmixed (history : History) (observation : Observation) :
    Decidable (Unmixed settings history observation) :=
  inferInstanceAs (Decidable (_ → ∀ result ∈ observation.outcome,
    ∀ last ∈ history.completed.head?, _ → _))

def AllUnmixed : History → List Observation → Prop
  | _, [] => True
  | history, observation :: observations =>
    Unmixed settings history observation ∧
      AllUnmixed (history.doProbe settings observation) observations

instance instDecidableAllUnmixed : (history : History) → (observations : List Observation) →
    Decidable (AllUnmixed settings history observations)
  | _, [] => inferInstanceAs (Decidable True)
  | history, observation :: observations =>
    have := instDecidableAllUnmixed (history.doProbe settings observation) observations
    inferInstanceAs (Decidable (_ ∧ _))

theorem replicate_isPrefix_replicate {Elem : Type*} {short long : ℕ} (hle : short ≤ long)
    (elem : Elem) : List.replicate short elem <+: List.replicate long elem := by
  obtain ⟨more, rfl⟩ := Nat.exists_eq_add_of_le hle
  rw [← replicate_append_replicate]
  exact prefix_append _ _

variable (worker : Worker) (manager : Manager)

theorem adopt_run (containerID : String) :
    (adopt settings worker manager containerID).1.lastResult = worker.lastResult ∧
      (adopt settings worker manager containerID).1.resultRun = worker.resultRun := by
  unfold adopt
  split_ifs <;> exact ⟨rfl, rfl⟩

theorem examine_run (status : Option PodStatus) :
    (examine settings worker manager status).1.lastResult = worker.lastResult ∧
      (examine settings worker manager status).1.resultRun = worker.resultRun := by
  unfold examine
  cases status with
  | none => exact ⟨rfl, rfl⟩
  | some status =>
    simp only
    split_ifs with hphase
    · exact ⟨rfl, rfl⟩
    · cases getContainerStatus status.containerStatuses settings.containerName with
      | none => exact ⟨rfl, rfl⟩
      | some c =>
        simp only
        split_ifs with hempty
        · exact ⟨rfl, rfl⟩
        · exact adopt_run settings worker manager c.containerID

@[simp]
theorem Worker.count_containerID (result : Result) :
    (worker.count result).containerID = worker.containerID := by
  unfold Worker.count
  split_ifs
  · rfl
  · rfl

@[simp]
theorem Worker.count_lastResult (result : Result) : (worker.count result).lastResult = result := by
  unfold Worker.count
  split_ifs with hsame
  · exact hsame
  · rfl

theorem recordResult_spec (result : Result) :
    (recordResult settings worker manager result).worker.lastResult = result ∧
      (recordResult settings worker manager result).worker.resultRun =
        (worker.count result).resultRun ∧
      (recordResult settings worker manager result).completed = some (worker.containerID, result) ∧
      (recordResult settings worker manager result).recorded =
        if settings.spec.threshold result ≤ (worker.count result).resultRun then
          some (worker.containerID, result)
        else none := by
  have hbelow : (result = .failure ∧
        ((worker.count result).resultRun : ℤ) < settings.spec.failureThreshold ∨
      result = .success ∧ ((worker.count result).resultRun : ℤ) < settings.spec.successThreshold) ↔
      ¬settings.spec.threshold result ≤ (worker.count result).resultRun := by
    cases result <;> simp [Probe.threshold]
  unfold recordResult
  simp only [hbelow, Worker.count_containerID]
  by_cases henough : settings.spec.threshold result ≤ (worker.count result).resultRun
  · rw [if_neg (not_not.mpr henough), if_pos henough]
    by_cases hhold : settings.probeType = .liveness ∧ result = .failure
    · rw [if_pos hhold]
      exact ⟨Worker.count_lastResult worker result, rfl, rfl, rfl⟩
    · rw [if_neg hhold]
      simp
  · rw [if_pos henough, if_neg henough]
    exact ⟨Worker.count_lastResult worker result, rfl, rfl, rfl⟩

/-- A call completes no probe and keeps the count, or one of the container that it has taken over.
-/
theorem doProbe_cases (observation : Observation) :
    ((doProbe settings worker manager observation).completed = none ∧
        (doProbe settings worker manager observation).recorded = none ∧
        (doProbe settings worker manager observation).worker.lastResult = worker.lastResult ∧
        (doProbe settings worker manager observation).worker.resultRun = worker.resultRun) ∨
      ∃ result, (examine settings worker manager observation.status).2.2 = none ∧
        observation.outcome = some result ∧
        doProbe settings worker manager observation =
          recordResult settings (examine settings worker manager observation.status).1
            (examine settings worker manager observation.status).2.1 result := by
  have hrun := examine_run settings worker manager observation.status
  unfold doProbe
  rcases hexamined : examine settings worker manager observation.status with
    ⟨examined, manager', verdict⟩
  rw [hexamined] at hrun
  cases verdict with
  | some keepGoing => exact .inl ⟨rfl, rfl, hrun⟩
  | none =>
    cases houtcome : observation.outcome with
    | none => exact .inl ⟨rfl, rfl, hrun⟩
    | some result => exact .inr ⟨result, rfl, rfl, rfl⟩

/-- The worker has counted probes of the container it probed last, unless one result is enough. -/
structure Counted (history : History) : Prop where
  empty : history.completed = [] → history.worker.resultRun = 0
  last : ∀ last, history.completed.head? = some last → history.worker.lastResult = last.2 ∧
    (1 < settings.spec.threshold last.2 →
      List.replicate history.worker.resultRun last <+: history.completed)
  justified : ∀ recording ∈ history.recordings, recording.Justified settings.spec

variable {settings} {history : History}

theorem Counted.replicate_count (hcnt : Counted settings history) {worker : Worker}
    (hlast : worker.lastResult = history.worker.lastResult)
    (hrun : worker.resultRun = history.worker.resultRun) {result : Result}
    (hunmixed : ∀ last, history.completed.head? = some last → last.1 ≠ worker.containerID →
      last.2 ≠ result ∨ settings.spec.threshold result ≤ 1)
    (hthreshold : 1 < settings.spec.threshold result) :
    List.replicate (worker.count result).resultRun (worker.containerID, result) <+:
      (worker.containerID, result) :: history.completed := by
  unfold Worker.count
  split_ifs with hsame
  · rw [replicate_succ, cons_prefix_cons]
    refine ⟨rfl, ?_⟩
    cases hhead : history.completed.head? with
    | none =>
      have hnone := List.head?_eq_none_iff.mp hhead
      rw [hrun, hcnt.empty hnone]
      exact nil_prefix
    | some last =>
      obtain ⟨hres, hrepeated⟩ := hcnt.last last hhead
      have hequal : last.2 = result := by rw [← hres, ← hlast, hsame]
      -- the last probe was made against this container, or its result would be mixed with the new one
      have hcontainer : last.1 = worker.containerID := by
        by_contra hother
        rcases hunmixed last hhead hother with hdifferent | hone
        · exact hdifferent hequal
        · omega
      rw [hrun, ← hcontainer, ← hequal]
      exact hrepeated (hequal ▸ hthreshold)
  · simp

theorem Counted.doProbe (hcnt : Counted settings history) {observation : Observation}
    (hunmixed : Unmixed settings history observation) :
    Counted settings (history.doProbe settings observation) := by
  unfold History.doProbe
  rcases doProbe_cases settings history.worker history.manager observation with
    ⟨hcompleted, hrec, hlast, hrun⟩ | ⟨result, hexamine, houtcome, hcall⟩
  · simp only [hcompleted, hrec]
    refine ⟨?_, ?_, hcnt.justified⟩
    · intro hnone
      rw [hrun]
      exact hcnt.empty hnone
    · intro last hhead
      rw [hlast, hrun]
      exact hcnt.last last hhead
  · obtain ⟨hlast, hrun⟩ := examine_run settings history.worker history.manager observation.status
    have hmixed := hunmixed hexamine result houtcome
    set worker := (examine settings history.worker history.manager observation.status).1
    obtain ⟨hres, hcount, hcompleted, hrec⟩ := recordResult_spec settings worker
      (examine settings history.worker history.manager observation.status).2.1 result
    have hreplicate := hcnt.replicate_count hlast hrun hmixed
    simp only [hcall, hcompleted, hrec]
    refine ⟨fun hnone ↦ absurd hnone (cons_ne_nil _ _), ?_, ?_⟩
    · intro last hhead
      cases hhead
      rw [hcount]
      exact ⟨hres, hreplicate⟩
    · intro recording hmem
      rcases mem_append.mp hmem with hnew | hold
      · split_ifs at hnew with henough
        · rw [Option.toList_some, map_singleton, mem_singleton] at hnew
          subst hnew
          by_cases hone : 1 < settings.spec.threshold result
          · have hle : (settings.spec.threshold result).toNat ≤
                (worker.count result).resultRun := by omega
            exact (replicate_isPrefix_replicate hle _).trans (hreplicate hone)
          · have hle : (settings.spec.threshold result).toNat ≤ 1 := by omega
            refine (replicate_isPrefix_replicate hle _).trans ?_
            exact cons_prefix_cons.mpr ⟨rfl, nil_prefix⟩
        · cases hnew
      · exact hcnt.justified recording hold

theorem counted_start : Counted settings (History.start manager) := by
  refine ⟨fun _ ↦ rfl, ?_, ?_⟩
  · intro last hhead
    cases hhead
  · intro recording hmem
    cases hmem

theorem Counted.foldl_doProbe (hcnt : Counted settings history)
    {observations : List Observation} (hunmixed : AllUnmixed settings history observations) :
    Counted settings (observations.foldl (History.doProbe settings) history) := by
  induction observations generalizing history with
  | nil => exact hcnt
  | cons observation observations ih => exact ih (hcnt.doProbe hunmixed.1) hunmixed.2

/-- If no call mixes results of different containers, every recorded result is justified by probes
of its container. -/
theorem recorded_results_justified (settings : Settings) (manager : Manager)
    (observations : List Observation)
    (hunmixed : AllUnmixed settings (History.start manager) observations) :
    ∀ recording ∈
      (observations.foldl (History.doProbe settings) (History.start manager)).recordings,
      recording.Justified settings.spec :=
  ((counted_start manager).foldl_doProbe hunmixed).justified

def patientLiveness : Settings := ⟨"pod", .always, "app", ⟨0, 1, 3⟩, .liveness⟩

def probed (containerID : String) (outcome : Result) : Observation :=
  ⟨some ⟨.running, [⟨"app", containerID, some 60, false⟩]⟩, some outcome⟩

/-- The first container fails three times, the next one succeeds before it fails three times. -/
theorem restarted_results_justified :
    AllUnmixed patientLiveness (History.start ⟨∅, []⟩)
        [probed "docker://a" .failure, probed "docker://a" .failure, probed "docker://a" .failure,
          probed "docker://b" .success, probed "docker://b" .failure] ∧
      ∀ recording ∈ ([probed "docker://a" .failure, probed "docker://a" .failure,
          probed "docker://a" .failure, probed "docker://b" .success,
          probed "docker://b" .failure].foldl (History.doProbe patientLiveness)
          (History.start ⟨∅, []⟩)).recordings, recording.Justified patientLiveness.spec := by
  have hunmixed : AllUnmixed patientLiveness (History.start ⟨∅, []⟩)
      [probed "docker://a" .failure, probed "docker://a" .failure, probed "docker://a" .failure,
        probed "docker://b" .success, probed "docker://b" .failure] := by
    decide +kernel
  exact ⟨hunmixed, recorded_results_justified patientLiveness _ _ hunmixed⟩

/-- The first container fails three times and is restarted; the new one fails once, and this is
recorded. -/
theorem restarted_container_fails_at_once :
    ⟨⟨"docker", "b"⟩, .failure, [(⟨"docker", "b"⟩, .failure), (⟨"docker", "a"⟩, .failure),
        (⟨"docker", "a"⟩, .failure), (⟨"docker", "a"⟩, .failure)]⟩ ∈
      ([probed "docker://a" .failure, probed "docker://a" .failure, probed "docker://a" .failure,
        probed "docker://b" .failure].foldl (History.doProbe patientLiveness)
        (History.start ⟨∅, []⟩)).recordings ∧
    ∃ recording ∈ ([probed "docker://a" .failure, probed "docker://a" .failure,
        probed "docker://a" .failure, probed "docker://b" .failure].foldl
        (History.doProbe patientLiveness) (History.start ⟨∅, []⟩)).recordings,
      ¬recording.Justified patientLiveness.spec := by
  decide +kernel

end Kubernetes.Kubelet.Prober

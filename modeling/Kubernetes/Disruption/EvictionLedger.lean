import Kubernetes.Disruption.EvictionProtocol

/-!
# Approved evictions are not forgotten

A status accounts for an approved eviction if it lists the pod, if it was computed from pods among
which the pod is gone, or if the controller gave up on the pod.  Every version of the budget
accounts for the evictions approved up to it, on two conditions.  A write of the controller is
stored only if no eviction was approved since the version that the sync started from; a write after
a refresh does not check this.  And the cache of the controller has seen a pod when its eviction is
approved.  The number of evictions is bounded if evicted pods are healthy and are not evicted twice,
and if the pods that the stored status counts are still healthy when it is used.
-/

namespace Kubernetes.Disruption

open Finset Function Transition
open List (mem_map not_mem_nil mem_toFinset mem_cons mem_filter mem_append)

variable {c d : Cluster} {a : Approval} {start : ℕ} {uid : UID} {sync : Sync} {request : Request}

namespace Cluster

/-! ## The pods over time -/

/-- UIDs name pods, and a pod that is gone does not come back. -/
structure History (c : Cluster) : Prop where
  nodup : ∀ k ≤ c.latest, ((c.pods k).map (·.uid)).Nodup
  name : ∀ j ≤ c.latest, ∀ k ≤ c.latest, ∀ pod ∈ c.pods j, ∀ other ∈ c.pods k,
    pod.uid = other.uid → pod.name = other.name
  alive : ∀ j k uid, j ≤ k → k ≤ c.latest → c.Known j uid → c.Alive k uid → c.Alive j uid

/-- A later list of pods differs from the latest one in pods that are new or no longer alive. -/
structure Evolves (c : Cluster) (pods : List Pod) : Prop where
  nodup : (pods.map (·.uid)).Nodup
  pod : ∀ pod ∈ pods, ¬ c.Known c.latest pod.uid ∨
    ∃ old ∈ c.pods c.latest, old.uid = pod.uid ∧ old.name = pod.name ∧
      (pod.deleting = false → old.deleting = false)

variable {j k basis v r : ℕ}

theorem Known.mono (hknown : c.Known j uid) (hle : j ≤ k) : c.Known k uid := by
  obtain ⟨i, hi, hpod⟩ := hknown
  exact ⟨i, hi.trans hle, hpod⟩

variable {pod : Pod}

theorem known_of_mem (hpod : pod ∈ c.pods k) : c.Known k pod.uid := ⟨k, le_rfl, pod, hpod, rfl⟩

theorem Gone.mono (hhist : c.History) (hgone : c.Gone j uid) (hjk : j ≤ k) (hk : k ≤ c.latest) :
    c.Gone k uid :=
  ⟨hgone.1.mono hjk, fun halive ↦ hgone.2 (hhist.alive j k uid hjk hk hgone.1 halive)⟩

theorem evolves_update (hhist : c.History) (uid : UID) (update : Pod → Pod)
    (huid : ∀ pod, (update pod).uid = pod.uid) (hname : ∀ pod, (update pod).name = pod.name)
    (hdel : ∀ pod, (update pod).deleting = false → pod.deleting = false) :
    c.Evolves ((c.pods c.latest).map fun pod ↦ if pod.uid = uid then update pod else pod) where
  nodup := by
    have hsame : (·.uid) ∘ (fun pod ↦ if pod.uid = uid then update pod else pod) = (·.uid) := by
      funext pod
      rw [comp_apply]
      split_ifs
      · exact huid pod
      · rfl
    rw [List.map_map, hsame]
    exact hhist.nodup c.latest le_rfl
  pod := by
    intro pod hpod
    obtain ⟨old, hold, rfl⟩ := mem_map.mp hpod
    right
    refine ⟨old, hold, ?_⟩
    split_ifs
    · exact ⟨(huid old).symm, (hname old).symm, hdel old⟩
    · exact ⟨rfl, rfl, id⟩

theorem evolves_remove (hhist : c.History) (uid : UID) :
    c.Evolves ((c.pods c.latest).filter fun pod ↦ pod.uid ≠ uid) where
  nodup := (hhist.nodup c.latest le_rfl).sublist (List.filter_sublist.map _)
  pod := fun pod hpod ↦ .inr ⟨pod, List.mem_of_mem_filter hpod, rfl, rfl, id⟩

variable {pods : List Pod}

theorem evolves_of_change (hhist : c.History)
    (hchange : Change (c.Known c.latest) (c.pods c.latest) pods) : c.Evolves pods := by
  generalize hold : c.pods c.latest = old at hchange
  cases hchange with
  | create name uid ready hname huid =>
    subst hold
    constructor
    · rw [List.map_append]
      apply List.Nodup.append (hhist.nodup c.latest le_rfl) (List.nodup_singleton uid)
      rw [List.disjoint_singleton]
      intro hmem
      obtain ⟨pod, hpod, rfl⟩ := mem_map.mp hmem
      exact huid (known_of_mem hpod)
    · intro pod hpod
      rcases mem_append.mp hpod with hpod | hpod
      · exact .inr ⟨pod, hpod, rfl, rfl, id⟩
      · rw [List.mem_singleton.mp hpod]
        exact .inl huid
  | setReady uid ready =>
    subst hold
    exact evolves_update hhist uid (fun pod ↦ { pod with ready }) (fun _ ↦ rfl) (fun _ ↦ rfl)
      fun _ ↦ id
  | markDeleted uid =>
    subst hold
    apply evolves_update hhist uid (fun pod ↦ { pod with deleting := true }) (fun _ ↦ rfl)
      (fun _ ↦ rfl)
    intro _ h
    cases h
  | remove uid =>
    subst hold
    exact evolves_remove hhist uid

theorem changePods_pods_of_le (hk : k ≤ c.latest) : (c.changePods pods).pods k = c.pods k :=
  update_of_ne (Nat.ne_of_lt (Nat.lt_succ_of_le hk)) _ _

theorem changePods_pods_latest : (c.changePods pods).pods (c.latest + 1) = pods := update_self _ _ _

theorem known_congr (hpods : ∀ j ≤ k, d.pods j = c.pods j) (uid : UID) :
    d.Known k uid ↔ c.Known k uid := by
  refine exists_congr fun j ↦ and_congr_right fun hj ↦ ?_
  rw [hpods j hj]

theorem alive_congr (hpods : d.pods k = c.pods k) (uid : UID) : d.Alive k uid ↔ c.Alive k uid := by
  rw [Alive, Alive, hpods]

theorem History.changePods (hhist : c.History) (hevolves : c.Evolves pods) :
    (c.changePods pods).History where
  nodup := by
    intro k hk
    rcases Nat.le_succ_iff.mp hk with hk | rfl
    · rw [changePods_pods_of_le hk]
      exact hhist.nodup k hk
    · rw [changePods_pods_latest]
      exact hevolves.nodup
  name := by
    -- a pod of the new version has the name of an older pod, or no older pod has its UID
    have hnew : ∀ k ≤ c.latest, ∀ pod ∈ pods, ∀ other ∈ c.pods k, pod.uid = other.uid →
        pod.name = other.name := by
      intro k hk pod hpod other hother huid
      rcases hevolves.pod pod hpod with hfresh | ⟨old, hold, holduid, hname, -⟩
      · exact absurd (huid ▸ (known_of_mem hother).mono hk) hfresh
      · rw [← hname]
        exact hhist.name c.latest le_rfl k hk old hold other hother (holduid.trans huid)
    intro j hj k hk pod hpod other hother huid
    rcases Nat.le_succ_iff.mp hj with hj | rfl
    · rw [changePods_pods_of_le hj] at hpod
      rcases Nat.le_succ_iff.mp hk with hk | rfl
      · rw [changePods_pods_of_le hk] at hother
        exact hhist.name j hj k hk pod hpod other hother huid
      · rw [changePods_pods_latest] at hother
        exact (hnew j hj other hother pod hpod huid.symm).symm
    · rw [changePods_pods_latest] at hpod
      rcases Nat.le_succ_iff.mp hk with hk | rfl
      · rw [changePods_pods_of_le hk] at hother
        exact hnew k hk pod hpod other hother huid
      · rw [changePods_pods_latest] at hother
        exact congrArg Pod.name (List.inj_on_of_nodup_map hevolves.nodup hpod hother huid)
  alive := by
    intro j k uid hjk hk hknown halive
    rcases Nat.le_succ_iff.mp hk with hk | rfl
    · rw [alive_congr (changePods_pods_of_le hk)] at halive
      rw [known_congr fun i hi ↦ changePods_pods_of_le (hi.trans (hjk.trans hk))] at hknown
      rw [alive_congr (changePods_pods_of_le (hjk.trans hk))]
      exact hhist.alive j k uid hjk hk hknown halive
    · rcases Nat.le_succ_iff.mp hjk with hj | rfl
      · rw [known_congr fun i hi ↦ changePods_pods_of_le (hi.trans hj)] at hknown
        rw [alive_congr (changePods_pods_of_le hj)]
        obtain ⟨pod, hpod, rfl, hdel⟩ := halive
        rw [changePods_pods_latest] at hpod
        rcases hevolves.pod pod hpod with hfresh | ⟨old, hold, holduid, -, hlive⟩
        · exact absurd (hknown.mono hj) hfresh
        · exact hhist.alive j c.latest pod.uid hj le_rfl hknown
            ⟨old, hold, holduid, hlive hdel⟩
      · exact halive

/-! ## Statuses that account for evictions -/

/-- The pods that a status must not count, since their evictions were approved up to a version. -/
def owed (c : Cluster) (version : ℕ) : Finset UID :=
  ((c.approved.filter fun a ↦ a.version ≤ version ∧ ¬ c.GivenUp a).map (·.uid)).toFinset

variable {version : ℕ}

theorem mem_owed :
    uid ∈ c.owed version ↔ ∃ a ∈ c.approved, a.version ≤ version ∧ ¬ c.GivenUp a ∧ a.uid = uid := by
  simp [owed, and_assoc]

/-- A status computed from a version of the pods accounts for the evictions approved up to a version
of the budget. -/
structure Accounts (c : Cluster) (version : ℕ) (st : PodDisruptionBudgetStatus) (basis : ℕ) :
    Prop where
  basis_le : basis ≤ c.podsSeen
  kept : ∀ a ∈ c.approved, a.version ≤ version →
    (∃ time, Finmap.lookup a.name st.disruptedPods = some time ∧ a.time ≤ time) ∨
      c.Gone basis a.uid ∨ c.GivenUp a ∧ a.time + deletionTimeout < c.clock
  allowed : st.podDisruptionsAllowed ≤
    max 0 ((healthy (c.pods basis) \ c.owed version).card - st.desiredHealthy)

/-- A later state.  What was known stays known, and new evictions have new versions. -/
structure Later (c d : Cluster) : Prop where
  clock : c.clock ≤ d.clock := by exact le_rfl
  latest : c.latest ≤ d.latest := by exact le_rfl
  pods : ∀ k ≤ c.latest, d.pods k = c.pods k := by exact fun _ _ ↦ rfl
  podsSeen : c.podsSeen ≤ d.podsSeen := by exact le_rfl
  gaveUp : ∀ entry ∈ c.gaveUp, entry ∈ d.gaveUp := by exact fun _ hentry ↦ hentry
  version : c.version ≤ d.version := by exact le_rfl
  budgets : ∀ v ≤ c.version, d.budgets v = c.budgets v := by exact fun _ _ ↦ rfl
  basis : ∀ v ≤ c.version, d.basis v = c.basis v := by exact fun _ _ ↦ rfl
  approved : ∀ a ∈ d.approved, a ∈ c.approved ∨ c.version < a.version := by
    exact fun _ hmem ↦ .inl hmem

section

variable (hlater : Later c d)

include hlater

theorem Later.gone (hk : k ≤ c.latest) :
    d.Gone k uid ↔ c.Gone k uid := by
  rw [Gone, Gone, known_congr (fun j hj ↦ hlater.pods j (hj.trans hk)),
    alive_congr (hlater.pods k hk)]

theorem Later.givenUp (hgiven : c.GivenUp a) : d.GivenUp a := by
  obtain ⟨entry, hentry, hmatch⟩ := hgiven
  exact ⟨entry, hlater.gaveUp entry hentry, hmatch⟩

theorem Later.mem_approved (hver : version ≤ c.version) (hmem : a ∈ d.approved)
    (hle : a.version ≤ version) : a ∈ c.approved := by
  rcases hlater.approved a hmem with hold | hnew
  · exact hold
  · omega

theorem Later.owed_subset (hver : version ≤ c.version) :
    d.owed version ⊆ c.owed version := by
  intro uid huid
  obtain ⟨a, hmem, hle, hgiven, rfl⟩ := mem_owed.mp huid
  exact mem_owed.mpr ⟨a, hlater.mem_approved hver hmem hle, hle,
    fun hold ↦ hgiven (hlater.givenUp hold), rfl⟩

end

variable {st : PodDisruptionBudgetStatus}

theorem allowed_mono {pods owed more : Finset UID} (hsubset : more ⊆ owed)
    (hallowed : st.podDisruptionsAllowed ≤ max 0 ((pods \ owed).card - st.desiredHealthy)) :
    st.podDisruptionsAllowed ≤ max 0 ((pods \ more).card - st.desiredHealthy) := by
  have hcard : (pods \ owed).card ≤ (pods \ more).card :=
    card_le_card (sdiff_subset_sdiff Finset.Subset.rfl hsubset)
  omega

theorem Accounts.later (hacc : c.Accounts version st basis) (hlater : Later c d)
    (hseen : c.podsSeen ≤ c.latest) (hver : version ≤ c.version) :
    d.Accounts version st basis where
  basis_le := hacc.basis_le.trans hlater.podsSeen
  kept := by
    intro a hmem hle
    rcases hacc.kept a (hlater.mem_approved hver hmem hle) hle with
      hlist | hgone | ⟨hgiven, htime⟩
    · exact .inl hlist
    · exact .inr (.inl ((hlater.gone (hacc.basis_le.trans hseen)).mpr hgone))
    · exact .inr (.inr ⟨hlater.givenUp hgiven, htime.trans_le hlater.clock⟩)
  allowed := by
    rw [hlater.pods basis (hacc.basis_le.trans hseen)]
    exact allowed_mono (hlater.owed_subset hver) hacc.allowed

/-- If nothing was approved in between, the status accounts for the evictions up to now. -/
theorem Accounts.upTo {later : ℕ} (hacc : c.Accounts version st basis)
    (hnone : ∀ a ∈ c.approved, a.version ≤ version) : c.Accounts later st basis where
  basis_le := hacc.basis_le
  kept := fun a hmem _ ↦ hacc.kept a hmem (hnone a hmem)
  allowed := by
    apply allowed_mono _ hacc.allowed
    intro uid huid
    obtain ⟨a, hmem, -, hgiven, rfl⟩ := mem_owed.mp huid
    exact mem_owed.mpr ⟨a, hmem, hnone a hmem, hgiven, rfl⟩

/-! ## The ledger -/

/-- What is known of an approved eviction. -/
structure Approved (c : Cluster) (a : Approval) : Prop where
  version_le : a.version ≤ c.version
  latest_le : a.latest ≤ c.latest
  time_le : a.time ≤ c.clock.stored
  seen : ∃ k ≤ c.podsSeen, ∃ pod ∈ c.pods k, pod.uid = a.uid ∧ pod.name = a.name
  healthy : a.uid ∈ healthy (c.pods a.latest)

structure Ledger (c : Cluster) : Prop where
  history : c.History
  podsSeen_le : c.podsSeen ≤ c.latest
  budgetSeen_le : c.budgetSeen ≤ c.version
  resourceVersion : ∀ v ≤ c.version, (c.budgets v).resourceVersion = v
  accounts : ∀ v ≤ c.version, c.Accounts v (c.budgets v).status (c.basis v)
  approved : ∀ a ∈ c.approved, c.Approved a
  /-- The first of two evictions of a pod was given up before the second. -/
  distinct : c.approved.Pairwise fun later earlier ↦ later.uid = earlier.uid → c.GivenUp earlier
  bounded : c.Bounded

/-- What the sync writes accounts for the evictions up to the version it works on. -/
def SyncAccounts (c : Cluster) : Sync → Prop
  | .idle => True
  | .started pdb => ∃ v ≤ c.version, pdb = c.budgets v
  | .writing write | .refreshing write =>
    (∃ v ≤ c.version, write.origin = c.budgets v) ∧
      c.Accounts write.origin.resourceVersion write.st write.basis

/-- A request is for a pod that was there, and decides on a version of the budget. -/
def RequestKnown (c : Cluster) : Request → Prop
  | .checking pod _ => ∃ k ≤ c.latest, pod ∈ c.pods k
  | .deciding pod _ pdb => (∃ k ≤ c.latest, pod ∈ c.pods k) ∧ ∃ v ≤ c.version, pdb = c.budgets v
  | .waiting | .deleting _ | .finished _ => True

structure Inv (c : Cluster) : Prop where
  ledger : c.Ledger
  overdue : ∀ entry ∈ c.gaveUp, entry.2 + deletionTimeout ≤ c.clock
  sync : c.SyncAccounts c.sync
  requests : ∀ r, c.RequestKnown (c.requests r)

theorem Approved.later (happroved : c.Approved a) (hlater : Later c d) (hseen : c.podsSeen ≤ c.latest) :
    d.Approved a where
  version_le := happroved.version_le.trans hlater.version
  latest_le := happroved.latest_le.trans hlater.latest
  time_le := happroved.time_le.trans (Nat.mul_le_mul_right _ (Nat.div_le_div_right hlater.clock))
  seen := by
    obtain ⟨k, hk, hpod⟩ := happroved.seen
    refine ⟨k, hk.trans hlater.podsSeen, ?_⟩
    rwa [hlater.pods k (hk.trans hseen)]
  healthy := by
    rw [hlater.pods a.latest happroved.latest_le]
    exact happroved.healthy

theorem Quiet.of_later (hquiet : d.Quiet start) (hlater : Later c d) : c.Quiet start := by
  intro k hstart hk
  have hsubset := hquiet k hstart (hk.trans_le hlater.latest)
  rwa [hlater.pods (k + 1) hk, hlater.pods k hk.le] at hsubset

/-- In a quiet period the healthy pods of the start are all there ever are. -/
theorem Quiet.subset (hquiet : c.Quiet start) (hstart : start ≤ k) (hk : k ≤ c.latest) :
    healthy (c.pods k) ⊆ healthy (c.pods start) := by
  induction k, hstart using Nat.le_induction with
  | base => exact Finset.Subset.rfl
  | succ k hstart ih => exact (hquiet k hstart hk).trans (ih (Nat.le_of_succ_le hk))

theorem Ledger.later (hled : c.Ledger) (hlater : Later c d) (happroved : d.approved = c.approved)
    (hver : d.version = c.version) (hhist : d.History) (hseen : d.podsSeen ≤ d.latest)
    (hbudget : d.budgetSeen ≤ d.version) : d.Ledger where
  history := hhist
  podsSeen_le := hseen
  budgetSeen_le := hbudget
  resourceVersion := by
    intro v hv
    rw [hver] at hv
    rw [hlater.budgets v hv]
    exact hled.resourceVersion v hv
  accounts := by
    intro v hv
    rw [hver] at hv
    rw [hlater.budgets v hv, hlater.basis v hv]
    exact (hled.accounts v hv).later hlater hled.podsSeen_le hv
  approved := by
    intro a hmem
    rw [happroved] at hmem
    exact (hled.approved a hmem).later hlater hled.podsSeen_le
  distinct := by
    rw [happroved]
    exact hled.distinct.imp fun hearlier huid ↦ hlater.givenUp (hearlier huid)
  bounded := by
    intro start desiredHealthy hquiet hsince
    have hsame : d.approvedSince start = c.approvedSince start := by
      rw [approvedSince, approvedSince, happroved]
    rw [hsame] at hsince ⊢
    by_cases hstart : start ≤ c.latest
    · rw [hlater.pods start hstart]
      exact hled.bounded start desiredHealthy (hquiet.of_later hlater) fun a hmem ↦
        ⟨(hsince a hmem).1, fun hgiven ↦ (hsince a hmem).2 (hlater.givenUp hgiven)⟩
    · have hnone : c.approvedSince start = [] := by
        apply List.filter_eq_nil_iff.mpr
        intro a hmem hle
        exact hstart ((of_decide_eq_true hle).trans (hled.approved a hmem).latest_le)
      rw [hnone]
      exact le_max_left 0 _

theorem SyncAccounts.later (hsync : c.SyncAccounts sync) (hled : c.Ledger) (hlater : Later c d) :
    d.SyncAccounts sync := by
  -- a version of the budget stays one
  have hver : ∀ pdb, (∃ v ≤ c.version, pdb = c.budgets v) → ∃ v ≤ d.version, pdb = d.budgets v := by
    intro pdb hpdb
    obtain ⟨v, hv, rfl⟩ := hpdb
    exact ⟨v, hv.trans hlater.version, (hlater.budgets v hv).symm⟩
  have hwrite : ∀ write : Write, ((∃ v ≤ c.version, write.origin = c.budgets v) ∧
      c.Accounts write.origin.resourceVersion write.st write.basis) →
      (∃ v ≤ d.version, write.origin = d.budgets v) ∧
        d.Accounts write.origin.resourceVersion write.st write.basis := by
    intro write hwrite
    refine ⟨hver _ hwrite.1, hwrite.2.later hlater hled.podsSeen_le ?_⟩
    obtain ⟨v, hv, horigin⟩ := hwrite.1
    rwa [horigin, hled.resourceVersion v hv]
  cases sync with
  | idle => trivial
  | started pdb => exact hver pdb hsync
  | writing write | refreshing write => exact hwrite write hsync

theorem RequestKnown.later (hreq : c.RequestKnown request) (hlater : Later c d) :
    d.RequestKnown request := by
  have hpod : ∀ pod : Pod, (∃ k ≤ c.latest, pod ∈ c.pods k) → ∃ k ≤ d.latest, pod ∈ d.pods k := by
    intro pod hpod
    obtain ⟨k, hk, hmem⟩ := hpod
    exact ⟨k, hk.trans hlater.latest, (hlater.pods k hk).symm ▸ hmem⟩
  cases request with
  | waiting | deleting | finished => trivial
  | checking pod attempt => exact hpod pod hreq
  | deciding pod attempt pdb =>
    obtain ⟨v, hv, hpdb⟩ := hreq.2
    exact ⟨hpod pod hreq.1, v, hv.trans hlater.version, hpdb.trans (hlater.budgets v hv).symm⟩

/-! ## A sync -/

variable {pdb newPdb : PodDisruptionBudget}

variable {listed : List Pod}

theorem overdue_of_mem {currentTime : Time} {entry : UID × Time}
    (hentry : entry ∈ overdue pdb listed currentTime) :
    entry.2 + deletionTimeout ≤ currentTime := by
  obtain ⟨pod, -, hbind⟩ := List.mem_filterMap.mp hentry
  obtain ⟨time, -, hcond⟩ := Option.bind_eq_some_iff.mp hbind
  split_ifs at hcond with hoverdue
  obtain rfl := Option.some.inj hcond
  exact hoverdue.2

def giveUp (c : Cluster) (entries : List (UID × Time)) : Cluster :=
  { c with gaveUp := c.gaveUp ++ entries }

theorem later_giveUp (entries : List (UID × Time)) : Later c (c.giveUp entries) where
  gaveUp := fun _ hentry ↦ List.mem_append_left entries hentry

section

variable (hled : c.Ledger) (hmem : a ∈ c.approved) (hpod : pod ∈ c.pods c.podsSeen)
  (huid : pod.uid = a.uid)

include hled hmem hpod huid

/-- The pod that the cache shows has the name under which its eviction was approved. -/
theorem Ledger.name_eq : pod.name = a.name := by
  obtain ⟨k, hk, known, hknown, hknownUid, hknownName⟩ := (hled.approved a hmem).seen
  rw [← hknownName]
  exact hled.history.name c.podsSeen hled.podsSeen_le k (hk.trans hled.podsSeen_le) pod hpod
    known hknown (huid.trans hknownUid.symm)

/-- An evicted pod that the cache shows alive is still listed in the budget that the sync took, or
was given up. -/
theorem Ledger.listed_of_alive (hv : v ≤ c.version) (hle : a.version ≤ v)
    (hdel : pod.deleting = false) :
    (∃ time, (c.budgets v).status.disruptedPods.lookup pod.name = some time ∧ a.time ≤ time) ∨
      c.GivenUp a ∧ a.time + deletionTimeout < c.clock := by
  have hacc := hled.accounts v hv
  rcases hacc.kept a hmem hle with ⟨time, hlookup, htime⟩ | hgone | hgiven
  · left
    exact ⟨time, by rw [hled.name_eq hmem hpod huid, hlookup], htime⟩
  · have hgone := hgone.mono hled.history hacc.basis_le hled.podsSeen_le
    exact absurd ⟨pod, hpod, huid, hdel⟩ hgone.2
  · exact .inr hgiven

end

/-- What the controller computes accounts for the evictions up to the version that it started from.
-/
theorem Ledger.accounts_trySync (hled : c.Ledger) (hv : v ≤ c.version) {finders : List Finder}
    {isNil : Bool} (hlist : listed.Perm (c.pods c.podsSeen))
    (hsync : trySync finders (c.budgets v) isNil listed c.clock = .ok (some st)) :
    (c.giveUp (overdue (c.budgets v) listed c.clock)).Accounts v st c.podsSeen := by
  obtain ⟨hdisrupted, hallowed⟩ := trySync_eq_some hsync
  have hlater : Later c (c.giveUp (overdue (c.budgets v) listed c.clock)) := later_giveUp _
  have hgiveUp : ∀ a : Approval, ∀ pod ∈ listed, ∀ time, pod.uid = a.uid → pod.deleting = false →
      (c.budgets v).status.disruptedPods.lookup pod.name = some time → a.time ≤ time →
      time + deletionTimeout ≤ c.clock →
      (c.giveUp (overdue (c.budgets v) listed c.clock)).GivenUp a := by
    intro a pod hpod time huid hdel hlookup htime hoverdue
    refine ⟨(pod.uid, time), List.mem_append_right _ (List.mem_filterMap.mpr ⟨pod, hpod, ?_⟩),
      huid, htime⟩
    rw [hlookup]
    exact if_pos ⟨hdel, hoverdue⟩
  refine ⟨le_rfl, ?_, ?_⟩
  · intro a hmem hle
    by_cases halive : c.Alive c.podsSeen a.uid
    · obtain ⟨pod, hpod, huid, hdel⟩ := halive
      rcases hled.listed_of_alive hmem hpod huid hv hle hdel with
        ⟨time, hlookup, htime⟩ | ⟨hgiven, hlate⟩
      · by_cases hlate : time + deletionTimeout < c.clock
        · right
          right
          refine ⟨hgiveUp a pod (hlist.mem_iff.mpr hpod) time huid hdel hlookup htime
            hlate.le, ?_⟩
          exact (Nat.add_le_add_right htime _).trans_lt hlate
        · left
          have hname := hled.name_eq hmem hpod huid
          refine ⟨time, ?_, htime⟩
          rw [hdisrupted]
          apply lookup_buildDisruptedPodMap.mpr
          exact ⟨hname ▸ hlookup, Nat.not_lt.mp hlate, pod, hlist.mem_iff.mpr hpod, hname,
            hdel⟩
      · exact .inr (.inr ⟨hlater.givenUp hgiven, hlate⟩)
    · obtain ⟨k, hk, known, hknown, hknownUid, -⟩ := (hled.approved a hmem).seen
      exact .inr (.inl ⟨⟨k, hk, known, hknown, hknownUid⟩, halive⟩)
  · have hcount : countHealthyPods listed st.disruptedPods c.clock ≤
        (healthy (c.pods c.podsSeen) \
          (c.giveUp (overdue (c.budgets v) listed c.clock)).owed v).card := by
      apply countHealthyPods_le
      · exact (hlist.map _).nodup_iff.mpr (hled.history.nodup c.podsSeen hled.podsSeen_le)
      · intro pod hpod hcounts
        obtain ⟨hdel, hready, hoverdue⟩ := Pod.counts_eq_true.mp hcounts
        have hpod' : pod ∈ c.pods c.podsSeen := hlist.mem_iff.mp hpod
        apply mem_sdiff.mpr
        constructor
        · rw [healthy, mem_toFinset]
          exact List.mem_map_of_mem (mem_filter.mpr ⟨hpod', by simp [hdel, hready]⟩)
        · intro howed
          obtain ⟨a, hmem, hle, hgiven, huid⟩ := mem_owed.mp howed
          rcases hled.listed_of_alive hmem hpod' huid.symm hv hle hdel with
            ⟨time, hlookup, htime⟩ | ⟨hold, -⟩
          · -- the pod is kept in the list or is overdue, and is not counted unless it is overdue
            by_cases hlate : time + deletionTimeout ≤ c.clock
            · exact hgiven (hgiveUp a pod hpod time huid.symm hdel hlookup htime hlate)
            · have hkept : st.disruptedPods.lookup pod.name = some time := by
                rw [hdisrupted]
                exact lookup_buildDisruptedPodMap.mpr
                  ⟨hlookup, (Nat.not_le.mp hlate).le, pod, hpod, rfl, hdel⟩
              exact hlate (hoverdue time hkept)
          · exact hgiven (hlater.givenUp hold)
    calc
      st.podDisruptionsAllowed ≤
          max 0 (countHealthyPods listed st.disruptedPods c.clock - st.desiredHealthy) := hallowed
      _ ≤ _ := max_le_max le_rfl (Int.sub_le_sub_right hcount _)

/-! ## Stored statuses -/

/-- The evictions of a quiet period come on top of the healthy pods that the stored status counts,
if these are still healthy. -/
theorem Ledger.length_add_card_le (hled : c.Ledger) (hquiet : c.Quiet start)
    (hgiven : ∀ a ∈ c.approvedSince start, ¬ c.GivenUp a) (hstart : start ≤ c.latest)
    (hcur : healthy (c.pods basis) \ c.owed c.version ⊆ healthy (c.pods c.latest)) :
    (c.approvedSince start).length + (healthy (c.pods basis) \ c.owed c.version).card ≤
      (healthy (c.pods start)).card := by
  let uids := (c.approvedSince start).map (·.uid)
  have hmem : ∀ a ∈ c.approvedSince start, a ∈ c.approved ∧ start ≤ a.latest := by
    intro a ha
    obtain ⟨ha, hlatest⟩ := mem_filter.mp ha
    exact ⟨ha, of_decide_eq_true hlatest⟩
  have hnodup : uids.Nodup := by
    apply List.pairwise_map.mpr
    apply (hled.distinct.sublist List.filter_sublist).imp_of_mem
    intro later earlier _ hearlier hdistinct huid
    exact hgiven earlier hearlier (hdistinct huid)
  have hsubset : uids.toFinset ⊆ healthy (c.pods start) := by
    intro uid huid
    obtain ⟨a, ha, rfl⟩ := mem_map.mp (mem_toFinset.mp huid)
    have happroved := hled.approved a (hmem a ha).1
    exact hquiet.subset (hmem a ha).2 happroved.latest_le happroved.healthy
  have hdisjoint : Disjoint uids.toFinset (healthy (c.pods basis) \ c.owed c.version) := by
    apply disjoint_left.mpr
    intro uid huid hcnt
    obtain ⟨a, ha, rfl⟩ := mem_map.mp (mem_toFinset.mp huid)
    apply (mem_sdiff.mp hcnt).2
    exact mem_owed.mpr ⟨a, (hmem a ha).1, (hled.approved a (hmem a ha).1).version_le,
      hgiven a ha, rfl⟩
  calc
    (c.approvedSince start).length + (healthy (c.pods basis) \ c.owed c.version).card =
        (uids.toFinset ∪ (healthy (c.pods basis) \ c.owed c.version)).card := by
      rw [card_union_of_disjoint hdisjoint, List.toFinset_card_of_nodup hnodup, List.length_map]
    _ ≤ (healthy (c.pods start)).card := by
      apply card_le_card
      exact union_subset hsubset (hcur.trans (hquiet.subset hstart le_rfl))

theorem updateStatus_budgets :
    (c.updateStatus st basis).budgets (c.version + 1) =
      { c.stored with resourceVersion := c.version + 1, status := st } :=
  update_self _ _ _

theorem updateStatus_basis : (c.updateStatus st basis).basis (c.version + 1) = basis :=
  update_self _ _ _

theorem later_updateStatus (st : PodDisruptionBudgetStatus) (basis : ℕ) :
    Later c (c.updateStatus st basis) where
  version := Nat.le_succ _
  budgets := fun _ hv ↦ update_of_ne (Nat.ne_of_lt (Nat.lt_succ_of_le hv)) _ _
  basis := fun _ hv ↦ update_of_ne (Nat.ne_of_lt (Nat.lt_succ_of_le hv)) _ _

theorem Ledger.writeStatus (hled : c.Ledger) (hacc : c.Accounts version st basis)
    (hnone : ∀ a ∈ c.approved, a.version ≤ version) : (c.updateStatus st basis).Ledger where
  history := { hled.history with }
  podsSeen_le := hled.podsSeen_le
  budgetSeen_le := hled.budgetSeen_le.trans (Nat.le_succ _)
  resourceVersion := by
    intro v hv
    rcases Nat.le_succ_iff.mp hv with hv | rfl
    · rw [(later_updateStatus st basis).budgets v hv]
      exact hled.resourceVersion v hv
    · rw [updateStatus_budgets]
  accounts := by
    intro v hv
    rcases Nat.le_succ_iff.mp hv with hv | rfl
    · rw [(later_updateStatus st basis).budgets v hv, (later_updateStatus st basis).basis v hv]
      exact (hled.accounts v hv).later (later_updateStatus st basis) hled.podsSeen_le hv
    · rw [updateStatus_budgets, updateStatus_basis]
      have hall : c.Accounts (c.version + 1) st basis := hacc.upTo hnone
      exact { hall with }
  approved := fun a hmem ↦
    (hled.approved a hmem).later (later_updateStatus st basis) hled.podsSeen_le
  distinct := hled.distinct
  bounded := hled.bounded

/-! ## Approvals -/

theorem later_approve (r : ℕ) (pod : Pod) (pdb : PodDisruptionBudget) :
    Later c (c.approve r pod pdb) where
  version := Nat.le_succ _
  budgets := (later_updateStatus pdb.status (c.basis c.version)).budgets
  basis := (later_updateStatus pdb.status (c.basis c.version)).basis
  approved := by
    intro a hmem
    rcases mem_cons.mp hmem with rfl | hold
    · exact .inr (Nat.lt_succ_self c.version)
    · exact .inl hold

theorem approve_budgets :
    (c.approve r pod pdb).budgets (c.version + 1) =
      { c.stored with resourceVersion := c.version + 1, status := pdb.status } :=
  update_self _ _ _

theorem approve_basis : (c.approve r pod pdb).basis (c.version + 1) = c.basis c.version :=
  update_self _ _ _

section

variable (hled : c.Ledger)
  (hupd : checkAndDecrement pod.name c.stored c.clock = .update newPdb)

include hled hupd

/-- The new version accounts for the new eviction too: it lists the pod and allows one disruption
less. -/
theorem Ledger.accounts_approve :
    (c.approve r pod newPdb).Accounts (c.version + 1) newPdb.status (c.basis c.version) := by
  obtain ⟨-, -, hstatus⟩ := checkAndDecrement_eq_update hupd
  have hacc := hled.accounts c.version le_rfl
  refine ⟨hacc.basis_le, ?_, ?_⟩
  · rw [hstatus]
    intro a hmem _
    rcases mem_cons.mp hmem with rfl | hold
    · simp
    · have happroved := hled.approved a hold
      rcases hacc.kept a hold happroved.version_le with ⟨time, hlookup, htime⟩ | hrest
      · left
        by_cases hname : a.name = pod.name
        · exact ⟨c.clock.stored, by rw [Map.lookup_insert, if_pos hname], happroved.time_le⟩
        · exact ⟨time, by rw [Map.lookup_insert, if_neg hname]; exact hlookup, htime⟩
      · exact .inr hrest
  · have hsubset : (c.approve r pod newPdb).owed (c.version + 1) ⊆
        insert pod.uid (c.owed c.version) := by
      intro uid huid
      obtain ⟨a, hmem, -, hgiven, rfl⟩ := mem_owed.mp huid
      rcases mem_cons.mp hmem with rfl | hold
      · exact mem_insert_self _ _
      · exact mem_insert_of_mem
          (mem_owed.mpr ⟨a, hold, (hled.approved a hold).version_le, hgiven, rfl⟩)
    have hcard : (healthy (c.pods (c.basis c.version)) \ c.owed c.version).card - 1 ≤
        (healthy (c.pods (c.basis c.version)) \ insert pod.uid (c.owed c.version)).card := by
      rw [sdiff_insert]
      exact pred_card_le_card_erase
    have hallowed : c.stored.status.podDisruptionsAllowed ≤
        max 0 ((healthy (c.pods (c.basis c.version)) \ c.owed c.version).card -
          c.stored.status.desiredHealthy) := hacc.allowed
    apply allowed_mono hsubset
    rw [hstatus]
    change c.stored.status.podDisruptionsAllowed - 1 ≤
      max 0 ((healthy (c.pods (c.basis c.version)) \ insert pod.uid (c.owed c.version)).card -
        c.stored.status.desiredHealthy)
    omega

/-- An eviction in a quiet period uses up a disruption that the stored status allowed. -/
theorem Ledger.bounded_approve
    (hcur : healthy (c.pods (c.basis c.version)) \ c.owed c.version ⊆
      healthy (c.pods c.latest)) : (c.approve r pod newPdb).Bounded := by
  obtain ⟨hpositive, -, hstatus⟩ := checkAndDecrement_eq_update hupd
  intro start desiredHealthy hquiet hsince
  by_cases hstart : start ≤ c.latest
  · have hcons : (c.approve r pod newPdb).approvedSince start =
        ⟨pod.name, pod.uid, c.clock.stored, c.version + 1, c.latest,
          newPdb.status.desiredHealthy⟩ :: c.approvedSince start :=
      List.filter_cons_of_pos (decide_eq_true hstart)
    rw [hcons] at hsince ⊢
    have hdesired : c.stored.status.desiredHealthy = desiredHealthy := by
      rw [← (hsince _ List.mem_cons_self).1, hstatus]
    have hcard := hled.length_add_card_le hquiet
      (fun a hmem ↦ (hsince a (List.mem_cons_of_mem _ hmem)).2) hstart hcur
    have hallowed : c.stored.status.podDisruptionsAllowed ≤
        max 0 ((healthy (c.pods (c.basis c.version)) \ c.owed c.version).card -
          c.stored.status.desiredHealthy) := (hled.accounts c.version le_rfl).allowed
    change ((c.approvedSince start).length + 1 : ℕ) ≤
      max 0 (((healthy (c.pods start)).card : ℤ) - desiredHealthy)
    omega
  · have hsame : (c.approve r pod newPdb).approvedSince start = c.approvedSince start :=
      List.filter_cons_of_neg (by simpa using hstart)
    rw [hsame] at hsince ⊢
    exact hled.bounded start desiredHealthy hquiet hsince

theorem Ledger.approve (hpod : ∃ k ≤ c.latest, pod ∈ c.pods k) (hseen : c.Known c.podsSeen pod.uid)
    (hhealthy : pod.uid ∈ healthy (c.pods c.latest))
    (hcur : healthy (c.pods (c.basis c.version)) \ c.owed c.version ⊆
      healthy (c.pods c.latest))
    (hfirst : ∀ a ∈ c.approved, a.uid = pod.uid → c.GivenUp a) :
    (c.approve r pod newPdb).Ledger where
  history := { hled.history with }
  podsSeen_le := hled.podsSeen_le
  budgetSeen_le := hled.budgetSeen_le.trans (Nat.le_succ _)
  resourceVersion := by
    intro v hv
    rcases Nat.le_succ_iff.mp hv with hv | rfl
    · rw [(later_approve r pod newPdb).budgets v hv]
      exact hled.resourceVersion v hv
    · rw [approve_budgets]
  accounts := by
    intro v hv
    rcases Nat.le_succ_iff.mp hv with hv | rfl
    · rw [(later_approve r pod newPdb).budgets v hv, (later_approve r pod newPdb).basis v hv]
      exact (hled.accounts v hv).later (later_approve r pod newPdb) hled.podsSeen_le hv
    · rw [approve_budgets, approve_basis]
      exact hled.accounts_approve hupd
  approved := by
    intro a hmem
    rcases mem_cons.mp hmem with rfl | hold
    · obtain ⟨j, hj, known, hknown, huid⟩ := hseen
      obtain ⟨k, hk, hpod⟩ := hpod
      have hname : known.name = pod.name :=
        hled.history.name j (hj.trans hled.podsSeen_le) k hk known hknown pod hpod huid
      exact ⟨le_rfl, le_rfl, le_rfl, ⟨j, hj, known, hknown, huid, hname⟩, hhealthy⟩
    · exact (hled.approved a hold).later (later_approve r pod newPdb) hled.podsSeen_le
  distinct := by
    apply List.pairwise_cons.mpr
    exact ⟨fun a hmem huid ↦ hfirst a hmem huid.symm, hled.distinct⟩
  bounded := hled.bounded_approve hupd hcur

end

/-! ## Runs -/

theorem later_of_eq {requests : ℕ → Request} {clock podsSeen budgetSeen : ℕ}
    (hclock : c.clock ≤ clock) (hseen : c.podsSeen ≤ podsSeen) :
    Later c { c with sync, requests, clock, podsSeen, budgetSeen } where
  clock := hclock
  podsSeen := hseen

section

variable (hinv : c.Inv)

include hinv

theorem Inv.later (hlater : Later c d) (happroved : d.approved = c.approved)
    (hver : d.version = c.version) (hhist : d.History) (hseen : d.podsSeen ≤ d.latest)
    (hbudget : d.budgetSeen ≤ d.version)
    (hoverdue : ∀ entry ∈ d.gaveUp, entry.2 + deletionTimeout ≤ d.clock) (hsync : d.sync = c.sync)
    (hrequests : d.requests = c.requests) : d.Inv where
  ledger := hinv.ledger.later hlater happroved hver hhist hseen hbudget
  overdue := hoverdue
  sync := hsync ▸ hinv.sync.later hinv.ledger hlater
  requests := fun r ↦ hrequests ▸ (hinv.requests r).later hlater

theorem Inv.setSync (hsync : c.SyncAccounts sync) :
    Inv { c with sync := sync } :=
  have hlater : Later c { c with sync := sync } := later_of_eq le_rfl le_rfl
  have hhist := hinv.ledger.history
  ⟨hinv.ledger.later hlater rfl rfl { hhist with }
      hinv.ledger.podsSeen_le hinv.ledger.budgetSeen_le,
    hinv.overdue, hsync.later hinv.ledger hlater, fun r ↦ (hinv.requests r).later hlater⟩

theorem Inv.setRequest (hreq : c.RequestKnown request) :
    (c.setRequest r request).Inv := by
  have hlater : Later c (c.setRequest r request) := later_of_eq le_rfl le_rfl
  have hhist := hinv.ledger.history
  refine ⟨hinv.ledger.later hlater rfl rfl { hhist with }
    hinv.ledger.podsSeen_le hinv.ledger.budgetSeen_le, hinv.overdue,
    hinv.sync.later hinv.ledger hlater, ?_⟩
  intro other
  by_cases hother : other = r
  · subst hother
    change RequestKnown _ (Function.update c.requests other request other)
    rw [update_self]
    exact hreq.later hlater
  · change RequestKnown _ (Function.update c.requests r request other)
    rw [update_of_ne hother]
    exact (hinv.requests other).later hlater

theorem Inv.changePods (hevolves : c.Evolves pods) : (c.changePods pods).Inv :=
  hinv.later { latest := Nat.le_succ _, pods := fun _ ↦ changePods_pods_of_le } rfl rfl
    (hinv.ledger.history.changePods hevolves) (hinv.ledger.podsSeen_le.trans (Nat.le_succ _))
    hinv.ledger.budgetSeen_le hinv.overdue rfl rfl

theorem Inv.giveUp (pdb : PodDisruptionBudget) (listed : List Pod) :
    (c.giveUp (Cluster.overdue pdb listed c.clock)).Inv := by
  have hhist := hinv.ledger.history
  apply hinv.later (later_giveUp _) rfl rfl { hhist with }
    hinv.ledger.podsSeen_le hinv.ledger.budgetSeen_le _ rfl rfl
  intro entry hentry
  rcases mem_append.mp hentry with hold | hnew
  · exact hinv.overdue entry hold
  · exact overdue_of_mem hnew

end

/-- Without allowed disruptions, the old status accounts for what it accounted for. -/
theorem Ledger.failSafe (hled : c.Ledger) (hv : v ≤ c.version) :
    c.SyncAccounts (c.failSafe (c.budgets v)) := by
  have hver := hled.resourceVersion v hv
  have hacc := hled.accounts v hv
  refine ⟨⟨v, hv, rfl⟩, ?_⟩
  rw [hver]
  exact ⟨hacc.basis_le, hacc.kept, le_max_left 0 _⟩

theorem Inv.syncPods (hinv : c.Inv) (finders : List Finder) {isNil : Bool}
    (hsync : c.sync = .started pdb) (hlist : listed.Perm (c.pods c.podsSeen)) :
    (c.syncPods finders pdb isNil listed).Inv := by
  have hstarted := hinv.sync
  rw [hsync] at hstarted
  obtain ⟨v, hv, rfl⟩ := hstarted
  unfold Cluster.syncPods
  cases htry : trySync finders (c.budgets v) isNil listed c.clock with
  | error err => exact hinv.setSync (hinv.ledger.failSafe hv)
  | ok result =>
    have hgave := hinv.giveUp (c.budgets v) listed
    cases result with
    | none => exact hgave.setSync trivial
    | some st =>
      refine hgave.setSync ⟨⟨v, hv, rfl⟩, ?_⟩
      rw [hinv.ledger.resourceVersion v hv]
      exact hinv.ledger.accounts_trySync hv hlist htry

theorem Inv.refresh (hinv : c.Inv) {write : Write} (hsync : c.sync = .refreshing write)
    (resourceVersion : ℕ) : Inv { c with sync := c.retry write resourceVersion } := by
  have hwrite := hinv.sync
  rw [hsync] at hwrite
  apply hinv.setSync
  rw [retry]
  split_ifs
  · exact hwrite
  · trivial
  · obtain ⟨v, hv, horigin⟩ := hwrite.1
    rw [horigin]
    exact hinv.ledger.failSafe hv

end Cluster

/-- A write of the controller is stored only if no eviction was approved since the version that the
sync took.  An evicted pod was seen by the cache of the controller, is healthy, and was not evicted
before, unless it was given up.  The other pods that the stored status counts are still healthy. -/
def Orderly (c : Cluster) : Op → Prop
  | .writeStatus => ∀ write, c.sync = .writing write →
    ∀ a ∈ c.approved, a.version ≤ write.origin.resourceVersion
  | .approve r => ∀ pod attempt pdb, c.requests r = .deciding pod attempt pdb →
    c.Known c.podsSeen pod.uid ∧ pod.uid ∈ healthy (c.pods c.latest) ∧
      healthy (c.pods (c.basis c.version)) \ c.owed c.version ⊆ healthy (c.pods c.latest) ∧
      ∀ a ∈ c.approved, a.uid = pod.uid → c.GivenUp a
  | _ => True

namespace Cluster

theorem Inv.step {op : Op} (hinv : c.Inv) (hord : Orderly c op) (hstep : Step c op d) :
    d.Inv := by
  have hled := hinv.ledger
  have hhist := hled.history
  cases hstep with
  | tick clock hclock =>
    exact hinv.later (later_of_eq hclock le_rfl) rfl rfl
      { hhist with } hled.podsSeen_le hled.budgetSeen_le
      (fun entry hentry ↦ (hinv.overdue entry hentry).trans hclock) rfl rfl
  | changePods pods hchange => exact hinv.changePods (evolves_of_change hhist hchange)
  | observePods seen hle hseen =>
    exact hinv.later (later_of_eq le_rfl hle) rfl rfl
      { hhist with } hseen hled.budgetSeen_le hinv.overdue rfl
      rfl
  | observeBudget seen hle hseen =>
    exact hinv.later (later_of_eq le_rfl le_rfl) rfl rfl
      { hhist with } hled.podsSeen_le hseen hinv.overdue rfl rfl
  | startSync hsync => exact hinv.setSync ⟨c.budgetSeen, hled.budgetSeen_le, rfl⟩
  | syncPods pdb isNil finders listed hsync hnil hlist => exact hinv.syncPods finders hsync hlist
  | listError pdb hsync =>
    have hstarted := hinv.sync
    rw [hsync] at hstarted
    obtain ⟨v, hv, rfl⟩ := hstarted
    exact hinv.setSync (hled.failSafe hv)
  | writeStatus write hsync hver =>
    have hwrite := hinv.sync
    rw [hsync] at hwrite
    have hlater := later_updateStatus (c := c) write.st write.basis
    have hwritten : (c.updateStatus write.st write.basis).Inv :=
      ⟨hled.writeStatus hwrite.2 (hord write hsync), hinv.overdue,
        hinv.sync.later hled hlater, fun r ↦ (hinv.requests r).later hlater⟩
    exact hwritten.setSync trivial
  | writeError write hsync =>
    have hwrite := hinv.sync
    rw [hsync] at hwrite
    exact hinv.setSync hwrite
  | refresh write resourceVersion hsync hget => exact hinv.refresh hsync resourceVersion
  | getPod r pod hreq hpod => exact hinv.setRequest ⟨c.latest, le_rfl, hpod⟩
  | listBudgets r pod attempt hreq =>
    have hpod := hinv.requests r
    rw [hreq] at hpod
    exact hinv.setRequest ⟨hpod, c.version, le_rfl, rfl⟩
  | refuse | evictionError => exact hinv.setRequest trivial
  | approve r pod attempt pdb newPdb hreq hupd hver =>
    have hdeciding := hinv.requests r
    rw [hreq] at hdeciding
    obtain ⟨hpod, v, hv, rfl⟩ := hdeciding
    -- the version is the current one, so the request decided on the stored budget
    have hcur : v = c.version := by
      rw [← hver, (checkAndDecrement_eq_update hupd).2.1, hled.resourceVersion v hv]
    subst hcur
    obtain ⟨hseen, hhealthy, hcur, hfirst⟩ := hord pod attempt _ hreq
    have hlater := later_approve (c := c) r pod newPdb
    refine ⟨hled.approve hupd hpod hseen hhealthy hcur hfirst, hinv.overdue,
      hinv.sync.later hled hlater, ?_⟩
    intro other
    have hset : (c.setRequest r (.deleting pod)).Inv := hinv.setRequest trivial
    exact (hset.requests other).later { hlater with }
  | conflict r pod attempt pdb newPdb hreq hupd hver =>
    apply hinv.setRequest
    have hpod := hinv.requests r
    rw [hreq] at hpod
    rw [retryOnConflict]
    split_ifs
    · exact hpod.1
    · trivial
  | delete r pod found pods hreq hfound hname hpods =>
    have hevolves : c.Evolves pods := by
      rcases hpods with rfl | rfl
      · exact evolves_of_change hhist (.markDeleted _ _)
      · exact evolves_of_change hhist (.remove _ _)
    exact (hinv.changePods hevolves).setRequest trivial

theorem inv_of_init (hinit : Init c) : c.Inv := by
  obtain ⟨clock, pods, minAvailable, rfl, -, huids⟩ := hinit
  constructor
  · constructor
    · refine ⟨fun _ _ ↦ huids, ?_, fun _ _ _ _ _ _ halive ↦ halive⟩
      intro _ _ _ _ pod hpod other hother huid
      exact congrArg Pod.name (List.inj_on_of_nodup_map huids hpod hother huid)
    · exact le_rfl
    · exact le_rfl
    · intro v hv
      exact (Nat.le_zero.mp hv).symm
    · intro v _
      exact ⟨le_rfl, fun a hmem ↦ absurd hmem not_mem_nil, le_max_left 0 _⟩
    · exact fun a hmem ↦ absurd hmem not_mem_nil
    · exact List.Pairwise.nil
    · exact fun start desiredHealthy _ _ ↦ le_max_left 0 _
  · exact fun entry hentry ↦ absurd hentry not_mem_nil
  · trivial
  · exact fun _ ↦ trivial

theorem Inv.noEvictionForgotten (hinv : c.Inv) : NoEvictionForgotten c where
  listed := by
    intro a hmem
    have hacc := hinv.ledger.accounts c.version le_rfl
    rcases hacc.kept a hmem (hinv.ledger.approved a hmem).version_le with
      ⟨time, hlookup, -⟩ | hgone | hgiven
    · exact .inl (Finmap.mem_iff.mpr ⟨time, hlookup⟩)
    · exact .inr (.inl ⟨_, hacc.basis_le, hgone⟩)
    · exact .inr (.inr hgiven.2)
  consumed := by
    have hallowed := (hinv.ledger.accounts c.version le_rfl).allowed
    apply allowed_mono _ hallowed
    intro uid huid
    obtain ⟨a, ha, rfl⟩ := mem_map.mp (mem_toFinset.mp huid)
    obtain ⟨hmem, htime⟩ := mem_filter.mp ha
    refine mem_owed.mpr ⟨a, hmem, (hinv.ledger.approved a hmem).version_le, ?_, rfl⟩
    intro hgiven
    obtain ⟨entry, hentry, -, hle⟩ := hgiven
    have hoverdue := hinv.overdue entry hentry
    have hlt : c.clock < a.time + deletionTimeout := of_decide_eq_true htime
    exact absurd (hlt.trans_le ((Nat.add_le_add_right hle _).trans hoverdue)) (lt_irrefl _)
  bounded := hinv.ledger.bounded

end Cluster

/-- In every run whose steps all meet the condition, no approved eviction is forgotten. -/
theorem no_eviction_forgotten (c : Cluster)
    (hreach : Reachable Init (guarded Orderly Step) c) :
    NoEvictionForgotten c := by
  apply Cluster.Inv.noEvictionForgotten
  apply hreach.invariant
  · exact fun _ hinit ↦ Cluster.inv_of_init hinit
  · exact fun _ _ _ _ hinv hstep ↦ hinv.step hstep.1 hstep.2

/-! ## Three pods of which two are needed -/

def samplePod (name : String) : Pod := ⟨name, "uid-" ++ name, true, false⟩

def samplePods : List Pod := [samplePod "a", samplePod "b", samplePod "c"]

def sampleStart : Cluster := .new 0 samplePods (.int 2)

def sampleWrite : Write := ⟨sampleStart.stored, ⟨1, ∅, 1, 3, 2, 3⟩, 0, false, 0, 0⟩

def sampleSync (c : Cluster) : Cluster :=
  { c with sync := .started (c.budgets c.budgetSeen) }.syncPods [] sampleStart.stored false
    samplePods

/-- The status of the first sync is stored.  It allows one disruption. -/
def sampleWritten : Cluster :=
  { (sampleSync sampleStart).updateStatus sampleWrite.st sampleWrite.basis with sync := .idle }

def sampleDeciding (c : Cluster) (r : ℕ) (pod : Pod) : Cluster :=
  (c.setRequest r (.checking pod 0)).setRequest r (.deciding pod 0 c.stored)

def sampleApproved : Cluster :=
  (sampleDeciding sampleWritten 0 (samplePod "a")).approve 0 (samplePod "a")
    ⟨1, 1, .int 2, ⟨1, Finmap.insert "a" 0 ∅, 0, 3, 2, 3⟩⟩

theorem reachable_sampleApproved :
    Reachable Init (guarded Orderly Step) sampleApproved := by
  have hstart : Reachable Init (guarded Orderly Step) sampleStart :=
    .start ⟨0, samplePods, .int 2, rfl, by decide +kernel, by decide +kernel⟩
  have hsynced : Reachable Init (guarded Orderly Step)
      (sampleSync sampleStart) :=
    (hstart.guardedNext (.startSync rfl) trivial).guardedNext
      (.syncPods _ false [] samplePods rfl nofun (.refl _)) trivial
  have hwritten : Reachable Init (guarded Orderly Step) sampleWritten := by
    refine hsynced.guardedNext
      (.writeStatus sampleWrite (by decide +kernel) (by decide +kernel)) ?_
    intro _ _ a hmem
    exact absurd hmem not_mem_nil
  have hdeciding : Reachable Init (guarded Orderly Step)
      (sampleDeciding sampleWritten 0 (samplePod "a")) :=
    (hwritten.guardedNext (.getPod 0 (samplePod "a") (by decide +kernel) (by decide +kernel))
      trivial).guardedNext (.listBudgets 0 (samplePod "a") 0 (by decide +kernel)) trivial
  refine hdeciding.guardedNext (.approve 0 (samplePod "a") 0 sampleWritten.stored _
    (by decide +kernel) (by decide +kernel) (by decide +kernel)) ?_
  intro pod attempt pdb hreq
  have hpod : (sampleDeciding sampleWritten 0 (samplePod "a")).requests 0 =
      .deciding (samplePod "a") 0 sampleWritten.stored := by decide +kernel
  obtain ⟨rfl, -, -⟩ := Request.deciding.inj (hpod.symm.trans hreq)
  have hnone : (sampleDeciding sampleWritten 0 (samplePod "a")).approved = [] := by decide +kernel
  refine ⟨⟨0, by decide +kernel, samplePod "a", by decide +kernel, rfl⟩, by decide +kernel,
    by decide +kernel, ?_⟩
  intro a hmem
  exact absurd hmem not_mem_nil

theorem first_eviction_not_forgotten :
    sampleApproved.approved.length = 1 ∧ sampleApproved.stored.status.podDisruptionsAllowed = 0 ∧
      NoEvictionForgotten sampleApproved :=
  ⟨by decide +kernel, by decide +kernel, no_eviction_forgotten _ reachable_sampleApproved⟩

/-- The next sync has the first version of the budget.  Its write fails, and the retry overwrites
the status that lists the evicted pod. -/
def sampleOverwritten : Cluster :=
  { { sampleSync sampleApproved with
      sync := .writing { sampleWrite with attempt := 1, resourceVersion := 2 } }.updateStatus
        sampleWrite.st sampleWrite.basis with
    sync := .idle }

/-- The eviction of the second pod is approved too, and only one healthy pod would be left. -/
def sampleForgotten : Cluster :=
  (sampleDeciding sampleOverwritten 1 (samplePod "b")).approve 1 (samplePod "b")
    ⟨3, 1, .int 2, ⟨1, Finmap.insert "b" 0 ∅, 0, 3, 2, 3⟩⟩

theorem retried_write_forgets_eviction :
    ∃ c, Reachable Init Step c ∧ ¬ NoEvictionForgotten c := by
  have hsynced : Reachable Init Step (sampleSync sampleApproved) :=
    (reachable_sampleApproved.of_guarded.next (.startSync (by decide +kernel))).next
      (.syncPods _ false [] samplePods rfl nofun (.refl _))
  have hrefreshed := (hsynced.next (.writeError sampleWrite (by decide +kernel))).next
    (.refresh sampleWrite 2 rfl (by decide +kernel))
  have hoverwritten : Reachable Init Step sampleOverwritten :=
    hrefreshed.next (.writeStatus { sampleWrite with attempt := 1, resourceVersion := 2 }
      (by decide +kernel) (by decide +kernel))
  have hforgotten : Reachable Init Step sampleForgotten :=
    ((hoverwritten.next
      (.getPod 1 (samplePod "b") (by decide +kernel) (by decide +kernel))).next
      (.listBudgets 1 (samplePod "b") 0 (by decide +kernel))).next
      (.approve 1 (samplePod "b") 0 sampleOverwritten.stored _ (by decide +kernel)
        (by decide +kernel) (by decide +kernel))
  refine ⟨sampleForgotten, hforgotten, ?_⟩
  intro h
  have hquiet : sampleForgotten.Quiet 0 := by
    have hlatest : sampleForgotten.latest = 0 := by decide +kernel
    intro k _ hk
    exact absurd hk (Nat.not_lt_zero k)
  have hbounded := h.bounded 0 2 hquiet (by decide +kernel)
  exact absurd hbounded (by decide +kernel)

end Kubernetes.Disruption

import Kubernetes.Kubelet.StatusManager

/-!
# Versions written to the API server

Requests of one pod stand in the channel in the order of their versions, but a batch writes the
newest version and overtakes them.  The older requests are then skipped, because the version written
is remembered.  This memory is lost in two ways.  The version of a static pod is remembered under
the UID of its mirror pod and looked up under its own.  And a batch that finds another status at the
API server forgets the version before it writes again, and this write may fail.

So the versions written for a pod do not decrease if no older request waits when a batch starts and
the pod is static or the batch forgets its version.
-/

namespace Kubernetes.Kubelet.Status

open Finmap List Transition
open Manager (batchPod needsUpdate cleanVersions)

variable {UID Status Container : Type} [DecidableEq UID]

/-- A request of the pod waits in the channel that is older than its cached status. -/
def OlderWaits (manager : Manager UID Status) (uid : UID) : Prop :=
  ∃ request ∈ manager.podStatusChannel, request.podUID = uid ∧
    ∃ cached, manager.podStatuses.lookup uid = some cached ∧ request.status.version < cached.version

variable {manager : Manager UID Status}

theorem not_olderWaits {uid : UID}
    (hnewest : ∀ request ∈ manager.podStatusChannel, request.podUID = uid →
      ∀ cached ∈ manager.podStatuses.lookup uid, cached.version ≤ request.status.version) :
    ¬OlderWaits manager uid := by
  rintro ⟨request, hmem, huid, cached, hcached, holder⟩
  exact absurd (hnewest request hmem huid cached hcached) (not_le.mpr holder)

/-- A batch finds the newest status of the pod written and another one at the API server. -/
def Reconciles (manager : Manager UID Status) (needsReconcile : UID → Bool) (uid : UID) : Prop :=
  needsReconcile uid = true ∧ ∃ cached, manager.podStatuses.lookup uid = some cached ∧
    needsUpdate manager.apiStatusVersions uid cached = false

/-- No batch starts while an older request of the pod waits, if the pod is static or reconciled. -/
def InOrder (kind : UID → PodKind) (uid : UID) (system : System UID Status) : Label UID → Prop
  | .batch needsReconcile =>
    kind uid = .static ∨ Reconciles system.manager needsReconcile uid →
      ¬OlderWaits system.manager uid
  | _ => True

def System.versions (system : System UID Status) (uid : UID) : List ℕ :=
  (system.written.filter fun entry ↦ entry.1 = uid).map Prod.snd

def System.waiting (system : System UID Status) : List (PodStatusSyncRequest UID Status) :=
  system.manager.podStatusChannel ++ system.updatedStatuses

/-- What holds until the cache entry is deleted.  The cache has the newest version.  Only the memory
of the version written can skip an older request, so none waits of a static pod. -/
structure Sound (kind : UID → PodKind) (uid : UID) (system : System UID Status) : Prop where
  cached : ∀ request ∈ system.waiting, request.podUID = uid →
    ∃ cached, system.manager.podStatuses.lookup uid = some cached ∧
      request.status.version ≤ cached.version
  fifo : system.manager.podStatusChannel.Pairwise fun first second ↦
    first.podUID = uid → second.podUID = uid → first.status.version ≤ second.status.version
  batch : ∀ first ∈ system.updatedStatuses, first.podUID = uid →
    ∀ second ∈ system.updatedStatuses, second.podUID = uid →
      first.status.version = second.status.version
  ahead : kind uid = .static → ∀ request ∈ system.updatedStatuses, request.podUID = uid →
    ∀ queued ∈ system.manager.podStatusChannel, queued.podUID = uid →
      request.status.version ≤ queued.status.version
  written : ∀ version, (uid, version) ∈ system.written →
    ∃ cached, system.manager.podStatuses.lookup uid = some cached ∧ version ≤ cached.version
  skipped : ∀ request ∈ system.waiting, request.podUID = uid →
    ∀ version, (uid, version) ∈ system.written → version ≤ request.status.version ∨
      kind uid ≠ .static ∧ ∃ latest, system.manager.apiStatusVersions.lookup uid = some latest ∧
        request.status.version ≤ latest
  ordered : system.written.Pairwise fun first second ↦
    first.1 = uid → second.1 = uid → first.2 ≤ second.2

variable {kind : UID → PodKind} {uid : UID}

theorem Sound.initial : Sound kind uid (System.initial : System UID Status) where
  cached _ hmem := absurd hmem not_mem_nil
  fifo := List.Pairwise.nil
  batch _ hmem := absurd hmem not_mem_nil
  ahead _ _ hmem := absurd hmem not_mem_nil
  written _ hmem := absurd hmem not_mem_nil
  skipped _ hmem := absurd hmem not_mem_nil
  ordered := List.Pairwise.nil

variable {system : System UID Status}

theorem lookup_advance (hkept : uid ∉ (system.advance manager).deleted) :
    uid ∉ system.deleted ∧
      ∀ cached, system.manager.podStatuses.lookup uid = some cached →
        ∃ cached', manager.podStatuses.lookup uid = some cached' := by
  simp only [System.advance, Finset.mem_union, Finset.mem_sdiff, Finmap.mem_keys, not_or, not_and,
    not_not] at hkept
  refine ⟨hkept.1, ?_⟩
  intro cached hcached
  exact mem_iff.mp (hkept.2 (mem_iff.mpr ⟨cached, hcached⟩))

/-! ## Changes of the cache -/

/-- As seen from one pod, the cached version grows, and requests are queued only for a version as
new. -/
structure Grows (uid : UID) (manager manager' : Manager UID Status) : Prop where
  api : manager'.apiStatusVersions = manager.apiStatusVersions
  cache : ∀ cached, manager.podStatuses.lookup uid = some cached →
    ∃ cached', manager'.podStatuses.lookup uid = some cached' ∧ cached.version ≤ cached'.version
  channel : manager'.podStatusChannel = manager.podStatusChannel ∨
    ∃ request, manager'.podStatusChannel = manager.podStatusChannel ++ [request] ∧
      (request.podUID = uid → manager'.podStatuses.lookup uid = some request.status ∧
        ∀ cached, manager.podStatuses.lookup uid = some cached →
          cached.version ≤ request.status.version)

theorem Grows.refl (uid : UID) (manager : Manager UID Status) : Grows uid manager manager where
  api := rfl
  cache cached hcached := ⟨cached, hcached, le_rfl⟩
  channel := .inl rfl

theorem Grows.enqueue (manager : Manager UID Status) (changed : UID)
    (newStatus : VersionedPodStatus Status)
    (hnew : ∀ cached, manager.podStatuses.lookup changed = some cached →
      cached.version ≤ newStatus.version) :
    Grows uid manager (manager.enqueue changed newStatus).1 := by
  have hcache : ∀ cached, manager.podStatuses.lookup uid = some cached →
      ∃ cached', (manager.podStatuses.insert changed newStatus).lookup uid = some cached' ∧
        cached.version ≤ cached'.version := by
    intro cached hcached
    by_cases hsame : uid = changed
    · subst hsame
      exact ⟨newStatus, lookup_insert _, hnew cached hcached⟩
    · rw [lookup_insert_of_ne _ hsame]
      exact ⟨cached, hcached, le_rfl⟩
  unfold Manager.enqueue
  split_ifs
  · refine ⟨rfl, hcache, .inr ⟨_, rfl, ?_⟩⟩
    intro hsame
    have huid : changed = uid := hsame
    subst huid
    exact ⟨lookup_insert _, hnew⟩
  · exact ⟨rfl, hcache, .inl rfl⟩

variable (contents : StatusContents UID Status Container)

section

variable (manager : Manager UID Status) (now : ℤ) (mirrorStatus : Option Status)

theorem Grows.updateStatusInternal (pod : Pod UID Status) (status : Status) (forceUpdate : Bool) :
    Grows uid manager
      (manager.updateStatusInternal contents now mirrorStatus pod status forceUpdate).1 := by
  unfold Manager.updateStatusInternal
  cases hcached : manager.podStatuses.lookup pod.uid with
  | some cachedStatus =>
    simp only
    split_ifs
    · exact Grows.refl uid manager
    · apply Grows.enqueue
      intro cached hget
      rw [Option.some.inj (hcached.symm.trans hget)]
      exact Nat.le_succ _
  | none =>
    apply Grows.enqueue
    intro cached hget
    cases hcached.symm.trans hget

theorem Grows.setContainerReadiness (found : Option (Pod UID Status)) (container : Container)
    (ready : Bool) :
    Grows uid manager
      (manager.setContainerReadiness contents now mirrorStatus found container ready) := by
  unfold Manager.setContainerReadiness
  split
  · exact Grows.refl uid manager
  · split
    · exact Grows.refl uid manager
    · split
      · exact Grows.refl uid manager
      · exact Grows.updateStatusInternal contents manager now mirrorStatus _ _ false

end

theorem Grows.removeOrphanedStatuses {podUIDs : Finset UID}
    (hkept : ∀ cached, manager.podStatuses.lookup uid = some cached →
      ∃ cached', (manager.removeOrphanedStatuses podUIDs).podStatuses.lookup uid =
        some cached') : Grows uid manager (manager.removeOrphanedStatuses podUIDs) := by
  refine ⟨rfl, ?_, .inl rfl⟩
  intro cached hcached
  obtain ⟨cached', hcached'⟩ := hkept cached hcached
  have hget := hcached'
  simp only [Manager.removeOrphanedStatuses, Map.lookup_comprehend] at hget
  split_ifs at hget
  refine ⟨cached', hcached', ?_⟩
  rw [Option.some.inj (hcached.symm.trans hget)]

theorem Sound.grows (hsound : Sound kind uid system) (hgrows : Grows uid system.manager manager) :
    Sound kind uid (system.advance manager) := by
  -- what is known of every waiting request, old or new
  have hwait : ∀ request ∈ (system.advance manager).waiting, request.podUID = uid →
      request ∈ system.waiting ∨
        manager.podStatuses.lookup uid = some request.status ∧
          ∀ cached, system.manager.podStatuses.lookup uid = some cached →
            cached.version ≤ request.status.version := by
    intro request hmem huid
    rcases mem_append.mp hmem with hchan | hbatch
    · rcases hgrows.channel with hsame | ⟨new, happend, hnew⟩
      · exact .inl (mem_append_left _ (hsame ▸ hchan))
      · change request ∈ manager.podStatusChannel at hchan
        rw [happend, mem_append, List.mem_singleton] at hchan
        rcases hchan with hold | hlast
        · exact .inl (mem_append_left _ hold)
        · rw [hlast] at huid ⊢
          exact .inr (hnew huid)
    · exact .inl (mem_append_right _ hbatch)
  constructor
  · intro request hmem huid
    rcases hwait request hmem huid with hold | ⟨hget, _⟩
    · obtain ⟨cached, hcached, hle⟩ := hsound.cached request hold huid
      obtain ⟨cached', hcached', hle'⟩ := hgrows.cache cached hcached
      exact ⟨cached', hcached', hle.trans hle'⟩
    · exact ⟨request.status, hget, le_rfl⟩
  · change manager.podStatusChannel.Pairwise _
    rcases hgrows.channel with hsame | ⟨new, happend, hnew⟩
    · rw [hsame]
      exact hsound.fifo
    · rw [happend]
      apply pairwise_append.mpr
      refine ⟨hsound.fifo, pairwise_singleton _ _, ?_⟩
      intro first hfirst second hsecond huid huid'
      rw [List.mem_singleton.mp hsecond] at huid' ⊢
      obtain ⟨cached, hcached, hle⟩ :=
        hsound.cached first (mem_append_left _ hfirst) huid
      exact hle.trans ((hnew huid').2 cached hcached)
  · exact hsound.batch
  · intro hstatic request hmem huid queued hqueued huid'
    rcases hwait queued (mem_append_left _ hqueued) huid' with hold | ⟨_, hnewest⟩
    · rcases mem_append.mp hold with hchan | hbatch
      · exact hsound.ahead hstatic request hmem huid queued hchan huid'
      · exact (hsound.batch request hmem huid queued hbatch huid').le
    · obtain ⟨cached, hcached, hle⟩ :=
        hsound.cached request (mem_append_right _ hmem) huid
      exact hle.trans (hnewest cached hcached)
  · intro version hwritten
    obtain ⟨cached, hcached, hle⟩ := hsound.written version hwritten
    obtain ⟨cached', hcached', hle'⟩ := hgrows.cache cached hcached
    exact ⟨cached', hcached', hle.trans hle'⟩
  · intro request hmem huid version hwritten
    rcases hwait request hmem huid with hold | ⟨_, hnewest⟩
    · change _ ∨ _ ∧ ∃ latest, manager.apiStatusVersions.lookup uid = some latest ∧ _
      rw [hgrows.api]
      exact hsound.skipped request hold huid version hwritten
    · obtain ⟨cached, hcached, hle⟩ := hsound.written version hwritten
      exact .inl (hle.trans (hnewest cached hcached))
  · exact hsound.ordered

/-! ## Syncing a request -/

/-- `syncPod` may delete the cache entry of the pod, and write a version that was needed and
remember it under a UID that translates to the pod. -/
theorem syncPod_cases (translations : Translations kind) (answer : Answer UID)
    (manager : Manager UID Status) (changed : UID) (status : VersionedPodStatus Status) :
    let synced := manager.syncPod translations answer changed status
    synced.1.podStatusChannel = manager.podStatusChannel ∧
      (synced.1.podStatuses = manager.podStatuses ∨
        synced.1.podStatuses = manager.podStatuses.erase changed) ∧
      (synced.2 = none ∧ synced.1.apiStatusVersions = manager.apiStatusVersions ∨
        ∃ podUID, synced.2 = some status.version ∧
          needsUpdate manager.apiStatusVersions changed status = true ∧
          translations.translatePodUID podUID = changed ∧
          synced.1.apiStatusVersions =
            manager.apiStatusVersions.insert podUID status.version) := by
  dsimp only
  unfold Manager.syncPod
  by_cases hneeds : needsUpdate manager.apiStatusVersions changed status = false
  · rw [if_pos hneeds]
    exact ⟨rfl, .inl rfl, .inl ⟨rfl, rfl⟩⟩
  · rw [if_neg hneeds]
    have hneeded : needsUpdate manager.apiStatusVersions changed status = true :=
      eq_true_of_ne_false hneeds
    cases answer with
    | notFound | getFailed => exact ⟨rfl, .inl rfl, .inl ⟨rfl, rfl⟩⟩
    | updateFailed podUID =>
      simp only
      split_ifs
      · exact ⟨rfl, .inr rfl, .inl ⟨rfl, rfl⟩⟩
      · simp
    | updated podUID deletionTimestamp notRunning deleteSucceeds =>
      simp only
      by_cases htranslated : translations.translatePodUID podUID ≠ changed
      · rw [if_pos htranslated]
        exact ⟨rfl, .inr rfl, .inl ⟨rfl, rfl⟩⟩
      · have hpod := not_not.mp htranslated
        split_ifs
        · exact ⟨rfl, .inr rfl, .inr ⟨podUID, rfl, hneeded, hpod, rfl⟩⟩
        · exact ⟨rfl, .inl rfl, .inr ⟨podUID, rfl, hneeded, hpod, rfl⟩⟩

structure Taken (kind : UID → PodKind) (uid : UID) (system : System UID Status)
    (request : PodStatusSyncRequest UID Status) : Prop where
  cached : ∃ cached, system.manager.podStatuses.lookup uid = some cached ∧
    request.status.version ≤ cached.version
  skipped : ∀ version, (uid, version) ∈ system.written → version ≤ request.status.version ∨
    kind uid ≠ .static ∧ ∃ latest, system.manager.apiStatusVersions.lookup uid = some latest ∧
      request.status.version ≤ latest
  first : kind uid = .static → ∀ queued ∈ system.waiting, queued.podUID = uid →
    request.status.version ≤ queued.status.version

variable {request : PodStatusSyncRequest UID Status}

section

variable (htaken : request.podUID = uid → Taken kind uid system request)
  (translations : Translations kind) (answer : Answer UID)
  (hkept : uid ∉ (system.sync translations answer request).deleted)

include htaken hkept

theorem lookup_sync :
    (system.sync translations answer request).manager.podStatuses.lookup uid =
      system.manager.podStatuses.lookup uid := by
  obtain ⟨_, hcache, _⟩ := syncPod_cases translations answer system.manager request.podUID
    request.status
  change (system.manager.syncPod translations answer request.podUID request.status).1.podStatuses.lookup
    uid = _
  rcases hcache with hsame | herased
  · rw [hsame]
  · rw [herased, Map.lookup_erase, if_neg]
    intro huid
    -- the entry was there and would be gone
    obtain ⟨cached, hcached, _⟩ := (htaken huid.symm).cached
    obtain ⟨cached', hcached'⟩ := (lookup_advance hkept).2 cached hcached
    rw [herased, huid, lookup_erase] at hcached'
    cases hcached'

theorem Sound.sync (hsound : Sound kind uid system) (hlocal : kind uid ≠ .mirror) :
    Sound kind uid (system.sync translations answer request) := by
  have hget := lookup_sync htaken translations answer hkept
  obtain ⟨hchan, _, hver⟩ := syncPod_cases translations answer system.manager
    request.podUID request.status
  set next := system.sync translations answer request with hnext
  have hqueue : next.manager.podStatusChannel = system.manager.podStatusChannel := hchan
  have hwait : next.waiting = system.waiting := by
    unfold System.waiting
    rw [hqueue]
    rfl
  have hwritten : next.written = system.written ++
      (system.manager.syncPod translations answer request.podUID request.status).2.toList.map
        fun version ↦ (request.podUID, version) := rfl
  have hapi : next.manager.apiStatusVersions =
    (system.manager.syncPod translations answer request.podUID request.status).1.apiStatusVersions :=
    rfl
  -- only what is written and remembered may change
  have hcached := hsound.cached
  have hfifo := hsound.fifo
  have hahead := hsound.ahead
  rw [← hwait, ← hget] at hcached
  rw [← hqueue] at hfifo hahead
  rcases hver with ⟨hnone, hsame⟩ | ⟨podUID, hsome, hneeds, hpod, hinsert⟩
  · rw [hnone, Option.toList_none, map_nil, append_nil] at hwritten
    rw [hsame] at hapi
    refine ⟨hcached, hfifo, hsound.batch, hahead, ?_, ?_, hwritten ▸ hsound.ordered⟩
    · rw [hwritten, hget]
      exact hsound.written
    · rw [hwait, hwritten, hapi]
      exact hsound.skipped
  · rw [hsome, Option.toList_some, map_singleton] at hwritten
    rw [hinsert] at hapi
    -- a request that is not skipped is as new as everything written before
    have hle : request.podUID = uid → ∀ version, (uid, version) ∈ system.written →
        version ≤ request.status.version := by
      intro huid version hold
      rcases (htaken huid).skipped version hold with hle | ⟨_, latest, hlatest, hle⟩
      · exact hle
      · rw [huid, needsUpdate, hlatest] at hneeds
        exact absurd (of_decide_eq_true hneeds) (not_lt_of_ge hle)
    have hmem : ∀ version, (uid, version) ∈ next.written →
        (uid, version) ∈ system.written ∨
          request.podUID = uid ∧ version = request.status.version := by
      intro version hver
      rw [hwritten, mem_append, List.mem_singleton, Prod.mk.injEq] at hver
      exact hver.imp_right fun hnew ↦ ⟨hnew.1.symm, hnew.2⟩
    refine ⟨hcached, hfifo, hsound.batch, hahead, ?_, ?_, ?_⟩
    · rw [hget]
      intro version hver
      rcases hmem version hver with hold | ⟨huid, hnew⟩
      · exact hsound.written version hold
      · rw [hnew]
        exact (htaken huid).cached
    · intro queued hqueued huid' version hver
      rw [hwait] at hqueued
      by_cases huid : request.podUID = uid
      · have hnewest : version ≤ request.status.version := by
          rcases hmem version hver with hold | ⟨_, hnew⟩
          · exact hle huid version hold
          · exact hnew.le
        by_cases hstatic : kind uid = .static
        · exact .inl (hnewest.trans ((htaken huid).first hstatic queued hqueued huid'))
        · -- the version is remembered under the UID of the pod
          rcases Nat.le_total request.status.version queued.status.version with hnew | hold
          · exact .inl (hnewest.trans hnew)
          · refine .inr ⟨hstatic, request.status.version, ?_, hold⟩
            have hsame : podUID = uid := by
              by_contra hother
              rw [huid] at hpod
              apply hstatic
              rw [← hpod]
              exact (translations.kind_of_translated podUID (hpod ▸ Ne.symm hother)).2
            rw [hapi, hsame]
            exact lookup_insert _
      · -- the versions of a pod that is not a mirror pod are remembered by its own writes only
        have hother : uid ≠ podUID := by
          rintro rfl
          exact hlocal (translations.kind_of_translated uid (hpod ▸ huid)).1
        rw [hapi, lookup_insert_of_ne _ hother]
        rcases hmem version hver with hold | ⟨hsame, _⟩
        · exact hsound.skipped queued hqueued huid' version hold
        · exact absurd hsame huid
    · rw [hwritten]
      apply pairwise_append.mpr
      refine ⟨hsound.ordered, pairwise_singleton _ _, ?_⟩
      intro first hfirst second hsecond huid huid'
      rw [List.mem_singleton.mp hsecond] at huid' ⊢
      exact hle huid' first.2 (huid ▸ hfirst)

end

/-! ## Starting a batch -/

section Batch

variable {translations : Translations kind} {needsReconcile : UID → Bool}
  {podStatuses : Map UID (VersionedPodStatus Status)}

theorem Translations.syncedUID_ne {UID : Type} {kind : UID → PodKind} {uid : UID}
    {translations : Translations kind} (hlocal : kind uid ≠ .mirror) {other synced : UID}
    (hsynced : Manager.syncedUID translations other = some synced) (hother : other ≠ uid) :
    uid ≠ synced := by
  unfold Manager.syncedUID at hsynced
  cases hmirror : translations.podToMirror other with
  | none =>
    rw [hmirror] at hsynced
    exact fun hsame ↦ hother ((Option.some.inj hsynced).trans hsame.symm)
  | some mirror =>
    rw [hmirror] at hsynced
    intro hsame
    apply hlocal
    rw [hsame]
    exact translations.kind_of_mirror other synced (hmirror.trans (congrArg some hsynced))

variable {request : PodStatusSyncRequest UID Status}
  {batch : Map UID ℕ × List (PodStatusSyncRequest UID Status)}

theorem mem_batchPod {other : UID}
    (hmem : request ∈ (batchPod translations needsReconcile podStatuses batch other).2) :
    request ∈ batch.2 ∨ podStatuses.lookup request.podUID = some request.status := by
  unfold batchPod at hmem
  split at hmem
  case h_1 status synced hstatus hsynced =>
    split_ifs at hmem
    on_goal 3 => exact .inl hmem
    all_goals
      rcases mem_append.mp hmem with hold | hnew
      · exact .inl hold
      · rw [List.mem_singleton.mp hnew]
        exact .inr hstatus
  case h_2 => exact .inl hmem

theorem mem_foldl_batchPod (order : List UID) (hmem : request ∈
      (order.foldl (batchPod translations needsReconcile podStatuses) batch).2) :
    request ∈ batch.2 ∨ podStatuses.lookup request.podUID = some request.status := by
  induction order generalizing batch with
  | nil => exact .inl hmem
  | cons other order ih =>
    rcases ih hmem with hstep | hcached
    · exact mem_batchPod hstep
    · exact .inr hcached

variable (needsReconcile podStatuses) in
def Forgets (versions : Map UID ℕ) (uid : UID) : Prop :=
  needsReconcile uid = true ∧ ∃ cached, podStatuses.lookup uid = some cached ∧
    needsUpdate versions uid cached = false

theorem Forgets.congr {versions versions' : Map UID ℕ}
    (hsame : versions'.lookup uid = versions.lookup uid)
    (hforgets : Forgets needsReconcile podStatuses versions' uid) :
    Forgets needsReconcile podStatuses versions uid := by
  obtain ⟨hreconcile, cached, hcached, hneeds⟩ := hforgets
  refine ⟨hreconcile, cached, hcached, ?_⟩
  unfold needsUpdate at hneeds ⊢
  rw [← hsame]
  exact hneeds

theorem lookup_batchPod (hlocal : kind uid ≠ .mirror)
    (batch : Map UID ℕ × List (PodStatusSyncRequest UID Status)) (other : UID) :
    (batchPod translations needsReconcile podStatuses batch other).1.lookup uid =
        batch.1.lookup uid ∨
      Forgets needsReconcile podStatuses batch.1 uid := by
  unfold batchPod
  split
  case h_1 status synced hstatus hsynced =>
    split_ifs with hneeds hreconcile
    · exact .inl rfl
    · by_cases hsame : uid = synced
      · -- only the pod itself has its version looked up under its UID
        have hother : other = uid := by
          by_contra hother
          exact Translations.syncedUID_ne hlocal hsynced hother hsame
        rw [hother] at hreconcile hstatus
        rw [← hsame] at hneeds
        exact .inr ⟨hreconcile, status, hstatus, eq_false_of_ne_true hneeds⟩
      · exact .inl (lookup_erase_ne hsame)
    · exact .inl rfl
  case h_2 => exact .inl rfl

theorem lookup_foldl_batchPod (hlocal : kind uid ≠ .mirror) (order : List UID)
    (batch : Map UID ℕ × List (PodStatusSyncRequest UID Status)) :
    (order.foldl (batchPod translations needsReconcile podStatuses) batch).1.lookup uid =
        batch.1.lookup uid ∨
      Forgets needsReconcile podStatuses batch.1 uid := by
  induction order generalizing batch with
  | nil => exact .inl rfl
  | cons other order ih =>
    rcases lookup_batchPod hlocal batch other with hstep | hforgets
    · rcases ih (batchPod translations needsReconcile podStatuses batch other) with
        hsame | hforgets
      · exact .inl (hsame.trans hstep)
      · exact .inr (hforgets.congr hstep)
    · exact .inr hforgets

theorem lookup_cleanVersions {manager : Manager UID Status} (hcached : uid ∈ manager.podStatuses) :
    (cleanVersions translations manager).lookup uid =
      manager.apiStatusVersions.lookup uid := by
  have hkept : uid ∈ manager.podStatuses ∨ (translations.mirrorToPod uid).isSome = true :=
    .inl hcached
  unfold cleanVersions
  rw [Map.lookup_comprehend]
  split_ifs with hver
  · rfl
  · exact (lookup_eq_none.mpr hver).symm

/-- Starting a batch keeps the invariant of a pod if no older request is left behind. -/
theorem Sound.startBatch {system : System UID Status} (hsound : Sound kind uid system)
    (hlocal : kind uid ≠ .mirror) (order : List UID)
    (hguard : InOrder kind uid system (.batch needsReconcile)) :
    Sound kind uid
      { system with
        manager := (system.manager.startBatch translations needsReconcile order).1
        updatedStatuses := (system.manager.startBatch translations needsReconcile order).2 } := by
  set batch := order.foldl
    (batchPod translations needsReconcile system.manager.podStatuses)
    (cleanVersions translations system.manager, []) with hbatch
  have htaken : ∀ request ∈ batch.2,
      system.manager.podStatuses.lookup request.podUID = some request.status := by
    intro request hmem
    rcases mem_foldl_batchPod order hmem with hold | hcached
    · exact absurd hold not_mem_nil
    · exact hcached
  -- a request in the channel is not older than the cache, where the guard applies
  have hnewest : kind uid = .static ∨ Reconciles system.manager needsReconcile uid →
      ∀ queued ∈ system.manager.podStatusChannel, queued.podUID = uid →
        ∀ cached, system.manager.podStatuses.lookup uid = some cached →
          cached.version ≤ queued.status.version := by
    intro hcase queued hqueued huid cached hcached
    by_contra holder
    exact hguard hcase ⟨queued, hqueued, huid, cached, hcached, not_le.mp holder⟩
  constructor
  · intro request hmem huid
    rcases mem_append.mp hmem with hchan | hbatched
    · exact hsound.cached request (mem_append_left _ hchan) huid
    · exact ⟨request.status, huid ▸ htaken request hbatched, le_rfl⟩
  · exact hsound.fifo
  · intro first hfirst huid second hsecond huid'
    have hsame := (huid ▸ htaken first hfirst).symm.trans (huid' ▸ htaken second hsecond)
    rw [Option.some.inj hsame]
  · intro hstatic request hmem huid queued hqueued huid'
    exact hnewest (.inl hstatic) queued hqueued huid' request.status (huid ▸ htaken request hmem)
  · exact hsound.written
  · intro request hmem huid version hwritten
    obtain ⟨cached, hcached, hle⟩ := hsound.written version hwritten
    have hclean : (cleanVersions translations system.manager).lookup uid =
        system.manager.apiStatusVersions.lookup uid :=
      lookup_cleanVersions (mem_iff.mpr ⟨cached, hcached⟩)
    rcases mem_append.mp hmem with hchan | hbatched
    · rcases lookup_foldl_batchPod hlocal order
          (cleanVersions translations system.manager, []) with hsame | hforgets
      · change _ ∨ _ ∧ ∃ latest, batch.1.lookup uid = some latest ∧ _
        rw [hsame, hclean]
        exact hsound.skipped request (mem_append_left _ hchan) huid version hwritten
      · have hreconciles : Reconciles system.manager needsReconcile uid := hforgets.congr hclean
        exact .inl (hle.trans (hnewest (.inr hreconciles) request hchan huid cached hcached))
    · have hsame := hcached.symm.trans (huid ▸ htaken request hbatched)
      exact .inl (Option.some.inj hsame ▸ hle)
  · exact hsound.ordered

end Batch

/-! ## Runs -/

variable {channel batch : List (PodStatusSyncRequest UID Status)}

theorem Sound.of_sublist (hsound : Sound kind uid system)
    (hchan : channel.Sublist system.manager.podStatusChannel)
    (hbatch : batch.Sublist system.updatedStatuses) :
    Sound kind uid { system with
      manager := { system.manager with podStatusChannel := channel }
      updatedStatuses := batch } := by
  have hwait : ∀ request ∈ channel ++ batch, request ∈ system.waiting :=
    fun request hmem ↦ (hchan.append hbatch).subset hmem
  constructor
  · intro request hmem
    exact hsound.cached request (hwait request hmem)
  · exact hsound.fifo.sublist hchan
  · intro first hfirst huid second hsecond
    exact hsound.batch first (hbatch.subset hfirst) huid second (hbatch.subset hsecond)
  · intro hstatic request hmem huid queued hqueued
    exact hsound.ahead hstatic request (hbatch.subset hmem) huid queued (hchan.subset hqueued)
  · exact hsound.written
  · intro request hmem
    exact hsound.skipped request (hwait request hmem)
  · exact hsound.ordered

theorem Sound.taken (hsound : Sound kind uid system) (hmem : request ∈ system.waiting)
    (huid : request.podUID = uid)
    (hfirst : kind uid = .static → ∀ queued ∈ channel ++ batch, queued.podUID = uid →
      request.status.version ≤ queued.status.version) :
    Taken kind uid { system with
      manager := { system.manager with podStatusChannel := channel }
      updatedStatuses := batch } request where
  cached := hsound.cached request hmem huid
  skipped := hsound.skipped request hmem huid
  first := hfirst

theorem Sound.step {contents : StatusContents UID Status Container} {target : System UID Status}
    {label : Label UID} (hlocal : kind uid ≠ .mirror)
    (hsound : uid ∉ system.deleted → Sound kind uid system) (hguard : InOrder kind uid system label)
    (hstep : Step contents kind system label target) (hkept : uid ∉ target.deleted) :
    Sound kind uid target := by
  cases hstep with
  | setPodStatus now mirrorStatus pod status =>
    exact (hsound (lookup_advance hkept).1).grows
      (Grows.updateStatusInternal contents _ now mirrorStatus pod status _)
  | setContainerReadiness now mirrorStatus found container ready =>
    exact (hsound (lookup_advance hkept).1).grows
      (Grows.setContainerReadiness contents _ now mirrorStatus found container ready)
  | terminatePod now mirrorStatus pod =>
    exact (hsound (lookup_advance hkept).1).grows
      (Grows.updateStatusInternal contents _ now mirrorStatus pod _ _)
  | removeOrphanedStatuses podUIDs =>
    exact (hsound (lookup_advance hkept).1).grows
      (Grows.removeOrphanedStatuses (lookup_advance hkept).2)
  | syncRequest translations answer request rest hidle hchan =>
    have hbefore := hsound (lookup_advance hkept).1
    have hrest : rest.Sublist system.manager.podStatusChannel := by
      rw [hchan]
      exact sublist_cons_self request rest
    refine Sound.sync ?_ translations answer hkept
      (hbefore.of_sublist hrest (List.Sublist.refl _)) hlocal
    intro huid
    apply hbefore.taken _ huid
    · -- the requests behind it in the channel are newer, and no batch is being synced
      intro _ queued hqueued huid'
      rw [hidle, append_nil] at hqueued
      have hfifo := hbefore.fifo
      rw [hchan] at hfifo
      exact (pairwise_cons.mp hfifo).1 queued hqueued huid huid'
    · unfold System.waiting
      rw [hchan]
      exact mem_append_left _ mem_cons_self
  | syncBatch translations needsReconcile order hidle horder =>
    exact (hsound hkept).startBatch hlocal order hguard
  | syncNext translations answer request rest hbatch =>
    have hbefore := hsound (lookup_advance hkept).1
    have hrest : rest.Sublist system.updatedStatuses := by
      rw [hbatch]
      exact sublist_cons_self request rest
    have hmem : request ∈ system.updatedStatuses := by
      rw [hbatch]
      exact mem_cons_self
    refine Sound.sync ?_ translations answer hkept
      (hbefore.of_sublist (List.Sublist.refl _) hrest) hlocal
    intro huid
    apply hbefore.taken (mem_append_right _ hmem) huid
    intro hstatic queued hqueued huid'
    rcases mem_append.mp hqueued with hchan | hother
    · exact hbefore.ahead hstatic request hmem huid queued hchan huid'
    · exact (hbefore.batch request hmem huid queued (hrest.subset hother) huid').le

/-- If no older request waits when a batch takes up a static or reconciled pod, the versions written
for the pod do not decrease until its cache entry is deleted. -/
theorem written_versions_ordered (contents : StatusContents UID Status Container)
    (kind : UID → PodKind) (uid : UID) (hlocal : kind uid ≠ .mirror)
    {system : System UID Status}
    (hreach : Reachable (· = System.initial)
      (guarded (InOrder kind uid) (Step contents kind)) system)
    (hkept : uid ∉ system.deleted) : (system.versions uid).Pairwise (· ≤ ·) := by
  have hsound : uid ∉ system.deleted → Sound kind uid system := by
    apply hreach.invariant
    · intro system hinitial _
      rw [hinitial]
      exact Sound.initial
    · intro system label target _ hsound hstep hkept
      exact Sound.step hlocal hsound hstep.1 hstep.2 hkept
  unfold System.versions
  rw [pairwise_map, pairwise_filter]
  apply (hsound hkept).ordered.imp
  simp

/-! ## Examples -/

def exampleContents : StatusContents ℕ Unit Unit where
  isStatusEqual _ _ := false
  complete _ _ status := status
  setReadiness _ _ _ _ := none

def exampleKind : ℕ → PodKind
  | 0 => .static
  | 1 => .mirror
  | _ => .ordinary

def exampleTranslations : Translations exampleKind where
  translatePodUID uid := if uid = 1 then 0 else uid
  podToMirror uid := if uid = 0 then some (some 1) else none
  mirrorToPod uid := if uid = 1 then some 0 else none
  kind_of_translated uid huid := by
    by_cases hmirror : uid = 1
    · rw [hmirror]
      exact ⟨rfl, rfl⟩
    · rw [if_neg hmirror] at huid
      exact absurd rfl huid
  kind_of_podToMirror uid mirror hmirror := by
    by_cases hstatic : uid = 0
    · rw [hstatic]
      rfl
    · rw [if_neg hstatic] at hmirror
      cases hmirror
  kind_of_mirror uid mirror hmirror := by
    by_cases hstatic : uid = 0
    · rw [if_pos hstatic] at hmirror
      rw [← Option.some.inj (Option.some.inj hmirror)]
      rfl
    · rw [if_neg hstatic] at hmirror
      cases hmirror

def exampleSet (uid : ℕ) (system : System ℕ Unit) : System ℕ Unit :=
  system.advance (system.manager.setPodStatus exampleContents 0 none ⟨uid, (), none⟩ ())

def exampleRequest (answer : Answer ℕ) (system : System ℕ Unit) : System ℕ Unit :=
  match system.manager.podStatusChannel with
  | [] => system
  | request :: rest =>
    { system with manager := { system.manager with podStatusChannel := rest } }.sync
      exampleTranslations answer request

def exampleBatch (uid : ℕ) (needsReconcile : Bool) (system : System ℕ Unit) : System ℕ Unit :=
  { system with
    manager := (system.manager.startBatch exampleTranslations (fun _ ↦ needsReconcile) [uid]).1
    updatedStatuses :=
      (system.manager.startBatch exampleTranslations (fun _ ↦ needsReconcile) [uid]).2 }

def exampleNext (answer : Answer ℕ) (system : System ℕ Unit) : System ℕ Unit :=
  match system.updatedStatuses with
  | [] => system
  | request :: rest =>
    { system with updatedStatuses := rest }.sync exampleTranslations answer request

theorem step_exampleSet (uid : ℕ) (system : System ℕ Unit) :
    Step exampleContents exampleKind system .call (exampleSet uid system) :=
  .setPodStatus 0 none ⟨uid, (), none⟩ ()

theorem step_exampleRequest (answer : Answer ℕ) {system : System ℕ Unit}
    (hidle : system.updatedStatuses = []) (hchan : system.manager.podStatusChannel ≠ []) :
    Step exampleContents exampleKind system .request (exampleRequest answer system) := by
  unfold exampleRequest
  cases hrequests : system.manager.podStatusChannel with
  | nil => exact absurd hrequests hchan
  | cons request rest =>
    exact .syncRequest exampleTranslations answer request rest hidle hrequests

theorem step_exampleBatch (uid : ℕ) (needsReconcile : Bool) {system : System ℕ Unit}
    (hidle : system.updatedStatuses = []) (hcached : system.manager.podStatuses.keys = {uid}) :
    Step exampleContents exampleKind system (.batch fun _ ↦ needsReconcile)
      (exampleBatch uid needsReconcile system) := by
  refine .syncBatch exampleTranslations (fun _ ↦ needsReconcile) [uid] hidle ?_
  refine ⟨nodup_singleton uid, ?_⟩
  intro other
  rw [← Finmap.mem_keys, hcached, List.mem_singleton, Finset.mem_singleton]

theorem step_exampleNext (answer : Answer ℕ) {system : System ℕ Unit}
    (hbatch : system.updatedStatuses ≠ []) :
    Step exampleContents exampleKind system .next (exampleNext answer system) := by
  unfold exampleNext
  cases hrequests : system.updatedStatuses with
  | nil => exact absurd hrequests hbatch
  | cons request rest => exact .syncNext exampleTranslations answer request rest hrequests

/-- A batch overtakes a request of the static pod, which is then taken from the channel. -/
def staticRun : System ℕ Unit :=
  exampleRequest (.updated 1 none false false) (exampleNext (.updated 1 none false false)
    (exampleBatch 0 false (exampleSet 0 (exampleSet 0 System.initial))))

/-- The same for an ordinary pod, but another batch has forgotten the version and failed to write.
-/
def reconciledRun : System ℕ Unit :=
  exampleRequest (.updated 2 none false false) (exampleNext .getFailed
    (exampleBatch 2 true (exampleNext (.updated 2 none false false)
      (exampleBatch 2 false (exampleSet 2 (exampleSet 2 System.initial))))))

/-- An older status is written after a newer one, for a static pod and for an ordinary one. -/
theorem older_status_written :
    Reachable (· = System.initial) (Step exampleContents exampleKind) staticRun ∧
      0 ∉ staticRun.deleted ∧ staticRun.versions 0 = [2, 1] ∧
    Reachable (· = System.initial) (Step exampleContents exampleKind) reconciledRun ∧
      2 ∉ reconciledRun.deleted ∧ reconciledRun.versions 2 = [2, 1] := by
  refine ⟨?_, by decide +kernel, by decide +kernel, ?_, by decide +kernel, by decide +kernel⟩
  · refine .next (.next (.next (.next (.next (.start rfl) (step_exampleSet _ _))
      (step_exampleSet _ _)) (step_exampleBatch _ _ ?_ ?_)) (step_exampleNext _ ?_))
      (step_exampleRequest _ ?_ ?_)
    all_goals decide +kernel
  · refine .next (.next (.next (.next (.next (.next (.next (.start rfl) (step_exampleSet _ _))
      (step_exampleSet _ _)) (step_exampleBatch _ _ ?_ ?_)) (step_exampleNext _ ?_))
      (step_exampleBatch _ _ ?_ ?_)) (step_exampleNext _ ?_)) (step_exampleRequest _ ?_ ?_)
    all_goals decide +kernel

/-- Every request of the static pod is synced before the next status is set; a batch comes between.
-/
def patientRun : System ℕ Unit :=
  exampleRequest (.updated 1 none false false) (exampleNext (.updated 1 none false false)
    (exampleBatch 0 false (exampleSet 0 (exampleRequest (.updated 1 none false false)
      (exampleSet 0 System.initial)))))

theorem patient_versions_ordered :
    patientRun.versions 0 = [1, 2, 2] ∧ (patientRun.versions 0).Pairwise (· ≤ ·) := by
  have hset : Reachable (· = System.initial)
      (guarded (InOrder exampleKind 0) (Step exampleContents exampleKind))
      (exampleSet 0 System.initial) :=
    .guardedNext (.start rfl) (step_exampleSet 0 System.initial) trivial
  have hsynced := hset.guardedNext
    (step_exampleRequest (.updated 1 none false false) (by decide +kernel) (by decide +kernel))
    trivial
  have hsetAgain := hsynced.guardedNext (step_exampleSet 0 _) trivial
  have hbatch := hsetAgain.guardedNext
    (step_exampleBatch 0 false (by decide +kernel) (by decide +kernel))
    (fun _ ↦ not_olderWaits (by decide +kernel))
  have hwritten := hbatch.guardedNext
    (step_exampleNext (.updated 1 none false false) (by decide +kernel)) trivial
  have hreach := hwritten.guardedNext
    (step_exampleRequest (.updated 1 none false false) (by decide +kernel) (by decide +kernel))
    trivial
  refine ⟨by decide +kernel, ?_⟩
  exact written_versions_ordered exampleContents exampleKind 0 (by decide) hreach
    (by decide +kernel)

end Kubernetes.Kubelet.Status

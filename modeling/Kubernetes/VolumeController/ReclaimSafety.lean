import Kubernetes.Basic.Transition
import Kubernetes.VolumeController.Reclaim

/-!
# Reclaiming destroys released volumes only

An operation checks that the volume it has read is released, not that it is the one it was scheduled
for, or still to be reclaimed.  So what is destroyed is right if the operation is scheduled with an
up-to-date UID and policy, the policy is not changed while it waits to read the volume, and no
volume is created under the name while it runs.
-/

namespace Kubernetes.VolumeController

open List Transition

namespace Cluster

variable {s next : Cluster}

variable {volume : PersistentVolume}

theorem isVolumeReleased_iff {claims : ClaimCache} :
    isVolumeReleased claims volume = true ↔ Released claims volume := by
  unfold isVolumeReleased Released
  cases volume.claimRef with
  | none => simp
  | some claimRef =>
    by_cases huid : claimRef.uid = ""
    · simp [huid]
    · cases hclaim : claims.lookup (claimrefToClaimKey claimRef) with
      | none => simp [huid, hclaim]
      | some claim =>
        by_cases hsame : claim.uid = claimRef.uid <;> simp [huid, hclaim, hsame]

/-! ## The versions at the API server -/

/-- The resource versions count what was stored, and what is there was stored. -/
structure Versioned (s : Cluster) : Prop where
  version : ∀ (index : ℕ) (volume : PersistentVolume), s.history[index]? = some volume →
    volume.resourceVersion = index
  stored : ∀ (name : String) (volume : PersistentVolume), Finmap.lookup name s.volumes = some volume →
    volume.name = name ∧ volume ∈ s.history

theorem Versioned.eq_of_version (hversioned : Versioned s) {other : PersistentVolume}
    (hvol : volume ∈ s.history) (hother : other ∈ s.history)
    (hver : volume.resourceVersion = other.resourceVersion) : volume = other := by
  obtain ⟨index, hindex⟩ := mem_iff_getElem?.mp hvol
  obtain ⟨index', hindex'⟩ := mem_iff_getElem?.mp hother
  have hsame : index = index' := by
    rw [← hversioned.version index volume hindex, hver, hversioned.version index' other hindex']
  rw [hsame, hindex'] at hindex
  exact (Option.some.inj hindex).symm

theorem lookup_save (s : Cluster) (volume : PersistentVolume) (name : String) :
    (s.save volume).volumes.lookup name =
      if name = volume.name then some (s.lastSaved volume) else s.volumes.lookup name :=
  Map.lookup_insert ..

theorem versioned_save (hversioned : Versioned s) (volume : PersistentVolume) :
    Versioned (s.save volume) := by
  constructor
  · intro index other hindex
    change (s.history ++ [s.lastSaved volume])[index]? = some other at hindex
    rw [List.getElem?_append] at hindex
    split_ifs at hindex with hlt
    · exact hversioned.version index other hindex
    · obtain ⟨hzero, hlast⟩ := List.getElem?_eq_some_iff.mp hindex
      rw [length_singleton] at hzero
      have hother : s.lastSaved volume = other := by
        simpa using hlast
      rw [← hother]
      change s.history.length = index
      omega
  · intro name other hget
    rw [lookup_save] at hget
    split_ifs at hget with hname
    · obtain rfl := Option.some.inj hget
      exact ⟨hname.symm, mem_append_right _ (mem_singleton_self _)⟩
    · obtain ⟨hother, hmem⟩ := hversioned.stored name other hget
      exact ⟨hother, mem_append_left _ hmem⟩

/-- Every volume of the API server has the UID and the policy that the volume with its name had
before. -/
structure Keeps (s next : Cluster) : Prop where
  identity : ∀ (name : String) (volume : PersistentVolume),
    Finmap.lookup name next.volumes = some volume →
    ∃ old, Finmap.lookup name s.volumes = some old ∧ volume.uid = old.uid ∧
      volume.reclaimPolicy = old.reclaimPolicy
  history : ∀ volume ∈ s.history, volume ∈ next.history

theorem Keeps.of_same (hvolumes : next.volumes = s.volumes) (hhist : next.history = s.history) :
    Keeps s next :=
  ⟨fun _ volume hget ↦ ⟨volume, hvolumes ▸ hget, rfl, rfl⟩, fun _ hmem ↦ hhist ▸ hmem⟩

variable {stored : PersistentVolume}

theorem keeps_save (hstored : s.volumes.lookup volume.name = some stored)
    (huid : volume.uid = stored.uid) (hpolicy : volume.reclaimPolicy = stored.reclaimPolicy) :
    Keeps s (s.save volume) := by
  constructor
  · intro name other hget
    rw [lookup_save] at hget
    split_ifs at hget with hname
    · obtain rfl := Option.some.inj hget
      exact ⟨stored, hname ▸ hstored, huid, hpolicy⟩
    · exact ⟨other, hget, rfl, rfl⟩
  · exact fun _ hmem ↦ mem_append_left _ hmem

theorem keeps_erase (s : Cluster) (volumeName : String) :
    Keeps s { s with volumes := s.volumes.erase volumeName } := by
  constructor
  · exact Map.forall_lookup_erase fun _ volume hget ↦ ⟨volume, hget, rfl, rfl⟩
  · exact fun _ hmem ↦ hmem

theorem versioned_erase (hversioned : Versioned s) (volumeName : String) :
    Versioned { s with volumes := s.volumes.erase volumeName } :=
  ⟨hversioned.version, Map.forall_lookup_erase hversioned.stored⟩

theorem unchanged_eq_some {copy : PersistentVolume} (h : s.unchanged copy = some stored) :
    s.volumes.lookup copy.name = some stored ∧ stored.resourceVersion = copy.resourceVersion := by
  unfold unchanged at h
  split at h
  · cases h
  · next found hfound =>
    split_ifs at h with hver
    obtain rfl := Option.some.inj h
    exact ⟨hfound, hver⟩

structure Write (s next : Cluster) : Prop where
  versioned : Versioned next
  keeps : Keeps s next
  operations : next.operations = s.operations
  destroyed : next.destroyed = s.destroyed

theorem Write.refl (hversioned : Versioned s) : Write s s :=
  ⟨hversioned, .of_same rfl rfl, rfl, rfl⟩

theorem write_save (hversioned : Versioned s) (stored : PersistentVolume)
    (hstored : s.volumes.lookup volume.name = some stored) (huid : volume.uid = stored.uid)
    (hpolicy : volume.reclaimPolicy = stored.reclaimPolicy) : Write s (s.save volume) :=
  ⟨versioned_save hversioned volume, keeps_save hstored huid hpolicy, rfl, rfl⟩

theorem write_updateVolumePhase (hversioned : Versioned s) (volume : PersistentVolume)
    (phase : VolumePhase) : Write s (s.updateVolumePhase volume phase) := by
  unfold updateVolumePhase
  split_ifs
  · exact .refl hversioned
  · unfold updateStatus
    cases hunchanged : s.unchanged { volume with phase := phase } with
    | none => exact .refl hversioned
    | some stored =>
      obtain ⟨hstored, -⟩ := unchanged_eq_some hunchanged
      have hname := (hversioned.stored _ stored hstored).1
      exact write_save hversioned stored (hname.symm ▸ hstored) rfl rfl

theorem unboundClone_same (volume : PersistentVolume) :
    (unboundClone volume).name = volume.name ∧ (unboundClone volume).uid = volume.uid ∧
      (unboundClone volume).reclaimPolicy = volume.reclaimPolicy ∧
      (unboundClone volume).resourceVersion = volume.resourceVersion := by
  unfold unboundClone
  split_ifs <;> exact ⟨rfl, rfl, rfl, rfl⟩

theorem write_update (hversioned : Versioned s) {newVol : PersistentVolume}
    (hknown : volume ∈ s.history) (hupd : s.update (unboundClone volume) = some (next, newVol)) :
    Write s next := by
  obtain ⟨hname, huid, hpolicy, hver⟩ := unboundClone_same volume
  unfold update at hupd
  split at hupd
  · cases hupd
  · next stored hunchanged =>
    cases hupd
    obtain ⟨hstored, hsame⟩ := unchanged_eq_some hunchanged
    have heq : stored = volume :=
      hversioned.eq_of_version (hversioned.stored _ stored hstored).2 hknown (hsame.trans hver)
    exact write_save hversioned stored hstored (huid.trans (congrArg _ heq.symm))
      (hpolicy.trans (congrArg _ heq.symm))

/-! ## Operations that are not disturbed -/

def readOf : Stage → Option PersistentVolume
  | .waiting => none
  | .checking newVolume => some newVolume
  | .calling newVolume _ => some newVolume
  | .removing newVolume _ => some newVolume
  | .unbinding newVolume => some newVolume
  | .marking _ _ => none

/-- The volume with the name is the one that the operation was scheduled for, and is to be reclaimed
so. -/
structure Undisturbed (s : Cluster) (name : OperationName) (operation : Operation) : Prop where
  current : ∀ volume, Finmap.lookup operation.volume.name s.volumes = some volume →
    volume.uid = operation.volume.uid
  waiting : operation.stage = .waiting →
    ∀ volume, Finmap.lookup operation.volume.name s.volumes = some volume →
      volume.reclaimPolicy = name.kind.policy
  read : ∀ newVolume, readOf operation.stage = some newVolume →
    newVolume ∈ s.history ∧ newVolume.uid = operation.volume.uid ∧
      newVolume.reclaimPolicy = name.kind.policy
  called : ∀ newVolume claims, operation.stage = .calling newVolume claims →
    Released claims newVolume
  removed : ∀ newVolume claims, operation.stage = .removing newVolume claims →
    name.kind = .delete ∧ Released claims newVolume

structure Safe (s : Cluster) : Prop where
  versioned : Versioned s
  operations : ∀ name operation, Finmap.lookup name s.operations = some operation →
    Undisturbed s name operation
  destroyed : ∀ entry ∈ s.destroyed, entry.Legitimate

variable {operation : Operation} {name : OperationName}

theorem Undisturbed.of_keeps (h : Undisturbed s name operation) (hkeeps : Keeps s next) :
    Undisturbed next name operation := by
  refine ⟨?_, ?_, ?_, h.called, h.removed⟩
  · intro volume hget
    obtain ⟨old, hold, huid, -⟩ := hkeeps.identity _ volume hget
    exact huid.trans (h.current old hold)
  · intro hwait volume hget
    obtain ⟨old, hold, -, hpolicy⟩ := hkeeps.identity _ volume hget
    exact hpolicy.trans (h.waiting hwait old hold)
  · intro newVolume hread
    obtain ⟨hmem, hsame⟩ := h.read newVolume hread
    exact ⟨hkeeps.history newVolume hmem, hsame⟩

theorem Safe.write (hsafe : Safe s) (hwrite : Write s next) : Safe next := by
  refine ⟨hwrite.versioned, ?_, hwrite.destroyed ▸ hsafe.destroyed⟩
  rw [hwrite.operations]
  exact fun name operation hget ↦ (hsafe.operations name operation hget).of_keeps hwrite.keeps

theorem Safe.log (hsafe : Safe s) {entry : Destruction} (hentry : entry.Legitimate) :
    Safe (s.log entry) := by
  refine ⟨{ hsafe.versioned with }, ?_, ?_⟩
  · exact fun name operation hget ↦
      (hsafe.operations name operation hget).of_keeps (.of_same rfl rfl)
  · intro other hother
    obtain hold | hnew := mem_append.mp hother
    · exact hsafe.destroyed other hold
    · rw [mem_singleton.mp hnew]
      exact hentry

theorem Safe.finish (hsafe : Safe s) (name : OperationName) : Safe (s.finish name) := by
  refine ⟨{ hsafe.versioned with }, ?_, hsafe.destroyed⟩
  intro other operation hget
  change (s.operations.erase name).lookup other = some operation at hget
  rw [Map.lookup_erase] at hget
  split_ifs at hget with hname
  exact (hsafe.operations other operation hget).of_keeps (.of_same rfl rfl)

theorem Safe.insert (hsafe : Safe next) (hop : Undisturbed s name operation)
    (hkeeps : Keeps s next := by exact .of_same rfl rfl) :
    Safe { next with operations := next.operations.insert name operation } := by
  refine ⟨{ hsafe.versioned with }, ?_, hsafe.destroyed⟩
  apply Map.forall_lookup_insert
  · exact fun other found hget ↦
      (hsafe.operations other found hget).of_keeps (.of_same rfl rfl)
  · exact (hop.of_keeps hkeeps).of_keeps (.of_same rfl rfl)

/-! ## One step of an operation -/

section Advance

variable {name : OperationName} {operation : Operation}

theorem Undisturbed.marking (h : Undisturbed s name operation) (volume : PersistentVolume)
    (phase : VolumePhase) : Undisturbed s name { operation with stage := .marking volume phase } :=
  ⟨h.current, by simp, by simp [readOf], by simp, by simp⟩

theorem Safe.readVolume (hsafe : Safe s) (h : Undisturbed s name operation)
    (hstage : operation.stage = .waiting) : Safe (s.readVolume name operation) := by
  unfold Cluster.readVolume
  cases hget : s.volumes.lookup operation.volume.name with
  | none => exact hsafe.finish name
  | some newVolume =>
    apply hsafe.insert
    refine ⟨h.current, by simp, ?_, by simp, by simp⟩
    intro read hread
    obtain rfl := Option.some.inj hread
    exact ⟨(hsafe.versioned.stored _ newVolume hget).2, h.current newVolume hget,
      h.waiting hstage newVolume hget⟩

variable {newVolume : PersistentVolume}

theorem Safe.checkVolume (hsafe : Safe s) (h : Undisturbed s name operation)
    (hstage : operation.stage = .checking newVolume) :
    Safe (s.checkVolume name operation newVolume) := by
  unfold Cluster.checkVolume
  split_ifs with hreleased
  · apply hsafe.insert
    refine ⟨h.current, by simp, ?_, ?_, by simp⟩
    · intro read hread
      exact h.read read (by rw [hstage]; exact hread)
    · intro called claims hcalled
      cases hcalled
      exact isVolumeReleased_iff.mp hreleased
  · exact hsafe.finish name

variable {claims : ClaimCache}

section

variable (hsafe : Safe s) (h : Undisturbed s name operation)

include hsafe h

theorem Safe.callDeleter (hstage : operation.stage = .calling newVolume claims)
    (hkind : name.kind = .delete) (answer : PluginAnswer) :
    Safe (s.callDeleter name operation newVolume claims answer) := by
  have hreleased := h.called newVolume claims hstage
  obtain ⟨hmem, huid, hpolicy⟩ := h.read newVolume (by rw [hstage]; rfl)
  have hlog : Safe (s.log ⟨.delete, operation.volume, newVolume, claims⟩) :=
    hsafe.log ⟨huid, hkind ▸ hpolicy, hreleased⟩
  cases answer with
  | noPlugin => exact hsafe.insert (h.marking operation.volume .failed)
  | external => exact hsafe.finish name
  | failed inUse =>
    cases inUse with
    | true => exact hlog.finish name
    | false => exact hlog.insert (h.marking operation.volume .failed)
  | done =>
    refine hlog.insert (s := s) ⟨h.current, by simp, ?_, by simp, ?_⟩
    · intro read hread
      exact h.read read (by rw [hstage]; exact hread)
    · intro removed cached hremoved
      cases hremoved
      exact ⟨hkind, hreleased⟩

theorem Safe.callRecycler (hstage : operation.stage = .calling newVolume claims)
    (hkind : name.kind = .recycle) (answer : PluginAnswer) :
    Safe (s.callRecycler name operation newVolume claims answer) := by
  have hreleased := h.called newVolume claims hstage
  obtain ⟨hmem, huid, hpolicy⟩ := h.read newVolume (by rw [hstage]; rfl)
  have hlog : Safe (s.log ⟨.recycle, newVolume, newVolume, claims⟩) :=
    hsafe.log ⟨rfl, hkind ▸ hpolicy, hreleased⟩
  cases answer with
  | noPlugin | external => exact hsafe.insert (h.marking newVolume .failed)
  | failed inUse => exact hlog.insert (h.marking newVolume .failed)
  | done =>
    refine hlog.insert (s := s) ⟨h.current, by simp, ?_, by simp, by simp⟩
    intro read hread
    exact h.read read (by rw [hstage]; exact hread)

theorem Safe.removeVolume (hstage : operation.stage = .removing newVolume claims) :
    Safe (s.removeVolume name operation newVolume claims) := by
  obtain ⟨hkind, hreleased⟩ := h.removed newVolume claims hstage
  obtain ⟨hmem, huid, hpolicy⟩ := h.read newVolume (by rw [hstage]; rfl)
  unfold Cluster.removeVolume
  cases hget : s.volumes.lookup operation.volume.name with
  | none => exact hsafe.finish name
  | some stored =>
    have herase : Safe { s with volumes := s.volumes.erase operation.volume.name } :=
      hsafe.write ⟨versioned_erase hsafe.versioned _, keeps_erase s _, rfl, rfl⟩
    refine (herase.log ⟨?_, hkind ▸ hpolicy, hreleased⟩).finish name
    exact huid.trans (h.current stored hget).symm

theorem Safe.unbindVolume (hstage : operation.stage = .unbinding newVolume) :
    Safe (s.unbindVolume name operation newVolume) := by
  obtain ⟨hmem, -⟩ := h.read newVolume (by rw [hstage]; rfl)
  unfold Cluster.unbindVolume
  cases hupd : s.update (unboundClone newVolume) with
  | none => exact hsafe.finish name
  | some result =>
    obtain ⟨wrote, newVol⟩ := result
    have hwrite := write_update hsafe.versioned hmem hupd
    exact (hsafe.write hwrite).insert (h.marking newVol .available) hwrite.keeps

end

theorem Safe.advance (hsafe : Safe s) {answer : PluginAnswer}
    (hadvance : s.advance name answer = some next) : Safe next := by
  unfold Cluster.advance at hadvance
  split at hadvance
  · cases hadvance
  · next operation hget =>
    have h := hsafe.operations name operation hget
    cases hstage : operation.stage <;> simp only [hstage, Option.some.injEq] at hadvance
    case waiting => exact hadvance ▸ hsafe.readVolume h hstage
    case checking newVolume => exact hadvance ▸ hsafe.checkVolume h hstage
    case calling newVolume claims =>
      cases hkind : name.kind <;> simp only [hkind, Option.some.injEq] at hadvance
      case delete => exact hadvance ▸ hsafe.callDeleter h hstage hkind answer
      case recycle => exact hadvance ▸ hsafe.callRecycler h hstage hkind answer
    case removing newVolume claims => exact hadvance ▸ hsafe.removeVolume h hstage
    case unbinding newVolume => exact hadvance ▸ hsafe.unbindVolume h hstage
    case marking volume phase =>
      rw [← hadvance]
      exact (hsafe.write (write_updateVolumePhase hsafe.versioned volume phase)).finish name

end Advance

/-! ## Runs without interference -/

/-- The policy of a volume is not changed while an operation waits to read it, no volume is created
while an operation runs for its name, and an operation has the volume's UID and policy. -/
def NoInterference (s : Cluster) : Label → Prop
  | .edit volume => ∀ stored, Finmap.lookup volume.name s.volumes = some stored →
      stored.reclaimPolicy ≠ volume.reclaimPolicy →
      ∀ name operation, Finmap.lookup name s.operations = some operation →
        operation.volume.name = volume.name → operation.stage ≠ .waiting
  | .create volume => ∀ name operation, Finmap.lookup name s.operations = some operation →
      operation.volume.name ≠ volume.name
  | .sync volume => ∀ stored, Finmap.lookup volume.name s.volumes = some stored →
      stored.uid = volume.uid ∧ stored.reclaimPolicy = volume.reclaimPolicy
  | .remove _ | .setClaims _ | .advance _ _ | .fail _ => True

theorem Undisturbed.save_of_ne (h : Undisturbed s name operation)
    (hname : operation.volume.name ≠ volume.name) : Undisturbed (s.save volume) name operation := by
  have hget : (s.save volume).volumes.lookup operation.volume.name =
      s.volumes.lookup operation.volume.name := by
    rw [lookup_save, if_neg hname]
  refine ⟨hget ▸ h.current, hget ▸ h.waiting, ?_, h.called, h.removed⟩
  intro newVolume hread
  obtain ⟨hmem, hsame⟩ := h.read newVolume hread
  exact ⟨mem_append_left _ hmem, hsame⟩

section

variable (hsafe : Safe s)

include hsafe

theorem Safe.edit (hstored : s.volumes.lookup volume.name = some stored)
    (huid : stored.uid = volume.uid) (hquiet : NoInterference s (.edit volume)) :
    Safe (s.save volume) := by
  refine ⟨versioned_save hsafe.versioned volume, ?_, hsafe.destroyed⟩
  intro name operation hop
  have h := hsafe.operations name operation hop
  by_cases hname : operation.volume.name = volume.name
  · by_cases hpolicy : stored.reclaimPolicy = volume.reclaimPolicy
    · exact h.of_keeps (keeps_save hstored huid.symm hpolicy.symm)
    · -- the operation has read the volume before
      have hstage := hquiet stored hstored hpolicy name operation hop hname
      refine ⟨?_, fun hwait ↦ absurd hwait hstage, ?_, h.called, h.removed⟩
      · intro other hother
        rw [lookup_save, if_pos hname] at hother
        rw [← Option.some.inj hother, ← h.current stored (hname ▸ hstored), huid]
        rfl
      · intro newVolume hread
        obtain ⟨hmem, hsame⟩ := h.read newVolume hread
        exact ⟨mem_append_left _ hmem, hsame⟩
  · exact h.save_of_ne hname

theorem Safe.create (hquiet : NoInterference s (.create volume)) :
    Safe (s.save volume) := by
  refine ⟨versioned_save hsafe.versioned volume, ?_, hsafe.destroyed⟩
  intro name operation hop
  exact (hsafe.operations name operation hop).save_of_ne (hquiet name operation hop)

theorem Safe.scheduleOperation {kind : OperationKind} (hpolicy : volume.reclaimPolicy = kind.policy)
    (hquiet : NoInterference s (.sync volume)) :
    Safe (s.scheduleOperation kind volume) := by
  unfold Cluster.scheduleOperation
  dsimp only
  split
  · apply hsafe.insert
    refine ⟨?_, ?_, by simp [readOf], by simp, by simp⟩
    · exact fun stored hstored ↦ (hquiet stored hstored).1
    · exact fun _ stored hstored ↦ (hquiet stored hstored).2.trans hpolicy
  · exact hsafe

theorem Safe.reclaimVolume (hquiet : NoInterference s (.sync volume)) :
    Safe (s.reclaimVolume volume) := by
  unfold Cluster.reclaimVolume
  cases hpolicy : volume.reclaimPolicy with
  | retain => exact hsafe
  | recycle | delete => exact hsafe.scheduleOperation hpolicy hquiet
  | other text => exact hsafe.write (write_updateVolumePhase hsafe.versioned volume .failed)

theorem safe_step {label : Label} (hquiet : NoInterference s label) (hstep : Step s label next) :
    Safe next := by
  unfold Step exec at hstep
  cases label with
  | edit volume =>
    dsimp only at hstep
    split at hstep
    · cases hstep
    · next stored hstored =>
      split_ifs at hstep with huid
      exact Option.some.inj hstep ▸ hsafe.edit hstored huid hquiet
  | remove volumeName =>
    rw [← Option.some.inj hstep]
    exact hsafe.write
      ⟨versioned_erase hsafe.versioned volumeName, keeps_erase s volumeName, rfl, rfl⟩
  | create volume =>
    dsimp only at hstep
    split_ifs at hstep
    exact Option.some.inj hstep ▸ hsafe.create hquiet
  | setClaims claims =>
    rw [← Option.some.inj hstep]
    exact hsafe.write
      ⟨{ hsafe.versioned with }, .of_same rfl rfl, rfl, rfl⟩
  | sync volume =>
    dsimp only at hstep
    split_ifs at hstep
    exact Option.some.inj hstep ▸ hsafe.reclaimVolume hquiet
  | advance name answer => exact hsafe.advance hstep
  | fail name =>
    dsimp only at hstep
    split at hstep
    · cases hstep
    · split at hstep <;> cases hstep <;> exact hsafe.finish name

end

theorem safe_empty : Safe empty := by
  refine ⟨⟨?_, ?_⟩, ?_, ?_⟩
  · intro index volume hindex
    cases hindex
  · intro name volume hget
    cases hget
  · intro name operation hget
    cases hget
  · exact fun _ hentry ↦ absurd hentry not_mem_nil

/-- In every run without interference only released volumes are destroyed, by their policies. -/
theorem reclaim_destroys_released
    (hreach : Reachable (· = empty) (guarded NoInterference Step) s) :
    ∀ entry ∈ s.destroyed, entry.Legitimate := by
  have hsafe : Safe s := by
    apply Reachable.invariant _ _ hreach
    · rintro _ rfl
      exact safe_empty
    · exact fun _ _ _ _ hsafe hstep ↦ safe_step hsafe hstep.1 hstep.2
  exact hsafe.destroyed

/-! ## A volume whose claim is gone -/

def dataVolume (uid : String) (policy : ReclaimPolicy) (version : ℕ) : PersistentVolume :=
  ⟨"data", uid, version, true, some ⟨"default", "claim", "claim-1"⟩, policy, .released⟩

def deleteData : OperationName := ⟨.delete, "data", "1"⟩

def scheduled : Cluster :=
  (empty.save (dataVolume "1" .delete 0)).reclaimVolume (dataVolume "1" .delete 0)

def runDelete (s : Cluster) (answers : List PluginAnswer) : Option Cluster :=
  answers.foldlM (fun s answer ↦ s.advance deleteData answer) s

theorem scheduled_reachable : Reachable (· = empty) (guarded NoInterference Step) scheduled := by
  have hstart : Reachable (· = empty) (guarded NoInterference Step) empty := .start rfl
  have hcreate : Step empty (.create (dataVolume "1" .delete 0))
      (empty.save (dataVolume "1" .delete 0)) := rfl
  have hsync : Step (empty.save (dataVolume "1" .delete 0)) (.sync (dataVolume "1" .delete 0))
      scheduled := by
    unfold Step scheduled
    decide +kernel
  apply Reachable.guardedNext _ hsync
  · intro stored hstored
    rw [← Option.some.inj hstored]
    exact ⟨rfl, rfl⟩
  · apply hstart.guardedNext hcreate
    intro name operation hop
    cases hop

theorem runDelete_reachable {step : Cluster → Label → Cluster → Prop}
    (hstep : ∀ s answer next, Step s (.advance deleteData answer) next →
      step s (.advance deleteData answer) next)
    {answers : List PluginAnswer} (hreach : Reachable (· = empty) step s)
    (hrun : s.runDelete answers = some next) : Reachable (· = empty) step next := by
  induction answers generalizing s with
  | nil => exact Option.some.inj hrun ▸ hreach
  | cons answer rest ih =>
    obtain ⟨middle, hmiddle, hrest⟩ := Option.bind_eq_some_iff.mp hrun
    exact ih (hreach.next (hstep s answer middle hmiddle)) hrest

/-- Without interference, the volume is deleted by the plugin and at the API server. -/
theorem data_volume_deleted :
    ∃ s, runDelete scheduled [.done, .done, .done, .done] = some s ∧ s.destroyed.length = 2 ∧
      ∀ entry ∈ s.destroyed, entry.Legitimate := by
  have hlen : (runDelete scheduled [.done, .done, .done, .done]).any
      (fun s ↦ s.destroyed.length = 2) = true := by
    decide +kernel
  obtain ⟨s, hrun, hs⟩ := (Option.any_eq_true _ _).mp hlen
  exact ⟨s, hrun, of_decide_eq_true hs,
    reclaim_destroys_released
      (runDelete_reachable (fun _ _ _ h ↦ ⟨trivial, h⟩) scheduled_reachable hrun)⟩

theorem exists_destroyed (answers : List PluginAnswer) {wrong : Destruction → Prop}
    [DecidablePred wrong] {changed : Cluster} (hreach : Reachable (· = empty) Step changed)
    (hrun : (changed.runDelete answers).any (fun s ↦ s.destroyed.any (wrong ·)) = true) :
    ∃ s, Reachable (· = empty) Step s ∧ ∃ entry ∈ s.destroyed, wrong entry := by
  obtain ⟨s, hs, hwrong⟩ := (Option.any_eq_true _ _).mp hrun
  obtain ⟨entry, hentry, hdecide⟩ := any_eq_true.mp hwrong
  exact ⟨s, runDelete_reachable (fun _ _ _ h ↦ h) hreach hs, entry, hentry,
    of_decide_eq_true hdecide⟩

/-- The volume is deleted although its policy was changed, and one created under its name in its
place. -/
theorem retained_volume_destroyed :
    (∃ s, Reachable (· = empty) Step s ∧ ∃ entry ∈ s.destroyed,
      entry.newVolume.reclaimPolicy = .retain) ∧
    ∃ s, Reachable (· = empty) Step s ∧ ∃ entry ∈ s.destroyed,
      entry.newVolume.uid ≠ entry.target.uid := by
  have hscheduled := scheduled_reachable.of_guarded
  constructor
  · have hedit : Step scheduled (.edit (dataVolume "1" .retain 0))
        (scheduled.save (dataVolume "1" .retain 0)) := by
      unfold Step scheduled
      decide +kernel
    apply exists_destroyed [.done, .done, .done] (hscheduled.next hedit)
    decide +kernel
  · let removed : Cluster := { scheduled with volumes := scheduled.volumes.erase "data" }
    have hrem : Step scheduled (.remove "data") removed := rfl
    have hcreate : Step removed (.create (dataVolume "2" .delete 0))
        (removed.save (dataVolume "2" .delete 0)) := by
      unfold Step removed scheduled
      decide +kernel
    apply exists_destroyed [.done, .done, .done] ((hscheduled.next hrem).next hcreate)
    decide +kernel

end Cluster

end Kubernetes.VolumeController

import Kubernetes.Kubelet.WorkerExclusion

/-!
# Requests to kill a pod

A request passed to `UpdatePod` is pending, or in a channel, or received, or being synced, until its
callback is called.  The slot for a pending request is protected while it holds a request to kill
the pod, so a second such request is ignored.  And the slot is cleared when the worker is forgotten.
-/

namespace Kubernetes.Kubelet

open List Option

variable {UID Payload : Type}

/-- The update is in the channel, or the goroutine has received it and has not called back. -/
def Cell.Has (cell : Cell UID Payload) (update : UpdatePodOptions UID Payload) : Prop :=
  cell.buffer = some update ∨ cell.loop = .received update ∨ cell.loop = .syncing update

variable {cell : Cell UID Payload}

theorem Cell.Has.busy {update : UpdatePodOptions UID Payload}
    (hhas : cell.Has update) : cell.Busy := by
  rcases hhas with hbuf | hloop | hloop
  · exact .inl (by rw [hbuf]; nofun)
  all_goals exact .inr ⟨by rw [hloop]; nofun, by rw [hloop]; nofun⟩

/-- The pod workers, the requests to kill a pod, and the updates whose callbacks were called. -/
structure Delivery (UID Payload : Type) where
  workers : PodWorkers UID Payload
  kills : List (UpdatePodOptions UID Payload)
  completed : List (UpdatePodOptions UID Payload)

namespace Delivery

def new : Delivery UID Payload := ⟨.new, [], []⟩

/-- The request to kill a pod that a step passes to `UpdatePod`. -/
def killOf (p : PodWorkers UID Payload) : Op UID Payload → Option (UpdatePodOptions UID Payload)
  | .updatePod uid .kill payload => some ⟨uid, .kill, payload, p.submitted⟩
  | _ => none

/-- The update whose callback is called in a step, with an error if the status of the pod was one.
-/
def completionOf (p : PodWorkers UID Payload) :
    Op UID Payload → Option (UpdatePodOptions UID Payload)
  | .skip ch | .finish ch =>
    match (p.cells ch).loop with
    | .received update | .syncing update => some update
    | _ => none
  | _ => none

variable [DecidableEq UID]

inductive Step : Delivery UID Payload → Op UID Payload → Delivery UID Payload → Prop
  | step (d : Delivery UID Payload) (op : Op UID Payload) (target : PodWorkers UID Payload)
      (hstep : Kubelet.Step d.workers op target) :
      Step d op ⟨target, (killOf d.workers op).toList ++ d.kills,
        (completionOf d.workers op).toList ++ d.completed⟩

/-- Every request to kill a pod is pending, at a channel of the pod, or completed. -/
def KillsDelivered (d : Delivery UID Payload) : Prop :=
  ∀ kill ∈ d.kills,
    Finmap.lookup kill.uid d.workers.lastUndeliveredWorkUpdate = some kill ∨
      (∃ ch, ch.uid = kill.uid ∧ (d.workers.cells ch).Has kill) ∨ kill ∈ d.completed

end Delivery

variable [DecidableEq UID] {p target : PodWorkers UID Payload} {uid : UID} {ch : Chan UID}
  {update sent : UpdatePodOptions UID Payload}

def PodWorkers.KillPending (p : PodWorkers UID Payload) (uid : UID) : Prop :=
  ∃ update, Finmap.lookup uid p.lastUndeliveredWorkUpdate = some update ∧ update.updateType = .kill

/-- While a request to kill a pod is pending, no other one is made for the pod, and its worker is
not forgotten. -/
def KillsApart (d : Delivery UID Payload) : Op UID Payload → Prop
  | .updatePod uid .kill _ => ¬ d.workers.KillPending uid
  | .forgetWorker uid => ¬ d.workers.KillPending uid
  | .forgetNonExistingPodWorkers desiredPods _ =>
    ∀ uid, uid ∉ desiredPods → ¬ d.workers.KillPending uid
  | _ => True

/-! ## Where an update is -/

/-- The update is pending or at a channel of its pod. -/
def PodWorkers.Keeps (p : PodWorkers UID Payload) (update : UpdatePodOptions UID Payload) : Prop :=
  Finmap.lookup update.uid p.lastUndeliveredWorkUpdate = some update ∨
    ∃ ch, ch.uid = update.uid ∧ (p.cells ch).Has update

variable {updateType : SyncPodType} {d : Delivery UID Payload} {op : Op UID Payload}

namespace PodWorkers

theorem Keeps.setCell (hkeeps : p.Keeps update)
    (hcell : (p.cells ch).Has update → cell.Has update) : (p.setCell ch cell).Keeps update := by
  rcases hkeeps with hpend | ⟨other, huid, hhas⟩
  · exact .inl hpend
  · refine .inr ⟨other, huid, ?_⟩
    by_cases hother : other = ch
    · subst hother
      rw [setCell_cells_self]
      exact hcell hhas
    · rwa [setCell_cells_of_ne hother]

section

variable (hsend : p.send ch sent = some target)

include hsend

theorem send_eq_some :
    (p.cells ch).buffer = none ∧ target = p.setCell ch { p.cells ch with buffer := some sent } := by
  rw [send] at hsend
  split_ifs at hsend with hopen
  exact ⟨hopen.2, (Option.some.inj hsend).symm⟩

/-- A send fills an empty slot, so it loses nothing. -/
theorem Keeps.send (hkeeps : p.Keeps update) :
    target.Keeps update := by
  obtain ⟨hempty, rfl⟩ := send_eq_some hsend
  apply hkeeps.setCell
  intro hhas
  rcases hhas with hbuf | hloop
  · rw [hempty] at hbuf
    cases hbuf
  · exact .inr hloop

theorem keeps_send (huid : ch.uid = sent.uid) :
    target.Keeps sent := by
  obtain ⟨-, rfl⟩ := send_eq_some hsend
  refine .inr ⟨ch, huid, ?_⟩
  rw [setCell_cells_self]
  exact .inl rfl

end

theorem Keeps.startWorker (hkeeps : p.Keeps update) (hinv : Inv none p) (uid : UID) :
    (p.startWorker uid).Keeps update := by
  have hcell : (p.setCell ⟨uid, p.next⟩ .new).Keeps update := by
    apply hkeeps.setCell
    intro hhas
    -- a channel that was not made yet has nothing
    exact absurd hhas.busy (hinv.fresh ⟨uid, p.next⟩ le_rfl)
  exact hcell

/-- A pending request to kill the pod is not overwritten. -/
theorem Keeps.submit (hkeeps : p.Keeps update) (hkill : update.updateType = .kill)
    (hsubmit : p.submit ch sent = some target) : target.Keeps update := by
  rw [PodWorkers.submit] at hsubmit
  split_ifs at hsubmit with hidle hpend
  · have hwork : (p.setWorking sent.uid true).Keeps update := hkeeps
    exact hwork.send hsubmit
  · obtain rfl := Option.some.inj hsubmit
    exact hkeeps
  · obtain rfl := Option.some.inj hsubmit
    rcases hkeeps with hget | hchan
    · left
      by_cases huid : update.uid = sent.uid
      · exact absurd ⟨update, huid ▸ hget, hkill⟩ hpend
      · rwa [Map.lookup_insert, if_neg huid]
    · exact .inr hchan

theorem keeps_submit (hpend : ¬ p.KillPending sent.uid) (huid : ch.uid = sent.uid)
    (hsubmit : p.submit ch sent = some target) : target.Keeps sent := by
  rw [submit] at hsubmit
  split_ifs at hsubmit with hidle hkill
  · exact keeps_send hsubmit huid
  · obtain ⟨update, hget, htype⟩ := hkill
    exact absurd ⟨update, hget, htype⟩ hpend
  · obtain rfl := Option.some.inj hsubmit
    left
    exact Finmap.lookup_insert _

theorem Keeps.removeWorker (hkeeps : p.Keeps update)
    (hother : p.lastUndeliveredWorkUpdate.lookup update.uid = some update → update.uid ≠ uid) :
    (p.removeWorker uid).Keeps update := by
  rw [PodWorkers.removeWorker]
  cases hcur : p.podUpdates.lookup uid with
  | none => exact hkeeps
  | some ch =>
    have hclose : (p.close ch).Keeps update := hkeeps.setCell id
    rcases hclose with hget | hchan
    · left
      rw [Map.lookup_erase, if_neg (hother hget)]
      exact hget
    · exact .inr hchan

theorem lookup_of_removeWorker {other : UID}
    (hget : (p.removeWorker uid).lastUndeliveredWorkUpdate.lookup other = some update) :
    p.lastUndeliveredWorkUpdate.lookup other = some update := by
  rw [PodWorkers.removeWorker] at hget
  cases hcur : p.podUpdates.lookup uid with
  | none => rwa [hcur] at hget
  | some ch =>
    rw [hcur] at hget
    exact Map.forall_lookup_erase (fun _ _ ↦ id) other update hget

theorem Keeps.removeWorkers (hkeeps : p.Keeps update) {uids : List UID}
    (hother : p.lastUndeliveredWorkUpdate.lookup update.uid = some update →
      update.uid ∉ uids) : (uids.foldl PodWorkers.removeWorker p).Keeps update := by
  induction uids generalizing p with
  | nil => exact hkeeps
  | cons uid uids ih =>
    apply ih
    · apply hkeeps.removeWorker
      intro hget huid
      exact hother hget (huid ▸ mem_cons_self)
    · intro hget hmem
      exact hother (lookup_of_removeWorker hget) (mem_cons_of_mem _ hmem)

theorem loop_checkForUpdates (hsent : p.checkForUpdates uid = some target) (ch : Chan UID) :
    (target.cells ch).loop = (p.cells ch).loop := by
  rw [checkForUpdates] at hsent
  split at hsent
  · obtain ⟨current, -, hmap⟩ := bind_eq_some_iff.mp hsent
    obtain ⟨filled, hsend, rfl⟩ := map_eq_some_iff.mp hmap
    obtain ⟨-, rfl⟩ := send_eq_some hsend
    by_cases hch : ch = current
    · rw [hch]
      rw [setCell_cells_self]
    · rw [setCell_cells_of_ne hch]
  · obtain rfl := Option.some.inj hsent
    rfl

theorem Keeps.checkForUpdates (hkeeps : p.Keeps update) (hinv : Inv none p)
    (hsent : p.checkForUpdates uid = some target) : target.Keeps update := by
  rw [PodWorkers.checkForUpdates] at hsent
  split at hsent
  · next workUpdate hpend =>
    obtain ⟨ch, hcur, hmap⟩ := bind_eq_some_iff.mp hsent
    obtain ⟨filled, hsend, rfl⟩ := map_eq_some_iff.mp hmap
    have huid := (hinv.pending uid workUpdate hpend).1
    have hch := (hinv.current uid ch hcur).1
    have hlast : filled.lastUndeliveredWorkUpdate = p.lastUndeliveredWorkUpdate := by
      rw [(send_eq_some hsend).2]
      rfl
    -- the slot of this pod is cleared, and its update is in the channel now
    have hchan : ∃ ch, ch.uid = workUpdate.uid ∧ (filled.cells ch).Has workUpdate := by
      obtain ⟨-, rfl⟩ := send_eq_some hsend
      exact ⟨ch, hch.trans huid.symm, .inl (by rw [setCell_cells_self])⟩
    rcases hkeeps.send hsend with hget | hother
    · by_cases hsame : update.uid = uid
      · right
        rw [hlast, hsame, hpend] at hget
        obtain rfl := Option.some.inj hget
        exact hchan
      · left
        rw [Map.lookup_erase, if_neg hsame]
        exact hget
    · exact .inr hother
  · obtain rfl := Option.some.inj hsent
    exact hkeeps

theorem Keeps.setLoop (hkeeps : p.Keeps update) {loop : Loop UID Payload}
    (hreceived : (p.cells ch).loop = .received update →
      loop = .received update ∨ loop = .syncing update)
    (hsyncing : (p.cells ch).loop = .syncing update → loop = .syncing update) :
    (p.setLoop ch loop).Keeps update := by
  apply hkeeps.setCell
  intro hhas
  rcases hhas with hbuf | hloop | hloop
  · exact .inl hbuf
  · exact .inr (hreceived hloop)
  · exact .inr (.inr (hsyncing hloop))

theorem Keeps.updatePod (hkeeps : p.Keeps update) (hkill : update.updateType = .kill)
    (hinv : Inv none p) {payload : Payload}
    (hsent : p.updatePod uid updateType payload = some target) : target.Keeps update := by
  rw [PodWorkers.updatePod] at hsent
  have hsubmitted : Keeps { p with submitted := p.submitted + 1 } update := hkeeps
  split at hsent
  · exact hsubmitted.submit hkill hsent
  · exact (hsubmitted.startWorker hinv.submit uid).submit hkill hsent

theorem keeps_updatePod (hpend : ¬ p.KillPending uid) (hinv : Inv none p) {payload : Payload}
    (hsent : p.updatePod uid updateType payload = some target) :
    target.Keeps ⟨uid, updateType, payload, p.submitted⟩ := by
  rw [PodWorkers.updatePod] at hsent
  split at hsent
  · next ch hcur =>
    apply keeps_submit _ _ hsent
    · exact hpend
    · exact (hinv.current uid ch hcur).1
  · apply keeps_submit _ _ hsent
    · exact hpend
    · rfl

theorem Keeps.step (hkeeps : d.workers.Keeps update) (hkill : update.updateType = .kill)
    (hinv : Inv none d.workers) (hapart : KillsApart d op) (hstep : Step d.workers op target) :
    target.Keeps update ∨ Delivery.completionOf d.workers op = some update := by
  generalize hworkers : d.workers = p at hkeeps hinv hstep
  cases hstep with
  | updatePod _ uid updateType payload hsent => exact .inl (hkeeps.updatePod hkill hinv hsent)
  | forgetWorker uid =>
    left
    apply hkeeps.removeWorker
    rintro hget rfl
    exact hapart ⟨update, hworkers ▸ hget, hkill⟩
  | forgetNonExistingPodWorkers desiredPods order horder =>
    left
    apply hkeeps.removeWorkers
    intro hget hmem
    have hundesired := of_decide_eq_true (mem_filter.mp hmem).2
    exact hapart update.uid hundesired ⟨update, hworkers ▸ hget, hkill⟩
  | receive ch received hloop hbuf =>
    left
    apply hkeeps.setCell
    intro hhas
    rcases hhas with hupd | hupd | hupd
    · rw [hbuf] at hupd
      cases hupd
      exact .inr (.inl rfl)
    all_goals
      rw [hloop] at hupd
      cases hupd
  | exit ch hloop hbuf hclosed =>
    left
    apply hkeeps.setLoop <;> rw [hloop] <;> nofun
  | sync ch received hloop =>
    left
    have hset : (p.setLoop ch (.syncing received)).Keeps update := by
      apply hkeeps.setLoop
      · intro hupd
        rw [hloop] at hupd
        cases hupd
        exact .inr rfl
      · rw [hloop]
        nofun
    exact hset
  | skip ch received hloop =>
    by_cases hsame : received = update
    · right
      rw [Delivery.completionOf, hloop, hsame]
    · left
      apply hkeeps.setLoop
      · intro hupd
        rw [hloop] at hupd
        exact absurd (Loop.received.inj hupd) hsame
      · rw [hloop]
        nofun
  | finish ch synced hloop =>
    by_cases hsame : synced = update
    · right
      rw [Delivery.completionOf, hloop, hsame]
    · left
      apply hkeeps.setLoop
      · rw [hloop]
        nofun
      · intro hupd
        rw [hloop] at hupd
        exact absurd (Loop.syncing.inj hupd) hsame
  | wrapUp sent ch uid hloop hsent =>
    left
    have hchecked := hkeeps.checkForUpdates hinv hsent
    have hwrapping : (sent.cells ch).loop = .wrapping uid :=
      (loop_checkForUpdates hsent ch).trans hloop
    apply hchecked.setLoop <;> rw [hwrapping] <;> nofun

end PodWorkers

/-! ## Runs -/

/-- The workers are as they should be, and keep every request to kill a pod that they have not
completed. -/
structure Delivery.Inv (d : Delivery UID Payload) : Prop where
  workers : Kubelet.Inv none d.workers
  kill : ∀ kill ∈ d.kills, kill.updateType = .kill
  kept : ∀ kill ∈ d.kills, d.workers.Keeps kill ∨ kill ∈ d.completed

theorem Delivery.Inv.step {d e : Delivery UID Payload} (hinv : d.Inv) (hapart : KillsApart d op)
    (hstep : Delivery.Step d op e) : e.Inv := by
  cases hstep with | step target hworkers =>
  -- the request that the step submits, if it does
  have hnew : ∀ kill ∈ (killOf d.workers op).toList,
      kill.updateType = .kill ∧ target.Keeps kill := by
    intro kill hkill
    cases op with
    | updatePod uid updateType payload =>
      cases updateType with
      | kill =>
        obtain rfl := mem_singleton.mp hkill
        cases hworkers with
        | updatePod _ _ _ _ hsent => exact ⟨rfl, PodWorkers.keeps_updatePod hapart hinv.workers hsent⟩
      | sync | update | create => cases hkill
    | _ => cases hkill
  refine ⟨hinv.workers.step hworkers, ?_, ?_⟩
  · intro kill hkill
    rcases mem_append.mp hkill with hkill | hkill
    · exact (hnew kill hkill).1
    · exact hinv.kill kill hkill
  · intro kill hkill
    rcases mem_append.mp hkill with hkill | hkill
    · exact .inl (hnew kill hkill).2
    · rcases hinv.kept kill hkill with hkeeps | hcompleted
      · rcases hkeeps.step (hinv.kill kill hkill) hinv.workers hapart hworkers with hkept | hdone
        · exact .inl hkept
        · right
          rw [hdone]
          exact mem_cons_self
      · exact .inr (mem_append_right _ hcompleted)

open Transition

theorem Delivery.workers_inv (hreach : Reachable (· = .new) Delivery.Step d) :
    Kubelet.Inv none d.workers := by
  induction hreach with
  | start hinit => exact hinit ▸ inv_new
  | next _ hstep ih =>
    cases hstep with
    | step target hworkers => exact ih.step hworkers

/-- If no kill request is made and no worker forgotten while a kill request of the pod is pending,
all of them are delivered. -/
theorem kill_requests_delivered (d : Delivery UID Payload)
    (hreach : Reachable (· = .new) (guarded KillsApart Delivery.Step) d) : d.KillsDelivered := by
  have hinv : d.Inv := by
    apply hreach.invariant
    · rintro state rfl
      exact ⟨inv_new, fun _ hkill ↦ absurd hkill not_mem_nil,
        fun _ hkill ↦ absurd hkill not_mem_nil⟩
    · exact fun _ _ _ _ hinv hstep ↦ hinv.step hstep.1 hstep.2
  intro kill hkill
  rcases hinv.kept kill hkill with (hpend | hchan) | hcompleted
  · exact .inl hpend
  · exact .inr (.inl hchan)
  · exact .inr (.inr hcompleted)

section Sample

def sampleKill (serial : ℕ) : UpdatePodOptions ℕ Unit := ⟨7, .kill, (), serial⟩

def sampleKilling (d : Delivery ℕ Unit) : Delivery ℕ Unit :=
  ⟨(d.workers.updatePod 7 .kill ()).getD d.workers, sampleKill d.workers.submitted :: d.kills,
    d.completed⟩

theorem sampleKilling_step {d : Delivery ℕ Unit} (hsent : (d.workers.updatePod 7 .kill ()).isSome) :
    Delivery.Step d (.updatePod 7 .kill ()) (sampleKilling d) := by
  apply Delivery.Step.step
  apply Kubelet.Step.updatePod
  obtain ⟨target, htarget⟩ := isSome_iff_exists.mp hsent
  rw [htarget, getD_some]

/-- The first request goes into the channel, and the second one is pending. -/
theorem second_kill_delivered :
    (sampleKilling (sampleKilling .new)).kills = [sampleKill 1, sampleKill 0] ∧
      (sampleKilling (sampleKilling .new)).KillsDelivered := by
  refine ⟨by decide +kernel, kill_requests_delivered _ ?_⟩
  have hnone : ∀ d : Delivery ℕ Unit, d.workers.lastUndeliveredWorkUpdate.lookup 7 = none →
      KillsApart d (.updatePod 7 .kill ()) := by
    rintro d hget ⟨update, hpend, -⟩
    rw [hget] at hpend
    cases hpend
  have hstart : Reachable (· = .new) (guarded KillsApart Delivery.Step)
      (Delivery.new : Delivery ℕ Unit) := .start rfl
  exact (hstart.guardedNext (sampleKilling_step (by decide +kernel))
    (hnone _ (by decide +kernel))).guardedNext (sampleKilling_step (by decide +kernel))
    (hnone _ (by decide +kernel))

/-- The third request is ignored, since the second one is pending. -/
theorem third_kill_dropped :
    ∃ d : Delivery ℕ Unit, Reachable (· = .new) Delivery.Step d ∧ ¬ d.KillsDelivered := by
  have hstart : Reachable (· = .new) Delivery.Step (Delivery.new : Delivery ℕ Unit) := .start rfl
  have hreach := ((hstart.next (sampleKilling_step (by decide +kernel))).next
    (sampleKilling_step (by decide +kernel))).next (sampleKilling_step (by decide +kernel))
  refine ⟨_, hreach, ?_⟩
  intro hdelivered
  rcases hdelivered (sampleKill 2) (by decide +kernel) with hpend | ⟨ch, huid, hhas⟩ | hcompleted
  · exact absurd hpend (by decide +kernel)
  · -- only one channel of the pod is busy, and it has the first request
    have hinv := Delivery.workers_inv hreach
    obtain rfl : ch = ⟨7, 0⟩ := by
      apply hinv.unique ch ⟨7, 0⟩ hhas.busy _ huid
      exact .inl (by decide +kernel)
    rcases hhas with hbuf | hloop | hloop
    · exact absurd hbuf (by decide +kernel)
    · exact absurd hloop (by decide +kernel)
    · exact absurd hloop (by decide +kernel)
  · exact absurd hcompleted (by decide +kernel)

end Sample

end Kubernetes.Kubelet

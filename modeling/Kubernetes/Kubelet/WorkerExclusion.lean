import Kubernetes.Kubelet.PodWorkers

/-!
# One worker is busy for a pod

Think of a token for every pod.  `UpdatePod` takes it when it marks the pod as being worked on, and
puts it with the update into the channel; the goroutine that receives the update has it until it
wraps up.  Then it goes with the pending update into the channel that the pod has now, or it is
given back.
-/

namespace Kubernetes.Kubelet

open Function Option

variable {UID Payload : Type} {submitted : ℕ}

namespace Cell

/-- The update that is in the channel or was received, and that was not synced yet. -/
def waiting (cell : Cell UID Payload) : Option (UpdatePodOptions UID Payload) :=
  match cell.buffer, cell.loop with
  | some update, _ => some update
  | none, .received update => some update
  | none, _ => none

/-- The updates at a channel are for its pod and were submitted.  The goroutine waits while the
channel is not empty. -/
structure Holds (cell : Cell UID Payload) (uid : UID) (submitted : ℕ) : Prop where
  buffer : ∀ update, cell.buffer = some update →
    cell.loop = .receiving ∧ update.uid = uid ∧ update.serial < submitted
  received : ∀ update, cell.loop = .received update → update.uid = uid ∧ update.serial < submitted
  syncing : ∀ update, cell.loop = .syncing update → update.uid = uid
  wrapping : ∀ other, cell.loop = .wrapping other → other = uid

theorem not_busy_new : ¬ (new : Cell UID Payload).Busy := by
  simp [new, Busy]

variable {cell : Cell UID Payload}

theorem waiting_eq_none (hidle : ¬ cell.Busy) : cell.waiting = none := by
  rw [Busy, not_or, not_and_or, not_not, not_not, not_not] at hidle
  rw [waiting, hidle.1]
  rcases hidle.2 with hloop | hloop
  · rw [hloop]
  · rw [hloop]

section

variable {update : UpdatePodOptions UID Payload} (hwait : cell.waiting = some update)

include hwait

theorem busy_of_waiting : cell.Busy := by
  by_contra hidle
  rw [waiting_eq_none hidle] at hwait
  cases hwait

theorem Holds.waiting {uid : UID} (hholds : cell.Holds uid submitted) :
    update.uid = uid ∧ update.serial < submitted := by
  unfold Cell.waiting at hwait
  split at hwait
  · cases hwait
    exact (hholds.buffer update ‹_›).2
  · cases hwait
    exact hholds.received update ‹_›
  · cases hwait

end

theorem Holds.buffer_eq_none {uid : UID} (hholds : cell.Holds uid submitted)
    (hbusy : cell.loop ≠ .receiving) : cell.buffer = none := by
  cases hbuf : cell.buffer with
  | none => rfl
  | some update => exact absurd (hholds.buffer update hbuf).1 hbusy

theorem Holds.mono {uid : UID} {submitted more : ℕ} (hholds : cell.Holds uid submitted)
    (hle : submitted ≤ more) : cell.Holds uid more where
  buffer update hbuf := by
    obtain ⟨hloop, huid, hserial⟩ := hholds.buffer update hbuf
    exact ⟨hloop, huid, hserial.trans_le hle⟩
  received update hloop := (hholds.received update hloop).imp_right fun hlt ↦ hlt.trans_le hle
  syncing := hholds.syncing
  wrapping := hholds.wrapping

theorem holds_new (uid : UID) (submitted : ℕ) : (new : Cell UID Payload).Holds uid submitted where
  buffer _ hbuf := nomatch hbuf
  received _ hloop := nomatch hloop
  syncing _ hloop := nomatch hloop
  wrapping _ hloop := nomatch hloop

end Cell

/-- The order of the updates of a pod: what was synced, then what waits at a channel, then what is
pending. -/
structure InOrder (p : PodWorkers UID Payload) [DecidableEq UID] : Prop where
  started : p.started.Pairwise fun later earlier ↦
    later.uid = earlier.uid → earlier.serial < later.serial
  submitted : ∀ old ∈ p.started, old.serial < p.submitted
  waiting : ∀ ch update, (p.cells ch).waiting = some update →
    ∀ old ∈ p.started, old.uid = update.uid → old.serial < update.serial
  pending : ∀ uid update, Finmap.lookup uid p.lastUndeliveredWorkUpdate = some update →
    (∀ old ∈ p.started, old.uid = uid → old.serial < update.serial) ∧
      ∀ ch other, (p.cells ch).waiting = some other → other.uid = uid → other.serial < update.serial

/-- The invariant, while somebody under the lock may have the token of a pod in hand. -/
structure Inv [DecidableEq UID] (hand : Option UID) (p : PodWorkers UID Payload) : Prop where
  current : ∀ uid ch, Finmap.lookup uid p.podUpdates = some ch →
    ch.uid = uid ∧ ch.number < p.next ∧ (p.cells ch).closed = false ∧ (p.cells ch).loop ≠ .exited
  fresh : ∀ ch, p.next ≤ ch.number → ¬ (p.cells ch).Busy
  holds : ∀ ch, (p.cells ch).Holds ch.uid p.submitted
  working : ∀ uid, p.isWorking uid = true ↔ hand = some uid ∨ ∃ ch, ch.uid = uid ∧ (p.cells ch).Busy
  hand : ∀ ch, (p.cells ch).Busy → hand ≠ some ch.uid
  unique : ∀ ch other, (p.cells ch).Busy → (p.cells other).Busy → ch.uid = other.uid → ch = other
  pending : ∀ uid update, Finmap.lookup uid p.lastUndeliveredWorkUpdate = some update →
    update.uid = uid ∧ update.serial < p.submitted ∧ p.isWorking uid = true ∧
      ∃ ch, Finmap.lookup uid p.podUpdates = some ch
  order : InOrder p

variable [DecidableEq UID] {p target : PodWorkers UID Payload} {hand : Option UID} {uid : UID}
  {ch : Chan UID} {update : UpdatePodOptions UID Payload}

theorem inv_new : Inv none (.new : PodWorkers UID Payload) where
  current _ _ hget := absurd hget (by simp [PodWorkers.new])
  fresh _ _ := Cell.not_busy_new
  holds _ := Cell.holds_new _ _
  working uid := by simp [PodWorkers.new, Cell.not_busy_new]
  hand _ hbusy := absurd hbusy Cell.not_busy_new
  unique _ _ hbusy := absurd hbusy Cell.not_busy_new
  pending _ _ hget := absurd hget (by simp [PodWorkers.new])
  order := ⟨List.Pairwise.nil, fun _ hold ↦ absurd hold List.not_mem_nil,
    fun _ _ _ _ hold ↦ absurd hold List.not_mem_nil,
    fun _ _ hget ↦ absurd hget (by simp [PodWorkers.new])⟩

theorem InOrder.of_subset (horder : InOrder p) (hstarted : target.started = p.started)
    (hsubmitted : p.submitted ≤ target.submitted)
    (hwait : ∀ ch update, (target.cells ch).waiting = some update →
      (p.cells ch).waiting = some update)
    (hpend : ∀ uid update, target.lastUndeliveredWorkUpdate.lookup uid = some update →
      p.lastUndeliveredWorkUpdate.lookup uid = some update) : InOrder target where
  started := hstarted ▸ horder.started
  submitted old hold := (horder.submitted old (hstarted ▸ hold)).trans_le hsubmitted
  waiting ch update hnext := hstarted ▸ horder.waiting ch update (hwait ch update hnext)
  pending uid update hget := by
    obtain ⟨hafter, hother⟩ := horder.pending uid update (hpend uid update hget)
    exact ⟨hstarted ▸ hafter, fun ch other hnext ↦ hother ch other (hwait ch other hnext)⟩

theorem Inv.of_busy (hinv : Inv hand p)
    (hbusy : ∀ ch, (target.cells ch).Busy ↔ (p.cells ch).Busy)
    (hwork : target.isWorking = p.isWorking) (hnext : p.next ≤ target.next)
    (hcur : ∀ uid ch, target.podUpdates.lookup uid = some ch → ch.uid = uid ∧
      ch.number < target.next ∧ (target.cells ch).closed = false ∧ (target.cells ch).loop ≠ .exited)
    (hholds : ∀ ch, (target.cells ch).Holds ch.uid target.submitted)
    (hpend : ∀ uid update, target.lastUndeliveredWorkUpdate.lookup uid = some update →
      update.uid = uid ∧ update.serial < target.submitted ∧ target.isWorking uid = true ∧
        ∃ ch, target.podUpdates.lookup uid = some ch)
    (horder : InOrder target) : Inv hand target where
  current := hcur
  fresh ch hle := fun h ↦ hinv.fresh ch (hnext.trans hle) ((hbusy ch).mp h)
  holds := hholds
  working uid := by
    simp only [hwork, hbusy]
    exact hinv.working uid
  hand ch h := hinv.hand ch ((hbusy ch).mp h)
  unique ch other h hother := hinv.unique ch other ((hbusy ch).mp h) ((hbusy other).mp hother)
  pending := hpend
  order := horder

variable {cell : Cell UID Payload} {loop : Loop UID Payload} {other : Chan UID}

namespace PodWorkers

theorem setCell_cells_self : (p.setCell ch cell).cells ch = cell :=
  update_self ..

theorem setCell_cells_of_ne (hne : other ≠ ch) :
    (p.setCell ch cell).cells other = p.cells other :=
  update_of_ne hne ..

theorem setLoop_cells_self :
    (p.setLoop ch loop).cells ch = { p.cells ch with loop := loop } :=
  setCell_cells_self

end PodWorkers

open PodWorkers

/-! ## The token stays at a channel -/

/-- A cell has the token before and after the change, or neither.  What waits there was waiting
before. -/
structure Cell.Moves (cell next : Cell UID Payload) (uid : UID) (submitted : ℕ) : Prop where
  busy : next.Busy ↔ cell.Busy
  closed : next.closed = cell.closed
  exited : next.loop = .exited → cell.loop = .exited ∨ cell.closed = true
  holds : next.Holds uid submitted
  waiting : ∀ update, next.waiting = some update → cell.waiting = some update

section Move

variable {cell : Cell UID Payload}

theorem busy_setCell (hbusy : cell.Busy ↔ (p.cells ch).Busy) (other : Chan UID) :
    ((p.setCell ch cell).cells other).Busy ↔ (p.cells other).Busy := by
  by_cases hother : other = ch
  · rw [hother, setCell_cells_self, hbusy]
  · rw [setCell_cells_of_ne hother]

variable (hinv : Inv hand p)

include hinv

theorem Inv.move (hmoves : (p.cells ch).Moves cell ch.uid p.submitted) :
    Inv hand (p.setCell ch cell) := by
  refine hinv.of_busy (busy_setCell hmoves.busy) rfl le_rfl (fun uid other hget ↦ ?_)
    (fun other ↦ ?_) hinv.pending (hinv.order.of_subset rfl le_rfl
      (fun other update hwait ↦ ?_) fun _ _ ↦ id)
  · obtain ⟨huid, hnext, hclosed, hloop⟩ := hinv.current uid other hget
    refine ⟨huid, hnext, ?_⟩
    by_cases hother : other = ch
    · subst hother
      rw [setCell_cells_self, hmoves.closed]
      refine ⟨hclosed, fun hexited ↦ ?_⟩
      rcases hmoves.exited hexited with hold | hold
      · exact hloop hold
      · rw [hclosed] at hold
        cases hold
    · rw [setCell_cells_of_ne hother]
      exact ⟨hclosed, hloop⟩
  · by_cases hother : other = ch
    · rw [hother, setCell_cells_self]
      exact hmoves.holds
    · rw [setCell_cells_of_ne hother]
      exact hinv.holds other
  · by_cases hother : other = ch
    · subst hother
      rw [setCell_cells_self] at hwait
      exact hmoves.waiting update hwait
    · rwa [setCell_cells_of_ne hother] at hwait

theorem Inv.moveBusy (hbusy : (p.cells ch).loop ≠ .receiving)
    (hexited : (p.cells ch).loop ≠ .exited) (hloop : loop ≠ .receiving) (hrun : loop ≠ .exited)
    (hreceived : ∀ update, loop ≠ .received update)
    (hsyncing : ∀ update, loop = .syncing update → update.uid = ch.uid)
    (hwrapping : ∀ other, loop = .wrapping other → other = ch.uid) :
    Inv hand (p.setLoop ch loop) := by
  have hempty : (p.cells ch).buffer = none := (hinv.holds ch).buffer_eq_none hbusy
  apply hinv.move
  refine ⟨?_, rfl, fun heq ↦ absurd heq hrun, ⟨fun update hbuf ↦ ?_, ?_, hsyncing, hwrapping⟩, ?_⟩
  · exact iff_of_true (.inr ⟨hloop, hrun⟩) (.inr ⟨hbusy, hexited⟩)
  · rw [hempty] at hbuf
    cases hbuf
  · exact fun update heq ↦ absurd heq (hreceived update)
  · intro update hwait
    dsimp only at hwait
    rw [hempty] at hwait
    cases loop with
    | received other => exact absurd rfl (hreceived other)
    | receiving | syncing | wrapping | exited => cases hwait

theorem Inv.receive (hbuf : (p.cells ch).buffer = some update) :
    Inv hand (p.setCell ch ⟨none, (p.cells ch).closed, .received update⟩) := by
  obtain ⟨-, huid, hserial⟩ := (hinv.holds ch).buffer update hbuf
  apply hinv.move
  refine ⟨iff_of_true (.inr ⟨nofun, nofun⟩) (.inl (by simp [hbuf])), rfl, nofun,
    ⟨nofun, fun other hother ↦ ?_, nofun, nofun⟩, fun other hother ↦ ?_⟩
  · cases hother
    exact ⟨huid, hserial⟩
  · cases hother
    rw [Cell.waiting, hbuf]

theorem Inv.exit (hloop : (p.cells ch).loop = .receiving) (hbuf : (p.cells ch).buffer = none)
    (hclosed : (p.cells ch).closed = true) :
    Inv hand (p.setLoop ch .exited) := by
  apply hinv.move
  have hold : ¬ (p.cells ch).Busy := by simp [Cell.Busy, hloop, hbuf]
  have hnew : ¬ ({ p.cells ch with loop := .exited } : Cell UID Payload).Busy := by
    simp [Cell.Busy, hbuf]
  refine ⟨iff_of_false hnew hold, rfl, fun _ ↦ .inr hclosed,
    ⟨fun other hother ↦ ?_, nofun, nofun, nofun⟩, fun other hother ↦ ?_⟩
  · rw [hbuf] at hother
    cases hother
  · rw [Cell.waiting_eq_none hnew] at hother
    cases hother

/-- An update is synced.  It is the last one that was submitted of those synced so far. -/
theorem Inv.sync (hloop : (p.cells ch).loop = .received update) :
    Inv hand { p.setLoop ch (.syncing update) with started := update :: p.started } := by
  obtain ⟨huid, hserial⟩ := (hinv.holds ch).received update hloop
  have hempty : (p.cells ch).buffer = none :=
    (hinv.holds ch).buffer_eq_none (by rw [hloop]; nofun)
  have hwait : (p.cells ch).waiting = some update := by rw [Cell.waiting, hempty, hloop]
  have hmoved : Inv hand (p.setLoop ch (.syncing update)) := by
    refine hinv.moveBusy (by rw [hloop]; nofun) (by rw [hloop]; nofun) nofun nofun nofun ?_ nofun
    intro other hother
    cases hother
    exact huid
  -- Nothing waits for the pod any more, since there is one token.
  have hnone (other : Chan UID) (next : UpdatePodOptions UID Payload)
      (hnext : ((p.setLoop ch (.syncing update)).cells other).waiting = some next) :
      update.uid ≠ next.uid := by
    intro heq
    have hbusy := Cell.busy_of_waiting hnext
    have hself : ((p.setLoop ch (.syncing update)).cells ch).Busy := by
      rw [setLoop_cells_self]
      exact .inr ⟨nofun, nofun⟩
    have hsame : ch = other := by
      apply hmoved.unique ch other hself hbusy
      rw [← huid, heq, ((hmoved.holds other).waiting hnext).1]
    subst hsame
    rw [setLoop_cells_self, Cell.waiting, hempty] at hnext
    cases hnext
  refine ⟨hmoved.current, hmoved.fresh, hmoved.holds, hmoved.working, hmoved.hand, hmoved.unique,
    hmoved.pending, ⟨?_, ?_, ?_, ?_⟩⟩
  · refine List.pairwise_cons.mpr ⟨fun old hold heq ↦ ?_, hinv.order.started⟩
    exact hinv.order.waiting ch update hwait old hold heq.symm
  · exact List.forall_mem_cons.mpr ⟨hserial, hinv.order.submitted⟩
  · intro other next hnext
    refine List.forall_mem_cons.mpr ⟨fun heq ↦ absurd heq (hnone other next hnext), ?_⟩
    exact hmoved.order.waiting other next hnext
  · intro uid pending hpend
    refine ⟨List.forall_mem_cons.mpr ⟨fun heq ↦ ?_, (hinv.order.pending uid pending hpend).1⟩,
      (hmoved.order.pending uid pending hpend).2⟩
    exact (hinv.order.pending uid pending hpend).2 ch update hwait heq

end Move

/-! ## The token changes hands -/

theorem Inv.release (hinv : Inv none p) (hloop : (p.cells ch).loop = .wrapping uid) :
    Inv (some uid) (p.setLoop ch .receiving) := by
  have huid : uid = ch.uid := (hinv.holds ch).wrapping uid hloop
  have hempty : (p.cells ch).buffer = none :=
    (hinv.holds ch).buffer_eq_none (by rw [hloop]; nofun)
  have hbusy : (p.cells ch).Busy := .inr ⟨by rw [hloop]; nofun, by rw [hloop]; nofun⟩
  have hidle : ¬ ((p.setLoop ch .receiving).cells ch).Busy := by
    rw [setLoop_cells_self]
    simp [Cell.Busy, hempty]
  have hother {other : Chan UID} (hne : other ≠ ch) :
      (p.setLoop ch .receiving).cells other = p.cells other :=
    setCell_cells_of_ne hne
  have hbusyIff (other : Chan UID) : ((p.setLoop ch .receiving).cells other).Busy ↔
      (p.cells other).Busy ∧ other ≠ ch := by
    by_cases hsame : other = ch
    · rw [hsame]
      exact iff_of_false hidle fun h ↦ h.2 rfl
    · rw [hother hsame]
      exact (and_iff_left hsame).symm
  have hwait {other : Chan UID} {next : UpdatePodOptions UID Payload}
      (hnext : ((p.setLoop ch .receiving).cells other).waiting = some next) :
      (p.cells other).waiting = some next := by
    have hne : other ≠ ch := ((hbusyIff other).mp (Cell.busy_of_waiting hnext)).2
    rwa [hother hne] at hnext
  refine ⟨?_, ?_, ?_, ?_, ?_, ?_, hinv.pending,
    hinv.order.of_subset rfl le_rfl (fun _ _ ↦ hwait) fun _ _ ↦ id⟩
  · intro uid other hget
    obtain ⟨hotherUid, hnext, hclosed, hrun⟩ := hinv.current uid other hget
    refine ⟨hotherUid, hnext, ?_⟩
    by_cases hsame : other = ch
    · rw [hsame, setLoop_cells_self]
      exact ⟨hsame ▸ hclosed, nofun⟩
    · rw [hother hsame]
      exact ⟨hclosed, hrun⟩
  · exact fun other hnext hmoved ↦ hinv.fresh other hnext ((hbusyIff other).mp hmoved).1
  · intro other
    by_cases hsame : other = ch
    · rw [hsame, setLoop_cells_self]
      refine ⟨fun next hbuf ↦ ?_, nofun, nofun, nofun⟩
      rw [hempty] at hbuf
      cases hbuf
    · rw [hother hsame]
      exact hinv.holds other
  · intro pod
    simp only [hbusyIff]
    refine (hinv.working pod).trans ⟨?_, ?_⟩
    · rintro (hnone | ⟨other, hotherUid, hotherBusy⟩)
      · cases hnone
      · by_cases hsame : other = ch
        · exact .inl (congrArg some (huid.trans (hsame ▸ hotherUid)))
        · exact .inr ⟨other, hotherUid, hotherBusy, hsame⟩
    · rintro (hhand | ⟨other, hotherUid, hotherBusy, -⟩)
      · cases hhand
        exact .inr ⟨ch, huid.symm, hbusy⟩
      · exact .inr ⟨other, hotherUid, hotherBusy⟩
  · intro other hmoved heq
    obtain ⟨hotherBusy, hne⟩ := (hbusyIff other).mp hmoved
    refine hne (hinv.unique other ch hotherBusy hbusy ?_)
    rw [← huid]
    exact (Option.some.inj heq).symm
  · exact fun one other hone hmoved ↦
      hinv.unique one other ((hbusyIff one).mp hone).1 ((hbusyIff other).mp hmoved).1

/-- The token goes with an update into the channel of the pod, which is open and empty. -/
theorem Inv.deliver (hinv : Inv (some uid) p) (hget : p.podUpdates.lookup uid = some ch)
    (huid : update.uid = uid) (hserial : update.serial < p.submitted)
    (hafter : ∀ old ∈ p.started, old.uid = uid → old.serial < update.serial)
    (hbefore : ∀ pending, p.lastUndeliveredWorkUpdate.lookup uid = some pending →
      update.serial < pending.serial) :
    ∃ target, p.send ch update = some target ∧ Inv none target ∧
      target.lastUndeliveredWorkUpdate = p.lastUndeliveredWorkUpdate := by
  obtain ⟨hch, hnext, hclosed, hrun⟩ := hinv.current uid ch hget
  have hidle : ¬ (p.cells ch).Busy := fun hbusy ↦ hinv.hand ch hbusy (congrArg some hch.symm)
  have hparts := hidle
  rw [Cell.Busy, not_or, not_and_or, not_not, not_not, not_not] at hparts
  have hempty : (p.cells ch).buffer = none := hparts.1
  have hloop : (p.cells ch).loop = .receiving := hparts.2.resolve_right hrun
  have hself : ((p.setCell ch { p.cells ch with buffer := some update }).cells ch) =
      { p.cells ch with buffer := some update } := setCell_cells_self
  have hother {other : Chan UID} (hne : other ≠ ch) :
      (p.setCell ch { p.cells ch with buffer := some update }).cells other = p.cells other :=
    setCell_cells_of_ne hne
  have hbusyIff (other : Chan UID) :
      ((p.setCell ch { p.cells ch with buffer := some update }).cells other).Busy ↔
        other = ch ∨ (p.cells other).Busy := by
    by_cases hsame : other = ch
    · rw [hsame, hself]
      exact iff_of_true (.inl nofun) (.inl rfl)
    · rw [hother hsame]
      exact (or_iff_right hsame).symm
  have hwait {other : Chan UID} {next : UpdatePodOptions UID Payload}
      (hnext : ((p.setCell ch { p.cells ch with buffer := some update }).cells other).waiting =
        some next) : next = update ∨ (p.cells other).waiting = some next := by
    by_cases hsame : other = ch
    · rw [hsame, hself] at hnext
      exact .inl (Option.some.inj hnext).symm
    · rw [hother hsame] at hnext
      exact .inr hnext
  refine ⟨_, if_pos ⟨hclosed, hempty⟩,
    ⟨?_, ?_, ?_, ?_, fun _ _ ↦ nofun, ?_, hinv.pending,
      ⟨hinv.order.started, hinv.order.submitted, ?_, ?_⟩⟩, rfl⟩
  · intro pod other hpod
    obtain ⟨hotherUid, hotherNext, hotherClosed, hotherRunning⟩ := hinv.current pod other hpod
    refine ⟨hotherUid, hotherNext, ?_⟩
    by_cases hsame : other = ch
    · rw [hsame, hself]
      exact ⟨hclosed, hrun⟩
    · rw [hother hsame]
      exact ⟨hotherClosed, hotherRunning⟩
  · intro other hotherNext hbusy
    rcases (hbusyIff other).mp hbusy with rfl | hold
    · exact absurd hnext (not_lt.mpr hotherNext)
    · exact hinv.fresh other hotherNext hold
  · intro other
    by_cases hsame : other = ch
    · rw [hsame, hself]
      refine ⟨fun next hbuf ↦ ?_, (hinv.holds ch).received, (hinv.holds ch).syncing,
        (hinv.holds ch).wrapping⟩
      cases hbuf
      exact ⟨hloop, huid.trans hch.symm, hserial⟩
    · rw [hother hsame]
      exact hinv.holds other
  · intro pod
    simp only [hbusyIff]
    refine (hinv.working pod).trans ⟨?_, ?_⟩
    · rintro (hhand | ⟨other, hotherUid, hotherBusy⟩)
      · cases hhand
        exact .inr ⟨ch, hch, .inl rfl⟩
      · exact .inr ⟨other, hotherUid, .inr hotherBusy⟩
    · rintro (hnone | ⟨other, hotherUid, rfl | hotherBusy⟩)
      · cases hnone
      · exact .inl (congrArg some (hch.symm.trans hotherUid))
      · exact .inr ⟨other, hotherUid, hotherBusy⟩
  · intro one other hone htwo heq
    have hbusyHand {some : Chan UID} (hbusy : (p.cells some).Busy) (hsame : some.uid = ch.uid) :
        False := hinv.hand some hbusy (by rw [hsame, hch])
    rcases (hbusyIff one).mp hone with rfl | holdOne
    · rcases (hbusyIff other).mp htwo with rfl | holdTwo
      · rfl
      · exact absurd heq.symm (hbusyHand holdTwo)
    · rcases (hbusyIff other).mp htwo with rfl | holdTwo
      · exact absurd heq (hbusyHand holdOne)
      · exact hinv.unique one other holdOne holdTwo heq
  · intro other next hnext old hold heq
    rcases hwait hnext with rfl | hnext
    · exact hafter old hold (heq.trans huid)
    · exact hinv.order.waiting other next hnext old hold heq
  · intro pod pending hpend
    refine ⟨(hinv.order.pending pod pending hpend).1, fun other next hnext heq ↦ ?_⟩
    rcases hwait hnext with rfl | hnext
    · rw [← heq, huid] at hpend
      exact hbefore pending hpend
    · exact (hinv.order.pending pod pending hpend).2 other next hnext heq

theorem Inv.drop (hinv : Inv (some uid) p)
    (hpend : p.lastUndeliveredWorkUpdate.lookup uid = none) :
    Inv none (p.setWorking uid false) := by
  refine ⟨hinv.current, hinv.fresh, hinv.holds, fun pod ↦ ?_, fun _ _ ↦ nofun, hinv.unique, ?_,
    hinv.order.of_subset rfl le_rfl (fun _ _ ↦ id) fun _ _ ↦ id⟩
  · by_cases hpod : pod = uid
    · subst hpod
      refine iff_of_false (by simp [setWorking]) ?_
      rintro (hnone | ⟨other, hotherUid, hbusy⟩)
      · cases hnone
      · exact hinv.hand other hbusy (congrArg some hotherUid.symm)
    · have hwork : (p.setWorking uid false).isWorking pod = p.isWorking pod :=
        update_of_ne hpod ..
      rw [hwork, hinv.working pod]
      exact or_congr_left (iff_of_false (fun heq ↦ hpod (Option.some.inj heq).symm) nofun)
  · intro pod update hget
    have hold : p.lastUndeliveredWorkUpdate.lookup pod = some update := hget
    have hpod : pod ≠ uid := by
      rintro rfl
      rw [hpend] at hold
      cases hold
    have hwork : (p.setWorking uid false).isWorking pod = p.isWorking pod :=
      update_of_ne hpod ..
    rw [hwork]
    exact hinv.pending pod update hget

theorem Inv.take (hinv : Inv none p) (hidle : p.isWorking uid = false) :
    Inv (some uid) (p.setWorking uid true) := by
  have hnone (other : Chan UID) (huid : other.uid = uid) : ¬ (p.cells other).Busy := by
    intro hbusy
    have hwork := (hinv.working uid).mpr (.inr ⟨other, huid, hbusy⟩)
    rw [hidle] at hwork
    cases hwork
  refine ⟨hinv.current, hinv.fresh, hinv.holds, fun pod ↦ ?_, fun other hbusy heq ↦ ?_, hinv.unique,
    fun pod update hget ↦ ?_, hinv.order.of_subset rfl le_rfl (fun _ _ ↦ id) fun _ _ ↦ id⟩
  · by_cases hpod : pod = uid
    · subst hpod
      exact iff_of_true (by simp [setWorking]) (.inl rfl)
    · have hwork : (p.setWorking uid true).isWorking pod = p.isWorking pod :=
        update_of_ne hpod ..
      rw [hwork, hinv.working pod]
      exact or_congr_left (iff_of_false nofun fun heq ↦ hpod (Option.some.inj heq).symm)
  · exact hnone other (Option.some.inj heq).symm hbusy
  · obtain ⟨huid, hserial, hwork, hcur⟩ := hinv.pending pod update hget
    refine ⟨huid, hserial, ?_, hcur⟩
    by_cases hpod : pod = uid
    · rw [hpod]
      simp [setWorking]
    · exact (update_of_ne hpod ..).trans hwork

/-! ## Other changes under the lock -/

theorem Inv.submit (hinv : Inv hand p) : Inv hand { p with submitted := p.submitted + 1 } := by
  refine hinv.of_busy (fun _ ↦ Iff.rfl) rfl le_rfl hinv.current
    (fun ch ↦ (hinv.holds ch).mono (Nat.le_succ _)) (fun uid update hget ↦ ?_)
    (hinv.order.of_subset rfl (Nat.le_succ _) (fun _ _ ↦ id) fun _ _ ↦ id)
  obtain ⟨huid, hserial, hrest⟩ := hinv.pending uid update hget
  exact ⟨huid, hserial.trans (Nat.lt_succ_self _), hrest⟩

theorem waiting_of_startWorker (hwait : ((p.startWorker uid).cells ch).waiting = some update) :
    (p.cells ch).waiting = some update := by
  by_cases hsame : ch = ⟨uid, p.next⟩
  · have hself : (p.startWorker uid).cells ch = .new := by
      rw [hsame]
      exact setCell_cells_self
    rw [hself] at hwait
    cases hwait
  · have hother : (p.startWorker uid).cells ch = p.cells ch := setCell_cells_of_ne hsame
    rwa [hother] at hwait

section

variable (hinv : Inv hand p)

include hinv

theorem Inv.startWorker (uid : UID) : Inv hand (p.startWorker uid) := by
  have hold : ¬ (p.cells ⟨uid, p.next⟩).Busy := hinv.fresh _ le_rfl
  have hcell : (p.cells ⟨uid, p.next⟩).Busy ↔ (Cell.new : Cell UID Payload).Busy :=
    iff_of_false hold Cell.not_busy_new
  have hself : (p.startWorker uid).cells ⟨uid, p.next⟩ = .new := setCell_cells_self
  have hother {other : Chan UID} (hne : other ≠ ⟨uid, p.next⟩) :
      (p.startWorker uid).cells other = p.cells other :=
    setCell_cells_of_ne hne
  have hget (pod : UID) : (p.startWorker uid).podUpdates.lookup pod =
      if pod = uid then some ⟨uid, p.next⟩ else p.podUpdates.lookup pod :=
    Map.lookup_insert ..
  refine hinv.of_busy (busy_setCell hcell.symm) rfl (Nat.le_succ _) (fun pod other hpod ↦ ?_)
    (fun other ↦ ?_) (fun pod update hpod ↦ ?_)
    (hinv.order.of_subset rfl le_rfl (fun _ _ ↦ waiting_of_startWorker) fun _ _ ↦ id)
  · rw [hget] at hpod
    split_ifs at hpod with heq
    · cases hpod
      rw [hself]
      exact ⟨heq.symm, Nat.lt_succ_self _, rfl, nofun⟩
    · obtain ⟨hotherUid, hnum, hrest⟩ := hinv.current pod other hpod
      have hne : other ≠ ⟨uid, p.next⟩ := by
        rintro rfl
        exact lt_irrefl _ hnum
      rw [hother hne]
      exact ⟨hotherUid, hnum.trans (Nat.lt_succ_self _), hrest⟩
  · by_cases hsame : other = ⟨uid, p.next⟩
    · rw [hsame, hself]
      exact Cell.holds_new _ _
    · rw [hother hsame]
      exact hinv.holds other
  · obtain ⟨huid, hserial, hwork, current, hcur⟩ := hinv.pending pod update hpod
    refine ⟨huid, hserial, hwork, ?_⟩
    rw [hget]
    split_ifs
    · exact ⟨_, rfl⟩
    · exact ⟨current, hcur⟩

theorem Inv.keep (hwork : p.isWorking update.uid = true)
    (hcur : ∃ ch, p.podUpdates.lookup update.uid = some ch)
    (hserial : update.serial < p.submitted)
    (hstarted : ∀ old ∈ p.started, old.serial < update.serial)
    (hwait : ∀ ch other, (p.cells ch).waiting = some other → other.serial < update.serial) :
    Inv hand { p with
      lastUndeliveredWorkUpdate :=
        Finmap.insert update.uid update p.lastUndeliveredWorkUpdate } := by
  refine ⟨hinv.current, hinv.fresh, hinv.holds, hinv.working, hinv.hand, hinv.unique, ?_,
    ⟨hinv.order.started, hinv.order.submitted, hinv.order.waiting, ?_⟩⟩
  · exact Map.forall_lookup_insert hinv.pending ⟨rfl, hserial, hwork, hcur⟩
  · exact Map.forall_lookup_insert hinv.order.pending
      ⟨fun old hold _ ↦ hstarted old hold, fun ch other hother _ ↦ hwait ch other hother⟩

theorem Inv.forgetPending (uid : UID) :
    Inv hand { p with
      lastUndeliveredWorkUpdate := Finmap.erase uid p.lastUndeliveredWorkUpdate } := by
  exact ⟨hinv.current, hinv.fresh, hinv.holds, hinv.working, hinv.hand, hinv.unique,
    Map.forall_lookup_erase hinv.pending,
    hinv.order.of_subset rfl le_rfl (fun _ _ ↦ id) (Map.forall_lookup_erase fun _ _ ↦ id)⟩

/-- A worker is forgotten.  Its goroutine keeps the token if it has it. -/
theorem Inv.removeWorker (uid : UID) : Inv hand (p.removeWorker uid) := by
  unfold PodWorkers.removeWorker
  cases hget : p.podUpdates.lookup uid with
  | none => exact hinv
  | some ch =>
    have hself : (p.close ch).cells ch = { p.cells ch with closed := true } := setCell_cells_self
    have hother {other : Chan UID} (hne : other ≠ ch) : (p.close ch).cells other = p.cells other :=
      setCell_cells_of_ne hne
    have hcell : ({ p.cells ch with closed := true } : Cell UID Payload).Busy ↔ (p.cells ch).Busy :=
      Iff.rfl
    have hwait (other : Chan UID) :
        ((p.close ch).cells other).waiting = (p.cells other).waiting := by
      by_cases hsame : other = ch
      · rw [hsame, hself]
        rfl
      · rw [hother hsame]
    have herased := hinv.forgetPending uid
    refine herased.of_busy (busy_setCell hcell) rfl le_rfl (fun pod other hpod ↦ ?_)
      (fun other ↦ ?_) (fun pod pending hpend ↦ ?_)
      (herased.order.of_subset rfl le_rfl (fun other _ ↦ (hwait other).symm.trans) fun _ _ ↦ id)
    · rw [Map.lookup_erase] at hpod
      split_ifs at hpod with hne
      obtain ⟨hotherUid, hrest⟩ := hinv.current pod other hpod
      have hsame : other ≠ ch := by
        rintro rfl
        exact hne (hotherUid.symm.trans (hinv.current uid other hget).1)
      have hcell := hother hsame
      exact ⟨hotherUid, hcell.symm ▸ hrest⟩
    · by_cases hsame : other = ch
      · subst hsame
        have hholds := hinv.holds other
        refine hself.symm ▸ { hholds with }
      · exact (hother hsame).symm ▸ hinv.holds other
    · obtain ⟨huid, hserial, hwork, hcur⟩ := herased.pending pod pending hpend
      refine ⟨huid, hserial, hwork, ?_⟩
      have hne : pod ≠ uid := by
        rintro rfl
        rw [Map.lookup_erase, if_pos rfl] at hpend
        cases hpend
      rw [Map.lookup_erase, if_neg hne]
      exact hcur

theorem Inv.forgetNonExistingPodWorkers (desiredPods : Finset UID) (order : List UID) :
    Inv hand (p.forgetNonExistingPodWorkers desiredPods order) := by
  unfold PodWorkers.forgetNonExistingPodWorkers
  induction order.filter (· ∉ desiredPods) generalizing p with
  | nil => exact hinv
  | cons uid rest ih => exact ih (hinv.removeWorker uid)

end

/-! ## UpdatePod and wrapUp -/

theorem Inv.submitTo (hinv : Inv none p) (update : UpdatePodOptions UID Payload)
    (hget : p.podUpdates.lookup update.uid = some ch)
    (hserial : update.serial < p.submitted)
    (hstarted : ∀ old ∈ p.started, old.serial < update.serial)
    (hwait : ∀ ch other, (p.cells ch).waiting = some other → other.serial < update.serial) :
    ∃ target, p.submit ch update = some target ∧ Inv none target := by
  unfold PodWorkers.submit
  cases hwork : p.isWorking update.uid with
  | false =>
    have htaken := hinv.take hwork
    obtain ⟨target, hsent, htarget, -⟩ := htaken.deliver hget rfl hserial
      (fun old hold _ ↦ hstarted old hold) fun pending hpend ↦ by
        obtain ⟨-, -, hbusy, -⟩ := hinv.pending update.uid pending hpend
        rw [hwork] at hbusy
        cases hbusy
    exact ⟨target, hsent, htarget⟩
  | true =>
    rw [if_neg nofun]
    split_ifs
    · exact ⟨p, rfl, hinv⟩
    · exact ⟨_, rfl, hinv.keep hwork ⟨ch, hget⟩ hserial hstarted hwait⟩

theorem Inv.updatePod (hinv : Inv none p) (uid : UID) (updateType : SyncPodType)
    (payload : Payload) :
    ∃ target, p.updatePod uid updateType payload = some target ∧ Inv none target := by
  have hsubmit := hinv.submit
  have hwait (ch : Chan UID) (other : UpdatePodOptions UID Payload)
      (hother : (p.cells ch).waiting = some other) : other.serial < p.submitted :=
    ((hinv.holds ch).waiting hother).2
  let options : UpdatePodOptions UID Payload := ⟨uid, updateType, payload, p.submitted⟩
  unfold PodWorkers.updatePod
  dsimp only
  cases hget : p.podUpdates.lookup uid with
  | some ch =>
    exact hsubmit.submitTo options hget (Nat.lt_succ_self _) hinv.order.submitted hwait
  | none =>
    exact (hsubmit.startWorker uid).submitTo options ((Map.lookup_insert ..).trans (if_pos rfl))
      (Nat.lt_succ_self _) hinv.order.submitted
      fun ch other hother ↦ hwait ch other (waiting_of_startWorker hother)

theorem Inv.checkForUpdates (hinv : Inv (some uid) p) :
    ∃ target, p.checkForUpdates uid = some target ∧ Inv none target := by
  unfold PodWorkers.checkForUpdates
  cases hpend : p.lastUndeliveredWorkUpdate.lookup uid with
  | none => exact ⟨_, rfl, hinv.drop hpend⟩
  | some workUpdate =>
    obtain ⟨huid, hserial, hwork, ch, hget⟩ := hinv.pending uid workUpdate hpend
    have hafter := (hinv.order.pending uid workUpdate hpend).1
    -- The entry is deleted after the send; the order of the two does not matter.
    have herased := hinv.forgetPending uid
    obtain ⟨target, hsent, htarget, hlast⟩ := herased.deliver hget huid hserial hafter
      fun pending hnone ↦ by
        rw [Map.lookup_erase, if_pos rfl] at hnone
        cases hnone
    rw [hget]
    refine ⟨target, ?_, htarget⟩
    dsimp only [bind_some]
    unfold PodWorkers.send at hsent ⊢
    split_ifs at hsent ⊢ with hopen
    cases hsent
    rfl

theorem send_setLoop (p : PodWorkers UID Payload) (ch other : Chan UID) (loop : Loop UID Payload)
    (update : UpdatePodOptions UID Payload) : (p.setLoop ch loop).send other update =
      (p.send other update).map fun target ↦ target.setLoop ch loop := by
  unfold PodWorkers.send PodWorkers.setLoop PodWorkers.setCell
  by_cases hsame : other = ch
  · subst hsame
    simp [apply_ite]
  · simp [apply_ite, hsame, Ne.symm hsame, update_comm hsame]

theorem checkForUpdates_setLoop (p : PodWorkers UID Payload) (ch : Chan UID)
    (loop : Loop UID Payload) (uid : UID) :
    (p.setLoop ch loop).checkForUpdates uid =
      (p.checkForUpdates uid).map fun target ↦ target.setLoop ch loop := by
  have hlast : (p.setLoop ch loop).lastUndeliveredWorkUpdate = p.lastUndeliveredWorkUpdate := rfl
  have hpods : (p.setLoop ch loop).podUpdates = p.podUpdates := rfl
  unfold PodWorkers.checkForUpdates
  rw [hlast, hpods]
  cases p.lastUndeliveredWorkUpdate.lookup uid with
  | none => rfl
  | some workUpdate =>
    cases p.podUpdates.lookup uid with
    | none => rfl
    | some current =>
      dsimp only [bind_some]
      rw [send_setLoop, map_map, map_map]
      rfl

theorem Inv.wrapUp (hinv : Inv none p) (hloop : (p.cells ch).loop = .wrapping uid) :
    ∃ target, p.checkForUpdates uid = some target ∧ Inv none (target.setLoop ch .receiving) := by
  obtain ⟨released, hsent, hreleased⟩ := (hinv.release hloop).checkForUpdates
  rw [checkForUpdates_setLoop] at hsent
  obtain ⟨target, htarget, rfl⟩ := map_eq_some_iff.mp hsent
  exact ⟨target, htarget, hreleased⟩

/-! ## Runs -/

theorem Inv.step {op : Op UID Payload} (hinv : Inv none p) (hstep : Step p op target) :
    Inv none target := by
  cases hstep with
  | updatePod _ pod updateType payload hsent =>
    obtain ⟨other, hother, htarget⟩ := hinv.updatePod pod updateType payload
    rw [hsent] at hother
    cases hother
    exact htarget
  | forgetWorker uid => exact hinv.removeWorker uid
  | forgetNonExistingPodWorkers desiredPods order _ =>
    exact hinv.forgetNonExistingPodWorkers desiredPods order
  | receive ch update _ hbuf => exact hinv.receive hbuf
  | exit ch hloop hbuf hclosed => exact hinv.exit hloop hbuf hclosed
  | sync ch update hloop => exact hinv.sync hloop
  | skip ch update hloop =>
    refine hinv.moveBusy (by rw [hloop]; nofun) (by rw [hloop]; nofun) nofun nofun nofun nofun ?_
    intro other hother
    cases hother
    exact ((hinv.holds ch).received update hloop).1
  | finish ch update hloop =>
    refine hinv.moveBusy (by rw [hloop]; nofun) (by rw [hloop]; nofun) nofun nofun nofun nofun ?_
    intro other hother
    cases hother
    exact (hinv.holds ch).syncing update hloop
  | wrapUp sent ch uid hloop hsent =>
    obtain ⟨other, hother, htarget⟩ := hinv.wrapUp hloop
    rw [hsent] at hother
    cases hother
    exact htarget

theorem Inv.wellBehaved (hinv : Inv none p) : WellBehaved p where
  exclusive ch other update otherUpdate hloop hother huid := by
    apply hinv.unique ch other
    · exact .inr ⟨by rw [hloop]; nofun, by rw [hloop]; nofun⟩
    · exact .inr ⟨by rw [hother]; nofun, by rw [hother]; nofun⟩
    · rw [← (hinv.holds ch).syncing update hloop, huid, (hinv.holds other).syncing _ hother]
  updatePod uid updateType payload := by
    obtain ⟨target, htarget, -⟩ := hinv.updatePod uid updateType payload
    rw [htarget]
    rfl
  wrapUp ch uid hloop := by
    obtain ⟨target, htarget, -⟩ := hinv.wrapUp hloop
    rw [htarget]
    rfl
  pending uid update hget := by
    obtain ⟨-, -, hwork, ch, hcur⟩ := hinv.pending uid update hget
    refine ⟨⟨ch, hcur, (hinv.current uid ch hcur).2.2.1⟩, hwork, ?_⟩
    exact ((hinv.working uid).mp hwork).resolve_left nofun
  ordered := hinv.order.started

open Transition in
/-- The pod workers behave well in every state of every run. -/
theorem pod_workers_well_behaved (p : PodWorkers UID Payload)
    (hreach : Reachable (· = .new) Step p) : WellBehaved p := by
  apply Inv.wellBehaved
  induction hreach with
  | start hinit => exact hinit ▸ inv_new
  | next _ hstep ih => exact ih.step hstep

section Sample

open Transition

def sampleUpdate (serial : ℕ) : UpdatePodOptions ℕ Unit := ⟨7, .update, (), serial⟩

def sampleSubmit (p : PodWorkers ℕ Unit) : PodWorkers ℕ Unit := (p.updatePod 7 .update ()).getD p

theorem sampleSubmit_step {p : PodWorkers ℕ Unit} (hsent : (p.updatePod 7 .update ()).isSome) :
    Step p (.updatePod 7 .update ()) (sampleSubmit p) := by
  apply Step.updatePod
  obtain ⟨target, htarget⟩ := isSome_iff_exists.mp hsent
  rw [sampleSubmit, htarget, getD_some]

def sampleSyncing : PodWorkers ℕ Unit :=
  let p := (sampleSubmit .new).setCell ⟨7, 0⟩ ⟨none, false, .received (sampleUpdate 0)⟩
  { p.setLoop ⟨7, 0⟩ (.syncing (sampleUpdate 0)) with started := [sampleUpdate 0] }

/-- The worker is forgotten and a later update is pending.  The pod has a new channel, but the old
worker is busy. -/
def sampleForgotten : PodWorkers ℕ Unit := sampleSubmit (sampleSyncing.removeWorker 7)

theorem forgotten_worker_well_behaved :
    (sampleForgotten.cells ⟨7, 0⟩).loop = .syncing (sampleUpdate 0) ∧
      Finmap.lookup 7 sampleForgotten.podUpdates = some ⟨7, 1⟩ ∧
      Finmap.lookup 7 sampleForgotten.lastUndeliveredWorkUpdate = some (sampleUpdate 1) ∧
      WellBehaved sampleForgotten := by
  refine ⟨by decide +kernel, by decide +kernel, by decide +kernel, pod_workers_well_behaved _ ?_⟩
  have hstart : Reachable (· = .new) Step (.new : PodWorkers ℕ Unit) := .start rfl
  have hsubmitted := hstart.next (sampleSubmit_step (by decide +kernel))
  have hreceived := hsubmitted.next
    (.receive ⟨7, 0⟩ (sampleUpdate 0) (by decide +kernel) (by decide +kernel))
  have hsyncing := hreceived.next (.sync ⟨7, 0⟩ (sampleUpdate 0) (by decide +kernel))
  have hforgotten := hsyncing.next (.forgetWorker 7)
  exact hforgotten.next (sampleSubmit_step (by decide +kernel))

end Sample

end Kubernetes.Kubelet

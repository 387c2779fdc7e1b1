import Kubernetes.Registry.EtcdAllocator

/-!
# No offset is allocated twice

An offset is outstanding when it was returned as allocated and no `Release` of it was under way
since.  The outstanding offsets are in the record, and in the bitmap of a server that belongs to the
current version, so nobody can allocate them again.

The one exception is a storage that skips unchanged objects.  A failed `Release` leaves a server
with the current version and without a bit of the record, and an allocation of this bit then
succeeds without a new version.
-/

namespace Kubernetes.Registry

open Finset Function

variable {Server : Type}

/-- The offset was returned as allocated and no `Release` of it was under way since. -/
def Outstanding : List EtcdEvent → ℕ → Prop
  | [], _ => False
  | .allocated offset :: log, x => x = offset ∨ Outstanding log x
  | .release offset :: log, x => x ≠ offset ∧ Outstanding log x

def Exclusive : List EtcdEvent → Prop
  | [] => True
  | .allocated offset :: log => ¬Outstanding log offset ∧ Exclusive log
  | .release _ :: log => Exclusive log

variable {offset : ℕ}

theorem outstanding_of_release_notMem {between before : List EtcdEvent}
    (hbetween : EtcdEvent.release offset ∉ between) :
    Outstanding (between ++ .allocated offset :: before) offset := by
  induction between with
  | nil => exact .inl rfl
  | cons event between ih =>
    rw [List.mem_cons, not_or] at hbetween
    cases event with
    | allocated other => exact .inr (ih hbetween.2)
    | release other => exact ⟨fun heq ↦ hbetween.1 (heq ▸ rfl), ih hbetween.2⟩

variable {log : List EtcdEvent}

/-- Between two allocations of an offset a `Release` of it was under way. -/
theorem Exclusive.release_mem {after between before : List EtcdEvent} (hlog : Exclusive log)
    (hsplit : log = after ++ .allocated offset :: (between ++ .allocated offset :: before)) :
    EtcdEvent.release offset ∈ between := by
  subst hsplit
  induction after with
  | nil =>
    by_contra hbetween
    exact hlog.1 (outstanding_of_release_notMem hbetween)
  | cons event after ih =>
    cases event with
    | allocated other => exact ih hlog.2
    | release other => exact ih hlog

theorem outstanding_progress {op : EtcdOp} {x : ℕ} (h : Outstanding (op.progress ++ log) x) :
    Outstanding log x := by
  cases op with
  | allocate | allocateNext => exact h
  | release => exact h.2

theorem exclusive_progress {op : EtcdOp} (h : Exclusive log) : Exclusive (op.progress ++ log) := by
  cases op <;> exact h

def EtcdOp.allocates : EtcdOp → Option ℕ
  | .allocate offset => some offset
  | .allocateNext offset => some offset
  | .release _ => none

theorem EtcdOp.success_of_not_allocates {op : EtcdOp} (h : op.allocates = none) :
    op.success = op.progress := by
  cases op <;> cases h
  rfl

/-! ## The closure -/

variable (bitmap : AllocationBitmap)

theorem allocate_cases (offset : ℕ) :
    (offset ∈ bitmap.allocated ∧ bitmap.allocate offset = (bitmap, false)) ∨
      (offset ∉ bitmap.allocated ∧ bitmap.allocate offset =
        ({ bitmap with allocated := insert offset bitmap.allocated }, true)) := by
  by_cases hmem : offset ∈ bitmap.allocated
  · exact .inl ⟨hmem, by simp [AllocationBitmap.allocate, hmem]⟩
  · exact .inr ⟨hmem, by simp [AllocationBitmap.allocate, hmem]⟩

theorem allocateNext_cases (random : ℕ) :
    bitmap.allocateNext random = (bitmap, none) ∨
      ∃ offset, offset ∉ bitmap.allocated ∧ bitmap.allocateNext random =
        ({ bitmap with allocated := insert offset bitmap.allocated }, some offset) := by
  cases hscan : bitmap.randomScanStrategy random with
  | none => exact .inl (by simp [AllocationBitmap.allocateNext, hscan])
  | some offset =>
    exact .inr ⟨offset, (PortAllocator.randomScanStrategy_eq_some hscan).2,
      by simp [AllocationBitmap.allocateNext, hscan]⟩

theorem allocated_release (offset : ℕ) :
    (bitmap.release offset).allocated = bitmap.allocated.erase offset := by
  unfold AllocationBitmap.release
  split_ifs with hmem
  · rfl
  · exact (erase_eq_of_notMem hmem).symm

/-- What an operation does to a bitmap: it sets a free bit, or it clears the bit it releases. -/
inductive Etcd.Change (before : Finset ℕ) : EtcdOp → Finset ℕ → Prop
  | allocate {op : EtcdOp} {offset : ℕ} (hop : op.allocates = some offset)
      (hfree : offset ∉ before) : Change before op (insert offset before)
  | release (item : ℕ) : Change before (.release item) (before.erase item)

theorem Etcd.Change.of_allocates {before after : Finset ℕ} {op : EtcdOp}
    (hchange : Etcd.Change before op after) (hop : op.allocates = some offset) :
    offset ∉ before ∧ after = insert offset before := by
  cases hchange with
  | allocate hallocates hfree =>
    cases hallocates.symm.trans hop
    exact ⟨hfree, rfl⟩
  | release item => cases hop

variable {random : ℕ}

/-- The function of an operation changes the bitmap in the way of the operation, or fails. -/
theorem Etcd.fn_ok {alloc next : AllocationBitmap} {op done : EtcdOp}
    (h : Etcd.fn alloc random op = .ok (next, done)) :
    Etcd.Change alloc.allocated done next.allocated ∧ done.progress = op.progress := by
  cases op with
  | allocate offset =>
    rcases allocate_cases alloc offset with ⟨-, heq⟩ | ⟨hfree, heq⟩ <;>
      simp only [Etcd.fn, heq] at h
    · cases h
    · cases h
      exact ⟨.allocate rfl hfree, rfl⟩
  | allocateNext offset =>
    rcases allocate_cases alloc offset with ⟨-, heq⟩ | ⟨hfree, heq⟩ <;>
      simp only [Etcd.fn, heq] at h
    · rcases allocateNext_cases alloc random with hnext | ⟨next, hfree, hnext⟩ <;>
        simp only [hnext] at h
      · cases h
      · cases h
        exact ⟨.allocate rfl hfree, rfl⟩
    · cases h
      exact ⟨.allocate rfl hfree, rfl⟩
  | release item =>
    cases h
    rw [allocated_release]
    exact ⟨.release item, rfl⟩

variable {e etcd next : Etcd}

/-- A call that goes on to `tryUpdate` has changed the local bitmap in the way of its operation. -/
theorem Etcd.begin_some {call : EtcdCall} {op : EtcdOp}
    (h : e.begin random call = (next, some op)) :
    next.last = e.last ∧ Etcd.Change e.alloc.allocated op next.alloc.allocated ∧
      ∀ offset ∈ op.allocates, call = .allocate offset ∨ call = .allocateNext := by
  cases call with
  | allocate offset =>
    rcases allocate_cases e.alloc offset with ⟨-, heq⟩ | ⟨hfree, heq⟩ <;>
      simp only [Etcd.begin, heq] at h
    · cases h
    · cases h
      exact ⟨rfl, .allocate rfl hfree, by simp [EtcdOp.allocates]⟩
  | allocateNext =>
    rcases allocateNext_cases e.alloc random with hnext | ⟨next, hfree, hnext⟩ <;>
      simp only [Etcd.begin, hnext] at h
    · cases h
    · cases h
      exact ⟨rfl, .allocate rfl hfree, by simp [EtcdOp.allocates]⟩
  | release item =>
    cases h
    rw [allocated_release]
    exact ⟨rfl, .release item, by simp [EtcdOp.allocates]⟩

theorem Etcd.begin_none {call : EtcdCall} (h : e.begin random call = (next, none)) : next = e := by
  cases call with
  | allocate offset =>
    rcases allocate_cases e.alloc offset with ⟨-, heq⟩ | ⟨hfree, heq⟩ <;>
      simp only [Etcd.begin, heq] at h <;> cases h
    rfl
  | allocateNext =>
    rcases allocateNext_cases e.alloc random with hnext | ⟨next, -, hnext⟩ <;>
      simp only [Etcd.begin, hnext] at h <;> cases h
    rfl
  | release item => cases h

variable {output existing : RangeAllocation}

/-- The closure succeeds with the bitmap as it is at the last version, and with a change of the
record otherwise. -/
theorem Etcd.tryUpdate_ok {op done : EtcdOp}
    (h : e.tryUpdate op random existing = (next, .ok (output, done))) :
    next.last = existing.resourceVersion ∧ output.data = next.alloc.allocated ∧
      done.progress = op.progress ∧
      ((existing.resourceVersion = e.last ∧ next = e ∧ done = op) ∨
        Etcd.Change existing.data done next.alloc.allocated) := by
  unfold Etcd.tryUpdate at h
  split_ifs at h with hmissing hver
  · cases h
  · unfold Etcd.restore at h
    split_ifs at h with hrange
    · cases h
    · dsimp only at h
      split at h
      · cases h
      · rename_i alloc changed hfn
        cases h
        obtain ⟨hchange, hprog⟩ := Etcd.fn_ok hfn
        exact ⟨rfl, rfl, hprog, .inr hchange⟩
  · cases h
    have hlast := not_not.mp hver
    exact ⟨hlast.symm, rfl, rfl, .inl ⟨hlast, rfl, rfl⟩⟩

/-- A closure that fails leaves the allocator alone, or restored but with its old version. -/
theorem Etcd.tryUpdate_error {op : EtcdOp} {err : EtcdError}
    (h : e.tryUpdate op random existing = (next, .error err)) :
    next = e ∨ (next.last = e.last ∧ existing.resourceVersion ≠ e.last) := by
  unfold Etcd.tryUpdate at h
  split_ifs at h with hmissing hver
  · cases h
    exact .inl rfl
  · unfold Etcd.restore at h
    split_ifs at h with hrange
    · cases h
      exact .inl rfl
    · dsimp only at h
      split at h <;> cases h
      exact .inr ⟨rfl, hver⟩
  · cases h

/-! ## The invariant -/

def EtcdPhase.op : EtcdPhase → Option EtcdOp
  | .idle => none
  | .updating op => some op
  | .committing op _ _ => some op

/-- What holds of one server as long as its bitmap belongs to the version of the record. -/
structure EtcdServer.Current (skipsUnchanged : Bool) (record : RangeAllocation)
    (log : List EtcdEvent) (server : EtcdServer) : Prop where
  outstanding_mem : ∀ x, Outstanding log x → x ∈ server.etcd.alloc.allocated
  offset_mem : ∀ op ∈ server.phase.op, ∀ offset ∈ op.allocates,
    offset ∈ server.etcd.alloc.allocated
  offset_free : ∀ op ∈ server.phase.op, ∀ offset ∈ op.allocates, ¬Outstanding log offset
  offset_new : skipsUnchanged = true → ∀ op ∈ server.phase.op, ∀ offset ∈ op.allocates,
    offset ∉ record.data

structure EtcdServer.Sound (skipsUnchanged : Bool) (state : EtcdCluster Server)
    (server : EtcdServer) : Prop where
  last_mem : server.etcd.last ∈ state.versions ∨ server.etcd.last = ""
  current : server.etcd.last = state.record.resourceVersion →
    server.Current skipsUnchanged state.record state.log
  committing : ∀ op version output, server.phase = .committing op version output →
    server.etcd.last = version ∧ output.data = server.etcd.alloc.allocated

structure EtcdCluster.Sound (skipsUnchanged : Bool) (state : EtcdCluster Server) : Prop where
  exclusive : Exclusive state.log
  outstanding_mem : ∀ x, Outstanding state.log x → x ∈ state.record.data
  version_mem : state.record.resourceVersion ∈ state.versions
  server : ∀ server, (state.servers server).Sound skipsUnchanged state

variable {skipsUnchanged : Bool}

variable {record : RangeAllocation}

theorem EtcdServer.Current.mono {next : List EtcdEvent} {server : EtcdServer}
    (hserver : server.Current skipsUnchanged record log)
    (hlog : ∀ x, Outstanding next x → Outstanding log x) :
    server.Current skipsUnchanged record next where
  outstanding_mem x hx := hserver.outstanding_mem x (hlog x hx)
  offset_mem := hserver.offset_mem
  offset_free op hop offset hoffset hx := hserver.offset_free op hop offset hoffset (hlog _ hx)
  offset_new := hserver.offset_new

theorem EtcdServer.Current.idle (hetcd : ∀ x, Outstanding log x → x ∈ etcd.alloc.allocated) :
    EtcdServer.Current skipsUnchanged record log ⟨etcd, .idle⟩ where
  outstanding_mem := hetcd
  offset_mem _ hop := nomatch hop
  offset_free _ hop := nomatch hop
  offset_new _ _ hop := nomatch hop

theorem EtcdServer.Current.of_change {phase : EtcdPhase} {op : EtcdOp} {before : Finset ℕ}
    (hphase : phase.op = some op) (hchange : Etcd.Change before op etcd.alloc.allocated)
    (hbefore : ∀ x, Outstanding log x → x ∈ before)
    (hnew : skipsUnchanged = true → ∀ offset ∈ op.allocates, offset ∈ record.data →
      offset ∈ before) :
    EtcdServer.Current skipsUnchanged record (op.progress ++ log) ⟨etcd, phase⟩ := by
  have hop : ∀ other ∈ phase.op, other = op := fun other h ↦
    (Option.some.inj (hphase.symm.trans h)).symm
  generalize halloc : etcd.alloc.allocated = after at hchange
  cases hchange with
  | @allocate op offset hallocates hfree =>
    have hlog : ∀ x, Outstanding (op.progress ++ log) x → Outstanding log x := fun _ ↦
      outstanding_progress
    have hoffset : ∀ other ∈ phase.op, ∀ x ∈ other.allocates, x = offset := fun other h x hx ↦ by
      rw [hop other h, hallocates] at hx
      exact (Option.some.inj hx).symm
    refine ⟨fun x hx ↦ ?_, fun other h x hx ↦ ?_, fun other h x hx hout ↦ ?_,
      fun hskips other h x hx hmem ↦ ?_⟩
    · rw [halloc]
      exact mem_insert_of_mem (hbefore x (hlog x hx))
    · rw [halloc, hoffset other h x hx]
      exact mem_insert_self _ _
    · rw [hoffset other h x hx] at hout
      exact hfree (hbefore offset (hlog offset hout))
    · rw [hoffset other h x hx] at hmem
      exact hfree (hnew hskips offset hallocates hmem)
  | release item =>
    have hnone : ∀ other ∈ phase.op, other.allocates = none := fun other h ↦ by
      rw [hop other h]
      rfl
    refine ⟨fun x hx ↦ ?_, fun other h x hx ↦ ?_, fun other h x hx ↦ ?_, fun _ other h x hx ↦ ?_⟩
    · rw [halloc]
      exact mem_erase.mpr ⟨hx.1, hbefore x hx.2⟩
    all_goals
      rw [hnone other h] at hx
      cases hx

namespace EtcdCluster

variable [DecidableEq Server]

variable {state : EtcdCluster Server}

/-- A step of one server that shows only the progress of its operation keeps the invariant of the
others. -/
theorem Sound.set (hstate : state.Sound skipsUnchanged) (server : Server) {etcd : Etcd}
    {phase : EtcdPhase} {events : List EtcdEvent} (hexclusive : Exclusive (events ++ state.log))
    (hevents : ∀ x, Outstanding (events ++ state.log) x → Outstanding state.log x)
    (hlast : etcd.last ∈ state.versions ∨ etcd.last = "")
    (hcur : etcd.last = state.record.resourceVersion →
      EtcdServer.Current skipsUnchanged state.record (events ++ state.log) ⟨etcd, phase⟩)
    (hcommitting : ∀ op version output, phase = .committing op version output →
      etcd.last = version ∧ output.data = etcd.alloc.allocated) :
    (state.set server etcd phase events).Sound skipsUnchanged where
  exclusive := hexclusive
  outstanding_mem x hx := hstate.outstanding_mem x (hevents x hx)
  version_mem := hstate.version_mem
  server other := by
    by_cases heq : other = server
    · subst heq
      simp only [EtcdCluster.set, update_self]
      exact ⟨hlast, hcur, hcommitting⟩
    · simp only [EtcdCluster.set, update_of_ne heq]
      have hother := hstate.server other
      exact ⟨hother.last_mem, fun h ↦ (hother.current h).mono hevents, hother.committing⟩

section

variable (hstate : state.Sound skipsUnchanged)

include hstate

theorem Sound.begin (server : Server) (call : EtcdCall) (random : ℕ)
    (husable : state.Usable skipsUnchanged (.begin server call)) :
    (state.begin server call random).Sound skipsUnchanged := by
  have hserver := hstate.server server
  unfold EtcdCluster.begin
  split
  · rename_i etcd hbegin
    rw [Etcd.begin_none hbegin]
    exact hstate.set server hstate.exclusive (fun _ h ↦ h) hserver.last_mem
      (fun h ↦ .idle (hserver.current h).outstanding_mem) fun _ _ _ h ↦ nomatch h
  · rename_i etcd op hbegin
    obtain ⟨hlast, hchange, hcall⟩ := Etcd.begin_some hbegin
    refine hstate.set server (exclusive_progress hstate.exclusive) (fun _ ↦ outstanding_progress)
      (hlast ▸ hserver.last_mem) (fun h ↦ ?_) fun _ _ _ h ↦ nomatch h
    refine .of_change rfl hchange (hserver.current (hlast ▸ h)).outstanding_mem
      fun hskips offset hoffset hmem ↦ ?_
    rcases hcall offset hoffset with rfl | rfl
    · exact husable hskips (hlast ▸ h) hmem
    · exact husable hskips (hlast ▸ h) hmem

omit [DecidableEq Server] in
theorem allocates_eq_none_of_unchanged {server : Server} {op done : EtcdOp} {random : ℕ}
    {etcd : Etcd} (hphase : (state.servers server).phase = .updating op)
    (hupd : (state.servers server).etcd.tryUpdate op random state.record = (etcd, .ok (output, done)))
    (hskips : skipsUnchanged = true) (hdata : output.data = state.record.data) : done.allocates =
    none := by
  obtain ⟨-, houtput, -, hcases⟩ := Etcd.tryUpdate_ok hupd
  rw [Option.eq_none_iff_forall_ne_some]
  intro offset hoffset
  have hop : op ∈ (state.servers server).phase.op := by
    rw [hphase]
    rfl
  rcases hcases with ⟨hver, rfl, rfl⟩ | hchange
  · have hcur := (hstate.server server).current hver.symm
    refine hcur.offset_new hskips done hop offset hoffset ?_
    rw [← hdata, houtput]
    exact hcur.offset_mem done hop offset hoffset
  · obtain ⟨hfree, hinsert⟩ := hchange.of_allocates hoffset
    apply hfree
    rw [← hdata, houtput, hinsert]
    exact mem_insert_self _ _

theorem Sound.attempt (server : Server) (op : EtcdOp) (random : ℕ)
    (hphase : (state.servers server).phase = .updating op) :
    (state.attempt skipsUnchanged server op random).Sound skipsUnchanged := by
  have hserver := hstate.server server
  have hexclusive : ∀ done : EtcdOp, Exclusive (done.progress ++ state.log) := fun _ ↦
    exclusive_progress hstate.exclusive
  unfold EtcdCluster.attempt
  split
  · rename_i etcd err hupd
    refine hstate.set server (hexclusive op) (fun _ ↦ outstanding_progress) ?_ (fun h ↦ ?_)
      fun _ _ _ h ↦ nomatch h
    · rcases Etcd.tryUpdate_error hupd with rfl | ⟨hlast, -⟩
      · exact hserver.last_mem
      · exact hlast ▸ hserver.last_mem
    · rcases Etcd.tryUpdate_error hupd with rfl | ⟨hlast, hver⟩
      · exact .idle fun x hx ↦ (hserver.current h).outstanding_mem x (outstanding_progress hx)
      · exact absurd (h.symm.trans hlast) hver
  · rename_i etcd output done hupd
    obtain ⟨hlast, houtput, -, hcases⟩ := Etcd.tryUpdate_ok hupd
    have hlastMem : etcd.last ∈ state.versions ∨ etcd.last = "" := .inl (hlast ▸ hstate.version_mem)
    have hcur : ∀ phase : EtcdPhase, phase.op = some done →
        EtcdServer.Current skipsUnchanged state.record (done.progress ++ state.log)
          ⟨etcd, phase⟩ := by
      intro phase hdone
      rcases hcases with ⟨hver, rfl, rfl⟩ | hchange
      · have hlog : ∀ x, Outstanding (done.progress ++ state.log) x → Outstanding state.log x :=
          fun _ ↦ outstanding_progress
        have hold := (hserver.current hver.symm).mono hlog
        have hop : (state.servers server).phase.op = phase.op := by
          rw [hphase, hdone]
          rfl
        exact ⟨hold.outstanding_mem, hop ▸ hold.offset_mem, hop ▸ hold.offset_free,
          hop ▸ hold.offset_new⟩
      · exact .of_change hdone hchange hstate.outstanding_mem fun _ _ _ ↦ id
    split_ifs with hunchanged
    · have hnone := allocates_eq_none_of_unchanged hstate hphase hupd hunchanged.1 hunchanged.2.2
      rw [EtcdOp.success_of_not_allocates hnone]
      exact hstate.set server (hexclusive done) (fun _ ↦ outstanding_progress) hlastMem
        (fun _ ↦ .idle (hcur (.updating done) rfl).outstanding_mem) fun _ _ _ h ↦ nomatch h
    · refine hstate.set server (hexclusive done) (fun _ ↦ outstanding_progress) hlastMem
        (fun _ ↦ hcur _ rfl) fun _ _ _ h ↦ ?_
      cases h
      exact ⟨hlast, houtput⟩

/-- A write gives the record a version that no server has, and its bits are those of the writer. -/
theorem Sound.commit {server : Server} {op : EtcdOp} {version : String} (answered : Bool)
    (hphase : (state.servers server).phase = .committing op state.record.resourceVersion output)
    (hfresh : version ∉ state.versions) (hver : version ≠ "") :
    (state.commit server op output version answered).Sound skipsUnchanged := by
  have hserver := hstate.server server
  obtain ⟨hlast, hdata⟩ := hserver.committing _ _ _ hphase
  have hcur := hserver.current hlast
  have hop : op ∈ (state.servers server).phase.op := by
    rw [hphase]
    rfl
  have hstale : ∀ other, (state.servers other).etcd.last ≠ version := by
    intro other heq
    rcases (hstate.server other).last_mem with hmem | hempty
    · exact hfresh (heq ▸ hmem)
    · exact hver (heq ▸ hempty)
  have hevents : Exclusive ((if answered then op.success else op.progress) ++ state.log) ∧
      ∀ x, Outstanding ((if answered then op.success else op.progress) ++ state.log) x →
        x ∈ output.data := by
    have hprog : Exclusive (op.progress ++ state.log) ∧
        ∀ x, Outstanding (op.progress ++ state.log) x → x ∈ output.data :=
      ⟨exclusive_progress hstate.exclusive, fun x hx ↦
        hdata ▸ hcur.outstanding_mem x (outstanding_progress hx)⟩
    split_ifs
    · cases hallocates : op.allocates with
      | none =>
        rw [EtcdOp.success_of_not_allocates hallocates]
        exact hprog
      | some offset =>
        have hsuccess : op.success = [.allocated offset] := by
          cases op <;> cases hallocates <;> rfl
        rw [hsuccess]
        refine ⟨⟨hcur.offset_free op hop offset hallocates, hstate.exclusive⟩, fun x hx ↦ ?_⟩
        rw [hdata]
        rcases hx with rfl | hold
        · exact hcur.offset_mem op hop x hallocates
        · exact hcur.outstanding_mem x hold
    · exact hprog
  refine ⟨hevents.1, hevents.2, mem_insert_self _ _, fun other ↦ ?_⟩
  have hlastMem := (hstate.server other).last_mem.imp_left (mem_insert_of_mem (b := version))
  by_cases heq : other = server
  · subst heq
    simp only [EtcdCluster.commit, EtcdCluster.set, update_self]
    exact ⟨hlastMem, fun h ↦ absurd h (hstale other), fun _ _ _ h ↦ nomatch h⟩
  · simp only [EtcdCluster.commit, EtcdCluster.set, update_of_ne heq]
    exact ⟨hlastMem, fun h ↦ absurd h (hstale other), (hstate.server other).committing⟩

theorem Sound.step {next : EtcdCluster Server} {label : EtcdLabel Server}
    (husable : state.Usable skipsUnchanged label) (hstep : EtcdStep skipsUnchanged state label next)
    : next.Sound skipsUnchanged := by
  cases hstep with
  | begin server call random hphase => exact hstate.begin server call random husable
  | attempt server op random hphase => exact hstate.attempt server op random hphase
  | commit server op output version answered hphase hfresh hver =>
    exact hstate.commit answered hphase hfresh hver
  | retry server op version output hphase =>
    have hserver := hstate.server server
    have hop : (state.servers server).phase.op = (EtcdPhase.updating op).op := by
      rw [hphase]
      rfl
    refine hstate.set server hstate.exclusive (fun _ h ↦ h) hserver.last_mem (fun h ↦ ?_)
      fun _ _ _ h ↦ nomatch h
    have hold := hserver.current h
    exact ⟨hold.outstanding_mem, hop ▸ hold.offset_mem, hop ▸ hold.offset_free,
      hop ▸ hold.offset_new⟩
  | fail server =>
    have hserver := hstate.server server
    exact hstate.set server hstate.exclusive (fun _ h ↦ h) hserver.last_mem
      (fun h ↦ .idle (hserver.current h).outstanding_mem) fun _ _ _ h ↦ nomatch h

end

omit [DecidableEq Server] in
theorem sound_of_isNew (hnew : IsNewEtcdCluster state) : state.Sound skipsUnchanged where
  exclusive := by
    rw [hnew.log_eq]
    trivial
  outstanding_mem x hx := by
    rw [hnew.log_eq] at hx
    exact hx.elim
  version_mem := hnew.version_mem
  server server :=
    { last_mem := .inr (hnew.last_eq server)
      current := fun _ ↦
        { outstanding_mem := fun x hx ↦ by
            rw [hnew.log_eq] at hx
            exact hx.elim
          offset_mem := fun op hop ↦ by
            rw [hnew.idle server] at hop
            cases hop
          offset_free := fun op hop ↦ by
            rw [hnew.idle server] at hop
            cases hop
          offset_new := fun _ op hop ↦ by
            rw [hnew.idle server] at hop
            cases hop }
      committing := fun op version output h ↦ by
        rw [hnew.idle server] at h
        cases h }

theorem ReachableUsable.sound (hreach : state.ReachableUsable skipsUnchanged) :
    state.Sound skipsUnchanged := by
  refine Transition.Reachable.invariant ?_ ?_ hreach
  · exact fun state hnew ↦ sound_of_isNew hnew
  · exact fun state label next _ hstate hstep ↦ hstate.step hstep.1 hstep.2

/-- In every usable run, between two allocations of one offset a `Release` of the offset was under
way. -/
theorem ReachableUsable.release_between {state : EtcdCluster Server}
    (hreach : state.ReachableUsable skipsUnchanged) {after between before : List EtcdEvent}
    {offset : ℕ}
    (hlog : state.log = after ++ .allocated offset :: (between ++ .allocated offset :: before)) :
    EtcdEvent.release offset ∈ between :=
  hreach.sound.exclusive.release_mem hlog

/-! ## Two servers -/

def started : EtcdCluster Bool where
  record := ⟨"1", "range", ∅⟩
  servers _ := ⟨⟨⟨8, ∅⟩, "range", ""⟩, .idle⟩
  versions := {"1"}
  log := []

theorem started_isNew : IsNewEtcdCluster started where
  idle _ := rfl
  allocated_eq _ := rfl
  last_eq _ := rfl
  version_mem := by decide
  log_eq := rfl

def call (state : EtcdCluster Bool) (server : Bool) (call : EtcdCall) (op : EtcdOp) :
    EtcdCluster Bool :=
  (state.begin server call 0).attempt true server op 0

def failed (state : EtcdCluster Bool) (server : Bool) : EtcdCluster Bool :=
  state.set server (state.servers server).etcd .idle []

def allocatedFive : EtcdCluster Bool :=
  (started.call true (.allocate 5) (.allocate 5)).commit true (.allocate 5)
    ⟨"1", "range", {5}⟩ "2" true

def releasedFive : EtcdCluster Bool :=
  (allocatedFive.call true (.release 5) (.release 5)).commit true (.release 5)
    ⟨"2", "range", ∅⟩ "3" true

def reallocatedFive : EtcdCluster Bool :=
  (releasedFive.call false (.allocate 5) (.allocate 5)).commit false (.allocate 5)
    ⟨"3", "range", {5}⟩ "4" true

def unreleasedFive : EtcdCluster Bool :=
  let first := (allocatedFive.call true (.release 5) (.release 5)).failed true
  (first.call false (.release 5) (.release 5)).failed false

def doublyAllocatedFive : EtcdCluster Bool :=
  (unreleasedFive.call true (.allocate 5) (.allocate 5)).call false (.allocate 5) (.allocate 5)

theorem reallocatedFive_released :
    EtcdEvent.release 5 ∈ List.replicate 3 (EtcdEvent.release 5) := by
  have hallocated : allocatedFive.ReachableUsable true :=
    (((Transition.Reachable.start started_isNew).guardedNext
      (.begin started true (.allocate 5) 0 rfl) fun _ h ↦ absurd h (by decide)).guardedNext
      (.attempt _ true (.allocate 5) 0 rfl) trivial).guardedNext
      (.commit _ true _ _ "2" true rfl (by decide) (by decide)) trivial
  have hreleased : releasedFive.ReachableUsable true :=
    ((hallocated.guardedNext (.begin allocatedFive true (.release 5) 0 rfl) trivial).guardedNext
      (.attempt _ true (.release 5) 0 rfl) trivial).guardedNext
      (.commit _ true _ _ "3" true rfl (by decide) (by decide)) trivial
  have hreallocated : reallocatedFive.ReachableUsable true :=
    ((hreleased.guardedNext (.begin releasedFive false (.allocate 5) 0 rfl)
      fun _ h ↦ absurd h (by decide)).guardedNext
      (.attempt _ false (.allocate 5) 0 rfl) trivial).guardedNext
      (.commit _ false _ _ "4" true rfl (by decide) (by decide)) trivial
  have hlog : reallocatedFive.log =
      [] ++ .allocated 5 :: (List.replicate 3 (.release 5) ++ .allocated 5 :: []) := rfl
  exact hreallocated.release_between hlog

/-- After two failed releases both servers have the current version without the bit, and allocate
the offset without a write. -/
theorem doublyAllocatedFive_allocated :
    doublyAllocatedFive.Reachable true ∧
      ∃ before, doublyAllocatedFive.log = .allocated 5 :: ([] ++ .allocated 5 :: before) := by
  have hallocated : allocatedFive.Reachable true :=
    .next (.next (.next (.start started_isNew) (.begin started true (.allocate 5) 0 rfl))
      (.attempt _ true (.allocate 5) 0 rfl))
      (.commit _ true _ _ "2" true rfl (by decide) (by decide))
  have hfirst : ((allocatedFive.call true (.release 5) (.release 5)).failed true).Reachable true :=
    .next (.next (.next hallocated (.begin allocatedFive true (.release 5) 0 rfl))
      (.attempt _ true (.release 5) 0 rfl)) (.fail _ true)
  have hsecond : unreleasedFive.Reachable true :=
    .next (.next (.next hfirst (.begin _ false (.release 5) 0 rfl))
      (.attempt _ false (.release 5) 0 rfl)) (.fail _ false)
  have hthird : (unreleasedFive.call true (.allocate 5) (.allocate 5)).Reachable true :=
    .next (.next hsecond (.begin _ true (.allocate 5) 0 rfl)) (.attempt _ true (.allocate 5) 0 rfl)
  have hlast : doublyAllocatedFive.Reachable true :=
    .next (.next hthird (.begin _ false (.allocate 5) 0 rfl))
      (.attempt _ false (.allocate 5) 0 rfl)
  exact ⟨hlast, _, rfl⟩

end EtcdCluster

end Kubernetes.Registry

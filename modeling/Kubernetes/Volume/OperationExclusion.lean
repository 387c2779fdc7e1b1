import Kubernetes.Volume.NestedPendingOperations
import Mathlib.Data.Bool.Basic
import Mathlib.Order.Nat

/-!
# Volume operations exclude each other

If the first record that matches is of an operation that failed, `Run` takes it over, and a pending
record behind it is not seen.  So an operation for the whole volume may start while one for a pod
runs.  Similarly, the completion of an operation takes the first record with its key, which may be
of an operation that failed before.
-/

namespace Kubernetes.Volume

open List

variable {grm target : NestedPendingOperations} {e : Executor} {key : Key}

theorem split_of_findIdx? {α : Type*} {p : α → Bool} {items : List α} {i : ℕ}
    (hfind : items.findIdx? p = some i) :
    ∃ before item after, items = before ++ item :: after ∧ before.length = i ∧ p item = true ∧
      ∀ other ∈ before, p other = false := by
  rw [List.findIdx?_eq_some_iff_getElem] at hfind
  obtain ⟨hi, hitem, hbefore⟩ := hfind
  refine ⟨items.take i, items[i], items.drop (i + 1), ?_, ?_, hitem, ?_⟩
  · rw [getElem_cons_drop, take_append_drop]
  · rw [length_take, Nat.min_eq_left hi.le]
  · intro other hother
    obtain ⟨j, hj, rfl⟩ := mem_take_iff_getElem.mp hother
    exact Bool.eq_false_of_not_eq_true (hbefore j (by omega))

theorem modify_length_append {α : Type*} (before : List α) (item : α) (after : List α) (f : α → α) :
    (before ++ item :: after).modify before.length f = before ++ f item :: after := by
  induction before with
  | nil => rfl
  | cons first before ih => exact congrArg (first :: ·) ih

/-- `Run` appends a record, or takes over the first record that matches, which is of an operation
that failed. -/
theorem run_eq_ok {now : ℕ} (hrun : grm.run key now = .ok target) :
    target = { grm with operations := grm.operations ++ [⟨key, true, .new⟩] } ∧
        (key.volumeName ≠ "" → ∀ op ∈ grm.operations, ¬ op.key.Matches key) ∨
      key.volumeName ≠ "" ∧ ∃ before op after, grm.operations = before ++ op :: after ∧
        op.operationPending = false ∧ op.key.Matches key ∧ (∀ other ∈ before, ¬ other.key.Matches key) ∧
        target = { grm with
          operations := before ++ { op with operationPending := true, key := key } :: after } := by
  rw [NestedPendingOperations.run] at hrun
  split at hrun
  · next _ hexists =>
    right
    rw [NestedPendingOperations.isOperationExists] at hexists
    split_ifs at hexists with hvol
    obtain ⟨before, op, after, hops, rfl, hmatch, hbefore⟩ := split_of_findIdx? hexists
    have hget : grm.operations[before.length]? = some op := by
      rw [hops, List.getElem?_append_right le_rfl, Nat.sub_self]
      rfl
    simp only [hget] at hrun
    split_ifs at hrun with hpend hsafe
    refine ⟨hvol, before, op, after, hops, Bool.eq_false_of_not_eq_true hpend,
      of_decide_eq_true hmatch, fun other hother ↦ of_decide_eq_false (hbefore other hother), ?_⟩
    rw [← Except.ok.inj hrun, hops, set_append_right _ _ le_rfl, Nat.sub_self]
    rfl
  · next hexists =>
    left
    refine ⟨(Except.ok.inj hrun).symm, ?_⟩
    intro hvol op hop hmatch
    rw [NestedPendingOperations.isOperationExists, if_neg hvol] at hexists
    exact absurd hmatch (of_decide_eq_false (List.findIdx?_eq_none_iff.mp hexists op hop))

/-! ## The invariant -/

/-- No failed record has the key of a pending one. -/
def Settled (operations : List Operation) : Prop :=
  ∀ op ∈ operations, ∀ other ∈ operations, op.key = other.key →
    op.operationPending = other.operationPending

def pendingKeys (operations : List Operation) : List Key :=
  (operations.filter (·.operationPending)).map (·.key)

structure Inv (e : Executor) : Prop where
  compatible : e.running.Pairwise Key.Compatible
  pending : (pendingKeys e.grm.operations).Perm e.running
  settled : Settled e.grm.operations

theorem mem_pendingKeys {operations : List Operation} :
    key ∈ pendingKeys operations ↔
      ∃ op ∈ operations, op.operationPending = true ∧ op.key = key := by
  simp [pendingKeys, and_assoc]

theorem Key.Matches.symm {other : Key} (hmatch : key.Matches other) : other.Matches key := by
  obtain ⟨hvol, hpod⟩ := hmatch
  refine ⟨hvol.symm, ?_⟩
  rcases hpod with hpod | hpod | hpod
  · exact .inr (.inl hpod)
  · exact .inl hpod
  · exact .inr (.inr hpod.symm)

theorem Key.Matches.refl (key : Key) : key.Matches key := ⟨rfl, .inr (.inr rfl)⟩

theorem Inv.compatible_cons (hinv : Inv e)
    (hnone : key.volumeName ≠ "" → ∀ op ∈ e.grm.operations, op.operationPending = true →
      ¬ op.key.Matches key) :
    (key :: e.running).Pairwise Key.Compatible := by
  refine pairwise_cons.mpr ⟨?_, hinv.compatible⟩
  intro other hother hvol hmatch
  obtain ⟨op, hop, hpend, rfl⟩ := mem_pendingKeys.mp (hinv.pending.mem_iff.mpr hother)
  exact hnone hvol op hop hpend hmatch.symm

/-- A running operation finds the first record with its key, and it is pending. -/
theorem Inv.split (hinv : Inv e) (hrunning : key ∈ e.running) :
    ∃ before op after, e.grm.operations = before ++ op :: after ∧ op.key = key ∧
      op.operationPending = true ∧ e.grm.getOperation key = some before.length := by
  obtain ⟨op, hop, hpend, hkey⟩ := mem_pendingKeys.mp (hinv.pending.mem_iff.mpr hrunning)
  cases hfind : e.grm.getOperation key with
  | none =>
    have hnot := List.findIdx?_eq_none_iff.mp hfind op hop
    exact absurd hkey (of_decide_eq_false hnot)
  | some i =>
    obtain ⟨before, first, after, hops, rfl, hfirst, -⟩ := split_of_findIdx? hfind
    have hfirstKey : first.key = key := of_decide_eq_true hfirst
    have hmem : first ∈ e.grm.operations := by
      rw [hops]
      exact mem_append_right _ mem_cons_self
    refine ⟨before, first, after, hops, hfirstKey, ?_, rfl⟩
    rw [hinv.settled first hmem op hop (hfirstKey.trans hkey.symm), hpend]

theorem Inv.completes (hinv : Inv e) (hrunning : key ∈ e.running) (err : Option String) (now : ℕ) :
    ∃ grm, e.grm.operationComplete key err now = some grm ∧ Completes e.grm key err.isSome grm := by
  obtain ⟨before, op, after, hops, hkey, hpend, hget⟩ := hinv.split hrunning
  have hdelete : ∃ grm, e.grm.deleteOperation key = some grm ∧
      Completes e.grm key err.isSome grm := by
    have hfind : e.grm.operations.findIdx? (fun op ↦ op.key = key) = some before.length := hget
    have hlen : before.length < e.grm.operations.length := by
      rw [hops, length_append, length_cons]
      omega
    have hitem : e.grm.operations[before.length] = op := by
      simp only [hops, getElem_append_right le_rfl, Nat.sub_self, getElem_cons_zero]
    rw [NestedPendingOperations.deleteOperation, SwapRemove.swapRemoveFirst, hfind]
    refine ⟨_, rfl, .deleted op _ hkey hpend ?_⟩
    rw [← hitem]
    exact SwapRemove.perm_cons_swapRemove hlen
  unfold NestedPendingOperations.operationComplete
  cases err with
  | none => exact hdelete
  | some err =>
    split_ifs
    · exact hdelete
    · rw [hget]
      refine ⟨_, rfl, ?_⟩
      have hmodify : e.grm.operations.modify before.length (fun op ↦
          { op with operationPending := false, expBackoff := op.expBackoff.update err now }) =
          before ++ { op with
            operationPending := false, expBackoff := op.expBackoff.update err now } :: after := by
        rw [hops, modify_length_append]
      rw [hmodify]
      exact .updated op before after _ rfl hkey hpend hops

/-! ## Steps -/

theorem pendingKeys_append (before after : List Operation) :
    pendingKeys (before ++ after) = pendingKeys before ++ pendingKeys after := by
  rw [pendingKeys, filter_append, map_append]
  rfl

theorem pendingKeys_cons_of_pending {op : Operation} (after : List Operation)
    (hpend : op.operationPending = true) :
    pendingKeys (op :: after) = op.key :: pendingKeys after := by
  rw [pendingKeys, filter_cons_of_pos hpend]
  rfl

theorem pendingKeys_cons_of_failed {op : Operation} (after : List Operation)
    (hfailed : op.operationPending = false) : pendingKeys (op :: after) = pendingKeys after := by
  rw [pendingKeys, filter_cons_of_neg (by rw [hfailed]; exact Bool.false_ne_true)]
  rfl

theorem Settled.insert {before after : List Operation} {op : Operation}
    (hrest : ∀ other ∈ before ++ after, other ∈ e.grm.operations) (hinv : Inv e)
    (hop : ∀ other ∈ before ++ after, other.key = op.key →
      other.operationPending = op.operationPending) : Settled (before ++ op :: after) := by
  intro first hfirst second hsecond hsame
  rw [perm_middle.mem_iff, mem_cons] at hfirst hsecond
  rcases hfirst with rfl | hfirst <;> rcases hsecond with rfl | hsecond
  · rfl
  · exact (hop second hsecond hsame.symm).symm
  · exact hop first hfirst hsame
  · exact hinv.settled first (hrest first hfirst) second (hrest second hsecond) hsame

theorem Inv.append (hinv : Inv e)
    (hnone : key.volumeName ≠ "" → ∀ op ∈ e.grm.operations, ¬ op.key.Matches key)
    (hfailed : ∀ op ∈ e.grm.operations, op.key = key → op.operationPending = true) :
    Inv ⟨{ e.grm with operations := e.grm.operations ++ [⟨key, true, .new⟩] }, key :: e.running⟩ where
  compatible := hinv.compatible_cons fun hvol op hop _ ↦ hnone hvol op hop
  pending := by
    rw [pendingKeys_append]
    exact (perm_append_singleton key _).trans (hinv.pending.cons key)
  settled := by
    refine @Settled.insert _ _ [] _ ?_ hinv ?_ <;> rw [append_nil]
    · exact fun _ ↦ id
    · exact hfailed

theorem Inv.takeOver (hinv : Inv e) {before after : List Operation} {op : Operation}
    (hops : e.grm.operations = before ++ op :: after) (hfailed : op.operationPending = false)
    (hpend : ∀ other ∈ e.grm.operations, other.operationPending = true → ¬ other.key.Matches key)
    (hkey : ∀ other ∈ before ++ after, other.operationPending = false → other.key ≠ key) :
    Inv ⟨{ e.grm with
      operations := before ++ { op with operationPending := true, key := key } :: after },
      key :: e.running⟩ where
  compatible := hinv.compatible_cons fun _ ↦ hpend
  pending := by
    have hold : pendingKeys e.grm.operations = pendingKeys before ++ pendingKeys after := by
      rw [hops, pendingKeys_append, pendingKeys_cons_of_failed after hfailed]
    rw [pendingKeys_append, pendingKeys_cons_of_pending after rfl]
    refine perm_middle.trans (List.Perm.cons key ?_)
    rw [← hold]
    exact hinv.pending
  settled := by
    have hmem : ∀ other ∈ before ++ after, other ∈ e.grm.operations := fun other hother ↦
      hops ▸ perm_middle.mem_iff.mpr (mem_cons_of_mem _ hother)
    refine .insert hmem hinv fun other hother hsame ↦ ?_
    -- no other record has the key of the new operation
    cases hstatus : other.operationPending with
    | true => rfl
    | false => exact absurd hsame (hkey other hother hstatus)

theorem Key.Compatible.ne {other : Key} (hcompatible : key.Compatible other)
    (hvol : key.volumeName ≠ "") : key ≠ other := by
  rintro rfl
  exact hcompatible hvol (Key.Matches.refl key)

theorem Inv.count_eq_one (hinv : Inv e) (hrunning : key ∈ e.running) (hvol : key.volumeName ≠ "") :
    e.running.count key = 1 := by
  apply le_antisymm
  · by_contra hmany
    have hsublist : List.Sublist [key, key] e.running :=
      replicate_sublist_iff.mpr (Nat.not_le.mp hmany)
    have hpair := hinv.compatible.sublist hsublist
    exact (pairwise_pair.mp hpair).ne hvol rfl
  · exact count_pos_iff.mpr hrunning

/-- An operation is complete.  If it failed, no other operation with its key runs. -/
theorem Inv.complete (hinv : Inv e) {failed : Bool} {target : NestedPendingOperations}
    (hcompletes : Completes e.grm key failed target)
    (hcount : failed = true → e.running.count key = 1) : Inv ⟨target, e.running.erase key⟩ := by
  have hcompatible : (e.running.erase key).Pairwise Key.Compatible :=
    hinv.compatible.sublist erase_sublist
  cases hcompletes with
  | deleted op rest hkey hpend hperm =>
    refine ⟨hcompatible, ?_, ?_⟩
    · have hkeys : (pendingKeys e.grm.operations).Perm (key :: pendingKeys rest) := by
        rw [← hkey, ← pendingKeys_cons_of_pending rest hpend]
        exact (hperm.filter _).map _
      have herase := (hkeys.symm.trans hinv.pending).erase key
      rwa [erase_cons_head] at herase
    · intro first hfirst second hsecond
      exact hinv.settled first (hperm.mem_iff.mpr (mem_cons_of_mem _ hfirst)) second
        (hperm.mem_iff.mpr (mem_cons_of_mem _ hsecond))
  | updated op before after expBackoff hfailed hkey hpend hops =>
    have hkeys : (pendingKeys e.grm.operations).Perm
        (key :: (pendingKeys before ++ pendingKeys after)) := by
      rw [hops, pendingKeys_append, pendingKeys_cons_of_pending after hpend, hkey]
      exact perm_middle
    have hnew : pendingKeys (before ++ { op with operationPending := false, expBackoff } :: after) =
        pendingKeys before ++ pendingKeys after := by
      rw [pendingKeys_append, pendingKeys_cons_of_failed after rfl]
    have herase := (hkeys.symm.trans hinv.pending).erase key
    rw [erase_cons_head] at herase
    refine ⟨hcompatible, hnew ▸ herase, ?_⟩
    -- no pending record is left with this key
    have hnone : ∀ other ∈ before ++ after, other.key = key → other.operationPending = false := by
      intro other hother hsame
      have hzero : (pendingKeys before ++ pendingKeys after).count key = 0 := by
        have hone := (hkeys.symm.trans hinv.pending).count_eq key
        rw [count_cons_self, hcount hfailed] at hone
        omega
      apply Bool.eq_false_of_not_eq_true
      intro hstill
      apply count_eq_zero.mp hzero
      rw [← pendingKeys_append]
      exact mem_pendingKeys.mpr ⟨other, hother, hstill, hsame⟩
    have hmem : ∀ other ∈ before ++ after, other ∈ e.grm.operations := fun other hother ↦
      hops ▸ perm_middle.mem_iff.mpr (mem_cons_of_mem _ hother)
    exact .insert hmem hinv fun other hother hsame ↦ hnone other hother (hsame.trans hkey)

/-- When `Run` starts an operation for a volume, no failed record that matches is in front of
another one that matches and is pending or has the same key.  When it starts one for no volume, no
failed record has the same key, and such an operation fails only if no other one with its key runs.
-/
def Orderly (e : Executor) : Op → Prop
  | .run key =>
    (key.volumeName ≠ "" → e.grm.operations.Pairwise fun first later ↦
      first.operationPending = false → first.key.Matches key → later.key.Matches key →
        later.operationPending = false ∧ later.key ≠ key) ∧
      (key.volumeName = "" → ∀ op ∈ e.grm.operations, op.key = key → op.operationPending = true)
  | .runError _ => True
  | .complete key failed => key.volumeName = "" → failed = true → e.running.count key = 1

theorem Inv.step {op : Op} {f : Executor} (hinv : Inv e) (hord : Orderly e op)
    (hstep : Step e op f) : Inv f := by
  cases hstep with
  | run key now grm hrun =>
    rcases run_eq_ok hrun with ⟨rfl, hnone⟩ | ⟨hvol, before, op, after, hops, hfailed,
      hmatch, hbefore, rfl⟩
    · apply hinv.append hnone
      intro op hop hkey
      by_cases hvol : key.volumeName = ""
      · exact hord.2 hvol op hop hkey
      · exact absurd (hkey ▸ Key.Matches.refl _) (hnone hvol op hop)
    · have hpairwise := hord.1 hvol
      rw [hops] at hpairwise
      have hafter := (pairwise_cons.mp (pairwise_append.mp hpairwise).2.1).1
      apply hinv.takeOver hops hfailed
      · intro other hother hpend hother'
        rw [hops] at hother
        rcases mem_append.mp hother with hother | hother
        · exact hbefore other hother hother'
        · rcases mem_cons.mp hother with rfl | hother
          · rw [hfailed] at hpend
            cases hpend
          · rw [(hafter other hother hfailed hmatch hother').1] at hpend
            cases hpend
      · intro other hother _ hsame
        have hother' : other.key.Matches key := hsame ▸ Key.Matches.refl _
        rcases mem_append.mp hother with hother | hother
        · exact hbefore other hother hother'
        · exact (hafter other hother hfailed hmatch hother').2 hsame
  | runError key now err hrun => exact hinv
  | complete key err now grm hrunning hcomplete =>
    obtain ⟨target, htarget, hcompletes⟩ := hinv.completes hrunning err now
    rw [hcomplete] at htarget
    obtain rfl := Option.some.inj htarget
    apply hinv.complete hcompletes
    intro hfailed
    by_cases hvol : key.volumeName = ""
    · exact hord hvol hfailed
    · exact hinv.count_eq_one hrunning hvol

theorem countP_eq_count (operations : List Operation) :
    operations.countP (fun op ↦ op.key = key ∧ op.operationPending = true) =
      (pendingKeys operations).count key := by
  rw [pendingKeys, count_eq_countP, countP_map, countP_filter]
  apply countP_congr
  simp

theorem Inv.exclusive (hinv : Inv e) : Exclusive e where
  compatible := hinv.compatible
  pending := hinv.pending
  unique := by
    intro key hrunning hvol
    rw [countP_eq_count, hinv.pending.count_eq]
    exact hinv.count_eq_one hrunning hvol
  completes := fun key hrunning err now ↦ hinv.completes hrunning err now

open Transition

/-- Volume operations exclude each other in every run whose steps all meet the condition. -/
theorem volume_operations_exclusive (e : Executor)
    (hreach : Reachable Init (guarded Orderly Step) e) : Exclusive e := by
  apply Inv.exclusive
  apply hreach.invariant
  · rintro state ⟨hops, hrunning⟩
    refine ⟨?_, ?_, ?_⟩
    · rw [hrunning]
      exact List.Pairwise.nil
    · rw [hops, hrunning]
      exact List.Perm.nil
    · rw [hops]
      exact fun _ hop ↦ absurd hop not_mem_nil
  · exact fun _ _ _ _ hinv hstep ↦ hinv.step hstep.1 hstep.2

section Sample

def sampleStart : Executor := ⟨⟨[], true⟩, []⟩

def sampleRecord (podName : String) (pending : Bool) (backoff : ExponentialBackoff) : Operation :=
  ⟨⟨"v", podName⟩, pending, backoff⟩

def sampleBackoff : ExponentialBackoff := ⟨some "busy", 0, initialDurationBeforeRetry⟩

def sampleFailed : Executor := ⟨⟨[sampleRecord "a" false sampleBackoff], true⟩, []⟩

def sampleRunning : Executor :=
  ⟨⟨[sampleRecord "a" false sampleBackoff, sampleRecord "b" true .new], true⟩, [⟨"v", "b"⟩]⟩

theorem reachable_sampleRunning : Reachable Init (guarded Orderly Step) sampleRunning := by
  have hstart : Reachable Init (guarded Orderly Step) sampleStart := .start ⟨rfl, rfl⟩
  have hrun : Reachable Init (guarded Orderly Step)
      ⟨⟨[sampleRecord "a" true .new], true⟩, [⟨"v", "a"⟩]⟩ :=
    hstart.guardedNext (.run _ ⟨"v", "a"⟩ 0 _ (by decide +kernel))
      ⟨fun _ ↦ .nil, fun hvol ↦ absurd hvol (by decide)⟩
  have hfailed : Reachable Init (guarded Orderly Step) sampleFailed :=
    hrun.guardedNext (.complete _ ⟨"v", "a"⟩ (some "busy") 0 _ (by decide +kernel)
      (by decide +kernel)) fun hvol ↦ absurd hvol (by decide)
  exact hfailed.guardedNext (.run _ ⟨"v", "b"⟩ 0 _ (by decide +kernel))
    ⟨fun _ ↦ pairwise_singleton _ _, fun hvol ↦ absurd hvol (by decide)⟩

theorem second_pod_exclusive : sampleRunning.running = [⟨"v", "b"⟩] ∧ Exclusive sampleRunning :=
  ⟨rfl, volume_operations_exclusive _ reachable_sampleRunning⟩

/-- An operation for the whole volume takes over a failed record, although one for the second pod
runs. -/
theorem failed_record_hides_pending : ∃ e, Reachable Init Step e ∧ ¬ Exclusive e := by
  refine ⟨⟨⟨[sampleRecord "" true sampleBackoff, sampleRecord "b" true .new], true⟩,
    [⟨"v", ""⟩, ⟨"v", "b"⟩]⟩, ?_, ?_⟩
  · exact reachable_sampleRunning.of_guarded.next
      (.run _ ⟨"v", ""⟩ (initialDurationBeforeRetry + 1) _ (by decide +kernel))
  · intro hexclusive
    have hcompatible := pairwise_pair.mp hexclusive.compatible
    exact hcompatible (by decide) (by decide)

end Sample

end Kubernetes.Volume

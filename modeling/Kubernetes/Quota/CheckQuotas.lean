import Kubernetes.Quota.CheckRequest

/-!
# Checking a batch of requests

`checkQuotas` checks the waiters of a batch against a running copy of the quotas, and then updates
the quotas that changed.  If updates fail it reads the quotas again and checks the whole batch once
more, against those quotas only whose update failed.  A `Round` gives the answers for each pass.
-/

namespace Kubernetes.Quota

open ResourceList

variable {Res Qty Spec Kind Content Err : Type}

inductive Result (Res Qty Err : Type)
  | admitted
  | defaultDeny
  | refused (err : AdmissionError Res Qty Err)

structure Waiter (Res Qty Kind Content Err : Type) where
  attributes : Attributes Kind Content
  result : Result Res Qty Err

def newAdmissionWaiter (a : Attributes Kind Content) : Waiter Res Qty Kind Content Err where
  attributes := a
  result := .defaultDeny

/-- The answers in one pass: the error of each update, and the quotas read after failed updates. -/
structure Round (Res Qty Spec Err : Type) where
  updateQuotaStatus : ResourceQuota Res Qty Spec → Option Err
  getQuotas : Except Err (List (ResourceQuota Res Qty Spec))

/-- The quotas and the waiters a pass starts with, the updates with their errors, and the quotas
read again. -/
structure Pass (Res Qty Spec Kind Content Err : Type) where
  quotas : List (ResourceQuota Res Qty Spec)
  waiters : List (Waiter Res Qty Kind Content Err)
  updates : List (ResourceQuota Res Qty Spec × Option Err)
  reread : Option (List (ResourceQuota Res Qty Spec))

variable [DecidableEq Res] [LinearOrder Qty]

def sameUsage (quotas newQuotas : List (ResourceQuota Res Qty Spec)) : Bool :=
  (quotas.zip newQuotas).all fun entry ↦ equals entry.1.used entry.2.used

def issueUpdates (updateQuotaStatus : ResourceQuota Res Qty Spec → Option Err)
    (originalQuotas quotas : List (ResourceQuota Res Qty Spec)) :
    List (ResourceQuota Res Qty Spec × Option Err) :=
  (originalQuotas.zip quotas).filterMap fun entry ↦
    if equals entry.1.used entry.2.used then none
    else some (entry.2, updateQuotaStatus entry.2)

def updatedFailedQuotas (updates : List (ResourceQuota Res Qty Spec × Option Err)) :
    List (ResourceQuota Res Qty Spec × Err) :=
  updates.filterMap fun update ↦ update.2.map fun err ↦ (update.1, err)

def Result.settled (result outcome : Result Res Qty Err) : Result Res Qty Err :=
  match result with
  | .defaultDeny => outcome
  | .admitted => .admitted
  | .refused err => .refused err

omit [DecidableEq Res] [LinearOrder Qty] in
@[simp]
theorem Result.settled_refused (outcome : Result Res Qty Err)
    (err : AdmissionError Res Qty Err) :
    (Result.refused err).settled outcome = .refused err :=
  rfl

omit [DecidableEq Res] [LinearOrder Qty] in
@[simp]
theorem Result.settled_defaultDeny (outcome : Result Res Qty Err) :
    Result.defaultDeny.settled outcome = outcome :=
  rfl

def settle (outcome : Result Res Qty Err)
    (waiters : List (Waiter Res Qty Kind Content Err)) :
    List (Waiter Res Qty Kind Content Err) :=
  waiters.map fun waiter ↦ { waiter with result := waiter.result.settled outcome }

variable [AddCommGroup Qty]

/-- The loop over the waiters: the waiters, the running quotas and whether a waiter changed a quota.
-/
def checkWaiters (registry : Registry Res Qty Spec Kind Content Err) :
    List (ResourceQuota Res Qty Spec) →
      List (Waiter Res Qty Kind Content Err) →
      List (Waiter Res Qty Kind Content Err) ×
        List (ResourceQuota Res Qty Spec) × Bool
  | quotas, [] => ([], quotas, false)
  | quotas, waiter :: waiters =>
    match checkRequest registry quotas waiter.attributes with
    | (attributes, .error err) =>
      let (checked, running, atLeastOneChanged) := checkWaiters registry quotas waiters
      (⟨attributes, .refused err⟩ :: checked, running, atLeastOneChanged)
    | (attributes, .ok newQuotas) =>
      let (checked, running, atLeastOneChanged) := checkWaiters registry newQuotas waiters
      -- A request that changes no quota gets a pass.
      if sameUsage quotas newQuotas then
        (⟨attributes, .admitted⟩ :: checked, running, atLeastOneChanged)
      else (⟨attributes, waiter.result⟩ :: checked, running, true)

section Equations

variable {registry : Registry Res Qty Spec Kind Content Err}
variable {quotas newQuotas : List (ResourceQuota Res Qty Spec)}
variable {waiter : Waiter Res Qty Kind Content Err} {attributes : Attributes Kind Content}

variable (waiters : List (Waiter Res Qty Kind Content Err))

theorem checkWaiters_cons_error {err : AdmissionError Res Qty Err}
    (hchecked : checkRequest registry quotas waiter.attributes = (attributes, .error err)) :
    checkWaiters registry quotas (waiter :: waiters) =
      (⟨attributes, .refused err⟩ :: (checkWaiters registry quotas waiters).1,
        (checkWaiters registry quotas waiters).2) := by
  simp only [checkWaiters, hchecked]

theorem checkWaiters_cons_ok
    (hchecked : checkRequest registry quotas waiter.attributes = (attributes, .ok newQuotas)) :
    checkWaiters registry quotas (waiter :: waiters) =
      (⟨attributes, if sameUsage quotas newQuotas then .admitted else waiter.result⟩ ::
          (checkWaiters registry newQuotas waiters).1,
        (checkWaiters registry newQuotas waiters).2.1,
        !sameUsage quotas newQuotas || (checkWaiters registry newQuotas waiters).2.2) := by
  simp only [checkWaiters, hchecked]
  split_ifs with hsame
  · simp [hsame]
  · simp [hsame]

end Equations

def checkQuotas (registry : Registry Res Qty Spec Kind Content Err)
    (rounds : ℕ → Round Res Qty Spec Err) (remainingRetries : ℕ)
    (quotas : List (ResourceQuota Res Qty Spec))
    (waiters : List (Waiter Res Qty Kind Content Err)) :
    List (Waiter Res Qty Kind Content Err) ×
      List (Pass Res Qty Spec Kind Content Err) :=
  let (checked, running, atLeastOneChanged) := checkWaiters registry quotas waiters
  let round := rounds remainingRetries
  if atLeastOneChanged then
    let updates := issueUpdates round.updateQuotaStatus quotas running
    let failed := updatedFailedQuotas updates
    match failed.getLast? with
    | none => (settle .admitted checked, [⟨quotas, waiters, updates, none⟩])
    | some (_, lastErr) =>
      let denied := settle (.refused (.other lastErr)) checked
      match remainingRetries with
      | 0 => (denied, [⟨quotas, waiters, updates, none⟩])
      | retries + 1 =>
        match round.getQuotas with
        | .error _ => (denied, [⟨quotas, waiters, updates, none⟩])
        | .ok newQuotas =>
          let quotasToCheck := newQuotas.filter fun newQuota ↦
            failed.any fun oldQuota ↦ newQuota.name == oldQuota.1.name
          let (final, passes) := checkQuotas registry rounds retries quotasToCheck checked
          (final, ⟨quotas, waiters, updates, some newQuotas⟩ :: passes)
  else (checked, [⟨quotas, waiters, [], none⟩])

/-- `checkAttributes` reads the quotas of the namespace and checks the batch against them. -/
def checkAttributes (registry : Registry Res Qty Spec Kind Content Err)
    (getQuotas : Except Err (List (ResourceQuota Res Qty Spec)))
    (rounds : ℕ → Round Res Qty Spec Err)
    (waiters : List (Waiter Res Qty Kind Content Err)) :
    List (Waiter Res Qty Kind Content Err) :=
  match getQuotas with
  | .error err => waiters.map fun waiter ↦ { waiter with result := .refused (.other err) }
  | .ok [] => waiters.map fun waiter ↦ { waiter with result := .admitted }
  | .ok quotas => (checkQuotas registry rounds 3 quotas waiters).1

section Runs

variable (registry : Registry Res Qty Spec Kind Content Err)

def checkedWaiters (quotas : List (ResourceQuota Res Qty Spec))
    (waiters : List (Waiter Res Qty Kind Content Err)) :
    List (Waiter Res Qty Kind Content Err) :=
  (checkWaiters registry quotas waiters).1

def passUpdates (round : Round Res Qty Spec Err)
    (quotas : List (ResourceQuota Res Qty Spec))
    (waiters : List (Waiter Res Qty Kind Content Err)) :
    List (ResourceQuota Res Qty Spec × Option Err) :=
  issueUpdates round.updateQuotaStatus quotas (checkWaiters registry quotas waiters).2.1

/-- The quotas that the next pass checks, of those that were read again. -/
def nextQuotas (updates : List (ResourceQuota Res Qty Spec × Option Err))
    (newQuotas : List (ResourceQuota Res Qty Spec)) :
    List (ResourceQuota Res Qty Spec) :=
  newQuotas.filter fun newQuota ↦
    (updatedFailedQuotas updates).any fun oldQuota ↦ newQuota.name == oldQuota.1.name

/-- The runs of `checkQuotas`: a last pass that changes nothing, updates everything or fails, or a
pass with failed updates before another run. -/
inductive CheckRun : List (ResourceQuota Res Qty Spec) →
    List (Waiter Res Qty Kind Content Err) →
    List (Waiter Res Qty Kind Content Err) →
    List (Pass Res Qty Spec Kind Content Err) → Prop
  | unchanged (quotas : List (ResourceQuota Res Qty Spec))
      (waiters : List (Waiter Res Qty Kind Content Err)) :
      CheckRun quotas waiters (checkedWaiters registry quotas waiters)
        [⟨quotas, waiters, [], none⟩]
  | updated (round : Round Res Qty Spec Err)
      (quotas : List (ResourceQuota Res Qty Spec))
      (waiters : List (Waiter Res Qty Kind Content Err))
      (hnone : updatedFailedQuotas (passUpdates registry round quotas waiters) = []) :
      CheckRun quotas waiters (settle .admitted (checkedWaiters registry quotas waiters))
        [⟨quotas, waiters, passUpdates registry round quotas waiters, none⟩]
  | failed (round : Round Res Qty Spec Err)
      (quotas : List (ResourceQuota Res Qty Spec))
      (waiters : List (Waiter Res Qty Kind Content Err))
      (err : AdmissionError Res Qty Err) :
      CheckRun quotas waiters (settle (.refused err) (checkedWaiters registry quotas waiters))
        [⟨quotas, waiters, passUpdates registry round quotas waiters, none⟩]
  | retried (round : Round Res Qty Spec Err)
      (quotas newQuotas : List (ResourceQuota Res Qty Spec))
      (waiters final : List (Waiter Res Qty Kind Content Err))
      (passes : List (Pass Res Qty Spec Kind Content Err))
      (hrest : CheckRun (nextQuotas (passUpdates registry round quotas waiters) newQuotas)
        (checkedWaiters registry quotas waiters) final passes) :
      CheckRun quotas waiters final
        (⟨quotas, waiters, passUpdates registry round quotas waiters, some newQuotas⟩ :: passes)

theorem checkQuotas_run (rounds : ℕ → Round Res Qty Spec Err) (remainingRetries : ℕ)
    (quotas : List (ResourceQuota Res Qty Spec))
    (waiters : List (Waiter Res Qty Kind Content Err)) :
    CheckRun registry quotas waiters
      (checkQuotas registry rounds remainingRetries quotas waiters).1
      (checkQuotas registry rounds remainingRetries quotas waiters).2 := by
  induction remainingRetries generalizing quotas waiters with
  | zero =>
    rw [checkQuotas]
    dsimp only
    split_ifs
    · split
      · rename_i hnone
        exact .updated (rounds 0) quotas waiters (List.getLast?_eq_none_iff.mp hnone)
      · exact .failed (rounds 0) quotas waiters _
    · exact .unchanged quotas waiters
  | succ retries ih =>
    rw [checkQuotas]
    dsimp only
    split_ifs
    · split
      · rename_i hnone
        exact .updated (rounds (retries + 1)) quotas waiters (List.getLast?_eq_none_iff.mp hnone)
      · split
        · exact .failed (rounds (retries + 1)) quotas waiters _
        · rename_i newQuotas _
          exact .retried (rounds (retries + 1)) quotas newQuotas waiters _ _ (ih _ _)
    · exact .unchanged quotas waiters

end Runs

end Kubernetes.Quota

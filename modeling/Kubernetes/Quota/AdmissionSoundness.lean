import Mathlib.Algebra.Order.Group.Int
import Kubernetes.Quota.Ledger

/-!
# Admitted requests are charged

A request that is admitted should have been charged to every quota that limits it, by an update that
succeeded.  This fails in two ways.  A waiter that one pass refuses is checked again by the next
pass, and admitted if the request touches none of the quotas left.  And a quota that one request
raises and another of the batch lowers has no change to be updated.
-/

namespace Kubernetes.Quota

open List ResourceList
open Option (some.injEq)

variable {Res Qty Spec Kind Content Err : Type} [DecidableEq Res]
variable [AddCommGroup Qty] [LinearOrder Qty]

/-! ## The property -/

section Property

variable (registry : Registry Res Qty Spec Kind Content Err)

section

variable (a : Attributes Kind Content)

/-- The quota matches the request and tracks a resource whose usage the request increases. -/
def Concerns (resourceQuota : ResourceQuota Res Qty Spec) : Prop :=
  Applies registry a resourceQuota ∧ ∃ usage, delta registry a = some usage ∧
    ∃ resource ∈ resourceQuota.hard, 0 < amount usage resource

section

variable (name : String) (quotas : List (ResourceQuota Res Qty Spec))

def ConcernedIn : Prop :=
  (∃ resourceQuota ∈ quotas, resourceQuota.name = name) ∧
    ∀ resourceQuota ∈ quotas, resourceQuota.name = name → Concerns registry a resourceQuota

/-- The quota is there during the whole call, and concerns the request. -/
def ConcernedThroughout (passes : List (Pass Res Qty Spec Kind Content Err)) : Prop :=
  ConcernedIn registry a name quotas ∧
    ∀ pass ∈ passes, ∀ newQuotas, pass.reread = some newQuotas →
      ConcernedIn registry a name newQuotas

end

end

/-- The written quota is the one read with a share of every request added, all of the usage of the
given one, and what this increases is within its limits. -/
structure Inclusion (batch : List (Attributes Kind Content)) (index : ℕ)
    (a : Attributes Kind Content) (read written : ResourceQuota Res Qty Spec) : Prop where
  shares : ∃ usage shares, delta registry a = some usage ∧
    written = { read with used := shares.foldl add read.used } ∧
    List.Forall₂ (IsShare registry read) batch shares ∧
    shares[index]? = some (mask usage (resourceNames read.hard))
  within : ∀ usage, delta registry a = some usage → ∀ resource, 0 < amount usage resource →
    Within written resource

/-- A successful update of the quota in one of the passes included the request. -/
def Included (batch : List (Attributes Kind Content)) (index : ℕ) (a : Attributes Kind Content)
    (name : String) (passes : List (Pass Res Qty Spec Kind Content Err)) : Prop :=
  ∃ pass ∈ passes, ∃ read ∈ pass.quotas, ∃ written, read.name = name ∧
    (written, none) ∈ pass.updates ∧ Inclusion registry batch index a read written

/-- Every waiter that ends with a nil result is included in a successful update of every quota that
concerns it. -/
def AdmissionSound (rounds : ℕ → Round Res Qty Spec Err) (remainingRetries : ℕ)
    (quotas : List (ResourceQuota Res Qty Spec)) (batch : List (Attributes Kind Content)) :
    Prop :=
  let (final, passes) :=
    checkQuotas registry rounds remainingRetries quotas (batch.map newAdmissionWaiter)
  ∀ index a waiter, batch[index]? = some a → final[index]? = some waiter →
    waiter.result = .admitted → ∀ name, ConcernedThroughout registry a name quotas passes →
      Included registry batch index a name passes

/-- Every waiter that is refused before the pass is touched by a quota that the pass checks. -/
def RefusedAreTouched (pass : Pass Res Qty Spec Kind Content Err) : Prop :=
  ∀ waiter ∈ pass.waiters, (∃ err, waiter.result = .refused err) →
    ∃ resourceQuota ∈ pass.quotas, Touches registry waiter.attributes resourceQuota

/-- No request of the batch lowers what another one raises. -/
def NoneCancels (batch : List (Attributes Kind Content)) : Prop :=
  ∀ a ∈ batch, ∀ other ∈ batch, ∀ usage lowered, delta registry a = some usage →
    delta registry other = some lowered → ∀ resource, 0 < amount usage resource →
      0 ≤ amount lowered resource

end Property

section Waiters

variable {registry : Registry Res Qty Spec Kind Content Err}
variable {quotas : List (ResourceQuota Res Qty Spec)}
variable {waiters final : List (Waiter Res Qty Kind Content Err)}
variable {passes : List (Pass Res Qty Spec Kind Content Err)}
variable {waiter waiter' : Waiter Res Qty Kind Content Err} {index : ℕ}

omit [DecidableEq Res] [AddCommGroup Qty] [LinearOrder Qty] in
theorem getElem?_settle {outcome : Result Res Qty Err}
    (hwaiter : waiters[index]? = some waiter) :
    (settle outcome waiters)[index]? =
      some { waiter with result := waiter.result.settled outcome } := by
  rw [settle, List.getElem?_map, hwaiter, Option.map_some]

theorem checkedWaiters_getElem? (hwaiter : waiters[index]? = some waiter) :
    ∃ waiter', (checkedWaiters registry quotas waiters)[index]? = some waiter' ∧
      Rechecked registry quotas waiter waiter' :=
  Pointwise.getElem?_right (checkWaiters_waiters registry quotas waiters) hwaiter

theorem RefusedAreTouched.checked {pass : Pass Res Qty Spec Kind Content Err}
    (hguard : RefusedAreTouched registry pass) (hwaiter : pass.waiters[index]? = some waiter)
    (hrefused : ∃ err, waiter.result = .refused err) :
    ∃ checked, (checkedWaiters registry pass.quotas pass.waiters)[index]? = some checked ∧
      ∃ err, checked.result = .refused err := by
  obtain ⟨checked, hchecked, hrechecked⟩ := checkedWaiters_getElem? hwaiter
  refine ⟨checked, hchecked, ?_⟩
  rcases hrechecked.result with hkept | hagain | ⟨_, huntouched⟩
  · rw [hkept]
    exact hrefused
  · exact hagain
  · obtain ⟨resourceQuota, hmem, htouches⟩ :=
      hguard waiter (mem_of_getElem? hwaiter) hrefused
    exact absurd htouches (huntouched resourceQuota hmem)

/-- A refused waiter is not admitted, if every pass touches the refused waiters. -/
theorem CheckRun.refused (hrun : CheckRun registry quotas waiters final passes)
    (hguard : ∀ pass ∈ passes, RefusedAreTouched registry pass)
    (hwaiter : waiters[index]? = some waiter) (hrefused : ∃ err, waiter.result = .refused err)
    (hfinal : final[index]? = some waiter') : waiter'.result ≠ .admitted := by
  induction hrun generalizing waiter with
  | unchanged quotas waiters =>
    obtain ⟨checked, hchecked, err, hagain⟩ :=
      (hguard _ mem_cons_self).checked hwaiter hrefused
    rw [hchecked, some.injEq] at hfinal
    simp [← hfinal, hagain]
  | updated | failed =>
    obtain ⟨checked, hchecked, err, hagain⟩ :=
      (hguard _ mem_cons_self).checked hwaiter hrefused
    rw [getElem?_settle hchecked, some.injEq] at hfinal
    simp [← hfinal, hagain]
  | retried round quotas newQuotas waiters final passes hrest ih =>
    obtain ⟨checked, hchecked, hagain⟩ :=
      (hguard _ mem_cons_self).checked hwaiter hrefused
    exact ih (fun pass hpass ↦ hguard pass (mem_cons_of_mem _ hpass)) hchecked hagain hfinal

/-! ## Admitted waiters -/

variable {batch : List (Attributes Kind Content)} {a : Attributes Kind Content}
variable {resourceQuota : ResourceQuota Res Qty Spec}

theorem Concerns.touches (hconcerns : Concerns registry a resourceQuota) :
    Touches registry a resourceQuota := by
  obtain ⟨happlies, usage, husage, resource, hhard, hpos⟩ := hconcerns
  exact ⟨happlies, usage, husage, resource, hhard, hpos.ne'⟩

def SameBatch (batch : List (Attributes Kind Content))
    (waiters : List (Waiter Res Qty Kind Content Err)) : Prop :=
  List.Forall₂ (fun a waiter ↦ SameRequest a waiter.attributes) batch waiters

theorem SameBatch.checked (hsame : SameBatch batch waiters) :
    SameBatch batch (checkedWaiters registry quotas waiters) :=
  Pointwise.comp (fun _ _ _ hfirst hsecond ↦ hfirst.trans hsecond.same) hsame
    (checkWaiters_waiters registry quotas waiters)

/-- A waiter that is not refused is included in the new usage of a quota that concerns it, and this
usage is another one. -/
theorem checkWaiters_inclusion [IsOrderedAddMonoid Qty] (hsame : SameBatch batch waiters)
    (hgrow : NoneCancels registry batch) (ha : batch[index]? = some a)
    (hchecked : (checkedWaiters registry quotas waiters)[index]? = some waiter')
    (hkept : ∀ err, waiter'.result ≠ .refused err) (hmem : resourceQuota ∈ quotas)
    (hconcerns : Concerns registry a resourceQuota) :
    ∃ newQuota, (resourceQuota, newQuota) ∈ quotas.zip (checkWaiters registry quotas waiters).2.1 ∧
      resourceQuota.used ≠ newQuota.used ∧
      Inclusion registry batch index a resourceQuota newQuota := by
  obtain ⟨waiter, hwaiter, hreq⟩ := Pointwise.getElem?_right hsame ha
  obtain ⟨_, usage, husage, resource, hhard, hpos⟩ := id hconcerns
  obtain ⟨newQuota, hzip, shares, hled⟩ :=
    Pointwise.exists_zip_of_mem (checkWaiters_ledger registry quotas waiters) hmem
  have husage' : delta registry waiter.attributes = some usage := by
    rw [hreq.delta_eq, husage]
  obtain ⟨hshare, hwithin⟩ := hled.share_eq hwaiter hchecked hkept
    (hreq.touches hconcerns.touches) husage'
  have hgrow' : ∀ waiter ∈ waiters, ∀ lowered, delta registry waiter.attributes = some lowered →
      0 ≤ amount lowered resource := by
    intro waiter hwaiter lowered hlowered
    obtain ⟨other, hother, hreq⟩ := Pointwise.exists_left_of_mem hsame hwaiter
    exact hgrow a (mem_of_getElem? ha) other hother usage lowered husage
      (by rw [← hreq.delta_eq, hlowered]) resource hpos
  have hadded : 0 < amount (mask usage (resourceNames resourceQuota.hard)) resource := by
    rw [amount_mask, if_pos (mem_resourceNames.mpr hhard)]
    exact hpos
  refine ⟨newQuota, hzip, hled.used_ne hgrow' (mem_of_getElem? hshare) hadded,
    ⟨usage, shares, husage, hled.posted, ?_, hshare⟩, ?_⟩
  · refine Pointwise.comp (fun a waiter share hreq hisShare ↦ ?_) hsame hled.isShare
    rw [IsShare, ← hreq.delta_eq]
    exact hisShare
  · intro usage' husage' resource hpos limit hlimit
    rw [husage, some.injEq] at husage'
    subst husage'
    refine hwithin resource ?_ limit hlimit
    -- The limit is one of the read quota, since the usage alone was changed.
    rw [hled.posted] at hlimit
    rw [← Finmap.lookup_isSome, lookup_mask,
      if_pos (mem_resourceNames.mpr (Finmap.mem_of_lookup_eq_some hlimit))]
    by_contra hnone
    rw [Option.not_isSome_iff_eq_none] at hnone
    exact hpos.ne' (by rw [amount, hnone, Option.getD_none])

variable {updates : List (ResourceQuota Res Qty Spec × Option Err)}

omit [AddCommGroup Qty] [LinearOrder Qty] [DecidableEq Res] in
theorem mem_updatedFailedQuotas {err : Err} (hmem : (resourceQuota, some err) ∈ updates) :
    (resourceQuota, err) ∈ updatedFailedQuotas updates :=
  mem_filterMap.mpr ⟨_, hmem, rfl⟩

theorem concernedIn_nextQuotas {err : Err} {name : String}
    {newQuotas : List (ResourceQuota Res Qty Spec)}
    (hfailed : (resourceQuota, err) ∈ updatedFailedQuotas updates)
    (hname : resourceQuota.name = name) (hconcerned : ConcernedIn registry a name newQuotas) :
    ConcernedIn registry a name (nextQuotas updates newQuotas) := by
  obtain ⟨⟨newQuota, hmem, hname'⟩, hconcerns⟩ := hconcerned
  refine ⟨⟨newQuota, mem_filter.mpr ⟨hmem, ?_⟩, hname'⟩, fun resourceQuota hmem ↦
    hconcerns resourceQuota (mem_of_mem_filter hmem)⟩
  exact any_eq_true.mpr ⟨_, hfailed, by simp [hname, hname']⟩

section

variable (hgrow : NoneCancels registry batch) (hsame : SameBatch batch waiters)
  (ha : batch[index]? = some a) (hwaiter : waiters[index]? = some waiter)
  (hdeny : waiter.result = .defaultDeny)

include hgrow hsame ha hwaiter hdeny

/-- A pass refuses a waiter that a quota concerns, or leaves it the default deny error and tries an
update of the quota that includes it. -/
theorem pass_of_concerned [IsOrderedAddMonoid Qty] {name : String}
    (hconcerned : ConcernedIn registry a name quotas) :
    ∃ checked, (checkedWaiters registry quotas waiters)[index]? = some checked ∧
      ((∃ err, checked.result = .refused err) ∨ (checked.result = .defaultDeny ∧
        ∃ read ∈ quotas, ∃ written, read.name = name ∧ written.name = name ∧
          Inclusion registry batch index a read written ∧
          ∀ round : Round Res Qty Spec Err,
            (written, round.updateQuotaStatus written) ∈
              passUpdates registry round quotas waiters)) := by
  obtain ⟨read, hread, hname⟩ := hconcerned.1
  have hconcerns := hconcerned.2 read hread hname
  obtain ⟨checked, hchecked, hrechecked⟩ := @checkedWaiters_getElem? _ _ _ _ _ _ _ _ _ registry
    quotas _ _ _ hwaiter
  refine ⟨checked, hchecked, ?_⟩
  rcases hrechecked.result with hkept | hrefused | ⟨_, huntouched⟩
  · have hdefault : checked.result = .defaultDeny := hkept.trans hdeny
    obtain ⟨written, hzip, hne, hinclusion⟩ := checkWaiters_inclusion hsame hgrow ha hchecked
      (fun err ↦ by simp [hdefault]) hread hconcerns
    obtain ⟨_, _, _, hwritten, _⟩ := hinclusion.shares
    refine .inr ⟨hdefault, read, hread, written, hname, ?_, hinclusion,
      fun round ↦ mem_filterMap.mpr ⟨_, hzip, ?_⟩⟩
    · rw [hwritten]
      exact hname
    · rw [if_neg]
      exact fun hequal ↦ hne ((equals_iff _ _).mp hequal)
  · exact .inl hrefused
  · obtain ⟨waiter', hwaiter', hreq⟩ := Pointwise.getElem?_right hsame ha
    rw [hwaiter, some.injEq] at hwaiter'
    subst hwaiter'
    exact absurd (hreq.touches hconcerns.touches) (huntouched read hread)

/-- A waiter that a run takes from the default deny error to a nil result is included in a
successful update of a quota that concerns it throughout. -/
theorem CheckRun.included [IsOrderedAddMonoid Qty]
    (hrun : CheckRun registry quotas waiters final passes)
    (hguard : ∀ pass ∈ passes, RefusedAreTouched registry pass)
    (hfinal : final[index]? = some waiter') (hadmitted : waiter'.result = .admitted) {name : String}
    (hconcerned : ConcernedThroughout registry a name quotas passes) :
    Included registry batch index a name passes := by
  induction hrun generalizing waiter with
  | unchanged quotas waiters =>
    obtain ⟨checked, hchecked, hres⟩ :=
      pass_of_concerned hgrow hsame ha hwaiter hdeny hconcerned.1
    rw [hchecked, some.injEq] at hfinal
    rcases hres with ⟨err, hrefused⟩ | ⟨hkept, _⟩
    · simp [← hfinal, hrefused] at hadmitted
    · simp [← hfinal, hkept] at hadmitted
  | failed round quotas waiters lastErr =>
    obtain ⟨checked, hchecked, hres⟩ :=
      pass_of_concerned hgrow hsame ha hwaiter hdeny hconcerned.1
    rw [getElem?_settle hchecked, some.injEq] at hfinal
    rcases hres with ⟨err, hrefused⟩ | ⟨hkept, _⟩
    · simp [← hfinal, hrefused] at hadmitted
    · simp [← hfinal, hkept] at hadmitted
  | updated round quotas waiters hnone =>
    obtain ⟨checked, hchecked, hres⟩ :=
      pass_of_concerned hgrow hsame ha hwaiter hdeny hconcerned.1
    rw [getElem?_settle hchecked, some.injEq] at hfinal
    rcases hres with ⟨err, hrefused⟩ | ⟨_, read, hread, written, hname, _, hinclusion, hupd⟩
    · simp [← hfinal, hrefused] at hadmitted
    · cases herr : round.updateQuotaStatus written with
      | none => exact ⟨_, mem_cons_self, read, hread, written, hname,
          herr ▸ hupd round, hinclusion⟩
      | some err =>
        have hfailed := mem_updatedFailedQuotas (herr ▸ hupd round)
        simp [hnone] at hfailed
  | retried round quotas newQuotas waiters final passes hrest ih =>
    have hguard' : ∀ pass ∈ passes, RefusedAreTouched registry pass :=
      fun pass hpass ↦ hguard pass (mem_cons_of_mem _ hpass)
    obtain ⟨checked, hchecked, hres⟩ :=
      pass_of_concerned hgrow hsame ha hwaiter hdeny hconcerned.1
    rcases hres with hrefused | ⟨hkept, read, hread, written, hname, hname', hinclusion, hupd⟩
    · exact absurd hadmitted (hrest.refused hguard' hchecked hrefused hfinal)
    · cases herr : round.updateQuotaStatus written with
      | none => exact ⟨_, mem_cons_self, read, hread, written, hname,
          herr ▸ hupd round, hinclusion⟩
      | some err =>
        -- The update failed, so the next pass checks the quota again.
        have hfailed := mem_updatedFailedQuotas (herr ▸ hupd round)
        have hnext := concernedIn_nextQuotas hfailed hname'
          (hconcerned.2 _ mem_cons_self newQuotas rfl)
        obtain ⟨pass, hpass, hincluded⟩ := ih hsame.checked hchecked hkept hguard' hfinal
          ⟨hnext, fun pass hpass ↦ hconcerned.2 pass (mem_cons_of_mem _ hpass)⟩
        exact ⟨pass, mem_cons_of_mem _ hpass, hincluded⟩

end

/-- If every pass touches the waiters refused before, and no request lowers what another one raises,
every waiter that ends with a nil result is included in a successful update of every quota that
concerns it, within the limits of what it increases. -/
theorem checkQuotas_admissionSound [IsOrderedAddMonoid Qty]
    (registry : Registry Res Qty Spec Kind Content Err)
    (rounds : ℕ → Round Res Qty Spec Err) (remainingRetries : ℕ)
    (quotas : List (ResourceQuota Res Qty Spec)) (batch : List (Attributes Kind Content))
    (hguard : ∀ pass ∈ (checkQuotas registry rounds remainingRetries quotas
      (batch.map newAdmissionWaiter)).2, RefusedAreTouched registry pass)
    (hgrow : NoneCancels registry batch) :
    AdmissionSound registry rounds remainingRetries quotas batch := by
  intro index a waiter ha hfinal hadmitted name hconcerned
  have hwaiter : (batch.map newAdmissionWaiter : List (Waiter Res Qty Kind Content Err))[
      index]? = some (newAdmissionWaiter a) := by
    rw [List.getElem?_map, ha, Option.map_some]
  have hsame : SameBatch batch (batch.map newAdmissionWaiter :
      List (Waiter Res Qty Kind Content Err)) := by
    rw [SameBatch, forall₂_map_right_iff, forall₂_same]
    exact fun a _ ↦ .inl rfl
  exact (checkQuotas_run registry rounds remainingRetries quotas _).included hgrow hsame ha hwaiter
    rfl hguard hfinal hadmitted hconcerned

end Waiters

/-! ## A refused waiter that is admitted -/

namespace Sample

def isAdmitted : Result Res Qty Err → Bool
  | .admitted => true
  | _ => false

def isRefused : Result Res Qty Err → Bool
  | .refused _ => true
  | _ => false

def amounts (entries : List (ℕ × ℤ)) : ResourceList ℕ ℤ :=
  entries.foldr (fun entry rest ↦ Finmap.insert entry.1 entry.2 rest) ∅

/-- Objects are the list of what they use.  Quotas that track a resource of the object match. -/
def registry : Registry ℕ ℤ Unit Unit (ResourceList ℕ ℤ) Unit :=
  fun _ ↦ some
    { handles := fun _ ↦ true
      matchesQuota := fun resourceQuota object ↦
        .ok (decide (∃ resource ∈ resourceQuota.hard.keys, resource ∈ object.content.keys))
      matchingResources := id
      constraints := fun _ _ ↦ none
      usage := fun object ↦ .ok object.content }

def object (usage : ResourceList ℕ ℤ) : Object (ResourceList ℕ ℤ) := ⟨true, "ns", "1", usage⟩

def create (usage : ResourceList ℕ ℤ) : Attributes Unit (ResourceList ℕ ℤ) :=
  ⟨"ns", (), .create, object usage, none⟩

def update (oldUsage usage : ResourceList ℕ ℤ) : Attributes Unit (ResourceList ℕ ℤ) :=
  ⟨"ns", (), .update, object usage, some (object oldUsage)⟩

def quota (name : String) (resource : ℕ) (hard used : ℤ) : ResourceQuota ℕ ℤ Unit :=
  ⟨name, (), amounts [(resource, hard)], amounts [(resource, used)]⟩

/-- All updates of the first of four passes fail, and the quotas are read as they were. -/
def conflictOnce (quotas : List (ResourceQuota ℕ ℤ Unit)) : ℕ → Round ℕ ℤ Unit Unit :=
  fun remainingRetries ↦ ⟨fun _ ↦ if remainingRetries = 3 then some () else none, .ok quotas⟩

variable {usage : ResourceList ℕ ℤ}

theorem delta_create (hnonneg : ¬ (isNegative usage).Nonempty) :
    delta registry (create usage) = some usage :=
  delta_eq_some rfl rfl
    (by simp [deltaUsage, Attributes.fillNamespace, create, object, hnonneg])

theorem concerns_create {resourceQuota : ResourceQuota ℕ ℤ Unit} {resource : ℕ}
    (hnonneg : ¬ (isNegative usage).Nonempty) (hhard : resource ∈ resourceQuota.hard)
    (hpos : 0 < amount usage resource) : Concerns registry (create usage) resourceQuota := by
  have hused : resource ∈ usage := by
    rw [← Finmap.lookup_isSome]
    by_contra hnone
    rw [Option.not_isSome_iff_eq_none] at hnone
    simp [amount, hnone] at hpos
  have hmatch : ∃ resource ∈ resourceQuota.hard.keys, resource ∈ usage.keys :=
    ⟨resource, Finmap.mem_keys.mpr hhard, Finmap.mem_keys.mpr hused⟩
  refine ⟨⟨_, rfl, rfl, fun used ↦ ⟨?_, ?_⟩⟩, usage, delta_create hnonneg, resource, hhard, hpos⟩
  · exact congrArg Except.ok (decide_eq_true hmatch)
  · exact congrArg Except.ok (decide_eq_true hmatch)

def full : List (ResourceQuota ℕ ℤ Unit) := [quota "a" 0 1 1, quota "b" 1 5 0]

def batch : List (Attributes Unit (ResourceList ℕ ℤ)) :=
  [create (amounts [(1, 1)]), create (amounts [(0, 1)])]

theorem concernedIn_full : ConcernedIn registry (create (amounts [(0, 1)])) "a" full := by
  refine ⟨⟨quota "a" 0 1 1, mem_cons_self, rfl⟩, fun resourceQuota hmem hname ↦ ?_⟩
  rcases mem_cons.mp hmem with rfl | hmem
  · exact @concerns_create _ _ 0 (by decide) (by decide) (by decide)
  · rw [mem_singleton.mp hmem] at hname
    exact absurd hname (by decide)

theorem not_admissionSound {rounds : ℕ → Round ℕ ℤ Unit Unit}
    {quotas : List (ResourceQuota ℕ ℤ Unit)} {batch : List (Attributes Unit (ResourceList ℕ ℤ))}
    {index : ℕ} {a : Attributes Unit (ResourceList ℕ ℤ)} {name : String}
    (ha : batch[index]? = some a) (hconcerned : ConcernedIn registry a name quotas)
    (hreread : ∀ pass ∈ (checkQuotas registry rounds 3 quotas (batch.map newAdmissionWaiter)).2,
      pass.reread = none ∨ pass.reread = some quotas)
    (hadmitted : ((checkQuotas registry rounds 3 quotas (batch.map newAdmissionWaiter)).1[
      index]?.map fun waiter ↦ isAdmitted waiter.result) = some true)
    (hupdates : ∀ pass ∈ (checkQuotas registry rounds 3 quotas (batch.map newAdmissionWaiter)).2,
      ∀ update ∈ pass.updates, update.1.name ≠ name) :
    ¬ AdmissionSound registry rounds 3 quotas batch := by
  intro hsound
  obtain ⟨waiter, hwaiter, hres⟩ := Option.map_eq_some_iff.mp hadmitted
  have hnil : waiter.result = .admitted := by
    revert hres
    cases waiter.result with
    | admitted => exact fun _ ↦ rfl
    | defaultDeny | refused => exact fun hfalse ↦ absurd hfalse Bool.false_ne_true
  obtain ⟨pass, hpass, read, _, written, hname, hwritten, hinclusion⟩ :=
    hsound index a waiter ha hwaiter hnil name ⟨hconcerned, fun pass hpass newQuotas hnew ↦ by
      rcases hreread pass hpass with hnone | hsame
      · simp [hnone] at hnew
      · rw [hsame, some.injEq] at hnew
        exact hnew ▸ hconcerned⟩
  obtain ⟨_, _, _, hposted, _⟩ := hinclusion.shares
  refine hupdates pass hpass _ hwritten ?_
  rw [hposted]
  exact hname

def cancelling : List (Attributes Unit (ResourceList ℕ ℤ)) :=
  [create (amounts [(0, 1)]), update (amounts [(0, 2)]) (amounts [(0, 1)])]

theorem concernedIn_single :
    ConcernedIn registry (create (amounts [(0, 1)])) "a" [quota "a" 0 5 3] := by
  refine ⟨⟨quota "a" 0 5 3, mem_cons_self, rfl⟩, fun resourceQuota hmem _ ↦ ?_⟩
  rw [mem_singleton.mp hmem]
  exact @concerns_create _ _ 0 (by decide) (by decide) (by decide)

/-- The quota `a` refuses the second request, the update of `b` fails, and the second pass checks
`b` only and admits it.  In the other batch the requests cancel, and no update is made. -/
theorem refused_then_admitted :
    ((checkQuotas registry (conflictOnce full) 3 full (batch.map newAdmissionWaiter)).2.map
      fun pass ↦ (pass.quotas.map (·.name), pass.waiters.map fun waiter ↦ isRefused waiter.result)) =
      [(["a", "b"], [false, false]), (["b"], [false, true])] ∧
    ¬ AdmissionSound registry (conflictOnce full) 3 full batch ∧
    ¬ AdmissionSound registry (conflictOnce []) 3 [quota "a" 0 5 3] cancelling := by
  refine ⟨by decide +kernel, ?_, ?_⟩
  · exact @not_admissionSound _ _ _ 1 _ _ rfl concernedIn_full (by decide +kernel)
      (by decide +kernel) (by decide +kernel)
  · exact @not_admissionSound _ _ _ 0 _ _ rfl concernedIn_single (by decide +kernel)
      (by decide +kernel) (by decide +kernel)

def contending : List (Attributes Unit (ResourceList ℕ ℤ)) :=
  [create (amounts [(1, 1)]), create (amounts [(1, 9)])]

section

variable {a : Attributes Unit (ResourceList ℕ ℤ)} (ha : a ∈ contending)

include ha

theorem mem_contending :
    ∃ used : ℤ, 0 < used ∧ a = create (amounts [(1, used)]) ∧
      ¬ (isNegative (amounts [(1, used)])).Nonempty := by
  rcases mem_cons.mp ha with rfl | ha
  · exact ⟨1, by decide, rfl, by decide⟩
  · exact ⟨9, by decide, mem_singleton.mp ha, by decide⟩

theorem concerns_contending :
    Concerns registry a (quota "b" 1 5 0) := by
  obtain ⟨used, hpos, rfl, hnonneg⟩ := mem_contending ha
  refine @concerns_create _ _ 1 hnonneg (by decide) ?_
  simpa [amounts, amount] using hpos

end

theorem noneCancels_contending : NoneCancels registry contending := by
  intro _ _ other hother _ lowered _ hlowered resource _
  obtain ⟨used, hpos, rfl, hnonneg⟩ := mem_contending hother
  rw [delta_create hnonneg, some.injEq] at hlowered
  rw [← hlowered, amount, amounts, foldr_cons, Map.lookup_insert]
  split_ifs
  · exact hpos.le
  · simp

/-- The update of `b` fails once.  The second pass refuses the second request again and charges the
first. -/
theorem contending_admissionSound :
    ((checkQuotas registry (conflictOnce [quota "b" 1 5 0]) 3 [quota "b" 1 5 0]
      (contending.map newAdmissionWaiter)).1.map fun waiter ↦ isAdmitted waiter.result) =
      [true, false] ∧
    AdmissionSound registry (conflictOnce [quota "b" 1 5 0]) 3 [quota "b" 1 5 0] contending := by
  have hquotas : ∀ pass ∈ (checkQuotas registry (conflictOnce [quota "b" 1 5 0]) 3
      [quota "b" 1 5 0] (contending.map newAdmissionWaiter)).2,
      pass.quotas = [quota "b" 1 5 0] ∧
        ∀ waiter ∈ pass.waiters, waiter.attributes ∈ contending := by
    decide +kernel
  have hguard : ∀ pass ∈ (checkQuotas registry (conflictOnce [quota "b" 1 5 0]) 3
      [quota "b" 1 5 0] (contending.map newAdmissionWaiter)).2,
      RefusedAreTouched registry pass := by
    intro pass hpass waiter hwaiter _
    obtain ⟨hquotas, hrequests⟩ := hquotas pass hpass
    exact ⟨quota "b" 1 5 0, hquotas ▸ mem_cons_self,
      (concerns_contending (hrequests waiter hwaiter)).touches⟩
  have hsound := checkQuotas_admissionSound registry (conflictOnce [quota "b" 1 5 0]) 3
    [quota "b" 1 5 0] contending hguard noneCancels_contending
  exact ⟨by decide +kernel, hsound⟩

end Sample

end Kubernetes.Quota

import Mathlib.Algebra.Order.BigOperators.Group.List
import Kubernetes.Quota.CheckQuotas

/-!
# What a pass does to the waiters and to the quotas

For every quota, a pass keeps a ledger: the share that each waiter of the batch leaves in it,
nothing for a refused one.  The usage after the pass is the usage before it with the shares added,
and a resource that is within its limit stays within it.
-/

namespace Kubernetes.Quota

open ResourceList

variable {Res Qty Spec Kind Content Err : Type} [DecidableEq Res]
variable [AddCommGroup Qty] [LinearOrder Qty]
variable {registry : Registry Res Qty Spec Kind Content Err}
variable {a a' : Attributes Kind Content}
variable {resourceQuota middle newQuota : ResourceQuota Res Qty Spec}
variable {quotas : List (ResourceQuota Res Qty Spec)}
variable {waiter waiter' : Waiter Res Qty Kind Content Err}
variable {waiters waiters' : List (Waiter Res Qty Kind Content Err)}
variable {share : ResourceList Res Qty} {shares : List (ResourceList Res Qty)}

def SameRequest (a a' : Attributes Kind Content) : Prop := a' = a ∨ a' = a.fillNamespace

theorem SameRequest.trans {a'' : Attributes Kind Content} (hfirst : SameRequest a a')
    (hsecond : SameRequest a' a'') : SameRequest a a'' := by
  rcases hfirst with rfl | rfl
  · exact hsecond
  · rw [SameRequest, Attributes.fillNamespace_fillNamespace, or_self] at hsecond
    exact .inr hsecond

theorem SameRequest.delta_eq (hsame : SameRequest a a') : delta registry a' = delta registry a := by
  rcases hsame with rfl | rfl
  · rfl
  · simp only [delta, Attributes.fillNamespace_kind, Attributes.fillNamespace_operation,
      Attributes.fillNamespace_fillNamespace]

theorem SameRequest.touches (hsame : SameRequest a a') (htouches : Touches registry a resourceQuota) :
    Touches registry a' resourceQuota := by
  obtain ⟨⟨evaluator, heval, hhandles, hmatch⟩, hchanges⟩ := htouches
  rcases hsame with rfl | rfl
  · exact ⟨⟨evaluator, heval, hhandles, hmatch⟩, hchanges⟩
  · refine ⟨⟨evaluator, by simpa using heval, by simpa using hhandles, fun used ↦ ?_⟩, ?_⟩
    · rw [Attributes.fillNamespace_fillNamespace]
      exact ⟨(hmatch used).2, (hmatch used).2⟩
    · rw [SameRequest.delta_eq (.inr rfl)]
      exact hchanges

/-- What a pass over the quotas can do to a waiter.  It is only admitted if no quota is touched. -/
structure Rechecked (registry : Registry Res Qty Spec Kind Content Err)
    (quotas : List (ResourceQuota Res Qty Spec))
    (waiter waiter' : Waiter Res Qty Kind Content Err) : Prop where
  same : SameRequest waiter.attributes waiter'.attributes
  result : waiter'.result = waiter.result ∨ (∃ err, waiter'.result = .refused err) ∨
    (waiter'.result = .admitted ∧
      ∀ resourceQuota ∈ quotas, ¬ Touches registry waiter.attributes resourceQuota)

theorem sameUsage_untouched {newQuotas : List (ResourceQuota Res Qty Spec)}
    (hchecked : (checkRequest registry quotas a).2 = .ok newQuotas)
    (hsame : sameUsage quotas newQuotas = true) (hmem : resourceQuota ∈ quotas) :
    ¬ Touches registry a resourceQuota := by
  intro htouches
  obtain ⟨newQuota, hzip, share, hposts, hshare⟩ :=
    Pointwise.exists_zip_of_mem (checkRequest_ok hchecked) hmem
  obtain ⟨_, usage, husage, resource, hhard, hne⟩ := id htouches
  have hequal : resourceQuota.used = newQuota.used :=
    (equals_iff _ _).mp (List.all_eq_true.mp hsame _ hzip)
  rw [hposts.posted, hshare htouches usage husage] at hequal
  have hamount := congrArg (amount · resource) hequal
  rw [amount_add, amount_mask, if_pos (mem_resourceNames.mpr hhard)] at hamount
  exact hne (left_eq_add.mp hamount)

theorem Posts.touches_iff (hposts : Posts registry a' resourceQuota newQuota share) :
    Touches registry a newQuota ↔ Touches registry a resourceQuota := by
  rw [hposts.posted]
  exact Iff.rfl

theorem checkWaiters_waiters (registry : Registry Res Qty Spec Kind Content Err)
    (quotas : List (ResourceQuota Res Qty Spec))
    (waiters : List (Waiter Res Qty Kind Content Err)) :
    List.Forall₂ (Rechecked registry quotas) waiters
      (checkWaiters registry quotas waiters).1 := by
  induction waiters generalizing quotas with
  | nil => exact .nil
  | cons waiter waiters ih =>
    have hsame := checkRequest_attributes registry quotas waiter.attributes
    rcases hchecked : checkRequest registry quotas waiter.attributes with ⟨attributes, err | newQuotas⟩
    · rw [hchecked] at hsame
      rw [checkWaiters_cons_error _ hchecked]
      exact .cons ⟨hsame, .inr (.inl ⟨err, rfl⟩)⟩ (ih quotas)
    · rw [hchecked] at hsame
      have hok : (checkRequest registry quotas waiter.attributes).2 = .ok newQuotas := by
        rw [hchecked]
      rw [checkWaiters_cons_ok _ hchecked]
      refine .cons ⟨hsame, ?_⟩ ?_
      · split_ifs with hunchanged
        · exact .inr (.inr ⟨rfl, fun _ hmem ↦ sameUsage_untouched hok hunchanged hmem⟩)
        · exact .inl rfl
      · -- The later waiters meet quotas that are touched by the same requests.
        refine (ih newQuotas).imp fun waiter waiter' hrechecked ↦ ⟨hrechecked.same, ?_⟩
        rcases hrechecked.result with hkept | hrefused | ⟨hadmitted, huntouched⟩
        · exact .inl hkept
        · exact .inr (.inl hrefused)
        · refine .inr (.inr ⟨hadmitted, fun resourceQuota hmem htouches ↦ ?_⟩)
          obtain ⟨newQuota, hnew, share, hposts, _⟩ :=
            Pointwise.exists_right_of_mem (checkRequest_ok hok) hmem
          exact huntouched newQuota hnew (hposts.touches_iff.mpr htouches)

/-- The shares that the waiters leave in one quota in a pass, all the usage of a waiter that is not
refused and touches it. -/
inductive Ledger (registry : Registry Res Qty Spec Kind Content Err) :
    List (Waiter Res Qty Kind Content Err) →
      List (Waiter Res Qty Kind Content Err) → ResourceQuota Res Qty Spec →
      List (ResourceList Res Qty) → ResourceQuota Res Qty Spec → Prop
  | nil (resourceQuota : ResourceQuota Res Qty Spec) :
      Ledger registry [] [] resourceQuota [] resourceQuota
  | cons {waiter waiter' : Waiter Res Qty Kind Content Err}
      {waiters waiters' : List (Waiter Res Qty Kind Content Err)}
      {resourceQuota middle newQuota : ResourceQuota Res Qty Spec}
      {share : ResourceList Res Qty} {shares : List (ResourceList Res Qty)} :
      Posts registry waiter.attributes resourceQuota middle share →
      ((∀ err, waiter'.result ≠ .refused err) →
        SharesTouched registry waiter.attributes resourceQuota share) →
      Ledger registry waiters waiters' middle shares newQuota →
      Ledger registry (waiter :: waiters) (waiter' :: waiters') resourceQuota (share :: shares)
        newQuota

theorem checkWaiters_ledger (registry : Registry Res Qty Spec Kind Content Err)
    (quotas : List (ResourceQuota Res Qty Spec))
    (waiters : List (Waiter Res Qty Kind Content Err)) :
    List.Forall₂ (fun resourceQuota newQuota ↦ ∃ shares, Ledger registry waiters
      (checkWaiters registry quotas waiters).1 resourceQuota shares newQuota) quotas
      (checkWaiters registry quotas waiters).2.1 := by
  induction waiters generalizing quotas with
  | nil =>
    rw [checkWaiters, List.forall₂_same]
    exact fun resourceQuota _ ↦ ⟨[], .nil resourceQuota⟩
  | cons waiter waiters ih =>
    rcases hchecked : checkRequest registry quotas waiter.attributes with ⟨attributes, err | newQuotas⟩
    · rw [checkWaiters_cons_error _ hchecked]
      refine (ih quotas).imp ?_
      rintro resourceQuota newQuota ⟨shares, hled⟩
      exact ⟨∅ :: shares,
        .cons (posts_nothing resourceQuota) (fun hkept ↦ absurd rfl (hkept err)) hled⟩
    · have hok : (checkRequest registry quotas waiter.attributes).2 = .ok newQuotas := by
        rw [hchecked]
      rw [checkWaiters_cons_ok _ hchecked]
      refine Pointwise.comp ?_ (checkRequest_ok hok) (ih newQuotas)
      rintro resourceQuota middle newQuota ⟨share, hposts, hshare⟩ ⟨shares, hled⟩
      exact ⟨share :: shares, .cons hposts (fun _ ↦ hshare) hled⟩

variable {resource : Res}

theorem Posts.within_of_within (hposts : Posts registry a resourceQuota newQuota share)
    (hwithin : Within resourceQuota resource) : Within newQuota resource := by
  by_cases hres : resource ∈ share
  · exact hposts.within resource hres
  · rw [hposts.posted]
    intro limit hlimit
    obtain ⟨used, hused, hle⟩ := hwithin limit hlimit
    refine ⟨used, ?_, hle⟩
    rw [lookup_add, hused, Finmap.lookup_eq_none.mpr hres]

section

variable (hled : Ledger registry waiters waiters' resourceQuota shares newQuota)

include hled

theorem Ledger.within_of_within (hwithin : Within resourceQuota resource) :
    Within newQuota resource := by
  induction hled with
  | nil => exact hwithin
  | cons hposts _ _ ih => exact ih (hposts.within_of_within hwithin)

theorem Ledger.posted :
    newQuota = { resourceQuota with used := shares.foldl add resourceQuota.used } := by
  induction hled with
  | nil => rfl
  | cons hposts _ _ ih =>
    rw [ih, hposts.posted]
    rfl

theorem Ledger.isShare :
    List.Forall₂ (fun waiter share ↦ IsShare registry resourceQuota waiter.attributes share)
      waiters shares := by
  induction hled with
  | nil => exact .nil
  | cons hposts _ _ ih =>
    refine .cons hposts.isShare ?_
    rw [hposts.posted] at ih
    exact ih

theorem Ledger.share_eq {index : ℕ} (hwaiter : waiters[index]? = some waiter)
    (hwaiter' : waiters'[index]? = some waiter') (hkept : ∀ err, waiter'.result ≠ .refused err)
    (htouches : Touches registry waiter.attributes resourceQuota)
    {usage : ResourceList Res Qty}
    (husage : delta registry waiter.attributes = some usage) :
    shares[index]? = some (mask usage (resourceNames resourceQuota.hard)) ∧
      ∀ resource ∈ mask usage (resourceNames resourceQuota.hard), Within newQuota resource := by
  induction hled generalizing index with
  | nil => simp at hwaiter
  | cons hposts hshare hrest ih =>
    cases index with
    | zero =>
      simp only [List.getElem?_cons_zero, Option.some.injEq] at hwaiter hwaiter' ⊢
      subst hwaiter hwaiter'
      have heq := hshare hkept htouches usage husage
      exact ⟨heq, fun resource hres ↦
        hrest.within_of_within (hposts.within resource (heq ▸ hres))⟩
    | succ index =>
      have htail := ih hwaiter hwaiter' (hposts.touches_iff.mpr htouches)
      rw [hposts.posted] at htail
      exact htail

/-- If no request lowers what a waiter adds to, the quota ends with another usage. -/
theorem Ledger.used_ne [IsOrderedAddMonoid Qty]
    (hgrow : ∀ waiter ∈ waiters, ∀ usage, delta registry waiter.attributes = some usage →
      0 ≤ amount usage resource) (hshare : share ∈ shares)
    (hpos : 0 < amount share resource) : resourceQuota.used ≠ newQuota.used := by
  have hnonneg : ∀ share ∈ shares, 0 ≤ amount share resource := by
    intro share hmem
    obtain ⟨waiter, hwaiter, hisShare⟩ := Pointwise.exists_left_of_mem hled.isShare hmem
    rcases hisShare with rfl | ⟨usage, husage, rfl⟩
    · rw [amount_empty]
    · rw [amount_mask]
      split_ifs
      · exact hgrow waiter hwaiter usage husage
      · exact le_rfl
  have hsum : amount share resource ≤ (shares.map fun share ↦ amount share resource).sum := by
    refine List.single_le_sum ?_ _ (List.mem_map_of_mem hshare)
    simpa using hnonneg
  intro hequal
  have hamount := congrArg (amount · resource) hequal
  rw [hled.posted, amount_foldl_add] at hamount
  exact absurd (left_eq_add.mp hamount) (hpos.trans_le hsum).ne'

end

end Kubernetes.Quota

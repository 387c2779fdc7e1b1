import Kubernetes.Basic.Pointwise
import Kubernetes.Quota.ResourceList

/-!
# Checking one request against the quotas

`checkRequest` asks the evaluator of the request for the quotas it matches and for the usage of the
object, and adds the usage to each of these quotas.  It fails if a quota would be exceeded.  The
evaluators are arbitrary.  An object without a namespace gets that of the request, in the object
that the caller passed.
-/

namespace Kubernetes.Quota

open ResourceList

variable {Res Qty Spec Kind Content Err : Type}

/-- A quota document.  `Hard` and `Used` are those of its status. -/
structure ResourceQuota (Res Qty Spec : Type) where
  name : String
  spec : Spec
  hard : ResourceList Res Qty
  used : ResourceList Res Qty
  deriving DecidableEq

inductive Operation
  | create
  | update
  | delete
  | connect
  deriving DecidableEq, Repr

/-- An object of the API.  `hasMeta` says that `meta.Accessor` can read its metadata. -/
structure Object (Content : Type) where
  hasMeta : Bool
  ns : String
  resourceVersion : String
  content : Content
  deriving DecidableEq

structure Attributes (Kind Content : Type) where
  ns : String
  kind : Kind
  operation : Operation
  object : Object Content
  oldObject : Option (Object Content)
  deriving DecidableEq

structure Evaluator (Res Qty Spec Content Err : Type) where
  handles : Operation → Bool
  matchesQuota : ResourceQuota Res Qty Spec → Object Content → Except Err Bool
  matchingResources : Finset Res → Finset Res
  constraints : Finset Res → Object Content → Option Err
  usage : Object Content → Except Err (ResourceList Res Qty)

abbrev Registry (Res Qty Spec Kind Content Err : Type) :=
  Kind → Option (Evaluator Res Qty Spec Content Err)

inductive AdmissionError (Res Qty Err : Type)
  /-- `failed quota: %s: %v` -/
  | failedQuota (quota : String) (err : Err)
  /-- `status unknown for quota: %s` -/
  | statusUnknown (quota : String)
  /-- `quota usage is negative for resource(s): %s` -/
  | negativeUsage (resources : Finset Res)
  /-- `unable to get previous usage since prior version of object was not found` -/
  | noPriorVersion
  /-- `exceeded quota: %s, requested: %s, used: %s, limited: %s` -/
  | exceededQuota (quota : String) (requested used limited : ResourceList Res Qty)
  /-- an error of an evaluator, of an update or of reading the quotas -/
  | other (err : Err)

def Attributes.fillNamespace (a : Attributes Kind Content) : Attributes Kind Content :=
  if a.ns ≠ "" ∧ a.object.hasMeta = true ∧ a.object.ns = "" then
    { a with object := { a.object with ns := a.ns } }
  else a

section

variable (a : Attributes Kind Content)

theorem Attributes.fillNamespace_fillNamespace :
    a.fillNamespace.fillNamespace = a.fillNamespace := by
  by_cases hfill : a.ns ≠ "" ∧ a.object.hasMeta = true ∧ a.object.ns = ""
  · simp [fillNamespace, hfill]
  · simp only [fillNamespace, if_neg hfill]

@[simp]
theorem Attributes.fillNamespace_kind :
    a.fillNamespace.kind = a.kind := by
  unfold fillNamespace
  split_ifs
  · rfl
  · rfl

@[simp]
theorem Attributes.fillNamespace_operation :
    a.fillNamespace.operation = a.operation := by
  unfold fillNamespace
  split_ifs
  · rfl
  · rfl

end

variable [DecidableEq Res]

def hasUsageStats (resourceQuota : ResourceQuota Res Qty Spec) : Bool :=
  decide (∀ resourceName ∈ resourceQuota.hard.keys, resourceName ∈ resourceQuota.used.keys)

def markInteresting (evaluator : Evaluator Res Qty Spec Content Err)
    (inputObject : Object Content) : List (ResourceQuota Res Qty Spec) →
      Except (AdmissionError Res Qty Err)
        (List (ResourceQuota Res Qty Spec × Bool))
  | [] => .ok []
  | resourceQuota :: quotas =>
    match evaluator.matchesQuota resourceQuota inputObject with
    | .error err => .error (.other err)
    | .ok false =>
      (markInteresting evaluator inputObject quotas).map ((resourceQuota, false) :: ·)
    | .ok true =>
      let hardResources := resourceNames resourceQuota.hard
      let requiredResources := evaluator.matchingResources hardResources
      match evaluator.constraints requiredResources inputObject with
      | some err => .error (.failedQuota resourceQuota.name err)
      | none =>
        if hasUsageStats resourceQuota then
          (markInteresting evaluator inputObject quotas).map ((resourceQuota, true) :: ·)
        else .error (.statusUnknown resourceQuota.name)

variable [AddCommGroup Qty] [LinearOrder Qty]

/-- The usage that the request adds.  An update subtracts that of the old object, unless the update
may have created it. -/
def deltaUsage (evaluator : Evaluator Res Qty Spec Content Err)
    (a : Attributes Kind Content) :
    Except (AdmissionError Res Qty Err) (ResourceList Res Qty) :=
  match evaluator.usage a.object with
  | .error err => .error (.other err)
  | .ok usage =>
    if (isNegative usage).Nonempty then .error (.negativeUsage (isNegative usage))
    else if a.operation = .update then
      match a.oldObject with
      | none => .error .noPriorVersion
      | some prevItem =>
        if prevItem.hasMeta = true ∧ prevItem.resourceVersion ≠ "" then
          match evaluator.usage prevItem with
          | .error err => .error (.other err)
          | .ok prevUsage => .ok (subtract usage prevUsage)
        else .ok usage
    else .ok usage

def charge (delta : ResourceList Res Qty)
    (resourceQuota : ResourceQuota Res Qty Spec) :
    Except (AdmissionError Res Qty Err) (ResourceQuota Res Qty Spec) :=
  let hardResources := resourceNames resourceQuota.hard
  let requestedUsage := mask delta hardResources
  let newUsage := add resourceQuota.used requestedUsage
  let maskedNewUsage := mask newUsage (resourceNames requestedUsage)
  let (allowed, exceeded) := lessThanOrEqual maskedNewUsage resourceQuota.hard
  if allowed then .ok { resourceQuota with used := newUsage }
  else .error (.exceededQuota resourceQuota.name (mask requestedUsage exceeded)
    (mask resourceQuota.used exceeded) (mask resourceQuota.hard exceeded))

def chargeMarked (delta : ResourceList Res Qty) :
    List (ResourceQuota Res Qty Spec × Bool) →
      Except (AdmissionError Res Qty Err) (List (ResourceQuota Res Qty Spec))
  | [] => .ok []
  | (resourceQuota, false) :: marked => (chargeMarked delta marked).map (resourceQuota :: ·)
  | (resourceQuota, true) :: marked =>
    match charge delta resourceQuota with
    | .error err => .error err
    | .ok newQuota => (chargeMarked delta marked).map (newQuota :: ·)

def checkRequest (registry : Registry Res Qty Spec Kind Content Err)
    (quotas : List (ResourceQuota Res Qty Spec)) (a : Attributes Kind Content) :
    Attributes Kind Content ×
      Except (AdmissionError Res Qty Err) (List (ResourceQuota Res Qty Spec)) :=
  match registry a.kind with
  | none => (a, .ok quotas)
  | some evaluator =>
    if evaluator.handles a.operation = false then (a, .ok quotas)
    else
      match markInteresting evaluator a.object quotas with
      | .error err => (a, .error err)
      | .ok marked =>
        if marked.any (·.2) = false then (a, .ok quotas)
        else
          let filled := a.fillNamespace
          match deltaUsage evaluator filled with
          | .error err => (filled, .error err)
          | .ok delta =>
            if isZero delta then (filled, .ok quotas)
            else (filled, chargeMarked delta marked)

/-! ## What a request does to a quota -/

/-- The usage that the request adds, if its evaluator handles it and can tell. -/
def delta (registry : Registry Res Qty Spec Kind Content Err)
    (a : Attributes Kind Content) : Option (ResourceList Res Qty) :=
  match registry a.kind with
  | none => none
  | some evaluator =>
    if evaluator.handles a.operation = true then (deltaUsage evaluator a.fillNamespace).toOption
    else none

section

variable (registry : Registry Res Qty Spec Kind Content Err) (a : Attributes Kind Content)
  (resourceQuota : ResourceQuota Res Qty Spec)

/-- The quota matches the request, whatever its usage is and whether or not the object has got its
namespace. -/
def Applies : Prop :=
  ∃ evaluator, registry a.kind = some evaluator ∧ evaluator.handles a.operation = true ∧
    ∀ used, evaluator.matchesQuota { resourceQuota with used := used } a.object = .ok true ∧
      evaluator.matchesQuota { resourceQuota with used := used } a.fillNamespace.object = .ok true

/-- The quota matches the request and tracks a resource whose usage the request changes. -/
def Touches : Prop :=
  Applies registry a resourceQuota ∧ ∃ usage, delta registry a = some usage ∧
    ∃ resource ∈ resourceQuota.hard, amount usage resource ≠ 0

end

/-- What a request can add to a quota: nothing, or its usage of the tracked resources. -/
def IsShare (registry : Registry Res Qty Spec Kind Content Err)
    (resourceQuota : ResourceQuota Res Qty Spec) (a : Attributes Kind Content)
    (share : ResourceList Res Qty) : Prop :=
  share = ∅ ∨ ∃ usage, delta registry a = some usage ∧
    share = mask usage (resourceNames resourceQuota.hard)

/-- The usage of a resource is known and within the hard limit, if there is one. -/
def Within (resourceQuota : ResourceQuota Res Qty Spec) (resource : Res) : Prop :=
  ∀ limit, Finmap.lookup resource resourceQuota.hard = some limit →
    ∃ used, Finmap.lookup resource resourceQuota.used = some used ∧ used ≤ limit

section Spec

variable {registry : Registry Res Qty Spec Kind Content Err}
variable {evaluator : Evaluator Res Qty Spec Content Err}
variable {quotas quotas' : List (ResourceQuota Res Qty Spec)}
variable {resourceQuota newQuota : ResourceQuota Res Qty Spec}
variable {a : Attributes Kind Content} {usage : ResourceList Res Qty}

variable {marked : List (ResourceQuota Res Qty Spec × Bool)}

omit [AddCommGroup Qty] [LinearOrder Qty] in
theorem markInteresting_ok {inputObject : Object Content}
    (hmarked : markInteresting evaluator inputObject quotas = .ok marked) :
    List.Forall₂ (fun resourceQuota entry ↦ entry.1 = resourceQuota ∧
      evaluator.matchesQuota resourceQuota inputObject = .ok entry.2) quotas marked := by
  induction quotas generalizing marked with
  | nil =>
    rw [← Except.ok.inj hmarked]
    exact .nil
  | cons resourceQuota quotas ih =>
    cases hrest : markInteresting evaluator inputObject quotas with
    | error err => grind [markInteresting, Except.map]
    | ok rest =>
      cases hmatch : evaluator.matchesQuota resourceQuota inputObject with
      | error err => simp [markInteresting, hmatch] at hmarked
      | ok matched =>
        have hcons : marked = (resourceQuota, matched) :: rest := by
          grind [markInteresting, Except.map]
        rw [hcons]
        exact .cons ⟨rfl, hmatch⟩ (ih hrest)

/-- A charged quota has the tracked usage added, and is within its limits for it. -/
theorem charge_ok
    (hcharged : (charge usage resourceQuota : Except (AdmissionError Res Qty Err) _) =
      .ok newQuota) :
    newQuota = { resourceQuota with
      used := add resourceQuota.used (mask usage (resourceNames resourceQuota.hard)) } ∧
    ∀ resource ∈ mask usage (resourceNames resourceQuota.hard), Within newQuota resource := by
  simp only [charge] at hcharged
  split_ifs at hcharged with hallowed
  rw [← Except.ok.inj hcharged]
  refine ⟨rfl, fun resource hres limit hlimit ↦ ?_⟩
  obtain ⟨requested, hreq⟩ := Finmap.mem_iff.mp hres
  obtain ⟨used, hused⟩ : ∃ used, Finmap.lookup resource
      (add resourceQuota.used (mask usage (resourceNames resourceQuota.hard))) = some used := by
    rw [lookup_add, hreq]
    cases resourceQuota.used.lookup resource <;> exact ⟨_, rfl⟩
  refine ⟨used, hused, le_of_lessThanOrEqual hallowed ?_ hlimit⟩
  rw [lookup_mask, if_pos (mem_resourceNames.mpr hres), hused]

theorem chargeMarked_ok
    (hcharged : (chargeMarked usage marked : Except (AdmissionError Res Qty Err) _) =
      .ok quotas') :
    List.Forall₂ (fun entry newQuota ↦ if entry.2 = true
      then (charge usage entry.1 : Except (AdmissionError Res Qty Err) _) = .ok newQuota
      else newQuota = entry.1) marked quotas' := by
  induction marked generalizing quotas' with
  | nil =>
    rw [← Except.ok.inj hcharged]
    exact .nil
  | cons entry marked ih =>
    obtain ⟨resourceQuota, interesting⟩ := entry
    cases hrest : (chargeMarked usage marked : Except (AdmissionError Res Qty Err) _) with
    | error err => cases interesting <;> grind [chargeMarked, Except.map]
    | ok rest =>
      cases interesting with
      | false =>
        rw [chargeMarked, hrest] at hcharged
        rw [← Except.ok.inj hcharged]
        exact .cons rfl (ih hrest)
      | true =>
        cases hcharge :
            (charge usage resourceQuota : Except (AdmissionError Res Qty Err) _) with
        | error err => simp [chargeMarked, hcharge] at hcharged
        | ok newQuota =>
          simp only [chargeMarked, hcharge, hrest] at hcharged
          rw [← Except.ok.inj hcharged]
          exact .cons hcharge (ih hrest)

/-- A successful check leaves a share of the request in a quota, all of its tracked usage if the
quota is touched. -/
structure Posts (registry : Registry Res Qty Spec Kind Content Err)
    (a : Attributes Kind Content) (resourceQuota newQuota : ResourceQuota Res Qty Spec)
    (share : ResourceList Res Qty) : Prop where
  isShare : IsShare registry resourceQuota a share
  posted : newQuota = { resourceQuota with used := add resourceQuota.used share }
  within : ∀ resource ∈ share, Within newQuota resource

theorem posts_nothing (resourceQuota : ResourceQuota Res Qty Spec) :
    Posts registry a resourceQuota resourceQuota ∅ where
  isShare := .inl rfl
  posted := by rw [add_empty]
  within resource hres := absurd hres Finmap.notMem_empty

def SharesTouched (registry : Registry Res Qty Spec Kind Content Err)
    (a : Attributes Kind Content) (resourceQuota : ResourceQuota Res Qty Spec)
    (share : ResourceList Res Qty) : Prop :=
  Touches registry a resourceQuota → ∀ usage, delta registry a = some usage →
    share = mask usage (resourceNames resourceQuota.hard)

theorem delta_eq_some (heval : registry a.kind = some evaluator)
    (hhandles : evaluator.handles a.operation = true)
    (hdelta : deltaUsage evaluator a.fillNamespace = .ok usage) : delta registry a = some usage := by
  simp [delta, heval, hhandles, hdelta, Except.toOption]

theorem Touches.matches_eq (htouches : Touches registry a resourceQuota)
    (heval : registry a.kind = some evaluator) :
    evaluator.matchesQuota resourceQuota a.object = .ok true := by
  obtain ⟨⟨evaluator', hevaluator', _, hmatches⟩, _⟩ := htouches
  rw [heval] at hevaluator'
  rw [Option.some.inj hevaluator']
  exact (hmatches resourceQuota.used).1

section

variable (hchecked : (checkRequest registry quotas a).2 = .ok quotas')

include hchecked

/-- A successful check leaves the quotas as they are, and none of them is touched, or charges the
marked ones. -/
theorem checkRequest_cases :
    (quotas' = quotas ∧ ∀ resourceQuota ∈ quotas, ¬ Touches registry a resourceQuota) ∨
    ∃ evaluator marked usage, registry a.kind = some evaluator ∧
      markInteresting evaluator a.object quotas = .ok marked ∧ delta registry a = some usage ∧
      (chargeMarked usage marked : Except (AdmissionError Res Qty Err) _) =
        .ok quotas' := by
  cases heval : registry a.kind with
  | none =>
    simp only [checkRequest, heval, Except.ok.injEq] at hchecked
    refine .inl ⟨hchecked.symm, fun resourceQuota _ htouches ↦ ?_⟩
    obtain ⟨⟨evaluator, hsome, _⟩, _⟩ := htouches
    simp [heval] at hsome
  | some evaluator =>
    simp only [checkRequest, heval] at hchecked
    split_ifs at hchecked with hhandles
    · refine .inl ⟨(Except.ok.inj hchecked).symm, fun resourceQuota _ htouches ↦ ?_⟩
      obtain ⟨⟨evaluator', hsome, hhandled, _⟩, _⟩ := htouches
      rw [heval] at hsome
      rw [Option.some.inj hsome, hhandled] at hhandles
      exact absurd hhandles (by decide)
    · rw [Bool.not_eq_false] at hhandles
      split at hchecked
      · cases hchecked
      · next marked hmarked =>
        split_ifs at hchecked with hnone
        · refine .inl ⟨(Except.ok.inj hchecked).symm, fun resourceQuota hmem htouches ↦ ?_⟩
          obtain ⟨entry, hentry, _, hmatch⟩ :=
            Pointwise.exists_right_of_mem (markInteresting_ok hmarked) hmem
          rw [htouches.matches_eq heval] at hmatch
          rw [List.any_eq_false] at hnone
          exact hnone entry hentry (Except.ok.inj hmatch).symm
        · split at hchecked
          · cases hchecked
          · next usage hdelta =>
            have husage := delta_eq_some heval hhandles hdelta
            split_ifs at hchecked with hzero
            · refine .inl ⟨(Except.ok.inj hchecked).symm, fun resourceQuota _ htouches ↦ ?_⟩
              obtain ⟨_, usage', husage', resource, _, hne⟩ := htouches
              rw [husage] at husage'
              rw [← Option.some.inj husage'] at hne
              exact hne (amount_eq_zero_of_isZero hzero resource)
            · exact .inr ⟨evaluator, marked, usage, rfl, hmarked, husage, hchecked⟩

theorem checkRequest_ok :
    List.Forall₂ (fun resourceQuota newQuota ↦ ∃ share,
      Posts registry a resourceQuota newQuota share ∧
        SharesTouched registry a resourceQuota share) quotas quotas' := by
  rcases checkRequest_cases hchecked with ⟨hsame, huntouched⟩ | ⟨evaluator, marked, usage,
    heval, hmarked, husage, hcharged⟩
  · rw [hsame, List.forall₂_same]
    exact fun resourceQuota hmem ↦ ⟨∅, posts_nothing resourceQuota,
      fun htouches ↦ absurd htouches (huntouched resourceQuota hmem)⟩
  · refine Pointwise.comp ?_ (markInteresting_ok hmarked) (chargeMarked_ok hcharged)
    rintro resourceQuota ⟨_, interesting⟩ newQuota ⟨rfl, hmatch⟩ hnew
    cases interesting with
    | false =>
      subst hnew
      refine ⟨∅, posts_nothing newQuota, fun htouches ↦ ?_⟩
      rw [htouches.matches_eq heval] at hmatch
      simp at hmatch
    | true =>
      obtain ⟨hposted, hwithin⟩ := charge_ok hnew
      refine ⟨_, ⟨.inr ⟨usage, husage, rfl⟩, hposted, hwithin⟩, fun _ usage' husage' ↦ ?_⟩
      rw [husage] at husage'
      rw [Option.some.inj husage']

end

theorem checkRequest_attributes (registry : Registry Res Qty Spec Kind Content Err)
    (quotas : List (ResourceQuota Res Qty Spec)) (a : Attributes Kind Content) :
    (checkRequest registry quotas a).1 = a ∨
      (checkRequest registry quotas a).1 = a.fillNamespace := by
  unfold checkRequest
  grind

end Spec

end Kubernetes.Quota

import Kubernetes.Basic.Text

/-!
# Policy rules

A policy rule grants verbs on resources of API groups, perhaps only on some names, and verbs on
non-resource URLs.  The authorizer matches a request against a rule.  The escalation check breaks
the rules to be granted into rules with one verb and one resource or URL each, and looks for a rule
of the granter that covers each of them.
-/

namespace Kubernetes.Rbac

def apiGroupAll : String := "*"

def resourceAll : String := "*"

def verbAll : String := "*"

def nonResourceAll : String := "*"

/-- A rule.  Absent fields of a rule literal are empty slices. -/
structure PolicyRule where
  verbs : List String := []
  apiGroups : List String := []
  resources : List String := []
  resourceNames : List String := []
  nonResourceURLs : List String := []
  deriving DecidableEq, Repr

structure Attributes where
  verb : String
  isResourceRequest : Bool
  apiGroup : String
  resource : String
  subresource : String
  name : String
  path : String
  deriving DecidableEq, Repr

def matchesValue (all : String) (ruleValues : List String) (requested : String) : Bool :=
  ruleValues.any fun ruleValue ↦ ruleValue == all || ruleValue == requested

section

variable (rule : PolicyRule)

def verbMatches (requestedVerb : String) : Bool :=
  matchesValue verbAll rule.verbs requestedVerb

def apiGroupMatches (requestedGroup : String) : Bool :=
  matchesValue apiGroupAll rule.apiGroups requestedGroup

def resourceMatches (requestedResource : String) : Bool :=
  matchesValue resourceAll rule.resources requestedResource

/-- A rule without names applies to every name. -/
def resourceNameMatches (requestedName : String) : Bool :=
  if rule.resourceNames.length = 0 then true
  else rule.resourceNames.any fun ruleName ↦ ruleName == requestedName

/-- A URL of a rule matches itself, and what it starts if it ends in a star. -/
def nonResourceURLMatches (requestedURL : String) : Bool :=
  rule.nonResourceURLs.any fun ruleURL ↦
    ruleURL == nonResourceAll || ruleURL == requestedURL ||
      (hasSuffix ruleURL "*" && hasPrefix requestedURL (trimRight ruleURL "*"))

end

section

variable (requestAttributes : Attributes)

/-- The resource that `RuleAllows` looks for: with the subresource, if there is one. -/
def requestedResource : String :=
  if requestAttributes.subresource.length > 0 then
    requestAttributes.resource ++ "/" ++ requestAttributes.subresource
  else requestAttributes.resource

def ruleAllows (rule : PolicyRule) : Bool :=
  if requestAttributes.isResourceRequest then
    verbMatches rule requestAttributes.verb &&
      apiGroupMatches rule requestAttributes.apiGroup &&
      resourceMatches rule (requestedResource requestAttributes) &&
      resourceNameMatches rule requestAttributes.name
  else
    verbMatches rule requestAttributes.verb &&
      nonResourceURLMatches rule requestAttributes.path

def rulesAllow (rules : List PolicyRule) : Bool :=
  rules.any (ruleAllows requestAttributes)

end

/-- A list of rules with at most one verb, one resource and one resource name each. -/
def breakdownRule (rule : PolicyRule) : List PolicyRule :=
  (rule.apiGroups.flatMap fun group ↦
    rule.resources.flatMap fun resource ↦
      rule.verbs.flatMap fun verb ↦
        if rule.resourceNames.length > 0 then
          rule.resourceNames.map fun resourceName ↦
            { apiGroups := [group], resources := [resource], verbs := [verb],
              resourceNames := [resourceName] }
        else
          [{ apiGroups := [group], resources := [resource], verbs := [verb] }]) ++
  rule.nonResourceURLs.flatMap fun nonResourceURL ↦
    rule.verbs.map fun verb ↦ { nonResourceURLs := [nonResourceURL], verbs := [verb] }

def has (set : List String) (ele : String) : Bool := set.any (· == ele)

def hasAll (set contains : List String) : Bool := contains.all fun ele ↦ ele ∈ set

def nonResourceURLCovers (ownerPath subPath : String) : Bool :=
  if ownerPath = subPath then true
  else hasSuffix ownerPath "*" && hasPrefix subPath (trimRight ownerPath "*")

def nonResourceURLsCoversAll (set covers : List String) : Bool :=
  covers.all fun path ↦ set.any fun owner ↦ nonResourceURLCovers owner path

def ruleCovers (ownerRule subRule : PolicyRule) : Bool :=
  let verbMatches := has ownerRule.verbs verbAll || hasAll ownerRule.verbs subRule.verbs
  let groupMatches :=
    has ownerRule.apiGroups apiGroupAll || hasAll ownerRule.apiGroups subRule.apiGroups
  let resourceMatches :=
    has ownerRule.resources resourceAll || hasAll ownerRule.resources subRule.resources
  let nonResourceURLMatches :=
    nonResourceURLsCoversAll ownerRule.nonResourceURLs subRule.nonResourceURLs
  let resourceNameMatches :=
    if subRule.resourceNames.length = 0 then ownerRule.resourceNames.length == 0
    else
      ownerRule.resourceNames.length == 0 ||
        hasAll ownerRule.resourceNames subRule.resourceNames
  verbMatches && groupMatches && resourceMatches && resourceNameMatches && nonResourceURLMatches

/-- The broken-down servant rules that no owner rule covers. -/
def uncoveredRules (ownerRules servantRules : List PolicyRule) : List PolicyRule :=
  (servantRules.flatMap breakdownRule).filter fun subrule ↦
    !ownerRules.any fun ownerRule ↦ ruleCovers ownerRule subrule

/-- `Covers`: the owner rules cover the servant rules, and the rules they do not cover. -/
def covers (ownerRules servantRules : List PolicyRule) : Bool × List PolicyRule :=
  let uncovered := uncoveredRules ownerRules servantRules
  (uncovered.length == 0, uncovered)

/-- `ConfirmNoEscalation` for a user with the rules `ownerRules`: the rules granted in excess, if
any. -/
def confirmNoEscalation (ownerRules rules : List PolicyRule) : Except (List PolicyRule) Unit :=
  match covers ownerRules rules with
  | (true, _) => .ok ()
  | (false, missingRights) => .error missingRights

end Kubernetes.Rbac

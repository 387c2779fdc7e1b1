import Kubernetes.Labels.Requirement

/-!
# Anti-affinity of existing pods

A required anti-affinity term of a pod keeps other pods away from the topology of its node.  The
terms that match the pod to be scheduled are collected before the scheduler tries the nodes, or by
another function for every node.

A collector records the address of the variable of its loop over the terms of a pod.  There is one
variable for the whole loop, so after it all these addresses give the last term.  The nodes come in
the order of their results.
-/

namespace Kubernetes.Predicates

open Labels

inductive LabelSelectorOperator
  | isIn
  | notIn
  | isPresent
  | doesNotExist
  | other (text : String)
  deriving DecidableEq, Repr

structure LabelSelectorRequirement where
  key : Bytes
  operator : LabelSelectorOperator
  values : List Bytes
  deriving DecidableEq, Repr

/-- A label selector.  The map of labels is given in the order of its iteration. -/
structure LabelSelector where
  matchLabels : List (Bytes × Bytes)
  matchExpressions : List LabelSelectorRequirement
  deriving DecidableEq, Repr

inductive SelectorError
  | requirement (err : RequirementError)
  | invalidOperator (text : String)
  deriving DecidableEq, Repr

def LabelSelectorOperator.operator : LabelSelectorOperator → Except SelectorError Operator
  | isIn => .ok .isIn
  | notIn => .ok .notIn
  | isPresent => .ok .isPresent
  | doesNotExist => .ok .doesNotExist
  | other text => .error (.invalidOperator text)

variable [KeySort]

def addRequirement (selector : Selector) (key : Bytes) (op : Operator) (values : List Bytes) :
    Except SelectorError Selector :=
  match newRequirement key op values with
  | .ok r => .ok (Selector.sortByKey (selector ++ [r]))
  | .error err => .error (.requirement err)

def labelSelectorAsSelector (ps : Option LabelSelector) : Except SelectorError (Option Selector) :=
  match ps with
  | none => .ok none
  | some ps => do
    let selector ← ps.matchLabels.foldlM (fun selector label ↦
      addRequirement selector label.1 .equals [label.2]) []
    let selector ← ps.matchExpressions.foldlM (fun selector expr ↦ do
      let op ← expr.operator.operator
      addRequirement selector expr.key op expr.values) selector
    return some selector

/-- Without a list of namespaces a term is about that of its pod, and with an empty list about all.
-/
structure PodAffinityTerm where
  labelSelector : Option LabelSelector
  namespaces : Option (List String)
  topologyKey : Bytes
  deriving DecidableEq, Repr

structure Affinity where
  podAffinity : Option (List PodAffinityTerm)
  podAntiAffinity : Option (List PodAffinityTerm)
  deriving DecidableEq, Repr

structure Pod where
  nameSpace : String
  labels : LabelSet
  nodeName : String
  affinity : Except String (Option Affinity)
  deriving DecidableEq

structure Node where
  labels : LabelSet
  deriving DecidableEq

structure NodeInfo where
  node : Option Node
  pods : List Pod
  deriving DecidableEq

def hasPodAffinityConstraints (pod : Pod) : Bool :=
  match pod.affinity with
  | .error _ => false
  | .ok none => false
  | .ok (some affinity) => affinity.podAffinity.isSome || affinity.podAntiAffinity.isSome

def NodeInfo.podsWithAffinity (nodeInfo : NodeInfo) : List Pod :=
  nodeInfo.pods.filter hasPodAffinityConstraints

def getPodAntiAffinityTerms (podAntiAffinity : Option (List PodAffinityTerm)) :
    List PodAffinityTerm :=
  podAntiAffinity.getD []

/-- The namespaces of a term.  No namespaces stand for all of them. -/
def getNamespacesFromPodAffinityTerm (pod : Pod) (term : PodAffinityTerm) : List String :=
  match term.namespaces with
  | none => [pod.nameSpace]
  | some namespaces => namespaces

def podMatchesTermsNamespaceAndSelector (pod : Pod) (namespaces : List String)
    (selector : Option Selector) : Bool :=
  if namespaces ≠ [] ∧ pod.nameSpace ∉ namespaces then false
  else
    match selector with
    | none => false
    | some selector => selector.matchesLabels pod.labels

def nodesHaveSameTopologyKeyInternal (nodeA nodeB : Node) (topologyKey : Bytes) : Bool :=
  0 < (nodeA.labels.get topologyKey).length &&
    nodeA.labels.get topologyKey == nodeB.labels.get topologyKey

/-- Without a topology key, the two nodes must agree on one of the default keys. -/
def nodesHaveSameTopologyKey (defaultKeys : List Bytes) (nodeA nodeB : Node) (topologyKey : Bytes) :
    Bool :=
  if topologyKey = [] then
    defaultKeys.any fun defaultKey ↦ nodesHaveSameTopologyKeyInternal nodeA nodeB defaultKey
  else nodesHaveSameTopologyKeyInternal nodeA nodeB topologyKey

inductive AffinityError
  | nodeNotFound
  | unreadable (err : String)
  | selector (err : SelectorError)
  deriving DecidableEq, Repr

structure MatchingPodAntiAffinityTerm where
  term : PodAffinityTerm
  node : Node
  deriving DecidableEq

/-- The loop over the terms of a pod: its variable, and how often its address was recorded. -/
structure TermLoop where
  current : Option PodAffinityTerm
  recorded : ℕ
  deriving DecidableEq, Repr

/-- The body of the loop.  The namespace of the owner is the default. -/
def visitTerm (owner pod : Pod) (loop : TermLoop) (term : PodAffinityTerm) :
    Except AffinityError TermLoop :=
  match labelSelectorAsSelector term.labelSelector with
  | .error err => .error (.selector err)
  | .ok selector =>
    if podMatchesTermsNamespaceAndSelector pod (getNamespacesFromPodAffinityTerm owner term) selector
    then .ok ⟨some term, loop.recorded + 1⟩
    else .ok ⟨some term, loop.recorded⟩

def matchingTerms (owner pod : Pod) (node : Node) (terms : List PodAffinityTerm) :
    Except AffinityError (List MatchingPodAntiAffinityTerm) := do
  let loop ← terms.foldlM (visitTerm owner pod) ⟨none, 0⟩
  return match loop.current with
    | none => []
    | some term => List.replicate loop.recorded ⟨term, node⟩

/-- The matching terms of an existing pod, for the metadata.  The default namespace is that of the
pod to be scheduled. -/
def processPod (pod : Pod) (node : Node) (existingPod : Pod) :
    Except AffinityError (List MatchingPodAntiAffinityTerm) :=
  match existingPod.affinity with
  | .error err => .error (.unreadable err)
  | .ok none => .ok []
  | .ok (some affinity) =>
    matchingTerms pod pod node (getPodAntiAffinityTerms affinity.podAntiAffinity)

def processNode (pod : Pod) (nodeInfo : NodeInfo) :
    Except AffinityError (List MatchingPodAntiAffinityTerm) :=
  match nodeInfo.node with
  | none => .error .nodeNotFound
  | some node => List.flatten <$> nodeInfo.podsWithAffinity.mapM (processPod pod node)

def getMatchingAntiAffinityTerms (pod : Pod) (nodeInfos : List NodeInfo) :
    Except AffinityError (List MatchingPodAntiAffinityTerm) :=
  List.flatten <$> nodeInfos.mapM (processNode pod)

def getMetadata (pod : Pod) (nodeInfos : List NodeInfo) :
    Option (List MatchingPodAntiAffinityTerm) :=
  match getMatchingAntiAffinityTerms pod nodeInfos with
  | .ok terms => some terms
  | .error _ => none

/-- The matching terms of an existing pod, without metadata.  The default namespace is that of the
existing pod. -/
def termsOfPod (getNodeInfo : String → Option Node) (pod existingPod : Pod) :
    Except AffinityError (List MatchingPodAntiAffinityTerm) :=
  match existingPod.affinity with
  | .error err => .error (.unreadable err)
  | .ok none => .ok []
  | .ok (some affinity) =>
    match affinity.podAntiAffinity with
    | none => .ok []
    | some podAntiAffinity =>
      match getNodeInfo existingPod.nodeName with
      | none => .error .nodeNotFound
      | some existingPodNode =>
        matchingTerms existingPod pod existingPodNode (getPodAntiAffinityTerms (some podAntiAffinity))

def getMatchingAntiAffinityTermsOfPods (getNodeInfo : String → Option Node) (pod : Pod)
    (allPods : List Pod) : Except AffinityError (List MatchingPodAntiAffinityTerm) :=
  List.flatten <$> allPods.mapM (termsOfPod getNodeInfo pod)

/-- The node may take the pod, as far as the matching terms are concerned. -/
def satisfiesTerms (defaultKeys : List Bytes) (node : Node)
    (terms : List MatchingPodAntiAffinityTerm) : Bool :=
  !terms.any fun term ↦ nodesHaveSameTopologyKey defaultKeys node term.node term.term.topologyKey

/-- What the checker has: the nodes by their names, and all pods. -/
structure PodAffinityChecker where
  getNodeInfo : String → Option Node
  allPods : List Pod
  defaultKeys : List Bytes

def PodAffinityChecker.satisfiesExistingPodsAntiAffinity (c : PodAffinityChecker) (pod : Pod)
    (predicateMeta : Option (List MatchingPodAntiAffinityTerm)) (node : Node) : Bool :=
  match predicateMeta with
  | some terms => satisfiesTerms c.defaultKeys node terms
  | none =>
    match getMatchingAntiAffinityTermsOfPods c.getNodeInfo pod c.allPods with
    | .error _ => false
    | .ok terms => satisfiesTerms c.defaultKeys node terms

def Pod.antiAffinityTerms (pod : Pod) : List PodAffinityTerm :=
  match pod.affinity with
  | .error _ => []
  | .ok none => []
  | .ok (some affinity) => getPodAntiAffinityTerms affinity.podAntiAffinity

def PodAffinityTerm.Selects (term : PodAffinityTerm) (pod : Pod) : Prop :=
  ∃ selector, labelSelectorAsSelector term.labelSelector = .ok (some selector) ∧
    selector.matchesLabels pod.labels = true

/-- A term of an existing pod is about a namespace. -/
def PodAffinityTerm.Covers (term : PodAffinityTerm) (existingPod : Pod)
    (nameSpace : String) : Prop :=
  match term.namespaces with
  | none => nameSpace = existingPod.nameSpace
  | some [] => True
  | some namespaces => nameSpace ∈ namespaces

/-- A term of an existing pod is about the pod to be scheduled. -/
def PodAffinityTerm.Applies (term : PodAffinityTerm) (existingPod pod : Pod) : Prop :=
  term.Covers existingPod pod.nameSpace ∧ term.Selects pod

/-- Two nodes have the same value of a label, and it is not empty. -/
def SameTopology (nodeA nodeB : Node) (topologyKey : Bytes) : Prop :=
  ∃ value, value ≠ [] ∧ Finmap.lookup topologyKey nodeA.labels = some value ∧
    Finmap.lookup topologyKey nodeB.labels = some value

/-- An existing pod has a required anti-affinity term about the pod that keeps it away from the
node. -/
def KeepsAway (existingPod : Pod) (existingNode : Node) (pod : Pod) (node : Node) : Prop :=
  ∃ term ∈ existingPod.antiAffinityTerms,
    term.Applies existingPod pod ∧ SameTopology node existingNode term.topologyKey

def IsOn (nodeInfos : List NodeInfo) (existingPod : Pod) (existingNode : Node) : Prop :=
  ∃ nodeInfo ∈ nodeInfos, nodeInfo.node = some existingNode ∧ existingPod ∈ nodeInfo.pods

def Forbidden (nodeInfos : List NodeInfo) (pod : Pod) (node : Node) : Prop :=
  ∃ existingPod existingNode, IsOn nodeInfos existingPod existingNode ∧
    KeepsAway existingPod existingNode pod node

end Kubernetes.Predicates

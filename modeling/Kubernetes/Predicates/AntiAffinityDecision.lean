import Kubernetes.Basic.Pointwise
import Kubernetes.Predicates.InterPodAffinity

/-!
# When anti-affinity is decided right

Each existing pod is read in three ways: as its terms mean it, and as the two collectors read it.
Both collectors take the topology key from the last term of the pod, and the first one takes the
default namespace from the pod to be scheduled.  The decision is right, and the same on both paths,
exactly if the three readings agree on every existing pod, or if some pod keeps the node away in
each of them.
-/

namespace Kubernetes.Predicates

open Labels List
open Kubernetes.Pointwise (ok_of_flatten_mapM mem_flatten_of_mapM)

variable {defaultKeys : List Bytes} {existingPod pod owner : Pod} {existingNode node : Node}
variable {nodeInfos : List NodeInfo}

variable {term : PodAffinityTerm}

theorem podMatches_iff {selector : Option Selector} :
    podMatchesTermsNamespaceAndSelector pod (getNamespacesFromPodAffinityTerm owner term) selector =
        true ↔
      term.Covers owner pod.nameSpace ∧
        ∃ s, selector = some s ∧ s.matchesLabels pod.labels = true := by
  have hcovers : term.Covers owner pod.nameSpace ↔
      ¬(getNamespacesFromPodAffinityTerm owner term ≠ [] ∧
        pod.nameSpace ∉ getNamespacesFromPodAffinityTerm owner term) := by
    unfold PodAffinityTerm.Covers getNamespacesFromPodAffinityTerm
    cases term.namespaces with
    | none => simp
    | some namespaces =>
      cases namespaces with
      | nil => simp
      | cons head tail => simp [-mem_cons]
  unfold podMatchesTermsNamespaceAndSelector
  rw [hcovers]
  split_ifs with h
  · simp [h]
  · cases selector <;> simp [h]

/-- The nodes agree on a topology key, or on one of the default keys if it is empty. -/
def AgreeOn (defaultKeys : List Bytes) (nodeA nodeB : Node) (topologyKey : Bytes) : Prop :=
  if topologyKey = [] then ∃ defaultKey ∈ defaultKeys, SameTopology nodeA nodeB defaultKey
  else SameTopology nodeA nodeB topologyKey

theorem nodesHaveSameTopologyKeyInternal_iff {nodeA nodeB : Node} {topologyKey : Bytes} :
    nodesHaveSameTopologyKeyInternal nodeA nodeB topologyKey = true ↔
      SameTopology nodeA nodeB topologyKey := by
  unfold nodesHaveSameTopologyKeyInternal SameTopology LabelSet.get
  rw [Bool.and_eq_true, decide_eq_true_eq, beq_iff_eq, length_pos_iff]
  cases hA : nodeA.labels.lookup topologyKey with
  | none => simp
  | some value =>
    cases hB : nodeB.labels.lookup topologyKey with
    | none => simp
    | some value' =>
      simp only [Option.getD_some, Option.some.injEq]
      constructor
      · intro h
        exact ⟨value, h.1, rfl, h.2.symm⟩
      · rintro ⟨shared, hshared, rfl, rfl⟩
        exact ⟨hshared, rfl⟩

theorem nodesHaveSameTopologyKey_iff {nodeA nodeB : Node} {topologyKey : Bytes} :
    nodesHaveSameTopologyKey defaultKeys nodeA nodeB topologyKey = true ↔
      AgreeOn defaultKeys nodeA nodeB topologyKey := by
  unfold nodesHaveSameTopologyKey AgreeOn
  split_ifs with hkey
  · rw [any_eq_true]
    simp only [nodesHaveSameTopologyKeyInternal_iff]
  · exact nodesHaveSameTopologyKeyInternal_iff

theorem satisfiesTerms_eq_false_iff {terms : List MatchingPodAntiAffinityTerm} :
    satisfiesTerms defaultKeys node terms = false ↔
      ∃ recorded ∈ terms, AgreeOn defaultKeys node recorded.node recorded.term.topologyKey := by
  unfold satisfiesTerms
  rw [Bool.not_eq_false', any_eq_true]
  simp only [nodesHaveSameTopologyKey_iff]

theorem eq_iff_false_iff (answer answer' : Bool) :
    answer = answer' ↔ (answer = false ↔ answer' = false) := by
  cases answer <;> cases answer' <;> simp

theorem hasPodAffinityConstraints_of_getLast? {last : PodAffinityTerm}
    (hlast : existingPod.antiAffinityTerms.getLast? = some last) :
    hasPodAffinityConstraints existingPod = true := by
  unfold Pod.antiAffinityTerms at hlast
  unfold hasPodAffinityConstraints
  split at hlast
  · cases hlast
  · cases hlast
  · next affinity haff =>
    cases hanti : affinity.podAntiAffinity with
    | none => simp [hanti, getPodAntiAffinityTerms] at hlast
    | some terms => simp

section Decision

variable [KeySort] {loop loop' : TermLoop}

theorem visitTerm_eq_ok (hvisit : visitTerm owner pod loop term = .ok loop') :
    loop'.current = some term ∧
      (0 < loop'.recorded ↔ 0 < loop.recorded ∨ term.Applies owner pod) := by
  unfold visitTerm at hvisit
  cases hselector : labelSelectorAsSelector term.labelSelector with
  | error err => simp [hselector] at hvisit
  | ok selector =>
    have happlies : term.Applies owner pod ↔ podMatchesTermsNamespaceAndSelector pod
        (getNamespacesFromPodAffinityTerm owner term) selector = true := by
      rw [podMatches_iff, PodAffinityTerm.Applies, PodAffinityTerm.Selects, hselector]
      simp
    rw [happlies]
    simp only [hselector] at hvisit
    split_ifs at hvisit with hmatch <;> cases hvisit <;> simp [hmatch]

variable {terms : List PodAffinityTerm}

/-- After the loop the variable holds the last term, and an address was recorded if a term is about
the pod. -/
theorem foldlM_visitTerm_eq_ok (hloop : terms.foldlM (visitTerm owner pod) loop = .ok loop') :
    loop'.current = terms.getLast?.or loop.current ∧
      (0 < loop'.recorded ↔ 0 < loop.recorded ∨ ∃ term ∈ terms, term.Applies owner pod) := by
  induction terms generalizing loop with
  | nil =>
    cases hloop
    simp
  | cons term rest ih =>
    cases hvisit : visitTerm owner pod loop term with
    | error err => simp [hvisit, bind, Except.bind] at hloop
    | ok next =>
      obtain ⟨hcur, hrec⟩ := visitTerm_eq_ok hvisit
      have hrest : rest.foldlM (visitTerm owner pod) next = .ok loop' := by
        simpa [hvisit, bind, Except.bind] using hloop
      obtain ⟨ihcurrent, ihrecorded⟩ := ih hrest
      constructor
      · rw [ihcurrent, hcur, List.getLast?_cons]
        cases rest.getLast? <;> rfl
      · rw [ihrecorded, hrec, exists_mem_cons_iff, or_assoc]

variable {results : List MatchingPodAntiAffinityTerm} {recorded : MatchingPodAntiAffinityTerm}

theorem mem_of_matchingTerms (hterms : matchingTerms owner pod existingNode terms = .ok results) :
    recorded ∈ results ↔ recorded.node = existingNode ∧ terms.getLast? = some recorded.term ∧
      ∃ term ∈ terms, term.Applies owner pod := by
  unfold matchingTerms at hterms
  cases hloop : terms.foldlM (visitTerm owner pod) ⟨none, 0⟩ with
  | error err => simp [hloop, bind, Except.bind] at hterms
  | ok loop =>
    obtain ⟨hcur, hrec⟩ := foldlM_visitTerm_eq_ok hloop
    simp only [Option.or_none, lt_irrefl, false_or] at hcur hrec
    rw [← hcur, ← hrec]
    simp only [hloop, bind, Except.bind, pure, Except.pure, Except.ok.injEq] at hterms
    rw [← hterms]
    cases loop.current with
    | none => simp
    | some last =>
      rw [mem_replicate, Nat.pos_iff_ne_zero]
      cases recorded
      simp only [MatchingPodAntiAffinityTerm.mk.injEq, Option.some.injEq]
      tauto

/-! ## What the collectors read -/

/-- Some term is about the pod, where the terms belong to the owner. -/
def SomeApplies (owner existingPod pod : Pod) : Prop :=
  ∃ term ∈ existingPod.antiAffinityTerms, term.Applies owner pod

/-- The nodes agree on the topology key of the last term of the existing pod. -/
def AgreeOnLast (defaultKeys : List Bytes) (existingPod : Pod) (existingNode node : Node) : Prop :=
  ∃ last, existingPod.antiAffinityTerms.getLast? = some last ∧
    AgreeOn defaultKeys node existingNode last.topologyKey

def Readable (existingPod : Pod) : Prop := ∃ affinity, existingPod.affinity = .ok affinity

section

variable (defaultKeys : List Bytes) (existingPod : Pod) (existingNode : Node) (pod : Pod)

/-- The collector of the metadata reads the existing pod as keeping the pod away. -/
def MetadataKeepsAway (node : Node) : Prop :=
  SomeApplies pod existingPod pod ∧ AgreeOnLast defaultKeys existingPod existingNode node

/-- The collector without metadata does, or it fails. -/
def ListKeepsAway (node : Node) : Prop :=
  ¬Readable existingPod ∨
    SomeApplies existingPod existingPod pod ∧ AgreeOnLast defaultKeys existingPod existingNode node

end

/-- What is recorded for an existing pod, where its terms belong to the owner. -/
def Recorded (owner existingPod : Pod) (existingNode : Node) (pod : Pod)
    (recorded : MatchingPodAntiAffinityTerm) : Prop :=
  recorded.node = existingNode ∧ existingPod.antiAffinityTerms.getLast? = some recorded.term ∧
    SomeApplies owner existingPod pod

theorem exists_recorded_iff :
    (∃ recorded, Recorded owner existingPod existingNode pod recorded ∧
        AgreeOn defaultKeys node recorded.node recorded.term.topologyKey) ↔
      SomeApplies owner existingPod pod ∧ AgreeOnLast defaultKeys existingPod existingNode node := by
  constructor
  · rintro ⟨recorded, ⟨rfl, hlast, happlies⟩, hagree⟩
    exact ⟨happlies, recorded.term, hlast, hagree⟩
  · rintro ⟨happlies, last, hlast, hagree⟩
    exact ⟨⟨last, existingNode⟩, ⟨rfl, hlast, happlies⟩, hagree⟩

theorem mem_of_processPod (hproc : processPod pod existingNode existingPod = .ok results) :
    recorded ∈ results ↔ Recorded pod existingPod existingNode pod recorded := by
  unfold processPod at hproc
  unfold Recorded SomeApplies Pod.antiAffinityTerms
  split at hproc
  · cases hproc
  · cases hproc
    simp [*]
  · rw [mem_of_matchingTerms hproc]

section

variable {nodeInfo : NodeInfo} (hproc : processNode pod nodeInfo = .ok results)

include hproc

theorem processNode_eq_ok :
    ∃ existingNode, nodeInfo.node = some existingNode ∧
      List.flatten <$> nodeInfo.podsWithAffinity.mapM (processPod pod existingNode) =
        .ok results := by
  unfold processNode at hproc
  cases hnode : nodeInfo.node with
  | none => simp [hnode] at hproc
  | some existingNode =>
    rw [hnode] at hproc
    exact ⟨existingNode, rfl, hproc⟩

theorem mem_of_processNode :
    recorded ∈ results ↔ ∃ existingNode, nodeInfo.node = some existingNode ∧
      ∃ existingPod ∈ nodeInfo.pods, Recorded pod existingPod existingNode pod recorded := by
  obtain ⟨existingNode, hnode, hloop⟩ := processNode_eq_ok hproc
  rw [mem_flatten_of_mapM hloop]
  constructor
  · rintro ⟨existingPod, hmem, podResults, hpod, hrec⟩
    exact ⟨existingNode, hnode, existingPod, mem_of_mem_filter hmem,
      (mem_of_processPod hpod).mp hrec⟩
  · rintro ⟨existingNode', hnode', existingPod, hmem, hrec⟩
    obtain rfl : existingNode = existingNode' := Option.some.inj (hnode.symm.trans hnode')
    have hwith : existingPod ∈ nodeInfo.podsWithAffinity :=
      mem_filter.mpr ⟨hmem, hasPodAffinityConstraints_of_getLast? hrec.2.1⟩
    obtain ⟨podResults, hpod⟩ := ok_of_flatten_mapM hloop hwith
    exact ⟨existingPod, hwith, podResults, hpod, (mem_of_processPod hpod).mpr hrec⟩

end

variable {predicateMeta : List MatchingPodAntiAffinityTerm}

section

variable (hmeta : getMetadata pod nodeInfos = some predicateMeta)

include hmeta

theorem getMetadata_eq_some :
    List.flatten <$> nodeInfos.mapM (processNode pod) = .ok predicateMeta := by
  unfold getMetadata at hmeta
  cases hterms : getMatchingAntiAffinityTerms pod nodeInfos with
  | error err => simp [hterms] at hmeta
  | ok terms =>
    simp only [hterms, Option.some.injEq] at hmeta
    rw [← hmeta]
    exact hterms

theorem mem_of_getMetadata :
    recorded ∈ predicateMeta ↔ ∃ existingPod existingNode, IsOn nodeInfos existingPod existingNode ∧
      Recorded pod existingPod existingNode pod recorded := by
  have hloop := getMetadata_eq_some hmeta
  rw [mem_flatten_of_mapM hloop]
  constructor
  · rintro ⟨nodeInfo, hinfo, results, hproc, hmem⟩
    obtain ⟨existingNode, hnode, existingPod, hpod, hrec⟩ :=
      (mem_of_processNode hproc).mp hmem
    exact ⟨existingPod, existingNode, ⟨nodeInfo, hinfo, hnode, hpod⟩, hrec⟩
  · rintro ⟨existingPod, existingNode, ⟨nodeInfo, hinfo, hnode, hpod⟩, hrec⟩
    obtain ⟨results, hproc⟩ := ok_of_flatten_mapM hloop hinfo
    exact ⟨nodeInfo, hinfo, results, hproc,
      (mem_of_processNode hproc).mpr ⟨existingNode, hnode, existingPod, hpod, hrec⟩⟩

theorem satisfies_metadata_eq_false_iff (c : PodAffinityChecker) (node : Node) :
    c.satisfiesExistingPodsAntiAffinity pod (some predicateMeta) node = false ↔
      ∃ existingPod existingNode, IsOn nodeInfos existingPod existingNode ∧
        MetadataKeepsAway c.defaultKeys existingPod existingNode pod node := by
  unfold PodAffinityChecker.satisfiesExistingPodsAntiAffinity MetadataKeepsAway
  simp only [satisfiesTerms_eq_false_iff, mem_of_getMetadata hmeta, ← exists_recorded_iff]
  constructor
  · rintro ⟨recorded, ⟨existingPod, existingNode, hon, hrec⟩, hagree⟩
    exact ⟨existingPod, existingNode, hon, recorded, hrec, hagree⟩
  · rintro ⟨existingPod, existingNode, hon, recorded, hrec, hagree⟩
    exact ⟨recorded, ⟨existingPod, existingNode, hon, hrec⟩, hagree⟩

end

/-! ## The decision without metadata -/

/-- The lister and the nodes of the checker give the pods and nodes of the scheduler. -/
structure PodAffinityChecker.Sees (c : PodAffinityChecker) (nodeInfos : List NodeInfo) : Prop where
  pods : ∀ existingPod, existingPod ∈ c.allPods ↔ ∃ nodeInfo ∈ nodeInfos, existingPod ∈ nodeInfo.pods
  node : ∀ nodeInfo ∈ nodeInfos, ∀ existingPod ∈ nodeInfo.pods,
    c.getNodeInfo existingPod.nodeName = nodeInfo.node

/-- Whether the loop fails does not depend on the owner of the terms. -/
theorem exists_foldlM_visitTerm_iff (owner pod : Pod) (terms : List PodAffinityTerm)
    (loop : TermLoop) :
    (∃ loop', terms.foldlM (visitTerm owner pod) loop = .ok loop') ↔
      ∀ term ∈ terms, ∃ selector, labelSelectorAsSelector term.labelSelector = .ok selector := by
  induction terms generalizing loop with
  | nil => simp [pure, Except.pure]
  | cons term rest ih =>
    rw [forall_mem_cons]
    cases hselector : labelSelectorAsSelector term.labelSelector with
    | error err => simp [visitTerm, hselector, bind, Except.bind]
    | ok selector =>
      have hvisit : ∃ next, visitTerm owner pod loop term = .ok next := by
        unfold visitTerm
        rw [hselector]
        dsimp only
        split_ifs <;> exact ⟨_, rfl⟩
      obtain ⟨next, hnext⟩ := hvisit
      simp [hnext, bind, Except.bind, ih]

theorem exists_matchingTerms_iff :
    (∃ results, matchingTerms owner pod existingNode terms = .ok results) ↔
      ∀ term ∈ terms, ∃ selector, labelSelectorAsSelector term.labelSelector = .ok selector := by
  rw [← exists_foldlM_visitTerm_iff owner pod terms ⟨none, 0⟩]
  unfold matchingTerms
  cases terms.foldlM (visitTerm owner pod) ⟨none, 0⟩ <;> simp [bind, Except.bind, pure, Except.pure]

theorem exists_selector_of_getMetadata (hmeta : getMetadata pod nodeInfos = some predicateMeta)
    (hon : IsOn nodeInfos existingPod existingNode) (hterm : term ∈ existingPod.antiAffinityTerms) :
    ∃ selector, labelSelectorAsSelector term.labelSelector = .ok selector := by
  obtain ⟨nodeInfo, hinfo, -, hpod⟩ := hon
  obtain ⟨results, hproc⟩ := ok_of_flatten_mapM (getMetadata_eq_some hmeta) hinfo
  obtain ⟨processed, -, hloop⟩ := processNode_eq_ok hproc
  have hwith : existingPod ∈ nodeInfo.podsWithAffinity := by
    have hsome := List.getLast?_isSome.mpr (ne_nil_of_mem hterm)
    obtain ⟨last, hlast⟩ := Option.isSome_iff_exists.mp hsome
    exact mem_filter.mpr ⟨hpod, hasPodAffinityConstraints_of_getLast? hlast⟩
  obtain ⟨podResults, hpodResults⟩ := ok_of_flatten_mapM hloop hwith
  unfold processPod at hpodResults
  unfold Pod.antiAffinityTerms at hterm
  split at hpodResults
  · cases hpodResults
  · simp [*] at hterm
  · next affinity haff =>
    rw [haff] at hterm
    exact exists_matchingTerms_iff.mp ⟨podResults, hpodResults⟩ term hterm

variable {getNodeInfo : String → Option Node}

section

variable (hnode : getNodeInfo existingPod.nodeName = some existingNode)

include hnode

theorem mem_of_termsOfPod (hterms : termsOfPod getNodeInfo pod existingPod = .ok results) :
    recorded ∈ results ↔ Recorded existingPod existingPod existingNode pod recorded := by
  unfold termsOfPod at hterms
  unfold Recorded SomeApplies Pod.antiAffinityTerms
  split at hterms
  · cases hterms
  · cases hterms
    simp [*]
  · next affinity haff =>
    cases hanti : affinity.podAntiAffinity with
    | none =>
      simp only [hanti] at hterms
      cases hterms
      simp [getPodAntiAffinityTerms]
    | some podAntiAffinity =>
      simp only [hanti, hnode] at hterms
      rw [mem_of_matchingTerms hterms]

theorem exists_termsOfPod (hread : Readable existingPod)
    (hselectors : ∀ term ∈ existingPod.antiAffinityTerms,
      ∃ selector, labelSelectorAsSelector term.labelSelector = .ok selector) :
    ∃ results, termsOfPod getNodeInfo pod existingPod = .ok results := by
  obtain ⟨affinity, haff⟩ := hread
  unfold termsOfPod
  unfold Pod.antiAffinityTerms at hselectors
  rw [haff] at hselectors ⊢
  cases affinity with
  | none => exact ⟨[], rfl⟩
  | some affinity =>
    dsimp only at hselectors ⊢
    cases hanti : affinity.podAntiAffinity with
    | none => exact ⟨[], rfl⟩
    | some podAntiAffinity =>
      rw [hanti] at hselectors
      simp only [hnode]
      exact exists_matchingTerms_iff.mpr hselectors

end

/-- The decision without metadata, where the metadata exists. -/
theorem satisfies_list_eq_false_iff {c : PodAffinityChecker} (node : Node)
    (hsees : c.Sees nodeInfos) (hmeta : getMetadata pod nodeInfos = some predicateMeta) :
    c.satisfiesExistingPodsAntiAffinity pod none node = false ↔
      ∃ existingPod existingNode, IsOn nodeInfos existingPod existingNode ∧
        ListKeepsAway c.defaultKeys existingPod existingNode pod node := by
  have hplace : ∀ existingPod ∈ c.allPods, ∃ existingNode,
      IsOn nodeInfos existingPod existingNode ∧
        c.getNodeInfo existingPod.nodeName = some existingNode := by
    intro existingPod hpod
    obtain ⟨nodeInfo, hinfo, hmem⟩ := (hsees.pods existingPod).mp hpod
    obtain ⟨results, hproc⟩ := ok_of_flatten_mapM (getMetadata_eq_some hmeta) hinfo
    obtain ⟨existingNode, hnode, -⟩ := processNode_eq_ok hproc
    exact ⟨existingNode, ⟨nodeInfo, hinfo, hnode, hmem⟩,
      (hsees.node nodeInfo hinfo existingPod hmem).trans hnode⟩
  have hlisted : ∀ existingPod existingNode, IsOn nodeInfos existingPod existingNode →
      existingPod ∈ c.allPods ∧ c.getNodeInfo existingPod.nodeName = some existingNode := by
    rintro existingPod existingNode ⟨nodeInfo, hinfo, hnode, hmem⟩
    exact ⟨(hsees.pods existingPod).mpr ⟨nodeInfo, hinfo, hmem⟩,
      (hsees.node nodeInfo hinfo existingPod hmem).trans hnode⟩
  unfold PodAffinityChecker.satisfiesExistingPodsAntiAffinity
  by_cases hreadable : ∀ existingPod ∈ c.allPods, Readable existingPod
  · -- no pod makes the loop fail, so the recorded terms decide
    have hall : ∀ existingPod ∈ c.allPods, ∃ results,
        termsOfPod c.getNodeInfo pod existingPod = .ok results := by
      intro existingPod hpod
      obtain ⟨existingNode, hon, hnode⟩ := hplace existingPod hpod
      exact exists_termsOfPod hnode (hreadable existingPod hpod)
        fun term hterm ↦ exists_selector_of_getMetadata hmeta hon hterm
    obtain ⟨lists, hlists⟩ := Pointwise.exists_mapM_eq_ok hall
    have hloop : getMatchingAntiAffinityTermsOfPods c.getNodeInfo pod c.allPods =
        .ok lists.flatten := by
      simp [getMatchingAntiAffinityTermsOfPods, hlists, Functor.map, Except.map]
    rw [hloop]
    rw [satisfiesTerms_eq_false_iff]
    constructor
    · rintro ⟨recorded, hmem, hagree⟩
      obtain ⟨existingPod, hpod, results, hterms, hres⟩ :=
        (mem_flatten_of_mapM hloop).mp hmem
      obtain ⟨existingNode, hon, hnode⟩ := hplace existingPod hpod
      have hrec := (mem_of_termsOfPod hnode hterms).mp hres
      exact ⟨existingPod, existingNode, hon,
        .inr (exists_recorded_iff.mp ⟨recorded, hrec, hagree⟩)⟩
    · rintro ⟨existingPod, existingNode, hon, hkeeps⟩
      obtain ⟨hpod, hnode⟩ := hlisted existingPod existingNode hon
      obtain ⟨recorded, hrec, hagree⟩ := exists_recorded_iff.mpr
        (hkeeps.resolve_left (not_not_intro (hreadable existingPod hpod)))
      obtain ⟨results, hterms⟩ := hall existingPod hpod
      exact ⟨recorded, (mem_flatten_of_mapM hloop).mpr
        ⟨existingPod, hpod, results, hterms, (mem_of_termsOfPod hnode hterms).mpr hrec⟩, hagree⟩
  · -- a pod that cannot be read makes the loop fail, and the answer is no
    push Not at hreadable
    obtain ⟨existingPod, hpod, hunreadable⟩ := hreadable
    obtain ⟨existingNode, hon, -⟩ := hplace existingPod hpod
    cases hloop : getMatchingAntiAffinityTermsOfPods c.getNodeInfo pod c.allPods with
    | error err =>
      exact ⟨fun _ ↦ ⟨existingPod, existingNode, hon, .inl hunreadable⟩, fun _ ↦ rfl⟩
    | ok terms =>
      obtain ⟨results, hterms⟩ := ok_of_flatten_mapM hloop hpod
      refine absurd ?_ hunreadable
      unfold termsOfPod at hterms
      split at hterms
      · cases hterms
      · exact ⟨_, by assumption⟩
      · exact ⟨_, by assumption⟩

/-! ## The three readings -/

/-- An existing pod on which the collectors and the meaning of the terms agree. -/
structure ReadRight (defaultKeys : List Bytes) (existingPod : Pod) (existingNode : Node) (pod : Pod)
    (node : Node) : Prop where
  readable : Readable existingPod
  /-- It does not matter which of the two namespaces is the default. -/
  nameSpace : AgreeOnLast defaultKeys existingPod existingNode node →
    (SomeApplies pod existingPod pod ↔ SomeApplies existingPod existingPod pod)
  /-- The topology key of the last term decides as those of the terms about the pod do. -/
  lastKey : SomeApplies existingPod existingPod pod →
    (AgreeOnLast defaultKeys existingPod existingNode node ↔
      ∃ term ∈ existingPod.antiAffinityTerms,
        term.Applies existingPod pod ∧ SameTopology node existingNode term.topologyKey)

theorem not_keepsAway_of_not_readable (hread : ¬Readable existingPod) :
    ¬KeepsAway existingPod existingNode pod node := by
  rintro ⟨term, hterm, -⟩
  unfold Pod.antiAffinityTerms at hterm
  split at hterm
  · cases hterm
  · cases hterm
  · exact hread ⟨_, by assumption⟩

theorem readRight_iff :
    ReadRight defaultKeys existingPod existingNode pod node ↔
      (MetadataKeepsAway defaultKeys existingPod existingNode pod node ↔
        KeepsAway existingPod existingNode pod node) ∧
      (ListKeepsAway defaultKeys existingPod existingNode pod node ↔
        KeepsAway existingPod existingNode pod node) := by
  have happlies : KeepsAway existingPod existingNode pod node →
      SomeApplies existingPod existingPod pod := by
    rintro ⟨term, hterm, happlies, -⟩
    exact ⟨term, hterm, happlies⟩
  have hunreadable : ¬Readable existingPod → ¬KeepsAway existingPod existingNode pod node :=
    not_keepsAway_of_not_readable
  unfold MetadataKeepsAway ListKeepsAway
  constructor
  · rintro ⟨hread, hspace, hkey⟩
    change _ → (_ ↔ KeepsAway existingPod existingNode pod node) at hkey
    tauto
  · intro h
    refine ⟨by tauto, by tauto, ?_⟩
    change _ → (_ ↔ KeepsAway existingPod existingNode pod node)
    tauto

/-- All terms have one topology key, and are about listed namespaces or the namespace that the two
pods share. -/
theorem ReadRight.of_uniform (topologyKey : Bytes) (hread : Readable existingPod)
    (hkey : topologyKey ≠ [])
    (hkeys : ∀ term ∈ existingPod.antiAffinityTerms, term.topologyKey = topologyKey)
    (hspace : ∀ term ∈ existingPod.antiAffinityTerms, term.namespaces = none →
      existingPod.nameSpace = pod.nameSpace) :
    ReadRight defaultKeys existingPod existingNode pod node := by
  have happlies : ∀ term ∈ existingPod.antiAffinityTerms,
      (term.Applies pod pod ↔ term.Applies existingPod pod) := by
    intro term hterm
    unfold PodAffinityTerm.Applies PodAffinityTerm.Covers
    cases hnamespaces : term.namespaces with
    | none => rw [hspace term hterm hnamespaces]
    | some namespaces => cases namespaces <;> rfl
  refine ⟨hread, ?_, ?_⟩
  · intro _
    exact exists_congr fun term ↦ and_congr_right (happlies term)
  · rintro ⟨term, hterm, hterms⟩
    constructor
    · rintro ⟨last, hlast, hagree⟩
      have hlastKey := hkeys last (List.mem_of_getLast? hlast)
      rw [AgreeOn, hlastKey, if_neg hkey] at hagree
      exact ⟨term, hterm, hterms, (hkeys term hterm).symm ▸ hagree⟩
    · rintro ⟨other, hother, -, hsame⟩
      have hsome := List.getLast?_isSome.mpr (ne_nil_of_mem hterm)
      obtain ⟨last, hlast⟩ := Option.isSome_iff_exists.mp hsome
      refine ⟨last, hlast, ?_⟩
      rw [AgreeOn, hkeys last (List.mem_of_getLast? hlast), if_neg hkey, ← hkeys other hother]
      exact hsame

/-- In each of the three readings some existing pod keeps the node away. -/
def ForbiddenAnyway (defaultKeys : List Bytes) (nodeInfos : List NodeInfo) (pod : Pod) (node : Node) :
    Prop :=
  Forbidden nodeInfos pod node ∧
    (∃ existingPod existingNode, IsOn nodeInfos existingPod existingNode ∧
      MetadataKeepsAway defaultKeys existingPod existingNode pod node) ∧
    ∃ existingPod existingNode, IsOn nodeInfos existingPod existingNode ∧
      ListKeepsAway defaultKeys existingPod existingNode pod node

section

variable {c : PodAffinityChecker} {predicateMeta : List MatchingPodAntiAffinityTerm}
variable (hsees : c.Sees nodeInfos) (hmeta : getMetadata pod nodeInfos = some predicateMeta)

include hsees hmeta

theorem decided_of_readRight (hright : ∀ existingPod existingNode,
      IsOn nodeInfos existingPod existingNode →
        ReadRight c.defaultKeys existingPod existingNode pod node) :
    (c.satisfiesExistingPodsAntiAffinity pod (some predicateMeta) node = false ↔
        Forbidden nodeInfos pod node) ∧
      c.satisfiesExistingPodsAntiAffinity pod (some predicateMeta) node =
        c.satisfiesExistingPodsAntiAffinity pod none node := by
  simp only [readRight_iff] at hright
  rw [eq_iff_false_iff (c.satisfiesExistingPodsAntiAffinity pod (some predicateMeta) node)
    (c.satisfiesExistingPodsAntiAffinity pod none node),
    satisfies_metadata_eq_false_iff hmeta c node, satisfies_list_eq_false_iff node hsees hmeta]
  constructor
  · exact exists₂_congr fun existingPod existingNode ↦
      and_congr_right fun hon ↦ (hright existingPod existingNode hon).1
  · exact exists₂_congr fun existingPod existingNode ↦ and_congr_right fun hon ↦
      (hright existingPod existingNode hon).1.trans (hright existingPod existingNode hon).2.symm

/-- The decision is right if all terms of a pod have one topology key, and are about listed
namespaces or the namespace that it shares with the new pod. -/
theorem decided_of_uniform (topologyKey : Pod → Bytes)
    (hall : ∀ existingPod existingNode, IsOn nodeInfos existingPod existingNode →
      Readable existingPod ∧ topologyKey existingPod ≠ [] ∧
        ∀ term ∈ existingPod.antiAffinityTerms, term.topologyKey = topologyKey existingPod ∧
          (term.namespaces = none → existingPod.nameSpace = pod.nameSpace)) :
    (c.satisfiesExistingPodsAntiAffinity pod (some predicateMeta) node = false ↔
        Forbidden nodeInfos pod node) ∧
      c.satisfiesExistingPodsAntiAffinity pod (some predicateMeta) node =
        c.satisfiesExistingPodsAntiAffinity pod none node := by
  apply decided_of_readRight hsees hmeta
  intro existingPod existingNode hon
  obtain ⟨hread, hkey, hterms⟩ := hall existingPod existingNode hon
  exact .of_uniform (topologyKey existingPod) hread hkey (fun term hterm ↦ (hterms term hterm).1)
    fun term hterm ↦ (hterms term hterm).2

end

/-- With metadata the answer is no exactly if the node is forbidden, as without metadata, if and
only if every existing pod is read right or the node is forbidden anyway. -/
theorem anti_affinity_decided_iff {c : PodAffinityChecker}
    {predicateMeta : List MatchingPodAntiAffinityTerm} (hsees : c.Sees nodeInfos)
    (hmeta : getMetadata pod nodeInfos = some predicateMeta) :
    ((c.satisfiesExistingPodsAntiAffinity pod (some predicateMeta) node = false ↔
          Forbidden nodeInfos pod node) ∧
        c.satisfiesExistingPodsAntiAffinity pod (some predicateMeta) node =
          c.satisfiesExistingPodsAntiAffinity pod none node) ↔
      (∀ existingPod existingNode, IsOn nodeInfos existingPod existingNode →
          ReadRight c.defaultKeys existingPod existingNode pod node) ∨
        ForbiddenAnyway c.defaultKeys nodeInfos pod node := by
  constructor
  · rw [eq_iff_false_iff (c.satisfiesExistingPodsAntiAffinity pod (some predicateMeta) node)
      (c.satisfiesExistingPodsAntiAffinity pod none node),
      satisfies_metadata_eq_false_iff hmeta c node, satisfies_list_eq_false_iff node hsees hmeta]
    rintro ⟨hright, hsame⟩
    by_cases hforbidden : ∃ existingPod existingNode, IsOn nodeInfos existingPod existingNode ∧
        KeepsAway existingPod existingNode pod node
    · exact .inr ⟨hforbidden, hright.mpr hforbidden, hsame.mp (hright.mpr hforbidden)⟩
    · -- nobody keeps the node away in any reading
      have hmetadataNone := mt hright.mp hforbidden
      have hlistNone := mt hsame.mpr hmetadataNone
      push Not at hforbidden hmetadataNone hlistNone
      refine .inl fun existingPod existingNode hon ↦ readRight_iff.mpr ?_
      have hkeeps := hforbidden existingPod existingNode hon
      exact ⟨iff_of_false (hmetadataNone existingPod existingNode hon) hkeeps,
        iff_of_false (hlistNone existingPod existingNode hon) hkeeps⟩
  · rintro (hright | ⟨hforbidden, hmetadataSome, hlistSome⟩)
    · exact decided_of_readRight hsees hmeta hright
    · have hmetadata := (satisfies_metadata_eq_false_iff hmeta c node).mpr hmetadataSome
      have hlist := (satisfies_list_eq_false_iff node hsees hmeta).mpr hlistSome
      exact ⟨iff_of_true hmetadata hforbidden, hmetadata.trans hlist.symm⟩

end Decision

/-! ## A pod with the label `app=web` and pods that keep it away -/

def machine (zone host : String) : Node :=
  ⟨(Finmap.insert "zone".toList zone.toList ∅).insert "host".toList host.toList⟩

def webPod : Pod := ⟨"default", Finmap.insert "app".toList "web".toList ∅, "", .ok none⟩

def avoid (app topologyKey : String) : PodAffinityTerm :=
  ⟨some ⟨[("app".toList, app.toList)], []⟩, none, topologyKey.toList⟩

def guardPod (nameSpace : String) (terms : List PodAffinityTerm) : Pod :=
  ⟨nameSpace, ∅, "first", .ok (some ⟨none, some terms⟩)⟩

def onFirst (existingPods : List Pod) : List NodeInfo :=
  [⟨some (machine "z" "first"), existingPods⟩]

def checkerOf (existingPods : List Pod) : PodAffinityChecker :=
  ⟨fun _ ↦ some (machine "z" "first"), existingPods, []⟩

theorem checkerOf_sees (existingPods : List Pod) :
    (checkerOf existingPods).Sees (onFirst existingPods) := by
  constructor <;> simp [checkerOf, onFirst]

/-- Two pods, each with a term about the web pod and another one. -/
theorem web_kept_away :
    let existingPods := [guardPod "default" [avoid "web" "zone", avoid "db" "zone"],
      guardPod "default" [avoid "db" "host", avoid "web" "host"]]
    let recorded := [MatchingPodAntiAffinityTerm.mk (avoid "db" "zone") (machine "z" "first"),
      ⟨avoid "web" "host", machine "z" "first"⟩]
    getMetadata webPod (onFirst existingPods) = some recorded ∧
      ((checkerOf existingPods).satisfiesExistingPodsAntiAffinity webPod (some recorded)
          (machine "z" "second") = false ↔
        Forbidden (onFirst existingPods) webPod (machine "z" "second")) ∧
      (checkerOf existingPods).satisfiesExistingPodsAntiAffinity webPod (some recorded)
          (machine "z" "second") =
        (checkerOf existingPods).satisfiesExistingPodsAntiAffinity webPod none
          (machine "z" "second") := by
  intro existingPods recorded
  have hmeta : getMetadata webPod (onFirst existingPods) = some recorded := by
    decide +kernel
  refine ⟨hmeta, (anti_affinity_decided_iff (checkerOf_sees _) hmeta).mpr (.inl ?_)⟩
  rintro existingPod existingNode ⟨nodeInfo, hinfo, hnode, hpod⟩
  obtain rfl := mem_singleton.mp hinfo
  rcases mem_pair.mp hpod with rfl | rfl
  · apply ReadRight.of_uniform "zone".toList ⟨_, rfl⟩ (by decide)
    · exact fun term hterm ↦ by rcases mem_pair.mp hterm with rfl | rfl <;> rfl
    · exact fun _ _ _ ↦ rfl
  · apply ReadRight.of_uniform "host".toList ⟨_, rfl⟩ (by decide)
    · exact fun term hterm ↦ by rcases mem_pair.mp hterm with rfl | rfl <;> rfl
    · exact fun _ _ _ ↦ rfl

def otherPod : Pod := guardPod "other" [avoid "web" "zone"]

def bothPod : Pod := guardPod "default" [avoid "web" "zone", avoid "web" "host"]

/-- A pod of another namespace is taken to keep the web pod away, and one with two terms not to. -/
theorem web_misjudged :
    (∃ predicateMeta, getMetadata webPod (onFirst [otherPod]) = some predicateMeta ∧
      (checkerOf [otherPod]).satisfiesExistingPodsAntiAffinity webPod (some predicateMeta)
        (machine "z" "second") = false ∧
      (checkerOf [otherPod]).satisfiesExistingPodsAntiAffinity webPod none
        (machine "z" "second") = true ∧
      ¬Forbidden (onFirst [otherPod]) webPod (machine "z" "second")) ∧
    ∃ predicateMeta, getMetadata webPod (onFirst [bothPod]) = some predicateMeta ∧
      (checkerOf [bothPod]).satisfiesExistingPodsAntiAffinity webPod (some predicateMeta)
        (machine "z" "second") = true ∧
      Forbidden (onFirst [bothPod]) webPod (machine "z" "second") := by
  constructor
  · refine ⟨[⟨avoid "web" "zone", machine "z" "first"⟩], by decide +kernel, by decide +kernel,
      by decide +kernel, ?_⟩
    rintro ⟨existingPod, existingNode, ⟨nodeInfo, hinfo, hnode, hpod⟩, term, hterm, ⟨hcovers, -⟩, -⟩
    obtain rfl := mem_singleton.mp hinfo
    obtain rfl := mem_singleton.mp hpod
    obtain rfl := mem_singleton.mp hterm
    have hsame : "default" = "other" := hcovers
    exact absurd hsame (by decide)
  · refine ⟨[⟨avoid "web" "host", machine "z" "first"⟩, ⟨avoid "web" "host", machine "z" "first"⟩],
      by decide +kernel, by decide +kernel, ?_⟩
    refine ⟨bothPod, machine "z" "first", ⟨_, mem_singleton_self _, rfl, mem_singleton_self _⟩,
      avoid "web" "zone", mem_cons_self, ⟨rfl, [⟨"app".toList, .equals, ["web".toList]⟩], ?_, ?_⟩,
      "z".toList, ?_⟩ <;>
    decide +kernel

end Kubernetes.Predicates

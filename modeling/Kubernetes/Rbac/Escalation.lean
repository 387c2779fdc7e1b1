import Kubernetes.Rbac.Rules
import Mathlib.Data.Set.Basic

/-!
# The escalation check is sound

The escalation check compares rules syntactically, with its own treatment of wildcards, names and
URL patterns.  It is sound for the meaning that the authorizer gives to rules: a covered rule
allows no request that the covering rules do not allow.
-/

namespace Kubernetes.Rbac

open List

variable {all requested : String}

theorem matchesValue_iff {ruleValues : List String} :
    matchesValue all ruleValues requested = true ↔
      ∃ value ∈ ruleValues, value = all ∨ value = requested := by
  simp [matchesValue]

theorem has_iff {set : List String} {ele : String} : has set ele = true ↔ ele ∈ set := by
  simp [has]

theorem hasAll_iff {set contains : List String} :
    hasAll set contains = true ↔ ∀ ele ∈ contains, ele ∈ set := by
  simp [hasAll]

/-- Values that contain the wildcard or all values of a subrule match what the subrule matches. -/
theorem matchesValue_of_covers {ownerValues subValues : List String}
    (hcovers : (has ownerValues all || hasAll ownerValues subValues) = true)
    (hmatch : matchesValue all subValues requested = true) :
    matchesValue all ownerValues requested = true := by
  rw [matchesValue_iff] at hmatch ⊢
  obtain ⟨value, hvalue, hreq⟩ := hmatch
  rcases Bool.or_eq_true_iff.mp hcovers with hall | hsub
  · exact ⟨all, has_iff.mp hall, .inl rfl⟩
  · exact ⟨value, hasAll_iff.mp hsub value hvalue, hreq⟩

variable {owner sub rule : PolicyRule}

theorem resourceNameMatches_of_covers
    (hcovers : (if sub.resourceNames.length = 0 then owner.resourceNames.length == 0
      else owner.resourceNames.length == 0 ||
        hasAll owner.resourceNames sub.resourceNames) = true)
    (hmatch : resourceNameMatches sub requested = true) :
    resourceNameMatches owner requested = true := by
  unfold resourceNameMatches at hmatch ⊢
  split_ifs with howner
  · rfl
  · split_ifs at hcovers hmatch with hsub
    · exact absurd (beq_iff_eq.mp hcovers) howner
    · have hall := (Bool.or_eq_true_iff.mp hcovers).resolve_left fun h ↦ howner (beq_iff_eq.mp h)
      obtain ⟨name, hname, hreq⟩ := any_eq_true.mp hmatch
      exact any_eq_true.mpr ⟨name, hasAll_iff.mp hall name hname, hreq⟩

def urlMatches (ruleURL requestedURL : String) : Bool :=
  ruleURL == nonResourceAll || ruleURL == requestedURL ||
    (hasSuffix ruleURL "*" && hasPrefix requestedURL (trimRight ruleURL "*"))

theorem nonResourceURLMatches_eq (rule : PolicyRule) (requestedURL : String) :
    nonResourceURLMatches rule requestedURL =
      rule.nonResourceURLs.any (urlMatches · requestedURL) :=
  rfl

theorem hasPrefix_empty (text : String) : hasPrefix text "" = true := hasPrefix_iff.mpr nil_prefix

/-- A pattern that covers a URL of a rule matches everything the URL matches. -/
theorem urlMatches_of_covers {owner sub : String} (hcovers : nonResourceURLCovers owner sub = true)
    (hmatch : urlMatches sub requested = true) : urlMatches owner requested = true := by
  unfold nonResourceURLCovers at hcovers
  split_ifs at hcovers with heq
  · rw [heq]
    exact hmatch
  · obtain ⟨hstar, hsub⟩ := Bool.and_eq_true_iff.mp hcovers
    have htrimmed := hasPrefix_trimRight hsub
    have hreq : hasPrefix requested (trimRight owner "*") = true := by
      simp only [urlMatches, Bool.or_eq_true, beq_iff_eq, Bool.and_eq_true] at hmatch
      rcases hmatch with (hall | hsame) | ⟨-, hstarts⟩
      · rw [hall] at htrimmed
        exact hasPrefix_trans (hasPrefix_empty requested) htrimmed
      · rw [← hsame]
        exact hsub
      · exact hasPrefix_trans hstarts htrimmed
    simp [urlMatches, hstar, hreq]

theorem nonResourceURLMatches_of_covers
    (hcovers : nonResourceURLsCoversAll owner.nonResourceURLs sub.nonResourceURLs = true)
    (hmatch : nonResourceURLMatches sub requested = true) :
    nonResourceURLMatches owner requested = true := by
  rw [nonResourceURLMatches_eq, any_eq_true] at hmatch ⊢
  obtain ⟨url, hurl, hreq⟩ := hmatch
  obtain ⟨ownerURL, hownerURL, hcover⟩ :=
    any_eq_true.mp (all_eq_true.mp hcovers url hurl)
  exact ⟨ownerURL, hownerURL, urlMatches_of_covers hcover hreq⟩

variable {request : Attributes}

theorem ruleAllows_of_ruleCovers (hcovers : ruleCovers owner sub = true)
    (hallows : ruleAllows request sub = true) : ruleAllows request owner = true := by
  simp only [ruleCovers, Bool.and_eq_true] at hcovers
  obtain ⟨⟨⟨⟨hverb, hgroup⟩, hres⟩, hname⟩, hurl⟩ := hcovers
  unfold ruleAllows at hallows ⊢
  split_ifs at hallows ⊢ with hkind
  · simp only [Bool.and_eq_true] at hallows ⊢
    obtain ⟨⟨⟨hverbs, hgroups⟩, hresources⟩, hnames⟩ := hallows
    exact ⟨⟨⟨matchesValue_of_covers hverb hverbs, matchesValue_of_covers hgroup hgroups⟩,
      matchesValue_of_covers hres hresources⟩, resourceNameMatches_of_covers hname hnames⟩
  · simp only [Bool.and_eq_true] at hallows ⊢
    exact ⟨matchesValue_of_covers hverb hallows.1, nonResourceURLMatches_of_covers hurl hallows.2⟩

theorem mem_breakdownRule :
    sub ∈ breakdownRule rule ↔
      (∃ group ∈ rule.apiGroups, ∃ resource ∈ rule.resources, ∃ verb ∈ rule.verbs,
        (rule.resourceNames = [] ∧
          sub = { apiGroups := [group], resources := [resource], verbs := [verb] }) ∨
        ∃ name ∈ rule.resourceNames,
          sub = { apiGroups := [group], resources := [resource], verbs := [verb],
                  resourceNames := [name] }) ∨
      ∃ url ∈ rule.nonResourceURLs, ∃ verb ∈ rule.verbs,
        sub = { nonResourceURLs := [url], verbs := [verb] } := by
  rw [breakdownRule, mem_append]
  apply or_congr
  · simp only [mem_flatMap]
    refine exists_congr fun group ↦ and_congr_right fun _ ↦ exists_congr fun resource ↦
      and_congr_right fun _ ↦ exists_congr fun verb ↦ and_congr_right fun _ ↦ ?_
    cases rule.resourceNames with
    | nil => simp
    | cons name names =>
      simp [eq_comm]
  · simp only [mem_flatMap, mem_map, eq_comm]

/-- Verb, group, resource and name of an allowed resource request each match some value of the rule.
-/
theorem ruleAllows_resource_iff (hres : request.isResourceRequest = true) :
    ruleAllows request rule = true ↔
      matchesValue verbAll rule.verbs request.verb = true ∧
      matchesValue apiGroupAll rule.apiGroups request.apiGroup = true ∧
      matchesValue resourceAll rule.resources (requestedResource request) = true ∧
      (rule.resourceNames = [] ∨ request.name ∈ rule.resourceNames) := by
  have hname : resourceNameMatches rule request.name = true ↔
      rule.resourceNames = [] ∨ request.name ∈ rule.resourceNames := by
    unfold resourceNameMatches
    simp
  rw [ruleAllows, if_pos hres, Bool.and_eq_true_iff, Bool.and_eq_true_iff,
    Bool.and_eq_true_iff, hname, and_assoc, and_assoc]
  rfl

theorem ruleAllows_url_iff (hurl : ¬request.isResourceRequest = true) :
    ruleAllows request rule = true ↔
      matchesValue verbAll rule.verbs request.verb = true ∧
      ∃ url ∈ rule.nonResourceURLs, urlMatches url request.path = true := by
  rw [ruleAllows, if_neg hurl, Bool.and_eq_true_iff, nonResourceURLMatches_eq, any_eq_true]
  rfl

/-- A rule and the rules it is broken into allow the same requests. -/
theorem rulesAllow_breakdownRule (request : Attributes) (rule : PolicyRule) :
    rulesAllow request (breakdownRule rule) = true ↔ ruleAllows request rule = true := by
  rw [rulesAllow, any_eq_true]
  by_cases hkind : request.isResourceRequest = true
  · simp only [ruleAllows_resource_iff hkind, matchesValue_iff]
    constructor
    · rintro ⟨sub, hsub, ⟨verb, hverb, hverbs⟩, ⟨group, hgroup, hgroups⟩,
        ⟨resource, hres, hresources⟩, hname⟩
      rcases mem_breakdownRule.mp hsub with ⟨_, hg, _, hr, _, hv, hnames⟩ | ⟨_, _, _, _, rfl⟩
      · rcases hnames with ⟨hnil, rfl⟩ | ⟨_, hn, rfl⟩
        · cases mem_singleton.mp hverb
          cases mem_singleton.mp hgroup
          cases mem_singleton.mp hres
          exact ⟨⟨_, hv, hverbs⟩, ⟨_, hg, hgroups⟩, ⟨_, hr, hresources⟩, .inl hnil⟩
        · cases mem_singleton.mp hverb
          cases mem_singleton.mp hgroup
          cases mem_singleton.mp hres
          have heq := mem_singleton.mp (hname.resolve_left (cons_ne_nil _ _))
          exact ⟨⟨_, hv, hverbs⟩, ⟨_, hg, hgroups⟩, ⟨_, hr, hresources⟩, .inr (heq ▸ hn)⟩
      · exact absurd hgroup not_mem_nil
    · rintro ⟨⟨verb, hverb, hverbs⟩, ⟨group, hgroup, hgroups⟩, ⟨resource, hres, hresources⟩,
        hname⟩
      rcases hname with hnil | hmem
      · refine ⟨_, mem_breakdownRule.mpr (.inl ⟨group, hgroup, resource, hres, verb, hverb,
          .inl ⟨hnil, rfl⟩⟩), ?_⟩
        simp [hverbs, hgroups, hresources]
      · refine ⟨_, mem_breakdownRule.mpr (.inl ⟨group, hgroup, resource, hres, verb, hverb,
          .inr ⟨_, hmem, rfl⟩⟩), ?_⟩
        simp [hverbs, hgroups, hresources]
  · simp only [ruleAllows_url_iff hkind, matchesValue_iff]
    constructor
    · rintro ⟨sub, hsub, ⟨verb, hverb, hverbs⟩, url, hurl, hmatch⟩
      rcases mem_breakdownRule.mp hsub with ⟨_, _, _, _, _, _, hnames⟩ | ⟨_, hu, _, hv, rfl⟩
      · rcases hnames with ⟨_, rfl⟩ | ⟨_, _, rfl⟩ <;> exact absurd hurl not_mem_nil
      · cases mem_singleton.mp hverb
        cases mem_singleton.mp hurl
        exact ⟨⟨_, hv, hverbs⟩, _, hu, hmatch⟩
    · rintro ⟨⟨verb, hverb, hverbs⟩, url, hurl, hmatch⟩
      refine ⟨_, mem_breakdownRule.mpr (.inr ⟨url, hurl, verb, hverb, rfl⟩), ?_⟩
      simp [hverbs, hmatch]

def allowed (rules : List PolicyRule) : Set Attributes :=
  { request | rulesAllow request rules = true }

variable {ownerRules servantRules : List PolicyRule}

theorem covers_iff :
    (covers ownerRules servantRules).1 = true ↔
      ∀ subrule ∈ servantRules.flatMap breakdownRule,
        ∃ ownerRule ∈ ownerRules, ruleCovers ownerRule subrule = true := by
  simp [covers, uncoveredRules, filter_eq_nil_iff]

theorem allowed_subset_of_covers (hcovers : (covers ownerRules servantRules).1 = true) :
    allowed servantRules ⊆ allowed ownerRules := by
  intro request hallow
  obtain ⟨servantRule, hservant, hallows⟩ := any_eq_true.mp hallow
  have hbroken := (rulesAllow_breakdownRule request servantRule).mpr hallows
  obtain ⟨subrule, hsub, hsubAllows⟩ := any_eq_true.mp hbroken
  obtain ⟨ownerRule, howner, hcover⟩ :=
    covers_iff.mp hcovers subrule (mem_flatMap_of_mem hservant hsub)
  exact any_eq_true.mpr ⟨ownerRule, howner, ruleAllows_of_ruleCovers hcover hsubAllows⟩

/-- Owner rules that cover the servant rules allow every request that these allow. -/
theorem covers_sound {ownerRules servantRules : List PolicyRule}
    (hcovers : (covers ownerRules servantRules).1 = true) (request : Attributes)
    (hallow : rulesAllow request servantRules = true) : rulesAllow request ownerRules = true :=
  allowed_subset_of_covers hcovers hallow

/-- A pattern of the owner covers a longer pattern, so a path under the longer one is allowed to the
owner. -/
theorem covers_sound_urls :
    rulesAllow ⟨"get", false, "", "", "", "", "/api/v1"⟩
      [{ verbs := ["*"], nonResourceURLs := ["/healthz", "/api*"] }] = true := by
  have hcovers :
      (covers [{ verbs := ["*"], nonResourceURLs := ["/healthz", "/api*"] }]
        [{ verbs := ["get"], nonResourceURLs := ["/api/*", "/healthz"] }]).1 = true := by
    decide
  exact covers_sound hcovers _ (by decide)

end Kubernetes.Rbac

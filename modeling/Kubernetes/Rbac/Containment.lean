import Kubernetes.Basic.Map
import Kubernetes.Basic.Transition
import Kubernetes.Rbac.Escalation

/-!
# Nobody gains a right that nobody had

A user may write a role or a binding if the rules of the user cover the rules that it grants.  The
check lists bindings and gets one role after the other, and roles and bindings change between its
requests, and between the check and the write.  So the rules that a write grants need not be the
rules that were checked.  Still, what the stored policy lets somebody do is what somebody could do
at the start, as long as no privileged user takes part.
-/

namespace Kubernetes.Rbac

open List Transition

inductive Subject
  | user (name : String)
  | group (name : String)
  | serviceAccount (ns name : String)
  | other

inductive RoleRef
  | role (name : String)
  | clusterRole (name : String)
  | other

/-- A role binding or a cluster role binding. -/
structure Binding where
  subjects : List Subject
  roleRef : RoleRef

structure UserInfo where
  name : String
  groups : List String

def makeUsername (ns name : String) : String := "system:serviceaccount:" ++ ns ++ ":" ++ name

def appliesToUser (user : UserInfo) (ns : String) : Subject → Bool
  | .user name => user.name == name
  | .group name => has user.groups name
  | .serviceAccount subjectNs name =>
    let saNamespace := if subjectNs.length > 0 then subjectNs else ns
    if saNamespace.length = 0 then false else makeUsername saNamespace name == user.name
  | .other => false

def appliesTo (user : UserInfo) (bindingSubjects : List Subject) (ns : String) : Bool :=
  bindingSubjects.any (appliesToUser user ns)

/-- There is no user, or the user is in the group of the loopback connections. -/
def escalationAllowed (user : Option UserInfo) : Bool :=
  user.all fun user ↦ user.groups.any (· == "system:masters")

/-- A role or a binding to be stored.  Those of the cluster have the empty namespace. -/
inductive Write
  | role (ns name : String) (rules : List PolicyRule)
  | binding (ns name : String) (binding : Binding)

def Write.ns : Write → String
  | .role ns _ _ => ns
  | .binding ns _ _ => ns

/-- Roles and cluster roles by namespace and name. -/
abbrev Roles := Map (String × String) (List PolicyRule)

structure Policy where
  roles : Roles
  bindings : Map (String × String) Binding

/-- `GetRoleReferenceRules`, if the getters answer. -/
def getRoleReferenceRules (roles : Roles) (bindingNamespace : String) :
    RoleRef → Option (List PolicyRule)
  | .role name => if bindingNamespace = "" then none else roles.lookup (bindingNamespace, name)
  | .clusterRole name => roles.lookup ("", name)
  | .other => none

/-- A call of `Create` or `Update` that checks its write, with the namespace whose bindings it is
at and the rules it has found. -/
structure Call where
  user : UserInfo
  write : Write
  granted : List PolicyRule
  scope : String
  policyRules : List PolicyRule

inductive Phase
  | idle
  | listing (call : Call)
  | resolving (call : Call) (bindings : List Binding)
  | approved (write : Write)

/-- The rules that a write grants. -/
def grantedRules (roles : Roles) : Write → Option (List PolicyRule)
  | .role _ _ rules => some rules
  | .binding ns _ binding => getRoleReferenceRules roles ns binding.roleRef

/-- The beginning of `Create` and `Update`. -/
def enter (roles : Roles) (user : Option UserInfo) (write : Write) : Phase :=
  if escalationAllowed user then .approved write
  else
    match user, grantedRules roles write with
    | some user, some granted => .listing ⟨user, write, granted, "", []⟩
    | _, _ => .idle

namespace Call

variable (call : Call)

/-- One iteration of a loop of `RulesFor`.  An error adds no rules. -/
def addRules (binding : Binding) (rules : Option (List PolicyRule)) : Call :=
  { call with policyRules := if appliesTo call.user binding.subjects call.scope then
      call.policyRules ++ rules.getD [] else call.policyRules }

/-- Behind a loop of `RulesFor`: the loop over the role bindings, or `ConfirmNoEscalation`. -/
def leaveLoop : Phase :=
  if call.scope = "" ∧ call.write.ns.length > 0 then .listing { call with scope := call.write.ns }
  else
    match confirmNoEscalation call.policyRules call.granted with
    | .ok _ => .approved call.write
    | .error _ => .idle

end Call

def Policy.apply (policy : Policy) : Write → Policy
  | .role ns name rules => { policy with roles := policy.roles.insert (ns, name) rules }
  | .binding ns name binding =>
    { policy with bindings := policy.bindings.insert (ns, name) binding }

/-- The stored policy and the calls of all API servers. -/
structure System where
  policy : Policy
  calls : ℕ → Phase

def System.setCall (s : System) (id : ℕ) (phase : Phase) : System :=
  { s with calls := Function.update s.calls id phase }

/-- One step, and whether a privileged user makes it.  Getters and listers may fail, which ends with
no rules or no bindings. -/
inductive Step : System → Bool → System → Prop
  | enter (s : System) (id : ℕ) (user : Option UserInfo) (write : Write) :
      Step s (escalationAllowed user) (s.setCall id (enter s.policy.roles user write))
  | list (s : System) (id : ℕ) (call : Call) (bindings : List Binding)
      (hcall : s.calls id = .listing call)
      (hbindings : ∀ binding ∈ bindings,
        ∃ name, s.policy.bindings.lookup (call.scope, name) = some binding) :
      Step s false (s.setCall id (.resolving call bindings))
  | resolve (s : System) (id : ℕ) (call : Call) (binding : Binding) (bindings : List Binding)
      (rules : Option (List PolicyRule)) (hcall : s.calls id = .resolving call (binding :: bindings))
      (hrules : rules = none ∨
        rules = getRoleReferenceRules s.policy.roles call.scope binding.roleRef) :
      Step s false (s.setCall id (.resolving (call.addRules binding rules) bindings))
  | leaveLoop (s : System) (id : ℕ) (call : Call) (hcall : s.calls id = .resolving call []) :
      Step s false (s.setCall id call.leaveLoop)
  | write (s : System) (id : ℕ) (write : Write) (hcall : s.calls id = .approved write) :
      Step s false (System.setCall ⟨s.policy.apply write, s.calls⟩ id .idle)
  | deleteRole (s : System) (key : String × String) :
      Step s false ⟨⟨s.policy.roles.erase key, s.policy.bindings⟩, s.calls⟩
  | deleteBinding (s : System) (key : String × String) :
      Step s false ⟨⟨s.policy.roles, s.policy.bindings.erase key⟩, s.calls⟩

/-- The states of the runs without privileged users. -/
def Unprivileged (start : Policy) : System → Prop :=
  Reachable (· = ⟨start, fun _ ↦ .idle⟩) (guarded (fun _ privileged ↦ privileged = false) Step)

/-! ## Rights -/

namespace Policy

/-- A binding of the namespace or of the cluster lets the user make the request. -/
def Permits (policy : Policy) (user : UserInfo) (ns : String) (request : Attributes) : Prop :=
  ∃ scope name binding rules, policy.bindings.lookup (scope, name) = some binding ∧
    (scope = "" ∨ scope = ns) ∧ appliesTo user binding.subjects scope = true ∧
    getRoleReferenceRules policy.roles scope binding.roleRef = some rules ∧
    request ∈ allowed rules

/-- What somebody may do in a namespace. -/
def power (policy : Policy) (ns : String) : Set Attributes :=
  { request | ∃ user, policy.Permits user ns request }

theorem power_subset (policy : Policy) {scope ns : String} (hscope : scope = "" ∨ scope = ns) :
    policy.power scope ⊆ policy.power ns := by
  rintro request ⟨user, scope', name, binding, rules, hget, hscope', hrest⟩
  refine ⟨user, scope', name, binding, rules, hget, ?_, hrest⟩
  exact hscope'.elim .inl fun hsame ↦ hsame ▸ hscope

end Policy

variable {start : Policy} {roles next : Roles} {ns scope : String} {roleRef : RoleRef}
  {call : Call} {write : Write} {phase : Phase}

/-- What a binding to the role gives is something that somebody could do at the start. -/
def Bounded (start : Policy) (roles : Roles) (scope : String) (roleRef : RoleRef) : Prop :=
  ∀ rules, getRoleReferenceRules roles scope roleRef = some rules →
    allowed rules ⊆ start.power scope

def Safe (start : Policy) (roles : Roles) : Write → Prop
  | .role ns _ rules => allowed rules ⊆ start.power ns
  | .binding ns _ binding => Bounded start roles ns binding.roleRef

/-- The rules found are rights that somebody had.  If those granted are too, the write is safe. -/
structure Call.Sound (start : Policy) (roles : Roles) (call : Call) : Prop where
  scope : call.scope = "" ∨ call.scope = call.write.ns
  found : allowed call.policyRules ⊆ start.power call.write.ns
  granted : allowed call.granted ⊆ start.power call.write.ns → Safe start roles call.write

def Phase.Sound (start : Policy) (roles : Roles) : Phase → Prop
  | .idle => True
  | .listing call => call.Sound start roles
  | .resolving call bindings => call.Sound start roles ∧ ∀ binding ∈ bindings,
      appliesTo call.user binding.subjects call.scope = true →
        Bounded start roles call.scope binding.roleRef
  | .approved write => Safe start roles write

structure Contained (start : Policy) (s : System) : Prop where
  stored : ∀ key binding, s.policy.bindings.lookup key = some binding →
    ∀ user, appliesTo user binding.subjects key.1 = true →
      Bounded start s.policy.roles key.1 binding.roleRef
  calls : ∀ id, (s.calls id).Sound start s.policy.roles

/-- Every role is as before or has rules that somebody had in its namespace. -/
def Keeps (start : Policy) (roles next : Roles) : Prop :=
  ∀ key rules, next.lookup key = some rules →
    roles.lookup key = some rules ∨ allowed rules ⊆ start.power key.1

section Keeps

variable (hkeeps : Keeps start roles next)

include hkeeps

theorem Bounded.mono (hbounded : Bounded start roles scope roleRef) :
    Bounded start next scope roleRef := by
  intro rules hrules
  cases roleRef with
  | role name =>
    rw [getRoleReferenceRules] at hrules
    split_ifs at hrules with hscope
    rcases hkeeps _ rules hrules with hold | hnew
    · exact hbounded rules ((if_neg hscope).trans hold)
    · exact hnew
  | clusterRole name =>
    rcases hkeeps _ rules hrules with hold | hnew
    · exact hbounded rules hold
    · exact hnew.trans (start.power_subset (.inl rfl))
  | other => cases hrules

theorem Safe.mono (hsafe : Safe start roles write) : Safe start next write := by
  cases write with
  | role => exact hsafe
  | binding => exact Bounded.mono hkeeps hsafe

theorem Call.Sound.mono (hsound : call.Sound start roles) : call.Sound start next :=
  { hsound with granted := fun hgranted ↦ (hsound.granted hgranted).mono hkeeps }

theorem Phase.Sound.mono (hsound : phase.Sound start roles) : phase.Sound start next := by
  cases phase with
  | idle => trivial
  | listing => exact Call.Sound.mono hkeeps hsound
  | resolving =>
    exact ⟨hsound.1.mono hkeeps, fun binding hmem happlies ↦
      (hsound.2 binding hmem happlies).mono hkeeps⟩
  | approved write => exact Safe.mono hkeeps hsound

end Keeps

/-! ## Steps -/

theorem allowed_append (rules more : List PolicyRule) :
    allowed (rules ++ more) = allowed rules ∪ allowed more := by
  ext request
  change rulesAllow request (rules ++ more) = true ↔ _
  rw [rulesAllow, any_append, Bool.or_eq_true]
  rfl

theorem sound_enter {user : Option UserInfo} (huser : escalationAllowed user = false) :
    (enter roles user write).Sound start roles := by
  unfold enter
  rw [huser]
  cases user with
  | none => cases huser
  | some user =>
    cases hgranted : grantedRules roles write with
    | none => trivial
    | some granted =>
      refine Call.Sound.mk (.inl rfl) (fun request hreq ↦ ?_) fun hsubset ↦ ?_
      · cases hreq
      · cases write with
        | role => exact Option.some.inj hgranted ▸ hsubset
        | binding =>
          intro rules hrules
          exact Option.some.inj (hgranted.symm.trans hrules) ▸ hsubset

namespace Call.Sound

variable (hsound : call.Sound start roles)

include hsound

theorem addRules {binding : Binding} {rules : Option (List PolicyRule)}
    (hbounded : appliesTo call.user binding.subjects call.scope = true →
      Bounded start roles call.scope binding.roleRef)
    (hrules : rules = none ∨ rules = getRoleReferenceRules roles call.scope binding.roleRef) :
    (call.addRules binding rules).Sound start roles := by
  refine { hsound with found := ?_ }
  unfold Call.addRules
  split_ifs with happlies
  · rw [allowed_append]
    refine Set.union_subset hsound.found ?_
    cases rules with
    | none => exact fun request hreq ↦ by cases hreq
    | some rules =>
      have hsubset := hbounded happlies rules (hrules.resolve_left nofun).symm
      exact hsubset.trans (start.power_subset hsound.scope)
  · exact hsound.found

/-- A write is approved if the rules found cover the rules granted. -/
theorem leaveLoop : call.leaveLoop.Sound start roles := by
  unfold Call.leaveLoop confirmNoEscalation
  split_ifs
  · exact { hsound with scope := .inr rfl }
  · have hcovers := @allowed_subset_of_covers call.policyRules call.granted
    generalize covers call.policyRules call.granted = result at hcovers ⊢
    obtain ⟨_ | _, missing⟩ := result
    · trivial
    · exact hsound.granted ((hcovers rfl).trans hsound.found)

end Call.Sound

namespace Contained

variable {s target : System} (hcont : Contained start s)

include hcont

theorem setCall {id : ℕ} (hphase : phase.Sound start s.policy.roles) :
    Contained start (s.setCall id phase) := by
  refine ⟨hcont.stored, fun other ↦ ?_⟩
  change (Function.update s.calls id phase other).Sound start s.policy.roles
  rw [Function.update_apply]
  split_ifs
  · exact hphase
  · exact hcont.calls other

theorem setRoles (hkeeps : Keeps start s.policy.roles roles) :
    Contained start ⟨⟨roles, s.policy.bindings⟩, s.calls⟩ where
  stored key binding hget user happlies :=
    (hcont.stored key binding hget user happlies).mono hkeeps
  calls id := (hcont.calls id).mono hkeeps

theorem apply (hsafe : Safe start s.policy.roles write) :
    Contained start ⟨s.policy.apply write, s.calls⟩ := by
  cases write with
  | role ns name rules =>
    refine hcont.setRoles ?_
    exact Map.forall_lookup_insert (fun key found hfound ↦ .inl hfound) (.inr hsafe)
  | binding ns name binding =>
    refine ⟨?_, hcont.calls⟩
    exact Map.forall_lookup_insert hcont.stored fun user happlies ↦ hsafe

theorem sound {id : ℕ} (hcall : s.calls id = phase) : phase.Sound start s.policy.roles :=
  hcall ▸ hcont.calls id

theorem step {privileged : Bool} (huser : privileged = false) (hstep : Step s privileged target) :
    Contained start target := by
  cases hstep with
  | enter id user write => exact hcont.setCall (sound_enter huser)
  | list id call bindings hcall hbindings =>
    refine hcont.setCall ⟨hcont.sound hcall, fun binding hmem happlies ↦ ?_⟩
    obtain ⟨name, hget⟩ := hbindings binding hmem
    exact hcont.stored _ binding hget call.user happlies
  | resolve id call binding bindings rules hcall hrules =>
    obtain ⟨hsound, hbounded⟩ := hcont.sound hcall
    exact hcont.setCall ⟨hsound.addRules (hbounded binding mem_cons_self) hrules,
      fun other hmem ↦ hbounded other (mem_cons_of_mem _ hmem)⟩
  | leaveLoop id call hcall =>
    exact hcont.setCall (hcont.sound hcall).1.leaveLoop
  | write id write hcall => exact setCall (hcont.apply (hcont.sound hcall)) trivial
  | deleteRole key =>
    refine hcont.setRoles ?_
    exact Map.forall_lookup_erase fun key found hfound ↦ .inl hfound
  | deleteBinding key =>
    exact ⟨Map.forall_lookup_erase hcont.stored, hcont.calls⟩

end Contained

/-- Whatever anybody may do after a run without privileged users, somebody could do at the start. -/
theorem rights_contained {s : System} (hreach : Unprivileged start s) {user : UserInfo}
    {request : Attributes} (hpermits : s.policy.Permits user ns request) :
    ∃ somebody, start.Permits somebody ns request := by
  have hcont : Contained start s := by
    refine hreach.invariant (fun state hstate ↦ ?_) fun state op target _ hcont hstep ↦
      hcont.step hstep.1 hstep.2
    subst hstate
    refine ⟨fun key binding hget user happlies rules hrules request hreq ↦ ?_,
      fun _ ↦ trivial⟩
    exact ⟨user, key.1, key.2, binding, rules, hget, .inr rfl, happlies, hrules, hreq⟩
  obtain ⟨scope, name, binding, rules, hget, hscope, happlies, hrules, hreq⟩ := hpermits
  have hbounded := hcont.stored (scope, name) binding hget user happlies
  exact start.power_subset hscope (hbounded rules hrules hreq)

def sampleRules : List PolicyRule :=
  [{ verbs := ["get"], apiGroups := [""], resources := ["pods"] }]

/-- A role of a namespace that is bound to a group. -/
def samplePolicy : Policy :=
  ⟨.singleton ("team", "view") sampleRules,
    .singleton ("team", "staff") ⟨[.group "staff"], .role "view"⟩⟩

def sampleWrite : Write := .binding "team" "bob" ⟨[.user "bob"], .role "view"⟩

/-- A member of the group binds the role to another user. -/
theorem bound_user_contained : ∃ s, Unprivileged samplePolicy s ∧
    ∃ request, s.policy.Permits ⟨"bob", []⟩ "team" request ∧
      ∃ somebody, samplePolicy.Permits somebody "team" request := by
  have hstart : Unprivileged samplePolicy ⟨samplePolicy, fun _ ↦ .idle⟩ := .start rfl
  have henter := hstart.guardedNext (.enter _ 0 (some ⟨"alice", ["staff"]⟩) sampleWrite) rfl
  have hcluster := (henter.guardedNext (.list _ 0 _ [] rfl nofun) rfl).guardedNext
    (.leaveLoop _ 0 _ rfl) rfl
  have hlist := hcluster.guardedNext (.list _ 0 _ [⟨[.group "staff"], .role "view"⟩] rfl
    (by simpa using ⟨"staff", rfl⟩)) rfl
  have hleave := (hlist.guardedNext (.resolve _ 0 _ _ [] _ rfl (.inr rfl)) rfl).guardedNext
    (.leaveLoop _ 0 _ rfl) rfl
  have hwrite := hleave.guardedNext (.write _ 0 sampleWrite rfl) rfl
  have hpermits : (samplePolicy.apply sampleWrite).Permits ⟨"bob", []⟩ "team"
      ⟨"get", true, "", "pods", "", "web", ""⟩ :=
    ⟨"team", "bob", ⟨[.user "bob"], .role "view"⟩, sampleRules, rfl, .inr rfl, rfl, rfl, rfl⟩
  exact ⟨_, hwrite, _, hpermits, rights_contained hwrite hpermits⟩

end Kubernetes.Rbac

import Kubernetes.Registry.ServiceNodePorts

/-!
# Accounting for node ports

An update accounts for its ports when afterwards the ports of the updated service are allocated, the
ports that only the old service used are free, and no other port has changed.

The loop that is meant to release the ports no longer used tests the opposite: an update frees the
ports it keeps and keeps the ports it drops.
-/

namespace Kubernetes.Registry

variable {Extra : Type*}

theorem Service.mem_collectServiceNodePorts (service : Service Extra) (port : ℤ) :
    port ∈ service.collectServiceNodePorts ↔
      port ∈ service.ports.map ServicePort.nodePort ∧ port ≠ 0 := by
  rw [collectServiceNodePorts, List.mem_filter, decide_eq_true_eq]

namespace Environment

variable {env : Environment Extra}

/-- The update accounts for the node ports of the old and the updated service. -/
structure PortsAccounted (env : Environment Extra) (old updated : Service Extra)
    (before after : PortAllocator) : Prop where
  /-- The ports in use are allocated. -/
  kept : ∀ port ∈ env.nodePorts updated, after.has port = true
  /-- The ports that are no longer in use are free. -/
  released : ∀ port ∈ env.nodePorts old, port ∉ env.nodePorts updated → after.has port = false
  /-- Other ports are as before.  Zero stands for no port. -/
  unchanged : ∀ port ≠ 0, port ∉ env.nodePorts old → port ∉ env.nodePorts updated →
    after.has port = before.has port

/-- The updates that account for their ports.  If node ports are assigned, the old service has none
but that of its health checks, and does not keep it as a node port.  Otherwise the requested ports
are allocated already, and the old service has no others but that of its health checks. -/
def UpdateAccounts (env : Environment Extra) (allocator : PortAllocator)
    (old service : Service Extra) : Prop :=
  if service.shouldAssignNodePorts then
    ∀ port ∈ old.collectServiceNodePorts,
      port ∉ service.collectServiceNodePorts ∧ port ∈ env.healthCheckNodePorts old
  else
    (∀ port ∈ service.collectServiceNodePorts,
      allocator.has port = true ∧ port ∉ env.healthCheckNodePorts old) ∧
    ∀ port ∈ old.collectServiceNodePorts,
      port ∈ service.collectServiceNodePorts ∨ port ∈ env.healthCheckNodePorts old

theorem mem_nodePorts (service : Service Extra) (port : ℤ) :
    port ∈ env.nodePorts service ↔
      port ∈ service.collectServiceNodePorts ∨ port ∈ env.healthCheckNodePorts service :=
  List.mem_append

theorem ne_zero_of_mem_nodePorts {service : Service Extra} {port : ℤ}
    (hport : port ∈ env.nodePorts service) : port ≠ 0 := by
  rw [mem_nodePorts, Service.mem_collectServiceNodePorts] at hport
  rcases hport with hport | hport
  · exact hport.2
  · unfold healthCheckNodePorts at hport
    split_ifs at hport with hpositive
    · rw [List.mem_singleton] at hport
      omega
    · cases hport

section Accounting

variable {old service out : Service Extra} {before assigned checked after : PortAllocator}

/-- The old ports among the assigned ones are those that were requested again. -/
theorem mem_collect_assigned_iff
    (hassigned : Assigned old.collectServiceNodePorts service.ports out.ports before assigned)
    {port : ℤ} (hhas : before.has port = true) :
    port ∈ out.collectServiceNodePorts ↔ port ∈ service.collectServiceNodePorts := by
  rw [Service.mem_collectServiceNodePorts, Service.mem_collectServiceNodePorts]
  constructor
  · intro hout
    rcases hassigned.requested_or_free port hout.1 with hreq | hfree
    · exact hreq
    · rw [hhas] at hfree
      cases hfree
  · intro hservice
    exact ⟨hassigned.requested_kept port hservice.1 hservice.2, hservice.2⟩

variable (halloc : ∀ port ∈ env.nodePorts old, before.has port = true)
include halloc

section

variable (hassigned : Assigned old.collectServiceNodePorts service.ports out.ports before assigned)
  (hchecked : HealthChecked env old out assigned checked)
  (hafter : ∀ port, after.has port = true ↔ checked.has port = true ∧
    ¬(port ∈ old.collectServiceNodePorts ∧ port ∈ out.ports.map ServicePort.nodePort))
include hassigned hchecked hafter

theorem has_iff_of_assigned (port : ℤ) (hne : port ≠ 0) :
    after.has port = true ↔ (port ∈ env.nodePorts out ∨ before.has port = true) ∧
      (port ∈ env.healthCheckNodePorts old → port ∈ env.healthCheckNodePorts out) ∧
      ¬(port ∈ old.collectServiceNodePorts ∧ port ∈ service.collectServiceNodePorts) := by
  have hout : port ∈ out.collectServiceNodePorts ↔ port ∈ out.ports.map ServicePort.nodePort := by
    rw [Service.mem_collectServiceNodePorts, and_iff_left hne]
  have hrelease : port ∈ old.collectServiceNodePorts ∧ port ∈ out.collectServiceNodePorts ↔
      port ∈ old.collectServiceNodePorts ∧ port ∈ service.collectServiceNodePorts :=
    and_congr_right fun hport ↦ mem_collect_assigned_iff hassigned
      (halloc port ((mem_nodePorts old port).mpr (.inl hport)))
  rw [hafter, hchecked.has_iff port hne, hassigned.has_iff, ← hout, hrelease, mem_nodePorts,
    or_right_comm, and_assoc]

theorem PortsAccounted.of_assigned (hacc : PortsAccounted env old out before after)
    (port : ℤ) (hport : port ∈ old.collectServiceNodePorts) :
    port ∉ service.collectServiceNodePorts ∧ port ∈ env.healthCheckNodePorts old := by
  have hold : ∀ port ∈ old.collectServiceNodePorts, before.has port = true := fun port hport ↦
    halloc port ((mem_nodePorts old port).mpr (.inl hport))
  have hhas := has_iff_of_assigned halloc hassigned hchecked hafter
  have hne : port ≠ 0 := ((Service.mem_collectServiceNodePorts old port).mp hport).2
  have hreused := mem_collect_assigned_iff hassigned (hold port hport)
  have hnot : port ∉ service.collectServiceNodePorts := by
    intro hservice
    have hkept := hacc.kept port ((mem_nodePorts out port).mpr (.inl (hreused.mpr hservice)))
    exact ((hhas port hne).mp hkept).2.2 ⟨hport, hservice⟩
  refine ⟨hnot, ?_⟩
  by_contra hhealth
  have hout : port ∉ env.nodePorts out := by
    rw [mem_nodePorts, not_or]
    refine ⟨fun hmem ↦ hnot (hreused.mp hmem), fun hmem ↦ ?_⟩
    rcases hchecked.old_or_free port hmem with hmem | hfree
    · exact hhealth hmem
    · rw [(hassigned.has_iff port).mpr (.inr (hold port hport))] at hfree
      cases hfree
  have hfree := hacc.released port ((mem_nodePorts old port).mpr (.inl hport)) hout
  rw [(hhas port hne).mpr ⟨.inr (hold port hport), fun hmem ↦ absurd hmem hhealth,
    fun hmem ↦ hnot hmem.2⟩] at hfree
  cases hfree

theorem portsAccounted_of_assigned
    (hcond : ∀ port ∈ old.collectServiceNodePorts,
      port ∉ service.collectServiceNodePorts ∧ port ∈ env.healthCheckNodePorts old) :
    PortsAccounted env old out before after := by
  have hhas := has_iff_of_assigned halloc hassigned hchecked hafter
  have hhealth : ∀ port ∈ env.nodePorts out, port ∈ env.healthCheckNodePorts old →
      port ∈ env.healthCheckNodePorts out := by
    intro port hport hmem
    have hbefore := halloc port ((mem_nodePorts old port).mpr (.inr hmem))
    rcases (mem_nodePorts out port).mp hport with hout | hout
    · have hservice := (mem_collect_assigned_iff hassigned hbefore).mp hout
      rw [Service.mem_collectServiceNodePorts] at hout
      rcases hassigned.old_or_free port hout.1 with hport' | hfree
      · exact absurd hservice (hcond port hport').1
      · rw [hbefore] at hfree
        cases hfree
    · exact hout
  constructor
  · intro port hport
    exact (hhas port (ne_zero_of_mem_nodePorts hport)).mpr
      ⟨.inl hport, hhealth port hport, fun hmem ↦ (hcond port hmem.1).1 hmem.2⟩
  · intro port hport hout
    have hmem : port ∈ env.healthCheckNodePorts old := by
      rcases (mem_nodePorts old port).mp hport with hmem | hmem
      · exact (hcond port hmem).2
      · exact hmem
    rw [Bool.eq_false_iff]
    intro hafter
    have hmem' := ((hhas port (ne_zero_of_mem_nodePorts hport)).mp hafter).2.1 hmem
    exact hout ((mem_nodePorts out port).mpr (.inr hmem'))
  · intro port hne hnot hout
    rw [mem_nodePorts, not_or] at hnot
    rw [Bool.eq_iff_iff, hhas port hne]
    constructor
    · intro hport
      exact hport.1.resolve_left hout
    · intro hport
      exact ⟨.inr hport, fun hmem ↦ absurd hmem hnot.2, fun hmem ↦ hnot.1 hmem.1⟩

end

theorem portsAccounted_iff_of_not_assigned
    (hassign : service.shouldAssignNodePorts = false) (htype : out.type = service.type)
    (hports : out.ports = service.ports) (hchecked : HealthChecked env old out before checked)
    (hafter : ∀ port, after.has port = true ↔ checked.has port = true) :
    PortsAccounted env old out before after ↔
      (∀ port ∈ service.collectServiceNodePorts,
        before.has port = true ∧ port ∉ env.healthCheckNodePorts old) ∧
      ∀ port ∈ old.collectServiceNodePorts,
        port ∈ service.collectServiceNodePorts ∨ port ∈ env.healthCheckNodePorts old := by
  have hcheck : env.shouldCheckOrAssignHealthCheckNodePort out = false := by
    unfold shouldCheckOrAssignHealthCheckNodePort
    unfold Service.shouldAssignNodePorts at hassign
    rw [htype]
    split
    · simp_all
    · rfl
  have hout : env.nodePorts out = service.collectServiceNodePorts := by
    rw [nodePorts, healthCheckNodePorts_eq_nil hcheck, List.append_nil,
      Service.collectServiceNodePorts, hports, Service.collectServiceNodePorts]
  have hhas : ∀ port ≠ 0, after.has port = true ↔
      before.has port = true ∧ port ∉ env.healthCheckNodePorts old := by
    intro port hne
    rw [hafter, hchecked.has_iff port hne, healthCheckNodePorts_eq_nil hcheck]
    simp only [List.not_mem_nil, or_false, imp_false]
  constructor
  · intro hacc
    constructor
    · intro port hport
      rw [← hout] at hport
      exact (hhas port (ne_zero_of_mem_nodePorts hport)).mp (hacc.kept port hport)
    · intro port hport
      by_contra hnot
      rw [not_or, ← hout] at hnot
      have hold : port ∈ env.nodePorts old := (mem_nodePorts old port).mpr (.inl hport)
      have hfree := hacc.released port hold hnot.1
      rw [(hhas port (ne_zero_of_mem_nodePorts hold)).mpr ⟨halloc port hold, hnot.2⟩] at hfree
      cases hfree
  · intro hcond
    constructor
    · intro port hport
      rw [hhas port (ne_zero_of_mem_nodePorts hport)]
      exact hcond.1 port (hout ▸ hport)
    · intro port hport hnot
      rw [Bool.eq_false_iff, ne_eq, hhas port (ne_zero_of_mem_nodePorts hport), not_and, not_not]
      intro _
      rcases (mem_nodePorts old port).mp hport with hmem | hmem
      · exact (hcond.2 port hmem).resolve_left (hout ▸ hnot)
      · exact hmem
    · intro port hne hold _
      rw [mem_nodePorts, not_or] at hold
      rw [Bool.eq_iff_iff, hhas port hne, and_iff_left hold.2]

theorem updateValidated_accounts_iff {random : ℕ → ℕ}
    (h : env.updateValidated random old service before = (after, .ok out)) :
    PortsAccounted env old out before after ↔ UpdateAccounts env before old service := by
  have hhealth : ∀ port ∈ env.healthCheckNodePorts old, before.has port = true :=
    fun port hport ↦ halloc port ((mem_nodePorts old port).mpr (.inr hport))
  unfold updateValidated at h
  unfold UpdateAccounts
  cases hassign : service.shouldAssignNodePorts with
  | false =>
    rw [hassign] at h
    obtain ⟨htype, hports, checked, hchecked, hafter⟩ := updateAssigned_eq_ok hhealth rfl h
    apply portsAccounted_iff_of_not_assigned halloc hassign htype hports hchecked
    intro port
    rw [hafter, and_iff_left fun hmem ↦ List.not_mem_nil hmem.2]
  | true =>
    rw [hassign] at h
    cases hloop : assignNodePorts old.collectServiceNodePorts random 0 service.ports [] .start
        before with
    | mk op result =>
      obtain ⟨assigned, abort | ⟨ports, newNodePorts⟩⟩ := result
      · simp [hloop] at h
      · simp only [hloop] at h
        obtain ⟨hnew, hop, hassigned⟩ := assignNodePorts_eq_ok
          (fun port hport ↦ halloc port ((mem_nodePorts old port).mpr (.inl hport))) hloop
        obtain ⟨htype, hports, checked, hchecked, hafter⟩ := updateAssigned_eq_ok
          (fun port hport ↦ (hassigned.has_iff port).mpr (.inr (hhealth port hport))) hop h
        rw [hnew, show ports = out.ports from hports.symm] at hafter
        rw [show ports = out.ports from hports.symm] at hassigned
        constructor
        · intro hacc
          exact hacc.of_assigned halloc hassigned hchecked hafter
        · exact portsAccounted_of_assigned halloc hassigned hchecked hafter

end Accounting

end Environment

section

variable {rs rs' : REST Extra} {env : Environment Extra} {random : ℕ → ℕ} {name : String}
  {updatedObject : Service Extra → Except ApiError (Service Extra)} {old service out : Service Extra}
  (halloc : ∀ name service, rs.services.lookup name = some service →
    ∀ port ∈ env.nodePorts service, rs.serviceNodePorts.has port = true)
  (hold : rs.services.lookup name = some old) (hservice : updatedObject old = .ok service)
  (hupd : rs.update env random name updatedObject = (rs', .ok out))

include hold hservice hupd

theorem REST.update_eq_ok :
    env.updateValidated random old service rs.serviceNodePorts =
      (rs'.serviceNodePorts, .ok out) := by
  unfold update at hupd
  simp only [hold, hservice] at hupd
  split_ifs at hupd
  · cases hupd
  · split at hupd
    · generalize env.updateValidated random old service rs.serviceNodePorts = result at hupd ⊢
      obtain ⟨allocator, abort | updated⟩ := result
      · cases hupd
      · cases hupd
        rfl
    · cases hupd

include halloc

/-- A successful `Update` accounts for the node ports exactly under `UpdateAccounts`. -/
theorem REST.update_accounts_iff :
    env.PortsAccounted old out rs.serviceNodePorts rs'.serviceNodePorts ↔
      env.UpdateAccounts rs.serviceNodePorts old service :=
  Environment.updateValidated_accounts_iff (halloc name old hold)
    (REST.update_eq_ok hold hservice hupd)

end

/-! ## Two updates -/

def permissive : Environment Unit where
  externalTrafficLocalOnly := true
  validNamespace := fun _ ↦ true
  generalErrors := fun _ _ ↦ []
  sourceRangeErrors := fun _ ↦ []
  persist := fun _ ↦ .ok ()

def webService (type : ServiceType) (nodePort : ℤ) : Service Unit :=
  ⟨type, [⟨.tcp, nodePort⟩], ∅, [], ()⟩

def defaultAllocator (allocated : Finset ℕ) : PortAllocator :=
  ⟨⟨30000, 2768, by decide⟩, ⟨2768, allocated⟩, rfl⟩

def webRegistry (service : Service Unit) (allocated : Finset ℕ) : REST Unit :=
  ⟨(∅ : Map String (Service Unit)).insert "web" service, defaultAllocator allocated⟩

theorem webRegistry_allocated {service : Service Unit} {allocated : Finset ℕ}
    (halloc : ∀ port ∈ permissive.nodePorts service,
      (defaultAllocator allocated).has port = true) :
    ∀ name stored, (webRegistry service allocated).services.lookup name = some stored →
      ∀ port ∈ permissive.nodePorts stored,
        (webRegistry service allocated).serviceNodePorts.has port = true := by
  intro name stored hstored
  rw [webRegistry, Map.lookup_insert] at hstored
  split_ifs at hstored
  · cases hstored
    exact halloc
  · cases hstored

def exposeWeb (_ : Service Unit) : Except ApiError (Service Unit) :=
  .ok (webService .nodePort 30001)

/-- Exposing a cluster-internal service on a new node port accounts for it. -/
theorem REST.expose_accounts :
    (webRegistry (webService .clusterIP 0) ∅).update permissive (fun _ ↦ 0) "web" exposeWeb =
      (webRegistry (webService .nodePort 30001) {1}, .ok (webService .nodePort 30001)) ∧
      permissive.PortsAccounted (webService .clusterIP 0) (webService .nodePort 30001)
        (defaultAllocator ∅) (defaultAllocator {1}) := by
  have hupd : (webRegistry (webService .clusterIP 0) ∅).update permissive (fun _ ↦ 0) "web"
      exposeWeb =
        (webRegistry (webService .nodePort 30001) {1}, .ok (webService .nodePort 30001)) := by
    rfl
  have hold : (webRegistry (webService .clusterIP 0) ∅).services.lookup "web" =
      some (webService .clusterIP 0) := by
    rfl
  have hservice : exposeWeb (webService .clusterIP 0) = .ok (webService .nodePort 30001) := by
    rfl
  have haccounts := REST.update_accounts_iff (webRegistry_allocated (by decide)) hold hservice
    hupd
  have hcond : ∀ port ∈ (webService .clusterIP 0).collectServiceNodePorts,
      port ∉ (webService .nodePort 30001).collectServiceNodePorts ∧
        port ∈ permissive.healthCheckNodePorts (webService .clusterIP 0) := by
    decide
  exact ⟨hupd, haccounts.mpr hcond⟩

/-- Updating a service without a change frees the node port that it still uses. -/
theorem REST.update_frees_used_port :
    (∀ name stored,
      (webRegistry (webService .nodePort 30001) {1}).services.lookup name = some stored →
        ∀ port ∈ permissive.nodePorts stored,
          (webRegistry (webService .nodePort 30001) {1}).serviceNodePorts.has port = true) ∧
      (webRegistry (webService .nodePort 30001) {1}).update permissive (fun _ ↦ 0) "web" .ok =
        (webRegistry (webService .nodePort 30001) ∅, .ok (webService .nodePort 30001)) ∧
      ¬permissive.PortsAccounted (webService .nodePort 30001) (webService .nodePort 30001)
        (defaultAllocator {1}) (defaultAllocator ∅) := by
  refine ⟨webRegistry_allocated (by decide), by rfl, fun hacc ↦ ?_⟩
  exact absurd (hacc.kept 30001 (by decide)) (by decide)

end Kubernetes.Registry

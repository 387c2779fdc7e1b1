import Kubernetes.Registry.ServiceRest

/-!
# The allocated node ports after a service update

Each step of a service update is described by the ports allocated after it.  The loop over the
service ports adds the assigned ports, each of which was free or belonged to the old service.  The
health check step adds, keeps or releases its port.  The commit releases the ports that
`releaseOldNodePorts` chose, the old ports that the updated service still uses.
-/

namespace Kubernetes.Registry

open List

variable {Extra : Type*}

/-! ## Assignment of node ports -/

/-- The effect of the assignment loop on the ports of the service and on the allocator. -/
structure Assigned (oldNodePorts : List ℤ) (requested assigned : List ServicePort)
    (before after : PortAllocator) : Prop where
  has_iff : ∀ port, after.has port = true ↔
    port ∈ assigned.map ServicePort.nodePort ∨ before.has port = true
  requested_kept : ∀ port ∈ requested.map ServicePort.nodePort, port ≠ 0 →
    port ∈ assigned.map ServicePort.nodePort
  requested_or_free : ∀ port ∈ assigned.map ServicePort.nodePort,
    (port ∈ requested.map ServicePort.nodePort ∧ port ≠ 0) ∨ before.has port = false
  old_or_free : ∀ port ∈ assigned.map ServicePort.nodePort,
    port ∈ oldNodePorts ∨ before.has port = false

variable {nextOp op : PortAllocationOperation} {allocator next : PortAllocator}

theorem PortAllocationOperation.allocate_eq_none {port : ℤ}
    (h : op.allocate allocator port = (nextOp, next, none)) :
    allocator.allocate port = (next, none) ∧ nextOp.releaseDeferred = op.releaseDeferred := by
  unfold allocate at h
  generalize allocator.allocate port = result at h
  obtain ⟨_, _ | _⟩ := result
  · simp only [Prod.mk.injEq, and_true] at h
    exact ⟨by rw [h.2], by rw [← h.1]⟩
  · cases h

variable {random : ℕ}

theorem PortAllocationOperation.allocateNext_eq_ok {port : ℤ}
    (h : op.allocateNext allocator random = (nextOp, next, .ok port)) :
    allocator.allocateNext random = (next, .ok port) ∧
      nextOp.releaseDeferred = op.releaseDeferred := by
  unfold allocateNext at h
  generalize allocator.allocateNext random = result at h
  obtain ⟨_, _ | _⟩ := result
  · cases h
  · simp only [Prod.mk.injEq, Except.ok.injEq] at h
    exact ⟨by rw [h.2.1, h.2.2], by rw [← h.1]⟩

variable {oldNodePorts : List ℤ}

theorem assignNodePort_eq_ok {random i : ℕ} {servicePort assigned : ServicePort} {nodePort : ℤ}
    (hold : ∀ port ∈ oldNodePorts, allocator.has port = true)
    (h : assignNodePort oldNodePorts random i servicePort op allocator =
      (nextOp, next, .ok (assigned, nodePort))) :
    assigned.nodePort = nodePort ∧ nextOp.releaseDeferred = op.releaseDeferred ∧
      Assigned oldNodePorts [servicePort] [assigned] allocator next := by
  unfold assignNodePort at h
  by_cases hzero : servicePort.nodePort = 0
  · rw [if_neg (not_not.mpr hzero)] at h
    cases hnext : op.allocateNext allocator random with
    | mk nextOp' rest =>
      obtain ⟨next', _ | port⟩ := rest
      · simp [hnext] at h
      · simp only [hnext, Prod.mk.injEq, Except.ok.injEq] at h
        obtain ⟨rfl, rfl, rfl, rfl⟩ := h
        have hspec := PortAllocationOperation.allocateNext_eq_ok hnext
        have hport := PortAllocator.allocateNext_eq_ok hspec.1
        have hint : int32 port = port := int32_eq_self (by omega) (by omega)
        refine ⟨hint, hspec.2, ?_, ?_, ?_, ?_⟩
        all_goals simp only [map_cons, map_nil, mem_singleton, hint, forall_eq]
        · exact hport.2.2.2
        · exact fun hne ↦ absurd hzero hne
        · exact .inr hport.1
        · exact .inr hport.1
  · rw [if_pos hzero] at h
    split_ifs at h with hcont
    · obtain ⟨rfl, rfl, rfl, rfl⟩ := h
      have hmem : servicePort.nodePort ∈ oldNodePorts := contains_iff_mem.mp hcont
      refine ⟨rfl, rfl, ?_, ?_, ?_, ?_⟩
      all_goals simp only [map_cons, map_nil, mem_singleton, forall_eq]
      · intro port
        constructor
        · exact .inr
        · rintro (rfl | hhas)
          · exact hold _ hmem
          · exact hhas
      · exact fun _ ↦ trivial
      · exact .inl ⟨trivial, hzero⟩
      · exact .inl hmem
    · cases hallocate : op.allocate allocator servicePort.nodePort with
      | mk nextOp' rest =>
        obtain ⟨next', _ | err⟩ := rest
        · simp only [hallocate, Prod.mk.injEq, Except.ok.injEq] at h
          obtain ⟨rfl, rfl, rfl, rfl⟩ := h
          have hspec := PortAllocationOperation.allocate_eq_none hallocate
          have hport := PortAllocator.allocate_eq_none hspec.1
          refine ⟨rfl, hspec.2, ?_, ?_, ?_, ?_⟩
          all_goals simp only [map_cons, map_nil, mem_singleton, forall_eq]
          · exact hport.2
          · exact fun _ ↦ trivial
          · exact .inr hport.1
          · exact .inr hport.1
        · simp [hallocate] at h

theorem Assigned.append {first second first' second' : List ServicePort}
    {before middle after : PortAllocator}
    (hfirst : Assigned oldNodePorts first first' before middle)
    (hsecond : Assigned oldNodePorts second second' middle after) :
    Assigned oldNodePorts (first ++ second) (first' ++ second') before after := by
  have hfree : ∀ port, middle.has port = false → before.has port = false := by
    intro port hmiddle
    rw [← Bool.not_eq_true] at hmiddle ⊢
    exact fun hbefore ↦ hmiddle ((hfirst.has_iff port).mpr (.inr hbefore))
  constructor
  · intro port
    rw [hsecond.has_iff, hfirst.has_iff, map_append, mem_append]
    tauto
  · intro port hport hne
    rw [map_append, mem_append] at hport ⊢
    exact hport.imp (hfirst.requested_kept port · hne) (hsecond.requested_kept port · hne)
  · intro port hport
    rw [map_append, mem_append] at hport ⊢
    rcases hport with hport | hport
    · exact (hfirst.requested_or_free port hport).imp_left fun h ↦ ⟨.inl h.1, h.2⟩
    · exact (hsecond.requested_or_free port hport).imp (fun h ↦ ⟨.inr h.1, h.2⟩) (hfree port)
  · intro port hport
    rw [map_append, mem_append] at hport
    rcases hport with hport | hport
    · exact hfirst.old_or_free port hport
    · exact (hsecond.old_or_free port hport).imp_right (hfree port)

variable {newNodePorts : List ℤ}

theorem assignNodePorts_eq_ok {random : ℕ → ℕ} {ports assigned : List ServicePort} :
    ∀ {i : ℕ} {seen : List ℤ} {op : PortAllocationOperation} {allocator : PortAllocator},
      (∀ port ∈ oldNodePorts, allocator.has port = true) →
      assignNodePorts oldNodePorts random i ports seen op allocator =
        (nextOp, next, .ok (assigned, newNodePorts)) →
      newNodePorts = seen ++ assigned.map ServicePort.nodePort ∧
        nextOp.releaseDeferred = op.releaseDeferred ∧
        Assigned oldNodePorts ports assigned allocator next := by
  induction ports generalizing assigned with
  | nil =>
    intro i seen op allocator _ h
    obtain ⟨rfl, rfl, rfl, rfl⟩ := h
    exact ⟨by simp, rfl, by simp, by simp, by simp, by simp⟩
  | cons servicePort rest ih =>
    intro i seen op allocator hold h
    unfold assignNodePorts at h
    cases hbody : assignNodePort oldNodePorts (random i) i servicePort op allocator with
    | mk op₁ result =>
      obtain ⟨allocator₁, abort | ⟨assigned₁, nodePort⟩⟩ := result
      · simp [hbody] at h
      · simp only [hbody] at h
        split_ifs at h
        · cases h
        · have hstep := assignNodePort_eq_ok hold hbody
          have hold₁ : ∀ port ∈ oldNodePorts, allocator₁.has port = true :=
            fun port hport ↦ (hstep.2.2.has_iff port).mpr (.inr (hold port hport))
          cases hrest : assignNodePorts oldNodePorts random (i + 1) rest (seen ++ [nodePort]) op₁
              allocator₁ with
          | mk op₂ result =>
            obtain ⟨allocator₂, abort | ⟨assigned₂, newNodePorts₂⟩⟩ := result
            · simp [hrest] at h
            · simp only [hrest, Prod.mk.injEq, Except.ok.injEq] at h
              obtain ⟨rfl, rfl, rfl, rfl⟩ := h
              obtain ⟨hnew, hdeferred, hassigned⟩ := ih hold₁ hrest
              refine ⟨?_, hdeferred.trans hstep.2.1, hstep.2.2.append hassigned⟩
              rw [hnew, map_cons, hstep.1, append_assoc, singleton_append]

/-- The ports whose release is deferred are the old ports that are still used. -/
theorem releaseOldNodePorts_releaseDeferred (newNodePorts oldNodePorts : List ℤ)
    (op : PortAllocationOperation) :
    (releaseOldNodePorts newNodePorts op oldNodePorts).releaseDeferred =
      op.releaseDeferred ++ oldNodePorts.filter newNodePorts.contains := by
  induction oldNodePorts generalizing op with
  | nil => simp [releaseOldNodePorts]
  | cons oldNodePort rest ih =>
    unfold releaseOldNodePorts
    cases hcont : newNodePorts.contains oldNodePort with
    | false => rw [if_pos rfl, ih, filter_cons_of_neg (Bool.eq_false_iff.mp hcont)]
    | true =>
      rw [if_neg (by decide), ih, filter_cons_of_pos hcont,
        PortAllocationOperation.deferRelease, append_assoc, singleton_append]

/-! ## The health check node port -/

namespace Service

theorem annotation?_insert (service : Service Extra) (key key' value : String) :
    annotation? { service with annotations := service.annotations.insert key value } key' =
      if key' = key then some value else service.annotation? key' :=
  Map.lookup_insert key key' value service.annotations

theorem needsHealthCheck_congr {service other : Service Extra}
    (halpha : service.annotation? alphaAnnotationExternalTraffic =
      other.annotation? alphaAnnotationExternalTraffic)
    (hbeta : service.annotation? betaAnnotationExternalTraffic =
      other.annotation? betaAnnotationExternalTraffic) :
    service.needsHealthCheck = other.needsHealthCheck := by
  unfold needsHealthCheck needsHealthCheckLoop needsHealthCheckLoop needsHealthCheckLoop
  rw [halpha, hbeta]

end Service

variable {service : Service Extra}

/-- Without its alpha form, a present external traffic annotation is the beta one. -/
theorem isSome_beta_of_needsHealthCheck (hneeds : service.needsHealthCheck = true)
    (halpha : service.annotation? alphaAnnotationExternalTraffic = none) :
    (service.annotation? betaAnnotationExternalTraffic).isSome = true := by
  cases hbeta : service.annotation? betaAnnotationExternalTraffic with
  | none =>
    simp [Service.needsHealthCheck, Service.needsHealthCheckLoop, halpha, hbeta] at hneeds
  | some value => rfl

/-- An alpha annotation passes validation only without the beta form of the other annotation. -/
theorem eq_none_of_alphaAnnotationErrors {old : Option String} {alpha beta otherBeta : String}
    (hvalid : alphaAnnotationErrors service old alpha beta otherBeta = [])
    (hother : (service.annotation? otherBeta).isSome = true) :
    service.annotation? alpha = none := by
  unfold alphaAnnotationErrors at hvalid
  cases halpha : service.annotation? alpha with
  | none => rfl
  | some value => simp [halpha, hother] at hvalid

/-- A validated service with a beta health check annotation has no alpha one, so its health check
node port is the one in it. -/
theorem getServiceHealthCheckNodePort_of_beta {old : Service Extra} {port : ℕ}
    (hvalid : validateServiceAnnotations service old = [])
    (hneeds : service.needsHealthCheck = true) (hport : port < 65536)
    (hbeta : service.annotation? betaAnnotationHealthCheckNodePort = some (toString (port : ℤ))) :
    service.getServiceHealthCheckNodePort = port := by
  rw [validateServiceAnnotations, append_eq_nil_iff] at hvalid
  have htraffic : service.annotation? alphaAnnotationExternalTraffic = none :=
    eq_none_of_alphaAnnotationErrors hvalid.2 (by rw [hbeta]; rfl)
  have hcheck : service.annotation? alphaAnnotationHealthCheckNodePort = none :=
    eq_none_of_alphaAnnotationErrors hvalid.1 (isSome_beta_of_needsHealthCheck hneeds htraffic)
  have htext : (toString (port : ℤ)).toList = Nat.toDigits 10 port := by
    exact String.toList_ofList
  have hparse : Decimal.parseInt (toString (port : ℤ)).toList = .ok (port : ℤ) := by
    rw [htext]
    exact Decimal.parseInt_toDigits (by omega)
  rw [Service.getServiceHealthCheckNodePort, if_pos hneeds]
  simp only [Service.healthCheckNodePortLoop, hcheck, hbeta, hparse]
  exact int32_eq_self (by omega) (by omega)

namespace Environment

variable {env : Environment Extra}

variable {service other old out : Service Extra}

theorem healthCheckNodePorts_eq_nil
    (hcheck : env.shouldCheckOrAssignHealthCheckNodePort service = false) :
    env.healthCheckNodePorts service = [] := by
  rw [healthCheckNodePorts, if_neg (by simp [hcheck])]

theorem mem_healthCheckNodePorts
    (hcheck : env.shouldCheckOrAssignHealthCheckNodePort service = true) (port : ℤ) :
    port ∈ env.healthCheckNodePorts service ↔
      0 < port ∧ port = service.getServiceHealthCheckNodePort := by
  unfold healthCheckNodePorts
  split_ifs with hpositive
  · rw [mem_singleton]
    constructor
    · intro heq
      exact ⟨heq ▸ hpositive.2, heq⟩
    · exact And.right
  · constructor
    · intro hmem
      cases hmem
    · intro hport
      exact absurd ⟨hcheck, hport.2 ▸ hport.1⟩ hpositive

theorem shouldCheckOrAssignHealthCheckNodePort_congr (htype : service.type = other.type)
    (hneeds : service.needsHealthCheck = other.needsHealthCheck) :
    env.shouldCheckOrAssignHealthCheckNodePort service =
      env.shouldCheckOrAssignHealthCheckNodePort other := by
  unfold shouldCheckOrAssignHealthCheckNodePort
  rw [htype, hneeds]

theorem needsHealthCheck_of_shouldCheck
    (hcheck : env.shouldCheckOrAssignHealthCheckNodePort service = true) :
    service.needsHealthCheck = true := by
  unfold shouldCheckOrAssignHealthCheckNodePort at hcheck
  split at hcheck
  · exact (Bool.and_eq_true_iff.mp hcheck).2
  · cases hcheck

/-- The effect of the health check step on the allocator.  Zero stands for no port. -/
structure HealthChecked (env : Environment Extra) (old updated : Service Extra)
    (before after : PortAllocator) : Prop where
  has_iff : ∀ port ≠ 0, after.has port = true ↔
    (before.has port = true ∨ port ∈ env.healthCheckNodePorts updated) ∧
      (port ∈ env.healthCheckNodePorts old → port ∈ env.healthCheckNodePorts updated)
  old_or_free : ∀ port ∈ env.healthCheckNodePorts updated,
    port ∈ env.healthCheckNodePorts old ∨ before.has port = false

variable {before after : PortAllocator} {updated : Service Extra}

theorem HealthChecked.of_added (hold : env.shouldCheckOrAssignHealthCheckNodePort old = false)
    (hcheck : env.shouldCheckOrAssignHealthCheckNodePort updated = true)
    (hpositive : 0 ≤ updated.getServiceHealthCheckNodePort)
    (hfree : before.has updated.getServiceHealthCheckNodePort = false)
    (hhas : ∀ port, after.has port = true ↔
      port = updated.getServiceHealthCheckNodePort ∨ before.has port = true) :
    HealthChecked env old updated before after := by
  constructor
  · intro port hne
    rw [hhas, healthCheckNodePorts_eq_nil hold, mem_healthCheckNodePorts hcheck]
    simp only [not_mem_nil, false_implies, and_true]
    constructor
    · rintro (heq | hbefore)
      · exact .inr ⟨by omega, heq⟩
      · exact .inl hbefore
    · rintro (hbefore | hport)
      · exact .inr hbefore
      · exact .inl hport.2
  · intro port hport
    rw [mem_healthCheckNodePorts hcheck] at hport
    exact .inr (hport.2 ▸ hfree)

theorem HealthChecked.of_released (hold : env.shouldCheckOrAssignHealthCheckNodePort old = true)
    (hcheck : env.shouldCheckOrAssignHealthCheckNodePort updated = false) :
    HealthChecked env old updated before (before.release old.getServiceHealthCheckNodePort) := by
  constructor
  · intro port hne
    rw [PortAllocator.has_release, healthCheckNodePorts_eq_nil hcheck,
      mem_healthCheckNodePorts hold]
    simp only [not_mem_nil, or_false, imp_false]
    constructor
    · intro hhas
      exact ⟨hhas.1, fun hport ↦ hhas.2 hport.2⟩
    · intro hhas
      have hnonneg := PortAllocator.nonneg_of_has hhas.1
      exact ⟨hhas.1, fun heq ↦ hhas.2 ⟨by omega, heq⟩⟩
  · intro port hport
    rw [healthCheckNodePorts_eq_nil hcheck] at hport
    cases hport

section

variable (halloc : ∀ port ∈ env.healthCheckNodePorts old, before.has port = true)

include halloc

theorem HealthChecked.of_same
    (hsame : env.healthCheckNodePorts updated = env.healthCheckNodePorts old) :
    HealthChecked env old updated before before := by
  constructor
  · intro port _
    rw [hsame]
    constructor
    · intro hhas
      exact ⟨.inl hhas, id⟩
    · rintro ⟨hhas | hmem, _⟩
      · exact hhas
      · exact halloc port hmem
  · intro port hport
    exact .inl (hsame ▸ hport)

theorem healthCheckNodePortUpdate_eq_ok
    (h : env.healthCheckNodePortUpdate old service before random = (after, .ok updated))
    (hvalid : validateServiceAnnotations updated old = []) :
    updated.type = service.type ∧ updated.ports = service.ports ∧
      HealthChecked env old updated before after := by
  unfold healthCheckNodePortUpdate at h
  cases hold : env.shouldCheckOrAssignHealthCheckNodePort old <;>
    cases hcheck : env.shouldCheckOrAssignHealthCheckNodePort service <;>
    simp only [hold, hcheck] at h
  case false.false =>
    split_ifs at h
    · cases h
    · cases h
      refine ⟨rfl, rfl, .of_same halloc ?_⟩
      rw [healthCheckNodePorts_eq_nil hold, healthCheckNodePorts_eq_nil hcheck]
  case false.true =>
    split_ifs at h with hreq
    · cases hallocate : before.allocate service.getServiceHealthCheckNodePort with
      | mk next err =>
        cases err with
        | some err => simp [hallocate] at h
        | none =>
          simp only [hallocate, Prod.mk.injEq, Except.ok.injEq] at h
          obtain ⟨rfl, rfl⟩ := h
          have hspec := PortAllocator.allocate_eq_none hallocate
          exact ⟨rfl, rfl, .of_added hold hcheck hreq.le hspec.1 hspec.2⟩
    · cases hnext : before.allocateNext random with
      | mk next result =>
        cases result with
        | error err => simp [hnext] at h
        | ok port =>
          simp only [hnext, Prod.mk.injEq, Except.ok.injEq] at h
          obtain ⟨rfl, rfl⟩ := h
          obtain ⟨hfree, hnonneg, hlt, hhas⟩ := PortAllocator.allocateNext_eq_ok hnext
          obtain ⟨port, rfl⟩ := Int.eq_ofNat_of_zero_le hnonneg
          have hneeds := (Service.needsHealthCheck_congr
            (Service.annotation?_insert service betaAnnotationHealthCheckNodePort
              alphaAnnotationExternalTraffic (toString (port : ℤ)))
            (Service.annotation?_insert service betaAnnotationHealthCheckNodePort
              betaAnnotationExternalTraffic (toString (port : ℤ))))
          have hport := getServiceHealthCheckNodePort_of_beta hvalid
            (hneeds.trans (needsHealthCheck_of_shouldCheck hcheck)) (by omega)
            (Service.annotation?_insert service betaAnnotationHealthCheckNodePort
              betaAnnotationHealthCheckNodePort (toString (port : ℤ)))
          refine ⟨rfl, rfl, .of_added hold ?_ ?_ ?_ ?_⟩
          · rw [← hcheck]
            exact shouldCheckOrAssignHealthCheckNodePort_congr rfl hneeds
          · rw [hport]
            exact hnonneg
          · rw [hport]
            exact hfree
          · rw [hport]
            exact hhas
  case true.false =>
    cases h
    refine ⟨rfl, rfl, .of_released hold ?_⟩
    rw [← hcheck]
    refine shouldCheckOrAssignHealthCheckNodePort_congr ?_ (Service.needsHealthCheck_congr ?_ ?_)
    · rfl
    all_goals
      simp [Service.annotation?, alphaAnnotationHealthCheckNodePort,
        betaAnnotationHealthCheckNodePort, alphaAnnotationExternalTraffic,
        betaAnnotationExternalTraffic]
  case true.true =>
    split_ifs at h with hnone hsame
    · cases h
    · cases h
    · cases h
      refine ⟨rfl, rfl, .of_same halloc ?_⟩
      unfold healthCheckNodePorts
      rw [hold, hcheck, not_not.mp hsame]

end

/-- The write keeps the fields that decide about node ports, and it validates the service. -/
theorem updateService_eq_ok (h : env.updateService old service = .ok out) :
    out.type = service.type ∧ out.ports = service.ports ∧
      out.annotations = service.annotations ∧ validateServiceAnnotations service old = [] := by
  unfold updateService at h
  cases hvalid : env.validateServiceUpdate (prepareForUpdate service old) old with
  | cons err errors => simp [hvalid] at h
  | nil =>
    cases hpersist : env.persist (prepareForUpdate service old) with
    | error err => simp [hvalid, hpersist] at h
    | ok extra =>
      simp only [hvalid, hpersist, Except.ok.injEq] at h
      rw [validateServiceUpdate, append_eq_nil_iff] at hvalid
      rw [← h]
      exact ⟨rfl, rfl, rfl, hvalid.2⟩

theorem healthCheckNodePorts_congr (htype : service.type = other.type)
    (hannotations : service.annotations = other.annotations) :
    env.healthCheckNodePorts service = env.healthCheckNodePorts other := by
  have hannotation : service.annotation? = other.annotation? := by
    funext key
    rw [Service.annotation?, hannotations, Service.annotation?]
  have hneeds := Service.needsHealthCheck_congr (congrFun hannotation _) (congrFun hannotation _)
  have hport : service.getServiceHealthCheckNodePort = other.getServiceHealthCheckNodePort := by
    simp only [Service.getServiceHealthCheckNodePort, hneeds, Service.healthCheckNodePortLoop,
      hannotation]
  rw [healthCheckNodePorts, healthCheckNodePorts, hport,
    shouldCheckOrAssignHealthCheckNodePort_congr htype hneeds]

/-- The health check port is handled, and the old ports that are among the new ones are released. -/
theorem updateAssigned_eq_ok
    (halloc : ∀ port ∈ env.healthCheckNodePorts old, before.has port = true)
    (hop : op.releaseDeferred = [])
    (h : env.updateAssigned random old service newNodePorts op before = (after, .ok out)) :
    out.type = service.type ∧ out.ports = service.ports ∧
      ∃ checked, HealthChecked env old out before checked ∧
        ∀ port, after.has port = true ↔ checked.has port = true ∧
          ¬(port ∈ old.collectServiceNodePorts ∧ port ∈ newNodePorts) := by
  unfold updateAssigned at h
  dsimp only at h
  generalize hcheck : env.healthCheckNodePortUpdate old _ before random = result at h
  obtain ⟨checked, err | updated⟩ := result
  · cases h
  cases hstore : env.updateService old updated with
  | error err => simp [hstore] at h
  | ok stored =>
    simp only [hstore, Prod.mk.injEq, Except.ok.injEq] at h
    obtain ⟨rfl, rfl⟩ := h
    obtain ⟨htype, hports, hannotations, hvalid⟩ := updateService_eq_ok hstore
    obtain ⟨htype', hports', hchecked⟩ := healthCheckNodePortUpdate_eq_ok halloc hcheck hvalid
    refine ⟨htype.trans htype', hports.trans hports', checked, ?_, ?_⟩
    · have hsame : env.healthCheckNodePorts stored = env.healthCheckNodePorts updated :=
        healthCheckNodePorts_congr htype hannotations
      exact ⟨fun port hne ↦ hsame ▸ hchecked.has_iff port hne, hsame ▸ hchecked.old_or_free⟩
    · intro port
      simp only [PortAllocationOperation.commit, PortAllocationOperation.finish,
        Bool.false_eq_true, if_false, releaseOldNodePorts_releaseDeferred, hop, nil_append]
      rw [has_foldl_release, mem_filter, contains_iff_mem]

end Environment

end Kubernetes.Registry

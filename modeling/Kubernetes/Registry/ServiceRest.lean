import Kubernetes.Basic.Decimal
import Kubernetes.Basic.MachineInt
import Kubernetes.Basic.Map
import Kubernetes.Registry.PortAllocator

/-!
# Updating a service

The update path of the service registry: validation, assignment of node ports, the health check node
port, and the write to the store.  The checks and the store that look at other data of a service are
parameters.

Each service port may have a node port, and a load balancer that only routes to local endpoints has
one for health checks, kept in an annotation.
-/

namespace Kubernetes.Registry

inductive ServiceType
  | clusterIP
  | nodePort
  | loadBalancer
  | externalName
  | other (name : String)
  deriving DecidableEq, Repr

inductive Protocol
  | tcp
  | udp
  | other (name : String)
  deriving DecidableEq, Repr

/-- A port of a service.  Node port zero stands for no node port. -/
structure ServicePort where
  protocol : Protocol
  nodePort : ℤ
  deriving DecidableEq, Repr

structure LoadBalancerIngress where
  ip : String
  hostname : String
  deriving DecidableEq, Repr

/-- A service.  `Extra` is the type of its other metadata and specification. -/
structure Service (Extra : Type*) where
  type : ServiceType
  ports : List ServicePort
  annotations : Map String String
  loadBalancer : List LoadBalancerIngress
  extra : Extra

def annotationValueExternalTrafficLocal : String := "OnlyLocal"

def annotationValueExternalTrafficGlobal : String := "Global"

def alphaAnnotationHealthCheckNodePort : String :=
  "service.alpha.kubernetes.io/healthcheck-nodeport"

def alphaAnnotationExternalTraffic : String := "service.alpha.kubernetes.io/external-traffic"

def betaAnnotationHealthCheckNodePort : String := "service.beta.kubernetes.io/healthcheck-nodeport"

def betaAnnotationExternalTraffic : String := "service.beta.kubernetes.io/external-traffic"

variable {Extra : Type*}

namespace Service

def annotation? (service : Service Extra) (key : String) : Option String :=
  service.annotations.lookup key

/-- The loop of `NeedsHealthCheck` over the annotations in their order. -/
def needsHealthCheckLoop (service : Service Extra) : List String → Bool
  | [] => false
  | annotation :: rest =>
    match service.annotation? annotation with
    | some value =>
      if value = annotationValueExternalTrafficLocal then true
      else if value = annotationValueExternalTrafficGlobal then false
      else service.needsHealthCheckLoop rest
    | none => service.needsHealthCheckLoop rest

/-- `NeedsHealthCheck`: the alpha annotation is looked at before the beta annotation. -/
def needsHealthCheck (service : Service Extra) : Bool :=
  service.needsHealthCheckLoop [alphaAnnotationExternalTraffic, betaAnnotationExternalTraffic]

/-- The loop of `GetServiceHealthCheckNodePort`.  Annotations that are no numbers are skipped. -/
def healthCheckNodePortLoop (service : Service Extra) : List String → ℤ
  | [] => 0
  | annotation :: rest =>
    match service.annotation? annotation with
    | some value =>
      match Decimal.parseInt value.toList with
      | .ok port => int32 port
      | .error _ => service.healthCheckNodePortLoop rest
    | none => service.healthCheckNodePortLoop rest

def getServiceHealthCheckNodePort (service : Service Extra) : ℤ :=
  if service.needsHealthCheck then
    service.healthCheckNodePortLoop
      [alphaAnnotationHealthCheckNodePort, betaAnnotationHealthCheckNodePort]
  else 0

def collectServiceNodePorts (service : Service Extra) : List ℤ :=
  (service.ports.map ServicePort.nodePort).filter fun nodePort ↦ decide (nodePort ≠ 0)

def shouldAssignNodePorts (service : Service Extra) : Bool :=
  match service.type with
  | .loadBalancer => true
  | .nodePort => true
  | _ => false

end Service

inductive BadValue
  | number (value : ℤ)
  | text (value : String)
  deriving DecidableEq, Repr

inductive FieldError
  | invalid (field : String) (value : BadValue) (detail : String)
  | duplicate (field : String) (value : BadValue)
  | required (field : String) (detail : String)
  | notSupported (field : String) (value : BadValue) (detail : String)
  deriving DecidableEq, Repr

inductive ApiError
  | notFound
  | conflict (detail : String)
  | invalid (errors : List FieldError)
  | internalError (detail : String)
  | storage (detail : String)
  deriving DecidableEq, Repr

/-! ## Validation -/

def nodePortPath (i : ℕ) : String := "spec.ports[" ++ toString i ++ "].nodePort"

def clusterIPNodePortErrors (service : Service Extra) : List FieldError :=
  if service.type = .clusterIP then
    service.ports.zipIdx.filterMap fun (port, i) ↦
      if port.nodePort ≠ 0 then
        some (.invalid (nodePortPath i) (.number port.nodePort)
          "may not be used when `type` is 'ClusterIP'")
      else none
  else []

/-- The check for duplicate node ports, which considers pairs of a protocol and a port. -/
def duplicateNodePortErrors : List (ServicePort × ℕ) → List (Protocol × ℤ) → List FieldError
  | [], _ => []
  | (port, i) :: rest, nodePorts =>
    if port.nodePort = 0 then duplicateNodePortErrors rest nodePorts
    else
      let key := (port.protocol, port.nodePort)
      let errors := duplicateNodePortErrors rest (key :: nodePorts)
      if key ∈ nodePorts then .duplicate (nodePortPath i) (.number port.nodePort) :: errors
      else errors

def replaceAlphaError (alpha beta : String) : FieldError :=
  .invalid ("metadata.annotations[" ++ alpha ++ "]") (.text alpha)
    ("please replace the alpha annotation with the beta version " ++ beta)

/-- The check of the two annotations with an alpha and a beta form: an alpha value may not be new,
changed, dropped without its beta form, or mixed with the other beta form. -/
def alphaAnnotationErrors (service : Service Extra) (old : Option String)
    (alpha beta otherBeta : String) : List FieldError :=
  let value := service.annotation? alpha
  let valueChanged := old.isSome && value.isSome && old != value
  let valueNew := old.isNone && value.isSome
  let valueGone := value.isNone && (service.annotation? beta).isNone && old.isSome
  let mismatch := (service.annotation? otherBeta).isSome && value.isSome
  if valueNew || valueChanged || valueGone || mismatch then [replaceAlphaError alpha beta] else []

def validateServiceAnnotations (service oldService : Service Extra) : List FieldError :=
  alphaAnnotationErrors service (oldService.annotation? alphaAnnotationHealthCheckNodePort)
      alphaAnnotationHealthCheckNodePort betaAnnotationHealthCheckNodePort
      betaAnnotationExternalTraffic ++
    alphaAnnotationErrors service (oldService.annotation? alphaAnnotationExternalTraffic)
      alphaAnnotationExternalTraffic betaAnnotationExternalTraffic
      betaAnnotationHealthCheckNodePort

/-- The feature gate, the checks on other fields, and the store. -/
structure Environment (Extra : Type*) where
  externalTrafficLocalOnly : Bool
  validNamespace : Service Extra → Bool
  generalErrors : Service Extra → Service Extra → List FieldError
  sourceRangeErrors : Service Extra → List FieldError
  /-- The store writes the service and sets its server-side metadata. -/
  persist : Service Extra → Except ApiError Extra

namespace Environment

variable (env : Environment Extra)

def validateServiceUpdate (service oldService : Service Extra) : List FieldError :=
  env.generalErrors service oldService ++ clusterIPNodePortErrors service ++
    duplicateNodePortErrors service.ports.zipIdx [] ++ env.sourceRangeErrors service ++
    validateServiceAnnotations service oldService

def shouldCheckOrAssignHealthCheckNodePort (service : Service Extra) : Bool :=
  match service.type with
  | .loadBalancer => env.externalTrafficLocalOnly && service.needsHealthCheck
  | _ => false

/-- The health check node port that `Delete` would release. -/
def healthCheckNodePorts (service : Service Extra) : List ℤ :=
  if env.shouldCheckOrAssignHealthCheckNodePort service = true ∧
      0 < service.getServiceHealthCheckNodePort then
    [service.getServiceHealthCheckNodePort]
  else []

def nodePorts (service : Service Extra) : List ℤ :=
  service.collectServiceNodePorts ++ env.healthCheckNodePorts service

/-! ## Update -/

def healthCheckError (detail : String) : ApiError :=
  .invalid [.invalid "metadata.annotations" (.text betaAnnotationHealthCheckNodePort) detail]

/-- `healthCheckNodePortUpdate`.  These allocations and releases take effect at once. -/
def healthCheckNodePortUpdate (oldService service : Service Extra) (allocator : PortAllocator)
    (random : ℕ) : PortAllocator × Except ApiError (Service Extra) :=
  let oldHealthCheckNodePort := oldService.getServiceHealthCheckNodePort
  let requestedHealthCheckNodePort := service.getServiceHealthCheckNodePort
  match env.shouldCheckOrAssignHealthCheckNodePort oldService,
      env.shouldCheckOrAssignHealthCheckNodePort service with
  | false, true =>
    if 0 < requestedHealthCheckNodePort then
      match allocator.allocate requestedHealthCheckNodePort with
      | (allocator, some err) =>
        (allocator, .error (healthCheckError ("Failed to allocate requested HealthCheck nodePort " ++
          toString requestedHealthCheckNodePort ++ ":" ++ err.text)))
      | (allocator, none) => (allocator, .ok service)
    else
      match allocator.allocateNext random with
      | (allocator, .error err) =>
        (allocator, .error (.internalError ("failed to allocate a nodePort: " ++ err.text)))
      | (allocator, .ok port) =>
        (allocator, .ok { service with
          annotations := service.annotations.insert betaAnnotationHealthCheckNodePort
            (toString port) })
  | true, false =>
    (allocator.release oldHealthCheckNodePort, .ok { service with
      annotations := (service.annotations.erase betaAnnotationHealthCheckNodePort).erase
        alphaAnnotationHealthCheckNodePort })
  | false, false =>
    if (service.annotation? betaAnnotationHealthCheckNodePort).isSome then
      (allocator, .error (healthCheckError "Cannot insert healthcheck nodePort annotation"))
    else (allocator, .ok service)
  | true, true =>
    if (service.annotation? betaAnnotationHealthCheckNodePort).isNone then
      (allocator, .error (healthCheckError "Cannot delete healthcheck nodePort annotation"))
    else if oldHealthCheckNodePort ≠ requestedHealthCheckNodePort then
      (allocator, .error (healthCheckError "Cannot change healthcheck nodePort during update"))
    else (allocator, .ok service)

def prepareForUpdate (service oldService : Service Extra) : Service Extra :=
  { service with loadBalancer := oldService.loadBalancer }

/-- `UpdateService` of the generic registry validates once more before the write. -/
def updateService (oldService service : Service Extra) : Except ApiError (Service Extra) :=
  let prepared := prepareForUpdate service oldService
  match env.validateServiceUpdate prepared oldService with
  | [] =>
    match env.persist prepared with
    | .ok extra => .ok { prepared with extra := extra }
    | .error err => .error err
  | errors => .error (.invalid errors)

end Environment

inductive Abort
  | failed (err : ApiError)
  | panicked (message : String)
  deriving DecidableEq, Repr

/-- The loop body: a new port is allocated, an old one is kept, and a missing one is assigned. -/
def assignNodePort (oldNodePorts : List ℤ) (random i : ℕ) (servicePort : ServicePort)
    (op : PortAllocationOperation) (allocator : PortAllocator) :
    PortAllocationOperation × PortAllocator × Except Abort (ServicePort × ℤ) :=
  let nodePort := servicePort.nodePort
  if nodePort ≠ 0 then
    if oldNodePorts.contains nodePort then (op, allocator, .ok (servicePort, nodePort))
    else
      match op.allocate allocator nodePort with
      | (op, allocator, none) => (op, allocator, .ok (servicePort, nodePort))
      | (op, allocator, some err) =>
        (op, allocator,
          .error (.failed (.invalid [.invalid (nodePortPath i) (.number nodePort) err.text])))
  else
    match op.allocateNext allocator random with
    | (op, allocator, .ok nodePort) =>
      (op, allocator, .ok ({ servicePort with nodePort := int32 nodePort }, nodePort))
    | (op, allocator, .error err) =>
      (op, allocator,
        .error (.failed (.internalError ("failed to allocate a nodePort: " ++ err.text))))

/-- The loop over the ports from index `i` on, with the node ports seen so far. -/
def assignNodePorts (oldNodePorts : List ℤ) (random : ℕ → ℕ) :
    ℕ → List ServicePort → List ℤ → PortAllocationOperation → PortAllocator →
      PortAllocationOperation × PortAllocator × Except Abort (List ServicePort × List ℤ)
  | _, [], newNodePorts, op, allocator => (op, allocator, .ok ([], newNodePorts))
  | i, servicePort :: rest, newNodePorts, op, allocator =>
    match assignNodePort oldNodePorts (random i) i servicePort op allocator with
    | (op, allocator, .error abort) => (op, allocator, .error abort)
    | (op, allocator, .ok (servicePort, nodePort)) =>
      if newNodePorts.contains nodePort then
        (op, allocator, .error (.panicked "duplicate node port"))
      else
        match assignNodePorts oldNodePorts random (i + 1) rest (newNodePorts ++ [nodePort]) op
            allocator with
        | (op, allocator, .error abort) => (op, allocator, .error abort)
        | (op, allocator, .ok (ports, newNodePorts)) =>
          (op, allocator, .ok (servicePort :: ports, newNodePorts))

/-- The loop that chooses the ports to release when the update is committed. -/
def releaseOldNodePorts (newNodePorts : List ℤ) (op : PortAllocationOperation) :
    List ℤ → PortAllocationOperation
  | [] => op
  | oldNodePort :: rest =>
    if newNodePorts.contains oldNodePort = false then releaseOldNodePorts newNodePorts op rest
    else releaseOldNodePorts newNodePorts (op.deferRelease oldNodePort) rest

namespace Environment

variable (env : Environment Extra)

/-- The part of `Update` after the assignment of node ports.  Every return runs the deferred
`Finish`. -/
def updateAssigned (random : ℕ) (oldService service : Service Extra) (newNodePorts : List ℤ)
    (op : PortAllocationOperation) (allocator : PortAllocator) :
    PortAllocator × Except Abort (Service Extra) :=
  let op := releaseOldNodePorts newNodePorts op oldService.collectServiceNodePorts
  let service := { service with
    loadBalancer := if service.type ≠ .loadBalancer then [] else service.loadBalancer }
  match env.healthCheckNodePortUpdate oldService service allocator random with
  | (allocator, .error err) => (op.finish allocator, .error (.failed err))
  | (allocator, .ok service) =>
    match env.updateService oldService service with
    | .error err => (op.finish allocator, .error (.failed err))
    | .ok out =>
      let (op, allocator) := op.commit allocator
      (op.finish allocator, .ok out)

def updateValidated (random : ℕ → ℕ) (oldService service : Service Extra)
    (allocator : PortAllocator) : PortAllocator × Except Abort (Service Extra) :=
  if service.shouldAssignNodePorts then
    match assignNodePorts oldService.collectServiceNodePorts random 0 service.ports [] .start
        allocator with
    | (op, allocator, .error abort) => (op.finish allocator, .error abort)
    | (op, allocator, .ok (ports, newNodePorts)) =>
      env.updateAssigned (random ports.length) oldService { service with ports := ports }
        newNodePorts op allocator
  else env.updateAssigned (random service.ports.length) oldService service [] .start allocator

end Environment

structure REST (Extra : Type*) where
  services : Map String (Service Extra)
  serviceNodePorts : PortAllocator

/-- `updatedObject` is the change the request asks for, and `random` gives the offsets at which
`AllocateNext` starts to scan. -/
def REST.update (rs : REST Extra) (env : Environment Extra) (random : ℕ → ℕ) (name : String)
    (updatedObject : Service Extra → Except ApiError (Service Extra)) :
    REST Extra × Except Abort (Service Extra) :=
  match rs.services.lookup name with
  | none => (rs, .error (.failed .notFound))
  | some oldService =>
    match updatedObject oldService with
    | .error err => (rs, .error (.failed err))
    | .ok service =>
      if env.validNamespace service = false then
        (rs, .error (.failed (.conflict "Service.Namespace does not match the provided context")))
      else
        match env.validateServiceUpdate service oldService with
        | [] =>
          match env.updateValidated random oldService service rs.serviceNodePorts with
          | (allocator, .error abort) => ({ rs with serviceNodePorts := allocator }, .error abort)
          | (allocator, .ok out) =>
            (⟨rs.services.insert name out, allocator⟩, .ok out)
        | errors => (rs, .error (.failed (.invalid errors)))

end Kubernetes.Registry

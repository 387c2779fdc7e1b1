import Kubernetes.Client.DeltaFIFOCalls
import Kubernetes.Client.EventStream
import Kubernetes.Client.FIFO
import Kubernetes.Client.FailingIndexers
import Kubernetes.Disruption.EvictionLedger
import Kubernetes.GarbageCollector.OrphanFinalizer
import Kubernetes.GarbageCollector.OwnedObjects
import Kubernetes.Kubectl.RollingUpdate
import Kubernetes.Kubelet.EvictionGracePeriods
import Kubernetes.Kubelet.EvictionRanking
import Kubernetes.Kubelet.ImageGC
import Kubernetes.Kubelet.KillDelivery
import Kubernetes.Kubelet.PodConfigSource
import Kubernetes.Kubelet.PodTermination
import Kubernetes.Kubelet.ProbeThresholds
import Kubernetes.Kubelet.StatusVersions
import Kubernetes.Labels.SelectorRoundTrip
import Kubernetes.NamespaceController.DeletionSafety
import Kubernetes.NodeController.CIDRUpdate
import Kubernetes.NodeController.EvictionQueue
import Kubernetes.Patch.Conflicts
import Kubernetes.PetSet.OnePetAtATime
import Kubernetes.Predicates.AntiAffinityDecision
import Kubernetes.Predicates.NodeTaints
import Kubernetes.Quota.AdmissionSoundness
import Kubernetes.Quota.WaiterPlaces
import Kubernetes.Rbac.Containment
import Kubernetes.Registry.DeletionDeadlines
import Kubernetes.Registry.EtcdAllocation
import Kubernetes.Registry.LeakGracePeriod
import Kubernetes.Registry.NodePortAccounting
import Kubernetes.Resource.Amount
import Kubernetes.Scheduler.CacheSnapshot
import Kubernetes.Scheduler.CleanFailure
import Kubernetes.Scheduler.Overcommitment
import Kubernetes.Storage.ConditionalDelete
import Kubernetes.Storage.Etcd3WatchDelivery
import Kubernetes.Storage.WatchDelivery
import Kubernetes.Storage.WatchFilter
import Kubernetes.Volume.OperationExclusion
import Kubernetes.Volume.ProjectedPaths
import Kubernetes.VolumeController.ReclaimSafety
import Kubernetes.Workqueue.DelayingQueue
import Kubernetes.Workqueue.Workers

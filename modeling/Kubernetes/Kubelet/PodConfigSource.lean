import Kubernetes.Kubelet.PodConfigStream

/-!
# The stored pods follow their source

After a `SET` the pods stored for its source are the valid pods of the update.  A pod that was
stored under the same full name is updated in place: what is compared and the status are taken over,
but the other metadata stay, the UID among them, also if the pod was recreated.
-/

namespace Kubernetes.Kubelet.PodConfig

open Finmap List

variable {Spec Status Meta : Type} {existing ref : Pod Spec Status Meta}
  {old : Pods Spec Status Meta}

/-- The pod has all that the incoming pod gives it, and the other metadata of the pod stored under
its name, if there was one. -/
structure Follows (old : Pods Spec Status Meta) (ref pod : Pod Spec Status Meta) : Prop where
  spec : pod.spec = ref.spec
  labels : pod.labels = ref.labels
  deletionTimestamp : pod.deletionTimestamp = ref.deletionTimestamp
  deletionGracePeriodSeconds : pod.deletionGracePeriodSeconds = ref.deletionGracePeriodSeconds
  status : pod.status = ref.status
  annotations : ∀ key, isLocalAnnotationKey key = false →
    pod.annotations.lookup key = ref.annotations.lookup key
  objectMeta : pod.objectMeta = ((old.lookup (getPodFullName ref)).getD ref).objectMeta

section Filter

variable (isValid : Pod Spec Status Meta → Bool) (name : String)

/-- The names recorded so far are those of the pods kept so far. -/
def Recorded (filtered : List (Pod Spec Status Meta) × Finset String) : Prop :=
  ∀ name ∈ filtered.2, ∃ pod ∈ filtered.1, getPodFullName pod = name

theorem find?_filterPod (pod : Pod Spec Status Meta)
    {filtered : List (Pod Spec Status Meta) × Finset String} (hrec : Recorded filtered) :
    Recorded (filterPod isValid filtered pod) ∧
      (filterPod isValid filtered pod).1.find? (getPodFullName · = name) =
        (filtered.1.find? (getPodFullName · = name)).or
          ([pod].find? fun pod ↦ isValid pod ∧ getPodFullName pod = name) := by
  unfold filterPod
  split_ifs with hinvalid hduplicate
  · exact ⟨hrec, by simp [hinvalid]⟩
  · refine ⟨hrec, ?_⟩
    by_cases hname : getPodFullName pod = name
    · obtain ⟨other, hmem, hother⟩ := hrec _ hduplicate
      have hsome : (filtered.1.find? (getPodFullName · = name)).isSome := by
        rw [find?_isSome]
        exact ⟨other, hmem, by simp [hother, hname]⟩
      rw [Option.or_of_isSome hsome]
    · simp [hname]
  · refine ⟨fun name hname ↦ ?_, ?_⟩
    · rcases Finset.mem_insert.mp hname with rfl | hold
      · simp
      · obtain ⟨other, hmem, hother⟩ := hrec name hold
        exact ⟨other, mem_append_left _ hmem, hother⟩
    · rw [find?_append]
      simp [hinvalid]

/-- The filter keeps the first valid pod of each name. -/
theorem find?_filterInvalidPods (pods : List (Pod Spec Status Meta)) :
    (filterInvalidPods isValid pods).find? (getPodFullName · = name) =
      pods.find? fun pod ↦ isValid pod ∧ getPodFullName pod = name := by
  suffices hloop : ∀ filtered : List (Pod Spec Status Meta) × Finset String, Recorded filtered →
      (pods.foldl (filterPod isValid) filtered).1.find? (getPodFullName · = name) =
        (filtered.1.find? (getPodFullName · = name)).or
          (pods.find? fun pod ↦ isValid pod ∧ getPodFullName pod = name) from
    hloop ([], ∅) fun _ hname ↦ absurd hname (Finset.notMem_empty _)
  induction pods with
  | nil => simp
  | cons pod pods ih =>
    intro filtered hrec
    obtain ⟨hnext, hfind⟩ := find?_filterPod isValid name pod hrec
    rw [foldl_cons, ih _ hnext, hfind, Option.or_assoc, ← find?_append, singleton_append]

end Filter

theorem lookup_insert_local {key other : String} {value : String} {annotations : Map String String}
    (hkey : isLocalAnnotationKey key = false) (hother : isLocalAnnotationKey other = true) :
    (annotations.insert other value).lookup key = annotations.lookup key := by
  apply lookup_insert_of_ne
  rintro rfl
  simp [hkey] at hother

/-- The local annotations that are carried over hide no other one. -/
theorem lookup_updateAnnotations {key : String} (hkey : isLocalAnnotationKey key = false) :
    (updateAnnotations existing ref).annotations.lookup key = ref.annotations.lookup key := by
  have hlocal : ∀ other ∈ localAnnotations, isLocalAnnotationKey other = true := by decide
  unfold updateAnnotations
  dsimp only
  generalize ref.annotations = annotations
  revert hlocal
  generalize localAnnotations = keys
  intro hlocal
  induction keys generalizing annotations with
  | nil => rfl
  | cons other keys ih =>
    rw [foldl_cons, ih _ fun key hmem ↦ hlocal key (mem_cons_of_mem _ hmem)]
    split
    · exact lookup_insert_local hkey (hlocal other mem_cons_self)
    · rfl

theorem lookup_of_isAnnotationMapEqual {existingMap candidateMap : Map String String} {key : String}
    (hequal : isAnnotationMapEqual existingMap candidateMap = true)
    (hkey : isLocalAnnotationKey key = false) :
    existingMap.lookup key = candidateMap.lookup key := by
  rw [isAnnotationMapEqual, Bool.and_eq_true, decide_eq_true_eq, decide_eq_true_eq] at hequal
  have hnot : ¬ isLocalAnnotationKey key = true := by simp [hkey]
  by_cases hmem : key ∈ candidateMap
  · exact (hequal.1 key hmem).resolve_left hnot
  · rw [lookup_eq_none.mpr hmem, lookup_eq_none]
    exact fun hexisting ↦ hmem ((hequal.2 key hexisting).resolve_left hnot)

variable [DecidableEq Spec] [DecidableEq Status] (source : String) (timestamp : String → String)

theorem follows_checkAndUpdatePod (hold : old.lookup (getPodFullName ref) = some existing) :
    Follows old ref (checkAndUpdatePod existing (annotateSource source ref)).1 := by
  have hannotated : ∀ key, isLocalAnnotationKey key = false →
      (annotateSource source ref).annotations.lookup key = ref.annotations.lookup key :=
    fun _ hkey ↦ lookup_insert_local hkey (by decide)
  have htaken : Follows old ref (takeOver existing (annotateSource source ref)) := by
    refine ⟨rfl, rfl, rfl, rfl, rfl, fun key hkey ↦ ?_, by rw [hold]; rfl⟩
    calc (takeOver existing (annotateSource source ref)).annotations.lookup key
        = (recordFirstSeenTime _ (annotateSource source ref)).annotations.lookup key :=
          lookup_updateAnnotations hkey
      _ = (annotateSource source ref).annotations.lookup key :=
          lookup_insert_local hkey (by decide)
      _ = ref.annotations.lookup key := hannotated key hkey
  have hkept : podsDifferSemantically existing (annotateSource source ref) = false →
      ∀ status, status = ref.status → Follows old ref { existing with status := status } := by
    intro hsame status hstatus
    simp only [podsDifferSemantically, ite_eq_left_iff, Bool.true_eq_false, imp_false, not_not]
      at hsame
    obtain ⟨hspec, hlabels, htime, hperiod, hequal⟩ := hsame
    refine ⟨hspec, hlabels, htime, hperiod, hstatus, fun key hkey ↦ ?_, by rw [hold]; rfl⟩
    exact (lookup_of_isAnnotationMapEqual hequal hkey).trans (hannotated key hkey)
  unfold checkAndUpdatePod
  split_ifs with hsame hstatus
  · exact hkept hsame _ rfl
  · exact hkept hsame existing.status (not_not.mp hstatus)
  · exact htaken
  · exact htaken

variable (old)

theorem exists_updatePod_eq (merging : Merging Spec Status Meta) (ref : Pod Spec Status Meta) :
    ∃ pod, Follows old ref pod ∧ (updatePod source timestamp (some old) merging ref).pods =
      merging.pods.insert (getPodFullName ref) pod := by
  unfold updatePod
  rw [Option.getD_some]
  cases hold : old.lookup (getPodFullName ref) with
  | some existing => exact ⟨_, follows_checkAndUpdatePod source hold, Merging.list_pods _ _ _⟩
  | none =>
    refine ⟨recordFirstSeenTime (timestamp (getPodFullName ref)) (annotateSource source ref),
      ⟨rfl, rfl, rfl, rfl, rfl, fun key hkey ↦ ?_, by rw [hold]; rfl⟩, rfl⟩
    exact (lookup_insert_local hkey (by decide)).trans (lookup_insert_local hkey (by decide))

/-- Pods of different names are stored one by one.  `found` is the pod of the name that the loop has
met so far. -/
theorem rel_foldl_updatePod {refs : List (Pod Spec Status Meta)} {name : String}
    (found : Option (Pod Spec Status Meta)) (merging : Merging Spec Status Meta)
    (hnodup : (refs.map getPodFullName).Nodup)
    (hfound : Option.Rel (Follows old) found (merging.pods.lookup name))
    (hnew : found.isSome → name ∉ refs.map getPodFullName) :
    Option.Rel (Follows old) (found.or (refs.find? (getPodFullName · = name)))
      ((refs.foldl (updatePod source timestamp (some old)) merging).pods.lookup name) := by
  induction refs generalizing merging found with
  | nil => simpa using hfound
  | cons ref refs ih =>
    obtain ⟨pod, hfollows, hpods⟩ := exists_updatePod_eq old source timestamp merging ref
    rw [map_cons, nodup_cons] at hnodup
    rw [foldl_cons]
    by_cases hname : getPodFullName ref = name
    · obtain rfl : found = none := by
        cases found with
        | none => rfl
        | some other => exact absurd (hname ▸ mem_cons_self) (hnew rfl)
      rw [find?_cons_of_pos (by simpa using hname)]
      refine ih (some ref) _ hnodup.2 ?_ fun _ ↦ hname ▸ hnodup.1
      rw [hpods, hname, lookup_insert]
      exact .some hfollows
    · rw [find?_cons_of_neg (by simpa using hname)]
      refine ih found _ hnodup.2 ?_ fun hsome hmem ↦ hnew hsome (mem_cons_of_mem _ hmem)
      rwa [hpods, lookup_insert_of_ne _ (Ne.symm hname)]

/-- After a `SET` the source has exactly the valid pods of the update, the first of each name, and
other sources are unchanged. -/
theorem set_follows_source (decoding : Decoding Spec Status Meta)
    (storage : PodStorage Spec Status Meta) (call : MergeCall Spec Status Meta)
    (hset : call.change.op = .set) :
    (∀ name, Option.Rel (Follows (storage.pods call.source))
        ((PodStorage.incoming decoding call).find? fun pod ↦
          decoding.isValid pod ∧ getPodFullName pod = name)
        (((storage.merged decoding call).pods call.source).lookup name)) ∧
      ∀ source ≠ call.source, (storage.merged decoding call).pods source = storage.pods source := by
  refine ⟨fun name ↦ ?_, fun source hsource ↦ Function.update_of_ne hsource _ _⟩
  have hpods : (storage.merged decoding call).pods call.source =
      (storage.merging decoding call).pods := Function.update_self ..
  rw [hpods, PodStorage.merging, hset, ← find?_filterInvalidPods]
  exact rel_foldl_updatePod _ _ _ none _ (nodup_filterInvalidPods _ _) .none nofun

def recreateDecoding : Decoding ℕ ℕ ℕ := ⟨id, fun _ ↦ true⟩

def recreateCall (uid : ℕ) : MergeCall ℕ ℕ ℕ where
  source := apiserverSource
  change := ⟨[⟨"web", "default", ∅, none, none, none, 1, 0, uid⟩], .set, apiserverSource⟩
  timestamp _ := "now"
  order := []

def recreateStorage : PodStorage ℕ ℕ ℕ := PodStorage.empty.merged recreateDecoding (recreateCall 1)

theorem recreated_pod_followed : (recreateCall 2).change.op = .set ∧
    ∀ name, Option.Rel (Follows (recreateStorage.pods apiserverSource))
      ((recreateCall 2).change.pods.find? fun pod ↦ true ∧ getPodFullName pod = name)
      (((recreateStorage.merged recreateDecoding (recreateCall 2)).pods apiserverSource).lookup
        name) :=
  ⟨rfl, (set_follows_source recreateDecoding recreateStorage (recreateCall 2) rfl).1⟩

/-- The pod was recreated under another UID, and the stored pod keeps the old one. -/
theorem recreated_pod_keeps_uid :
    (((recreateStorage.merged recreateDecoding (recreateCall 2)).pods apiserverSource).lookup
      "web_default").map (·.objectMeta) = some 1 := by
  decide +kernel

end Kubernetes.Kubelet.PodConfig

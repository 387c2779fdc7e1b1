import Kubernetes.Basic.MachineInt
import Kubernetes.Basic.Map
import Mathlib.Algebra.Order.BigOperators.Group.List

/-!
# The collection of unused images

The kubelet removes the images that are unused and old enough, in the order of their last use, until
it has freed enough.  A use is recognised by its time, and the amount is compared only after a
removal.  Times are integers, with `0` for the zero time, and sizes are added as 64-bit integers.
-/

namespace Kubernetes.Kubelet.Images

open List (mem_filter)

structure ImageRecord where
  firstDetected : ℤ
  lastUsed : ℤ
  size : Int64

structure Image where
  id : String
  size : Int64

structure ImageGCPolicy where
  highThresholdPercent : Int64
  lowThresholdPercent : Int64
  minAge : ℤ

variable {Err : Type}

/-! ## Detection -/

section Detection

variable (detectTime now : ℤ) (imagesInUse : List String)

def detectImage (imageRecords : Map String ImageRecord) (image : Image) : Map String ImageRecord :=
  let record := (imageRecords.lookup image.id).getD ⟨detectTime, 0, 0⟩
  imageRecords.insert image.id { record with
    lastUsed := if image.id ∈ imagesInUse then now else record.lastUsed
    size := image.size }

/-- The records after all images of the runtime were seen, without those of images that are gone. -/
def detected (images : List Image) (imageRecords : Map String ImageRecord) :
    Map String ImageRecord :=
  Map.comprehend (images.map Image.id).toFinset fun id ↦
    (images.foldl (detectImage detectTime now imagesInUse) imageRecords).lookup id

/-- A pod is the list of the image IDs of its containers. -/
def detectImages (listImages : Except Err (List Image)) (getPods : Except Err (List (List String)))
    (imageRecords : Map String ImageRecord) : Except Err (Map String ImageRecord) := do
  let images ← listImages
  let pods ← getPods
  return detected detectTime now pods.flatten images imageRecords

variable {detectTime now imagesInUse} {id : String} {record : ImageRecord}

/-- An image in use was used when it was detected. -/
theorem lastUsed_detected (hused : id ∈ imagesInUse) {images : List Image}
    {imageRecords : Map String ImageRecord}
    (hget : (detected detectTime now imagesInUse images imageRecords).lookup id = some record) :
    record.lastUsed = now := by
  rw [detected, Map.lookup_comprehend] at hget
  split_ifs at hget with hmem
  rw [List.mem_toFinset] at hmem
  induction images using List.reverseRecOn with
  | nil => cases hmem
  | append_singleton images image ih =>
    rw [List.foldl_append, List.foldl_cons, List.foldl_nil, detectImage,
      Map.lookup_insert] at hget
    by_cases hid : id = image.id
    · rw [if_pos hid] at hget
      rw [← Option.some.inj hget]
      exact if_pos (hid ▸ hused)
    · rw [if_neg hid] at hget
      exact ih (by simpa [hid] using hmem) hget

end Detection

/-! ## Removal -/

abbrev EvictionInfo := String × ImageRecord

/-- The order of the removals, by last use and then by detection. -/
def less (first second : EvictionInfo) : Prop :=
  if first.2.lastUsed = second.2.lastUsed then
    first.2.firstDetected < second.2.firstDetected
  else first.2.lastUsed < second.2.lastUsed

structure Freed (Err : Type) where
  imageRecords : Map String ImageRecord
  attempted : List EvictionInfo
  spaceFreed : Int64
  deletionErrors : List Err

/-- The arguments of a pass, with the error of the removal of each image. -/
structure Pass (Err : Type) where
  policy : ImageGCPolicy
  freeTime : ℤ
  bytesToFree : Int64
  removeImage : String → Option Err

namespace Pass

def deleteImages (pass : Pass Err) : List EvictionInfo → Freed Err → Freed Err
  | [], freed => freed
  | image :: images, freed =>
    if pass.freeTime ≤ image.2.lastUsed then freed
    else if pass.freeTime - image.2.firstDetected < pass.policy.minAge then
      pass.deleteImages images freed
    else
      let tried := { freed with attempted := freed.attempted ++ [image] }
      match pass.removeImage image.1 with
      | some err =>
        pass.deleteImages images { tried with deletionErrors := tried.deletionErrors ++ [err] }
      | none =>
        let next := { tried with
          imageRecords := tried.imageRecords.erase image.1
          spaceFreed := tried.spaceFreed + image.2.size }
        if pass.bytesToFree ≤ next.spaceFreed then next else pass.deleteImages images next

/-- The images `order` are sorted; `now` is the time of the detection. -/
def freeSpace (pass : Pass Err) (listImages : Except Err (List Image))
    (getPods : Except Err (List (List String))) (imageRecords : Map String ImageRecord) (now : ℤ)
    (order : List EvictionInfo) : Except Err (Freed Err) := do
  let records ← detectImages pass.freeTime now listImages getPods imageRecords
  return pass.deleteImages order ⟨records, [], 0, []⟩

/-- The images that are old enough and were last used before the pass. -/
def candidates (pass : Pass Err) (order : List EvictionInfo) : List EvictionInfo :=
  order.filter fun image ↦
    image.2.lastUsed < pass.freeTime ∧ pass.policy.minAge ≤ pass.freeTime - image.2.firstDetected

def removedSize (pass : Pass Err) (images : List EvictionInfo) : Int64 :=
  ((images.filter fun image ↦ (pass.removeImage image.1).isNone).map (·.2.size)).sum

/-- The size of the images that are removed, without a bound. -/
def trueSize (pass : Pass Err) (images : List EvictionInfo) : ℤ :=
  ((images.filter fun image ↦ (pass.removeImage image.1).isNone).map (·.2.size.toInt)).sum

/-- A scan that has freed `start` bytes goes on and tries to remove the images `tried`. -/
structure Scan (pass : Pass Err) (order : List EvictionInfo) (start : Int64)
    (tried : List EvictionInfo) (total : Int64) : Prop where
  candidate : tried <+: pass.candidates order
  total_eq : total = start + pass.removedSize tried
  complete : tried = pass.candidates order ∨ tried ≠ [] ∧ pass.bytesToFree ≤ total
  below : start < pass.bytesToFree → ∀ before image after, tried = before ++ image :: after →
    start + pass.removedSize before < pass.bytesToFree

variable {pass : Pass Err} {image : EvictionInfo} {images order tried : List EvictionInfo}
  {start next total : Int64}

theorem candidates_eq_nil
    (hsorted : (image :: images).Pairwise fun first second ↦ ¬ less second first)
    (hused : pass.freeTime ≤ image.2.lastUsed) : pass.candidates (image :: images) = [] := by
  rw [candidates, List.filter_eq_nil_iff]
  intro other hother
  have hle : image.2.lastUsed ≤ other.2.lastUsed := by
    rcases List.mem_cons.mp hother with rfl | hmem
    · exact le_rfl
    · have hless := List.rel_of_pairwise_cons hsorted hmem
      rw [less] at hless
      split_ifs at hless with heq
      · exact heq.ge
      · exact not_lt.mp hless
  simp [(hused.trans hle).not_gt]

theorem removedSize_cons (pass : Pass Err) (image : EvictionInfo) (images : List EvictionInfo) :
    pass.removedSize (image :: images) = pass.removedSize [image] + pass.removedSize images := by
  unfold removedSize
  cases h : (pass.removeImage image.1).isNone with
  | true => simp [h]
  | false => simp [h]

theorem Scan.nil (hnil : pass.candidates order = []) : pass.Scan order start [] start :=
  ⟨List.nil_prefix, by simp [removedSize], .inl hnil.symm, by simp⟩

theorem Scan.cons (hscan : pass.Scan images next tried total)
    (hnext : next = start + pass.removedSize [image])
    (hcandidates : pass.candidates (image :: images) = image :: pass.candidates images)
    (hbelow : start < pass.bytesToFree → next < pass.bytesToFree) :
    pass.Scan (image :: images) start (image :: tried) total := by
  refine ⟨?_, ?_, ?_, ?_⟩
  · rw [hcandidates]
    exact (List.prefix_cons_inj image).mpr hscan.candidate
  · rw [hscan.total_eq, hnext, removedSize_cons _ image tried, add_assoc]
  · rw [hcandidates]
    exact hscan.complete.imp (congrArg _) fun h ↦ ⟨List.cons_ne_nil _ _, h.2⟩
  · intro hstart before other after htried
    cases before with
    | nil => simpa [removedSize] using hstart
    | cons first before =>
      obtain ⟨rfl, hrest⟩ := List.cons.inj htried
      rw [removedSize_cons, ← add_assoc, ← hnext]
      exact hscan.below (hbelow hstart) before other after hrest

theorem deleteImages_scan (hsorted : order.Pairwise fun first second ↦ ¬ less second first)
    (freed : Freed Err) :
    ∃ tried, (pass.deleteImages order freed).attempted = freed.attempted ++ tried ∧
      pass.Scan order freed.spaceFreed tried (pass.deleteImages order freed).spaceFreed := by
  induction order generalizing freed with
  | nil => exact ⟨[], (List.append_nil _).symm, .nil rfl⟩
  | cons image images ih =>
    rw [deleteImages]
    split_ifs with hused hyoung
    · exact ⟨[], (List.append_nil _).symm, .nil (candidates_eq_nil hsorted hused)⟩
    · obtain ⟨tried, hattempted, hscan⟩ := ih hsorted.of_cons freed
      have hskip : pass.candidates (image :: images) = pass.candidates images :=
        List.filter_cons_of_neg (by simp [hyoung])
      exact ⟨tried, hattempted, hskip ▸ hscan.candidate, hscan.total_eq, hskip ▸ hscan.complete,
        hscan.below⟩
    · have hcandidates : pass.candidates (image :: images) = image :: pass.candidates images :=
        List.filter_cons_of_pos (by simp [not_le.mp hused, not_lt.mp hyoung])
      cases hrem : pass.removeImage image.1 with
      | some err =>
        obtain ⟨tried, hattempted, hscan⟩ := ih hsorted.of_cons { freed with
          attempted := freed.attempted ++ [image]
          deletionErrors := freed.deletionErrors ++ [err] }
        exact ⟨image :: tried, by simpa using hattempted,
          hscan.cons (by simp [removedSize, hrem]) hcandidates id⟩
      | none =>
        have hsize : pass.removedSize [image] = image.2.size := by
          simp [removedSize, hrem]
        dsimp only
        split_ifs with henough
        · refine ⟨[image], rfl, ?_, by rw [hsize], .inr ⟨by simp, henough⟩, ?_⟩
          · simp [hcandidates]
          · intro hstart before other after htried
            cases before with
            | nil => simpa [removedSize] using hstart
            | cons first before => simp at htried
        · obtain ⟨tried, hattempted, hscan⟩ := ih hsorted.of_cons { freed with
            attempted := freed.attempted ++ [image]
            imageRecords := freed.imageRecords.erase image.1
            spaceFreed := freed.spaceFreed + image.2.size }
          exact ⟨image :: tried, by simpa using hattempted,
            hscan.cons (by rw [hsize]) hcandidates fun _ ↦ Int64.not_le.mp henough⟩

end Pass

/-- The bytes that `GarbageCollect` frees, if it frees any.  It fails without a capacity. -/
def amountToFree (policy : ImageGCPolicy) (capacity available : Int64) : Option Int64 :=
  let available := if capacity < available then capacity else available
  if capacity ≠ 0 ∧ policy.highThresholdPercent ≤ 100 - available * 100 / capacity then
    some (capacity * (100 - policy.lowThresholdPercent) / 100 - available)
  else none

/-! ## A pass -/

/-- A pass with a clock that does not go back, any sorting of the images that are detected, and
sizes whose sum fits an `Int64`. -/
structure Collection (Err : Type) extends Pass Err where
  imageRecords : Map String ImageRecord
  images : List Image
  pods : List (List String)
  now : ℤ
  order : List EvictionInfo
  clock : freeTime ≤ now
  listing : Map.IsListing order (detected freeTime now pods.flatten images imageRecords)
  sorted : order.Pairwise fun first second ↦ ¬ less second first
  sizes : ∀ image ∈ order, 0 ≤ image.2.size.toInt
  total : (order.map (·.2.size.toInt)).sum < 2 ^ 63

namespace Collection

def Eligible (c : Collection Err) (image : EvictionInfo) : Prop :=
  image ∈ c.order ∧ image.1 ∉ c.pods.flatten ∧ c.policy.minAge ≤ c.freeTime - image.2.firstDetected

/-- Only eligible images are tried, in their order, none once enough is freed, and all of them if
enough is not freed. -/
structure JustEnough (c : Collection Err) (freed : Freed Err) : Prop where
  eligible : ∀ image ∈ freed.attempted, c.Eligible image
  ordered : freed.attempted.Pairwise fun first second ↦ ¬ less second first
  enough : ∀ before image after, freed.attempted = before ++ image :: after →
    c.trueSize before < c.bytesToFree.toInt
  exhaustive : c.trueSize freed.attempted < c.bytesToFree.toInt → ∀ image, c.Eligible image →
    image ∈ freed.attempted
  reported : freed.spaceFreed.toInt = c.trueSize freed.attempted

def Correct (c : Collection Err) : Prop :=
  ∃ freed, c.freeSpace (.ok c.images) (.ok c.pods) c.imageRecords c.now c.order = .ok freed ∧
    c.JustEnough freed

variable (c : Collection Err)

theorem eligible_of_mem_candidates {image : EvictionInfo} (h : image ∈ c.candidates c.order) :
    c.Eligible image := by
  obtain ⟨hmem, hcandidate⟩ := mem_filter.mp h
  obtain ⟨hunused, hold⟩ := of_decide_eq_true hcandidate
  refine ⟨hmem, fun hused ↦ ?_, hold⟩
  have hnow := lastUsed_detected hused ((c.listing.2 image.1 image.2).mp hmem)
  exact absurd c.clock (hnow ▸ hunused).not_ge

/-- The sizes add up without an overflow. -/
theorem toInt_sum {sizes : List Int64} (hnonneg : ∀ size ∈ sizes, 0 ≤ size.toInt)
    (hfits : (sizes.map Int64.toInt).sum < 2 ^ 63) :
    sizes.sum.toInt = (sizes.map Int64.toInt).sum := by
  induction sizes with
  | nil => rfl
  | cons size sizes ih =>
    obtain ⟨hsize, hsizes⟩ := List.forall_mem_cons.mp hnonneg
    have hrest : 0 ≤ (sizes.map Int64.toInt).sum := List.sum_nonneg (by simpa using hsizes)
    rw [List.map_cons, List.sum_cons] at hfits ⊢
    rw [List.sum_cons, Int64.toInt_add, ih hsizes (by omega)]
    exact Int.bmod_eq_of_le (by omega) (by omega)

theorem toInt_removedSize {tried : List EvictionInfo} (htried : tried <+: c.candidates c.order) :
    (c.removedSize tried).toInt = c.trueSize tried := by
  have hsub : (tried.filter fun image ↦ (c.removeImage image.1).isNone).Sublist c.order :=
    List.filter_sublist.trans (htried.sublist.trans List.filter_sublist)
  rw [Pass.removedSize, toInt_sum, List.map_map]
  · rfl
  · exact List.forall_mem_map.mpr fun image hmem ↦ c.sizes image (hsub.subset hmem)
  · rw [List.map_map]
    refine ((hsub.map _).sum_le_sum ?_).trans_lt c.total
    exact List.forall_mem_map.mpr c.sizes

/-- The scan of the pass in true amounts. -/
structure Scanned (freed : Freed Err) : Prop where
  candidate : freed.attempted <+: c.candidates c.order
  reported : freed.spaceFreed.toInt = c.trueSize freed.attempted
  complete : freed.attempted = c.candidates c.order ∨
    freed.attempted ≠ [] ∧ c.bytesToFree.toInt ≤ c.trueSize freed.attempted
  below : 0 < c.bytesToFree → ∀ before image after, freed.attempted = before ++ image :: after →
    c.trueSize before < c.bytesToFree.toInt

theorem exists_scanned : ∃ freed, c.Scanned freed ∧ (c.Correct ↔ c.JustEnough freed) := by
  let freed : Freed Err := c.deleteImages c.order
    ⟨detected c.freeTime c.now c.pods.flatten c.images c.imageRecords, [], 0, []⟩
  obtain ⟨tried, hattempted, hscan⟩ := c.deleteImages_scan c.sorted
    ⟨detected c.freeTime c.now c.pods.flatten c.images c.imageRecords, [], 0, []⟩
  obtain rfl : freed.attempted = tried := hattempted
  have hreported : freed.spaceFreed.toInt = c.trueSize freed.attempted := by
    rw [← c.toInt_removedSize hscan.candidate, ← zero_add (c.removedSize _)]
    exact congrArg Int64.toInt hscan.total_eq
  refine ⟨freed, ⟨hscan.candidate, hreported, ?_, fun hpos before image after heq ↦ ?_⟩, ?_, ?_⟩
  · rw [← hreported, ← Int64.le_iff_toInt_le]
    exact hscan.complete
  · have hlt := hscan.below hpos before image after heq
    rwa [zero_add, Int64.lt_iff_toInt_lt,
      c.toInt_removedSize (.trans ⟨_, heq.symm⟩ hscan.candidate)] at hlt
  · rintro ⟨_, ⟨⟩, h⟩
    exact h
  · exact fun h ↦ ⟨_, rfl, h⟩

section

variable {c} {freed : Freed Err} (hscan : c.Scanned freed)

include hscan

theorem Scanned.justEnough_iff_of_pos (hpos : 0 < c.bytesToFree) : c.JustEnough freed ↔
    (∀ image, c.Eligible image → image.2.lastUsed < c.freeTime) ∨
      ∃ tried, tried <+: c.candidates c.order ∧ c.bytesToFree.toInt ≤ c.trueSize tried := by
  constructor
  · intro h
    by_cases hless : c.trueSize freed.attempted < c.bytesToFree.toInt
    · left
      intro image heligible
      have hmem := hscan.candidate.subset (h.exhaustive hless image heligible)
      exact (of_decide_eq_true (mem_filter.mp hmem).2).1
    · exact .inr ⟨_, hscan.candidate, not_lt.mp hless⟩
  · intro h
    refine ⟨fun image hmem ↦ c.eligible_of_mem_candidates (hscan.candidate.subset hmem),
      c.sorted.sublist (hscan.candidate.sublist.trans List.filter_sublist), hscan.below hpos, ?_,
      hscan.reported⟩
    intro hless image heligible
    have hall := hscan.complete.resolve_right fun hstop ↦ hless.not_ge hstop.2
    rcases h with hearlier | ⟨tried, ⟨rest, hrest⟩, henough⟩
    · rw [hall]
      exact mem_filter.mpr ⟨heligible.1, decide_eq_true ⟨hearlier image heligible, heligible.2.2⟩⟩
    · -- The scan has passed the end of `tried` with less than the amount.
      rw [← hall] at hrest
      refine absurd henough (not_le.mpr ?_)
      cases rest with
      | nil => rwa [← List.append_nil tried, hrest]
      | cons next after => exact hscan.below hpos tried next after hrest.symm

theorem Scanned.justEnough_iff_of_not_pos (hpos : ¬ 0 < c.bytesToFree) :
    c.JustEnough freed ↔ c.candidates c.order = [] := by
  rw [Int64.lt_iff_toInt_lt] at hpos
  constructor
  · intro h
    have hnone : freed.attempted = [] := by
      cases htried : freed.attempted with
      | nil => rfl
      | cons first rest => exact absurd (h.enough [] first rest htried) hpos
    exact (hscan.complete.resolve_right fun hstop ↦ hstop.1 hnone).symm.trans hnone
  · intro hnil
    have hnone : freed.attempted = [] := List.prefix_nil.mp (hnil ▸ hscan.candidate)
    refine ⟨by simp [hnone], by simp [hnone], by simp [hnone], fun hless ↦ ?_, hscan.reported⟩
    rw [hnone] at hless
    exact absurd hless hpos

end

/-- The pass is right if there is something to free and the images last used before it suffice, or
if there is nothing to free and nothing that could be removed. -/
theorem justEnough_iff : c.Correct ↔
    if 0 < c.bytesToFree then
      (∀ image, c.Eligible image → image.2.lastUsed < c.freeTime) ∨
        ∃ tried, tried <+: c.candidates c.order ∧ c.bytesToFree.toInt ≤ c.trueSize tried
    else c.candidates c.order = [] := by
  obtain ⟨freed, hscan, hcorrect⟩ := c.exists_scanned
  rw [hcorrect]
  split_ifs with hpos
  · exact hscan.justEnough_iff_of_pos hpos
  · exact hscan.justEnough_iff_of_not_pos hpos

def unused : Collection Unit where
  policy := ⟨85, 85, 0⟩
  freeTime := 1
  bytesToFree := 0
  removeImage _ := none
  imageRecords := ∅
  images := [⟨"image", 1⟩]
  pods := []
  now := 1
  order := [("image", ⟨1, 0, 1⟩)]
  clock := le_rfl
  listing := by
    refine ⟨by simp, fun key value ↦ ?_⟩
    simp [detected, Map.lookup_comprehend, detectImage, Map.lookup_insert, eq_comm]
  sorted := by simp
  sizes := by decide
  total := by decide

theorem unused_removed :
    amountToFree unused.policy 100 15 = some unused.bytesToFree ∧ ¬ unused.Correct := by
  refine ⟨by decide, ?_⟩
  rintro ⟨freed, ⟨⟩, h⟩
  exact absurd (h.enough [] _ [] rfl) (by decide)

end Collection

end Kubernetes.Kubelet.Images

import Kubernetes.Basic.Replica
import Kubernetes.Basic.Transition
import Kubernetes.Kubelet.PodStorage

/-!
# The stream of pod updates is complete

A consumer of the updates keeps its own pods by source and full name, and is strict about what it
should lack or hold.  The five lists of a merge are one batch of changes to different names, each of
which fits the stored pods before the merge and carries the stored pod after it.  So the consumer
accepts every batch and holds the stored pods after each merge.
-/

namespace Kubernetes.Kubelet.PodConfig

open Finmap Function List Replica Transition

variable {Spec Status Meta : Type}

abbrev Consumer (Spec Status Meta : Type) := String → Pods Spec Status Meta

/-- What an update asks of the consumer.  A `SET` is not part of an incremental stream. -/
def PodUpdate.changes (update : PodUpdate Spec Status Meta) :
    Option (List (Change String (Pod Spec Status Meta))) :=
  match update.op with
  | .add => some (update.pods.map fun pod ↦ .insert (getPodFullName pod) pod)
  | .update | .reconcile | .delete =>
    some (update.pods.map fun pod ↦ .replace (getPodFullName pod) pod)
  | .remove => some (update.pods.map fun pod ↦ .remove (getPodFullName pod))
  | .set => none

def Consumer.consume (consumer : Consumer Spec Status Meta) (update : PodUpdate Spec Status Meta) :
    Option (Consumer Spec Status Meta) := do
  let changes ← update.changes
  let held ← applyAll (consumer update.source) changes
  some (Function.update consumer update.source held)

def Consumer.consumeAll (consumer : Consumer Spec Status Meta)
    (updates : List (PodUpdate Spec Status Meta)) : Option (Consumer Spec Status Meta) :=
  updates.foldlM Consumer.consume consumer

def Merging.changes (merging : Merging Spec Status Meta) :
    List (Change String (Pod Spec Status Meta)) :=
  merging.removePods.map (fun pod ↦ .remove (getPodFullName pod)) ++
    merging.addPods.map (fun pod ↦ .insert (getPodFullName pod) pod) ++
    merging.updatePods.map (fun pod ↦ .replace (getPodFullName pod) pod) ++
    merging.deletePods.map (fun pod ↦ .replace (getPodFullName pod) pod) ++
    merging.reconcilePods.map (fun pod ↦ .replace (getPodFullName pod) pod)

open Consumer (consumeAll)

open Change (key)

/-- Every pod is stored under its full name. -/
def Keyed (pods : Pods Spec Status Meta) : Prop :=
  ∀ name pod, Finmap.lookup name pods = some pod → getPodFullName pod = name

variable {pods old : Pods Spec Status Meta} {name : String}

theorem Keyed.insert (hkeyed : Keyed pods) {pod : Pod Spec Status Meta}
    (hname : getPodFullName pod = name) : Keyed (Finmap.insert name pod pods) :=
  Map.forall_lookup_insert hkeyed hname

/-! ## One pod of a batch -/

section

variable (merging : Merging Spec Status Meta) (existing : Pod Spec Status Meta) (needs : Needs)

theorem Merging.list_pods : (merging.list existing needs).pods = merging.pods := by
  unfold Merging.list
  split_ifs <;> rfl

theorem Merging.list_changes :
    (needs = {} ∧ (merging.list existing needs).changes = merging.changes) ∨
      (merging.list existing needs).changes.Perm
        (.replace (getPodFullName existing) existing :: merging.changes) := by
  unfold Merging.list
  split_ifs with hupd hreconcile hdelete
  case neg =>
    cases needs
    simp_all
  all_goals
    right
    simp only [Merging.changes, map_append, map_cons, map_nil, ← append_assoc]
  · exact ((perm_append_singleton _ _).append_right _).append_right _
  · exact perm_append_singleton _ _
  · exact (perm_append_singleton _ _).append_right _

end

section Comparison

variable [DecidableEq Spec] [DecidableEq Status]

theorem getPodFullName_checkAndUpdatePod (existing ref : Pod Spec Status Meta) :
    getPodFullName (checkAndUpdatePod existing ref).1 = getPodFullName existing := by
  unfold checkAndUpdatePod
  split_ifs <;> rfl

theorem checkAndUpdatePod_eq_self {existing ref : Pod Spec Status Meta}
    (hneeds : (checkAndUpdatePod existing ref).2 = {}) :
    (checkAndUpdatePod existing ref).1 = existing := by
  unfold checkAndUpdatePod at *
  split_ifs at *
  · cases hneeds
  · rfl
  · cases hneeds
  · cases hneeds

/-- One pod of a batch is written under its name, and unless the cache had that very pod, one change
that fits the cache is listed. -/
theorem updatePod_cases (source : String) (timestamp : String → String)
    (oldPods : Option (Pods Spec Status Meta)) (merging : Merging Spec Status Meta)
    (ref : Pod Spec Status Meta) (hkeyed : Keyed (oldPods.getD merging.pods)) :
    ∃ pod, getPodFullName pod = getPodFullName ref ∧
      (updatePod source timestamp oldPods merging ref).pods =
        Finmap.insert (getPodFullName ref) pod merging.pods ∧
      (((oldPods.getD merging.pods).lookup (getPodFullName ref) = some pod ∧
          (updatePod source timestamp oldPods merging ref).changes = merging.changes) ∨
        ∃ change : Change String (Pod Spec Status Meta), change.key = getPodFullName ref ∧
          change.value = some pod ∧ change.Fits (oldPods.getD merging.pods) ∧
          (updatePod source timestamp oldPods merging ref).changes.Perm
            (change :: merging.changes)) := by
  unfold updatePod
  cases hcache : (oldPods.getD merging.pods).lookup (getPodFullName ref) with
  | some existing =>
    set checked := checkAndUpdatePod existing (annotateSource source ref) with hchecked
    have hname : getPodFullName checked.1 = getPodFullName ref :=
      (getPodFullName_checkAndUpdatePod existing _).trans (hkeyed _ _ hcache)
    refine ⟨checked.1, hname, Merging.list_pods _ _ _, ?_⟩
    rcases Merging.list_changes { merging with
      pods := merging.pods.insert (getPodFullName ref) checked.1 } checked.1 checked.2 with
        ⟨hneeds, hsame⟩ | hlist
    · left
      exact ⟨congrArg some (checkAndUpdatePod_eq_self hneeds).symm, hsame⟩
    · right
      refine ⟨.replace (getPodFullName checked.1) checked.1, hname, rfl, ?_, hlist⟩
      rw [hname]
      exact Option.isSome_iff_exists.mpr ⟨existing, hcache⟩
  | none =>
    refine ⟨recordFirstSeenTime (timestamp (getPodFullName ref)) (annotateSource source ref),
      rfl, rfl, .inr ⟨.insert (getPodFullName ref) _, rfl, rfl, hcache, ?_⟩⟩
    simp only [Merging.changes, map_append, map_cons, map_nil, ← append_assoc]
    exact (((perm_append_singleton _ _).append_right _).append_right _).append_right _

end Comparison

/-! ## The loops of a merge -/

/-- The changes listed so far lead from the old pods to the new ones, where the old pods stand in
for the names not visited yet. -/
structure Tracks (old : Pods Spec Status Meta) (merging : Merging Spec Status Meta) : Prop where
  leads : Leads old (merging.pods ∪ old) merging.changes
  keyed : Keyed merging.pods
  written : ∀ change ∈ merging.changes, change.key ∈ merging.pods

/-- The cache that a loop reads: the old pods, or the new ones if they started as a copy. -/
def Reads (old : Pods Spec Status Meta) (oldPods : Option (Pods Spec Status Meta))
    (merging : Merging Spec Status Meta) : Prop :=
  oldPods = some old ∨ oldPods = none ∧ merging.pods ∪ old = merging.pods

variable {oldPods : Option (Pods Spec Status Meta)}

variable {merging : Merging Spec Status Meta}

theorem Tracks.start (hkeyed : Keyed pods) (hunion : pods ∪ old = old) :
    Tracks old { pods := pods } where
  leads := hunion.symm ▸ Leads.nil old
  keyed := hkeyed
  written _ hmem := absurd hmem not_mem_nil

variable (isValid : Pod Spec Status Meta → Bool)

theorem nodup_filterPod (pod : Pod Spec Status Meta)
    {filtered : List (Pod Spec Status Meta) × Finset String}
    (hnodup : (filtered.1.map getPodFullName).Nodup)
    (hnames : ∀ name ∈ filtered.1.map getPodFullName, name ∈ filtered.2) :
    ((filterPod isValid filtered pod).1.map getPodFullName).Nodup ∧
      ∀ name ∈ (filterPod isValid filtered pod).1.map getPodFullName,
        name ∈ (filterPod isValid filtered pod).2 := by
  unfold filterPod
  split_ifs with hinvalid hduplicate
  · exact ⟨hnodup, hnames⟩
  · exact ⟨hnodup, hnames⟩
  · rw [map_append, map_cons]
    constructor
    · apply nodup_append.mpr
      refine ⟨hnodup, nodup_singleton _, ?_⟩
      intro name hname other hother hsame
      rw [List.mem_singleton.mp hother] at hsame
      exact hduplicate (hnames _ (hsame ▸ hname))
    · intro name hname
      rw [Finset.mem_insert]
      rcases mem_append.mp hname with hold | hnew
      · exact .inr (hnames name hold)
      · exact .inl (List.mem_singleton.mp hnew)

theorem nodup_filterInvalidPods (pods : List (Pod Spec Status Meta)) :
    ((filterInvalidPods isValid pods).map getPodFullName).Nodup := by
  suffices hloop : ∀ filtered : List (Pod Spec Status Meta) × Finset String,
      (filtered.1.map getPodFullName).Nodup →
      (∀ name ∈ filtered.1.map getPodFullName, name ∈ filtered.2) →
      ((pods.foldl (filterPod isValid) filtered).1.map getPodFullName).Nodup by
    exact hloop ([], ∅) nodup_nil fun _ hname ↦ absurd hname not_mem_nil
  induction pods with
  | nil =>
    intro filtered hnodup _
    exact hnodup
  | cons pod pods ih =>
    intro filtered hnodup hnames
    have hstep := nodup_filterPod isValid pod hnodup hnames
    exact ih _ hstep.1 hstep.2

/-- A removal lists the pod it deletes.  The names listed are gone from the new pods, so none is
listed twice. -/
theorem removePod_leads (pod : Pod Spec Status Meta)
    (hleads : Leads old merging.pods merging.changes) (hkeyed : Keyed merging.pods)
    (hgone : ∀ change ∈ merging.changes, change.value = none) :
    Leads old (removePod merging pod).pods (removePod merging pod).changes ∧
      Keyed (removePod merging pod).pods ∧
      ∀ change ∈ (removePod merging pod).changes, change.value = none := by
  unfold removePod
  cases hget : merging.pods.lookup (getPodFullName pod) with
  | none => exact ⟨hleads, hkeyed, hgone⟩
  | some existing =>
    have hname : getPodFullName existing = getPodFullName pod := hkeyed _ _ hget
    have hfresh : getPodFullName pod ∉ merging.changes.map key := by
      intro hmem
      obtain ⟨change, hchange, hkey⟩ := mem_map.mp hmem
      have hvalue := hleads.value change hchange
      rw [hkey, hgone change hchange] at hvalue
      cases hvalue.symm.trans hget
    have hperm : { merging with
        removePods := merging.removePods ++ [existing] }.changes.Perm
          (.remove (getPodFullName pod) :: merging.changes) := by
      simp only [Merging.changes, map_append, map_cons, map_nil, hname]
      simp
    refine ⟨?_, ?_, ?_⟩
    · have hcons : Leads old ((Change.remove (getPodFullName pod)).write merging.pods)
          (.remove (getPodFullName pod) :: merging.changes) := by
        apply hleads.cons
        · exact hfresh
        · -- the name is untouched so far, so it is one of the old pods
          exact Option.isSome_iff_exists.mpr
            ⟨existing, (hleads.frame _ hfresh).symm.trans hget⟩
      exact hcons.perm hperm
    · exact Map.forall_lookup_erase hkeyed
    · intro change hmem
      rcases mem_cons.mp (hperm.mem_iff.mp hmem) with hnew | hold
      · rw [hnew]
        rfl
      · exact hgone change hold

theorem foldl_removePod_leads (pods : List (Pod Spec Status Meta))
    (hleads : Leads old merging.pods merging.changes) (hkeyed : Keyed merging.pods)
    (hgone : ∀ change ∈ merging.changes, change.value = none) :
    Leads old (pods.foldl removePod merging).pods (pods.foldl removePod merging).changes ∧
      Keyed (pods.foldl removePod merging).pods := by
  induction pods generalizing merging with
  | nil => exact ⟨hleads, hkeyed⟩
  | cons pod pods ih =>
    obtain ⟨hleads', hkeyed', hgone'⟩ := removePod_leads pod hleads hkeyed hgone
    exact ih hleads' hkeyed' hgone'

/-- The loop over a batch removes nothing: what it lists, it has written. -/
theorem Tracks.removePods_eq_nil (htracks : Tracks old merging) : merging.removePods = [] := by
  apply eq_nil_iff_forall_not_mem.mpr
  intro pod hpod
  have hmem : (.remove (getPodFullName pod) : Change String (Pod Spec Status Meta)) ∈
      merging.changes := by
    simp only [Merging.changes, append_assoc]
    exact mem_append_left _ (mem_map_of_mem hpod)
  have hvalue := htracks.leads.value _ hmem
  rw [lookup_union_left (htracks.written _ hmem)] at hvalue
  exact lookup_eq_none.mp hvalue (htracks.written _ hmem)

theorem map_remove_filterMap (hkeyed : Keyed old) (names : List String)
    (hold : ∀ name ∈ names, name ∈ old) :
    (names.filterMap old.lookup).map
        (fun pod ↦ (.remove (getPodFullName pod) : Change String (Pod Spec Status Meta))) =
      names.map .remove := by
  induction names with
  | nil => rfl
  | cons name names ih =>
    obtain ⟨pod, hpod⟩ := mem_iff.mp (hold name mem_cons_self)
    have hrest := ih fun other hmem ↦ hold other (mem_cons_of_mem _ hmem)
    rw [filterMap_cons_some (f := (old.lookup ·)) hpod, map_cons, map_cons,
      hkeyed name pod hpod, hrest]

theorem Tracks.removeStale (htracks : Tracks old merging) (hkeyed : Keyed old) {order : List String}
    (horder : Map.IsOrder order old) :
    Leads old (removeStale order old merging).pods (removeStale order old merging).changes := by
  set stale := order.filter fun name ↦ name ∉ merging.pods with hstale
  have hmemStale (name : String) : name ∈ stale ↔ name ∈ old ∧ name ∉ merging.pods := by
    rw [hstale, mem_filter, horder.2 name, decide_eq_true_eq]
  have hchanges : (PodConfig.removeStale order old merging).changes =
      stale.map .remove ++ merging.changes := by
    have hnames := map_remove_filterMap hkeyed stale fun name hmem ↦ ((hmemStale name).mp hmem).1
    simp only [Merging.changes, PodConfig.removeStale, htracks.removePods_eq_nil, nil_append, ← hstale,
      hnames, map_nil, append_assoc]
  have hkeys : (stale.map (.remove : String → Change String (Pod Spec Status Meta))).map
      key = stale := by
    rw [map_map]
    exact map_id stale
  rw [hchanges]
  change Leads old merging.pods _
  constructor
  · rw [map_append, hkeys]
    apply nodup_append.mpr
    refine ⟨horder.1.filter _, htracks.leads.nodup, ?_⟩
    intro name hname other hother hsame
    obtain ⟨change, hmem, hkey⟩ := mem_map.mp hother
    apply ((hmemStale name).mp hname).2
    rw [hsame, ← hkey]
    exact htracks.written change hmem
  · intro change hmem
    rcases mem_append.mp hmem with hrem | hlist
    · obtain ⟨name, hname, hchange⟩ := mem_map.mp hrem
      rw [← hchange]
      exact lookup_isSome.mpr ((hmemStale name).mp hname).1
    · exact htracks.leads.fits change hlist
  · intro change hmem
    rcases mem_append.mp hmem with hrem | hlist
    · obtain ⟨name, hname, hchange⟩ := mem_map.mp hrem
      rw [← hchange]
      exact lookup_eq_none.mpr ((hmemStale name).mp hname).2
    · rw [← lookup_union_left (htracks.written change hlist)]
      exact htracks.leads.value change hlist
  · intro name hname
    rw [map_append, hkeys, mem_append, not_or, hmemStale name] at hname
    by_cases hnew : name ∈ merging.pods
    · rw [← lookup_union_left hnew]
      exact htracks.leads.frame name hname.2
    · have hgone : name ∉ old := fun hold ↦ hname.1 ⟨hold, hnew⟩
      rw [lookup_eq_none.mpr hnew, lookup_eq_none.mpr hgone]

section Batches

variable [DecidableEq Spec] [DecidableEq Status]

variable {oldPods : Option (Pods Spec Status Meta)}

variable (source : String) (timestamp : String → String)

theorem Tracks.updatePod {old : Pods Spec Status Meta} (ref : Pod Spec Status Meta)
    (htracks : Tracks old merging) (hkeyed : Keyed old) (hreads : Reads old oldPods merging)
    (hfresh : getPodFullName ref ∉ merging.changes.map key) :
    Tracks old (updatePod source timestamp oldPods merging ref) ∧
      Reads old oldPods (PodConfig.updatePod source timestamp oldPods merging ref) ∧
      ∀ name ∈ (PodConfig.updatePod source timestamp oldPods merging ref).changes.map key,
        name = getPodFullName ref ∨ name ∈ merging.changes.map key := by
  obtain ⟨hcache, hget⟩ : Keyed (oldPods.getD merging.pods) ∧
      (oldPods.getD merging.pods).lookup (getPodFullName ref) = old.lookup (getPodFullName ref) := by
    rcases hreads with hsep | ⟨hsame, hcovers⟩
    · rw [hsep]
      exact ⟨hkeyed, rfl⟩
    · rw [hsame, Option.getD_none, ← htracks.leads.frame _ hfresh, hcovers]
      exact ⟨htracks.keyed, rfl⟩
  obtain ⟨pod, hname, hpods, hchanges⟩ := updatePod_cases source timestamp oldPods merging ref hcache
  set next := PodConfig.updatePod source timestamp oldPods merging ref
  have hunion : next.pods ∪ old = Finmap.insert (getPodFullName ref) pod (merging.pods ∪ old) := by
    rw [hpods, insert_union]
  have hkeyedNext : Keyed next.pods := by
    rw [hpods]
    exact htracks.keyed.insert hname
  have hreadsNext : Reads old oldPods next := by
    rcases hreads with hsep | ⟨hsame, hcovers⟩
    · exact .inl hsep
    · exact .inr ⟨hsame, by rw [hunion, hcovers, hpods]⟩
  have hkept : ∀ change ∈ merging.changes, change.key ∈ next.pods := by
    intro change hmem
    rw [hpods, mem_insert]
    exact .inr (htracks.written change hmem)
  rcases hchanges with ⟨hfound, hsame⟩ | ⟨change, hkey, hvalue, hfits, hperm⟩
  · -- the pod is the old one, so writing it changes nothing
    have hunchanged : next.pods ∪ old = merging.pods ∪ old := by
      apply ext_lookup
      intro name
      rw [hunion, Map.lookup_insert]
      split_ifs with hvisited
      · rw [hvisited, htracks.leads.frame _ hfresh, ← hget, hfound]
      · rfl
    refine ⟨⟨?_, hkeyedNext, ?_⟩, hreadsNext, ?_⟩
    · rw [hunchanged, hsame]
      exact htracks.leads
    · rw [hsame]
      exact hkept
    · intro name hmem
      exact .inr (hsame ▸ hmem)
  · have hwrite : next.pods ∪ old = change.write (merging.pods ∪ old) := by
      apply ext_lookup
      intro name
      rw [hunion, Map.lookup_insert, Change.lookup_write, hkey, hvalue]
    refine ⟨⟨?_, hkeyedNext, ?_⟩, hreadsNext, ?_⟩
    · rw [hwrite]
      refine Leads.perm (htracks.leads.cons ?_ ?_) hperm
      · exact hkey ▸ hfresh
      · exact hfits.congr (hkey ▸ hget.symm)
    · intro other hmem
      rcases mem_cons.mp (hperm.mem_iff.mp hmem) with hnew | hold
      · rw [hnew, hkey, hpods, mem_insert]
        exact .inl rfl
      · exact hkept other hold
    · intro name hmem
      rw [(hperm.map key).mem_iff, map_cons, mem_cons, hkey] at hmem
      exact hmem

theorem Tracks.foldl_updatePod {old : Pods Spec Status Meta} (hkeyed : Keyed old)
    (refs : List (Pod Spec Status Meta)) (hnodup : (refs.map getPodFullName).Nodup)
    (htracks : Tracks old merging) (hreads : Reads old oldPods merging)
    (hfresh : ∀ ref ∈ refs, getPodFullName ref ∉ merging.changes.map key) :
    Tracks old (refs.foldl (PodConfig.updatePod source timestamp oldPods) merging) ∧
      Reads old oldPods (refs.foldl (PodConfig.updatePod source timestamp oldPods) merging) := by
  induction refs generalizing merging with
  | nil => exact ⟨htracks, hreads⟩
  | cons ref refs ih =>
    obtain ⟨hnew, hnodup⟩ := nodup_cons.mp hnodup
    obtain ⟨htracks', hreads', hkeys⟩ := htracks.updatePod source timestamp ref hkeyed hreads
      (hfresh ref mem_cons_self)
    apply ih hnodup htracks' hreads'
    intro other hmem hkey
    rcases hkeys _ hkey with hsame | hold
    · exact hnew (hsame ▸ mem_map_of_mem hmem)
    · exact hfresh other (mem_cons_of_mem _ hmem) hold

end Batches

variable {call : MergeCall Spec Status Meta} {storage : PodStorage Spec Status Meta}

namespace PodStorage

variable [DecidableEq Spec] [DecidableEq Status]

def Ordered (storage : PodStorage Spec Status Meta) (call : MergeCall Spec Status Meta) : Prop :=
  call.change.op = .set → Map.IsOrder call.order (storage.pods call.source)

theorem updatePodsFunc_tracks {old : Pods Spec Status Meta}
    {oldPods : Option (Pods Spec Status Meta)} (source : String) (timestamp : String → String)
    (newPods : List (Pod Spec Status Meta)) (hkeyed : Keyed old) {pods : Pods Spec Status Meta}
    (hpods : Keyed pods) (hunion : pods ∪ old = old) (hreads : Reads old oldPods { pods := pods }) :
    Tracks old (updatePodsFunc isValid source timestamp newPods oldPods { pods := pods }) ∧
      Reads old oldPods
        (updatePodsFunc isValid source timestamp newPods oldPods { pods := pods }) := by
  apply Tracks.foldl_updatePod source timestamp hkeyed
  · exact nodup_filterInvalidPods isValid newPods
  · exact Tracks.start hpods hunion
  · exact hreads
  · intro ref _
    exact not_mem_nil

theorem merging_leads (decoding : Decoding Spec Status Meta)
    (hkeyed : Keyed (storage.pods call.source)) (horder : storage.Ordered call) :
    Leads (storage.pods call.source) (storage.merging decoding call).pods
        (storage.merging decoding call).changes ∧
      Keyed (storage.merging decoding call).pods := by
  set old := storage.pods call.source with hold
  have hself : old ∪ old = old := by
    apply ext_lookup
    intro name
    by_cases hname : name ∈ old
    · exact lookup_union_left hname
    · exact lookup_union_right hname
  have hbatch := updatePodsFunc_tracks decoding.isValid call.source call.timestamp
    (incoming decoding call) hkeyed hkeyed hself (.inr ⟨rfl, hself⟩)
  have hadded : Leads old (updatePodsFunc decoding.isValid call.source call.timestamp
      (incoming decoding call) none { pods := old }).pods
      (updatePodsFunc decoding.isValid call.source call.timestamp
      (incoming decoding call) none { pods := old }).changes := by
    rcases hbatch.2 with hsep | ⟨_, hcovers⟩
    · cases hsep
    · exact hcovers ▸ hbatch.1.leads
  unfold PodStorage.merging
  cases hop : call.change.op with
  | add | update | delete => exact ⟨hadded, hbatch.1.keyed⟩
  | remove =>
    apply foldl_removePod_leads
    · exact Leads.nil old
    · exact hkeyed
    · intro change hmem
      exact absurd hmem not_mem_nil
  | set =>
    have hset := (updatePodsFunc_tracks decoding.isValid call.source call.timestamp
      (incoming decoding call) hkeyed (fun name pod hpod ↦ by cases hpod) empty_union
      (.inl rfl)).1
    exact ⟨hset.removeStale hkeyed (horder hop), hset.keyed⟩
  | reconcile => exact ⟨Leads.nil old, hkeyed⟩

end PodStorage

/-! ## Sending the changes -/

/-- The updates ask a consumer for these changes to the pods of one source. -/
def Sends (source : String) (updates : List (PodUpdate Spec Status Meta))
    (changes : List (Change String (Pod Spec Status Meta))) : Prop :=
  ∀ (consumer : Consumer Spec Status Meta) (held : Pods Spec Status Meta),
    applyAll (consumer source) changes = some held →
      consumer.consumeAll updates = some (Function.update consumer source held)

theorem Sends.nil (source : String) : Sends source ([] : List (PodUpdate Spec Status Meta)) [] := by
  intro consumer held hheld
  have hsame : consumer source = held := Option.some.inj hheld
  rw [← hsame, update_eq_self]
  rfl

variable {changes : List (Change String (Pod Spec Status Meta))}

theorem Sends.append {source : String} {updates updates' : List (PodUpdate Spec Status Meta)}
    {changes' : List (Change String (Pod Spec Status Meta))} (hsends : Sends source updates changes)
    (hsends' : Sends source updates' changes') :
    Sends source (updates ++ updates') (changes ++ changes') := by
  intro consumer held hheld
  rw [applyAll, foldlM_append] at hheld
  obtain ⟨middle, hmiddle, hrest⟩ := Option.bind_eq_some_iff.mp hheld
  have hnext := hsends' (Function.update consumer source middle) held
    (by rw [update_self]; exact hrest)
  calc consumer.consumeAll (updates ++ updates')
      = (consumer.consumeAll updates).bind (consumeAll · updates') :=
        foldlM_append
    _ = consumeAll (Function.update consumer source middle) updates' := by
        rw [hsends consumer middle hmiddle, Option.bind_some]
    _ = some (Function.update consumer source held) := by
        rw [hnext, update_idem]

section

variable (update : PodUpdate Spec Status Meta) (hchanges : update.changes = some changes)

include hchanges

theorem Sends.single : Sends update.source [update] changes := by
  intro consumer held hheld
  simp [consumeAll, Consumer.consume, hchanges, hheld]

/-- An update without pods asks for nothing, so it need not be sent. -/
theorem Sends.sent (hlen : changes.length = update.pods.length) :
    Sends update.source (PodStorage.sent update) changes := by
  unfold PodStorage.sent
  split_ifs with hpods
  · exact Sends.single update hchanges
  · have hempty : changes = [] := eq_nil_of_length_eq_zero (by omega)
    rw [hempty]
    exact Sends.nil update.source

end

theorem PodStorage.mem_sent {update other : PodUpdate Spec Status Meta}
    (hmem : update ∈ PodStorage.sent other) : update = other := by
  unfold PodStorage.sent at hmem
  split_ifs at hmem
  · exact List.mem_singleton.mp hmem
  · cases hmem

variable {decoding : Decoding Spec Status Meta}

namespace PodStorage

variable [DecidableEq Spec] [DecidableEq Status]

section

variable (decoding : Decoding Spec Status Meta) (storage : PodStorage Spec Status Meta)
  (call : MergeCall Spec Status Meta)

theorem emitted_sends :
    Sends call.source (storage.emitted decoding call) (storage.merging decoding call).changes := by
  set found := storage.merging decoding call with hfound
  have hremoves := Sends.sent ⟨found.removePods, .remove, call.source⟩ rfl (length_map _)
  have hadds := Sends.sent ⟨found.addPods, .add, call.source⟩ rfl (length_map _)
  have hupdates := Sends.sent ⟨found.updatePods, .update, call.source⟩ rfl (length_map _)
  have hdeletes := Sends.sent ⟨found.deletePods, .delete, call.source⟩ rfl (length_map _)
  have hreconciles := Sends.sent ⟨found.reconcilePods, .reconcile, call.source⟩ rfl
    (length_map _)
  have hlists := ((hremoves.append hadds).append hupdates).append hdeletes
  unfold emitted
  apply Sends.append _ hreconciles
  split_ifs with hready
  · -- the empty update for a source seen for the first time
    have hnone : found.addPods = [] := eq_nil_of_length_eq_zero hready.2.1
    have hnothing : (⟨found.addPods, .add, call.source⟩ : PodUpdate Spec Status Meta).changes =
        some [] := by
      simp [PodUpdate.changes, hnone]
    have hempty : Sends call.source [⟨found.addPods, .add, call.source⟩] [] :=
      Sends.single _ hnothing
    have hall := hlists.append hempty
    rw [append_nil] at hall
    exact hall
  · rw [append_nil]
    exact hlists

theorem emitted_names :
    ((storage.emitted decoding call).flatMap fun update ↦ update.pods.map getPodFullName) =
      (storage.merging decoding call).changes.map key := by
  have hsent (update : PodUpdate Spec Status Meta) :
      ((sent update).flatMap fun update ↦ update.pods.map getPodFullName) =
        update.pods.map getPodFullName := by
    unfold sent
    split_ifs with hpods
    · simp
    · simp [eq_nil_of_length_eq_zero (Nat.eq_zero_of_not_pos hpods)]
  unfold emitted
  simp only [flatMap_append, hsent, Merging.changes, map_append, map_map]
  split_ifs with hready
  · simp [eq_nil_of_length_eq_zero hready.2.1, key, comp_def]
  · simp [key, comp_def]

end

theorem mem_emitted {update : PodUpdate Spec Status Meta}
    (hmem : update ∈ storage.emitted decoding call) :
    update.source = call.source ∧ ∃ changes, update.changes = some changes ∧
      changes ⊆ (storage.merging decoding call).changes := by
  unfold emitted at hmem
  simp only [mem_append] at hmem
  rcases hmem with ((((hsent | hsent) | hsent) | hsent) | hready) | hsent
  case inl.inr =>
    split_ifs at hready
    · rw [List.mem_singleton.mp hready]
      refine ⟨rfl, _, rfl, ?_⟩
      intro change hchange
      simp only [Merging.changes, mem_append, hchange, or_true, true_or]
    · cases hready
  all_goals
    rw [mem_sent hsent]
    refine ⟨rfl, _, rfl, ?_⟩
    intro change hchange
    simp only [Merging.changes, mem_append, hchange, or_true, true_or]

end PodStorage

/-! ## Whole runs -/

structure Stream (Spec Status Meta : Type) where
  storage : PodStorage Spec Status Meta
  updates : List (PodUpdate Spec Status Meta)

variable {stream : Stream Spec Status Meta}

namespace Stream

variable [DecidableEq Spec] [DecidableEq Status]

def start : Stream Spec Status Meta := ⟨PodStorage.empty, []⟩

def next (decoding : Decoding Spec Status Meta) (stream : Stream Spec Status Meta)
    (call : MergeCall Spec Status Meta) : Stream Spec Status Meta :=
  ⟨stream.storage.merged decoding call, stream.updates ++ stream.storage.emitted decoding call⟩

inductive Step (decoding : Decoding Spec Status Meta) :
    Stream Spec Status Meta → MergeCall Spec Status Meta → Stream Spec Status Meta → Prop
  | merge (stream : Stream Spec Status Meta) (call : MergeCall Spec Status Meta) :
      stream.storage.Ordered call → Step decoding stream call (stream.next decoding call)

structure Followed (stream : Stream Spec Status Meta) : Prop where
  consumed : consumeAll (fun _ ↦ ∅) stream.updates = some stream.storage.pods
  keyed : ∀ source, Keyed (stream.storage.pods source)

theorem Followed.next (hfollowed : stream.Followed) (horder : stream.storage.Ordered call) :
    (stream.next decoding call).Followed := by
  have hmerging := PodStorage.merging_leads decoding (hfollowed.keyed call.source) horder
  constructor
  · have hsends := PodStorage.emitted_sends decoding stream.storage call stream.storage.pods _
      hmerging.1.applyAll_eq
    calc consumeAll (fun _ ↦ ∅) (stream.next decoding call).updates
        = (consumeAll (fun _ ↦ ∅) stream.updates).bind
            (consumeAll · (stream.storage.emitted decoding call)) :=
          foldlM_append
      _ = consumeAll stream.storage.pods (stream.storage.emitted decoding call) := by
          rw [hfollowed.consumed, Option.bind_some]
      _ = some (stream.next decoding call).storage.pods := hsends
  · intro source
    by_cases hsource : source = call.source
    · rw [hsource]
      change Keyed (Function.update stream.storage.pods call.source _ call.source)
      rw [update_self]
      exact hmerging.2
    · change Keyed (Function.update stream.storage.pods call.source _ source)
      rw [update_of_ne hsource]
      exact hfollowed.keyed source

/-- After any calls of `Merge` a consumer that started empty has accepted every update and holds the
stored pods.  A further call sends every pod at most once, and adds and removes only pods that the
consumer lacks and holds. -/
theorem config_stream_complete (decoding : Decoding Spec Status Meta)
    {stream : Stream Spec Status Meta} (hreach : Reachable (· = start) (Step decoding) stream) :
    ∃ consumer, consumeAll (fun _ ↦ ∅) stream.updates = some consumer ∧
      consumer = stream.storage.pods ∧
      ∀ call, stream.storage.Ordered call →
        ((stream.storage.emitted decoding call).flatMap fun update ↦
            update.pods.map getPodFullName).Nodup ∧
          ∀ update ∈ stream.storage.emitted decoding call, update.source = call.source ∧
            ∀ pod ∈ update.pods,
              (update.op = .add → getPodFullName pod ∉ consumer update.source) ∧
              (update.op = .remove → getPodFullName pod ∈ consumer update.source) := by
  have hfollowed : stream.Followed := by
    apply hreach.invariant
    · intro stream hstart
      rw [hstart]
      constructor
      · rfl
      · intro source name pod hpod
        cases hpod
    · intro stream call target _ hfollowed hstep
      cases hstep with
      | merge horder => exact hfollowed.next horder
  refine ⟨_, hfollowed.consumed, rfl, ?_⟩
  intro call horder
  have hleads := (PodStorage.merging_leads decoding (hfollowed.keyed call.source) horder).1
  constructor
  · rw [PodStorage.emitted_names]
    exact hleads.nodup
  · intro update hmem
    obtain ⟨hsource, changes, hchanges, hsubset⟩ := PodStorage.mem_emitted hmem
    refine ⟨hsource, ?_⟩
    intro pod hpod
    constructor
    · intro hop
      simp only [PodUpdate.changes, hop, Option.some.injEq] at hchanges
      have hfits := hleads.fits (.insert (getPodFullName pod) pod)
        (hsubset (hchanges ▸ mem_map_of_mem hpod))
      rw [hsource]
      exact lookup_eq_none.mp hfits
    · intro hop
      simp only [PodUpdate.changes, hop, Option.some.injEq] at hchanges
      have hfits := hleads.fits (.remove (getPodFullName pod))
        (hsubset (hchanges ▸ mem_map_of_mem hpod))
      rw [hsource]
      exact lookup_isSome.mp hfits

def exampleDecoding : Decoding ℕ ℕ Unit where
  setInitContainersAndStatuses pod := pod
  isValid pod := decide (pod.spec ≠ 0)

def exampleCall (op : PodOperation) (pods : List (String × ℕ × ℕ)) : MergeCall ℕ ℕ Unit where
  source := "file"
  change := ⟨pods.map fun pod ↦ ⟨pod.1, "default", ∅, none, none, none, pod.2.1, pod.2.2, ()⟩,
    op, "file"⟩
  timestamp _ := "now"
  order := []

def exampleStream : Stream ℕ ℕ Unit :=
  (start.next exampleDecoding
      (exampleCall .set [("web", 1, 0), ("web", 2, 0), ("db", 0, 0)])).next exampleDecoding
    (exampleCall .update [("web", 1, 7)])

theorem web_followed :
    ∃ consumer, consumeAll (fun _ ↦ ∅) exampleStream.updates = some consumer ∧
      (Finmap.lookup "web_default" (consumer "file")).map (fun pod ↦ (pod.spec, pod.status)) =
        some (1, 7) ∧
      "db_default" ∉ consumer "file" := by
  have hset : Reachable (· = start) (Step exampleDecoding) (start.next exampleDecoding
      (exampleCall .set [("web", 1, 0), ("web", 2, 0), ("db", 0, 0)])) :=
    .next (.start rfl) (.merge _ _ fun _ ↦ ⟨nodup_nil, fun name ↦
      iff_of_false not_mem_nil (notMem_empty)⟩)
  have hupd : Reachable (· = start) (Step exampleDecoding) exampleStream :=
    .next hset (.merge _ _ fun hop ↦ by cases hop)
  obtain ⟨consumer, hconsumed, hpods, _⟩ := config_stream_complete exampleDecoding hupd
  refine ⟨consumer, hconsumed, ?_⟩
  rw [hpods]
  decide +kernel

end Stream

end Kubernetes.Kubelet.PodConfig

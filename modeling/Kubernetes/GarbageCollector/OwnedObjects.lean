import Kubernetes.GarbageCollector.NodeIdentities
import Kubernetes.GarbageCollector.ProcessItem

/-!
# Objects with an owner are kept

A worker deletes an object after it found that none of the owners it had read exists.  UIDs are not
given twice, so the deletion is right if clients keep to two rules: a reference names an object that
exists or has existed, as the dependent's namespace resolves it, and an object that a worker has
read gets no new owner before the worker is done.

Without the first rule one wrong reference makes the cache report an owner as absent to everybody
else.  Without the second the deletion removes an object that just got an owner: its precondition is
the UID, and not the version.
-/

namespace Kubernetes.GarbageCollector

open List Option Finmap

variable {Resource Worker : Type}

/-- The node a worker is busy with and the owner references it has read. -/
def Phase.reading : Phase → Option (Pointer × List OwnerReference)
  | .idle => none
  | .checking item ownerReferences _ => some (item, ownerReferences)
  | .looking item ownerReferences _ _ => some (item, ownerReferences)

/-- The references that the worker has not found to be absent. -/
def Phase.unchecked : Phase → List OwnerReference
  | .idle => []
  | .checking _ _ remaining => remaining
  | .looking _ _ reference remaining => reference :: remaining

variable [DecidableEq Resource] (restMapping : String → String → Option Resource)

section

variable (c : Cluster Resource Worker)

/-- The reference names an object that exists or has existed. -/
def Cluster.Genuine (ref : ObjectReference) : Prop :=
  ∃ key, keyOf restMapping ref = some key ∧ lookup ref.uid c.born = some key

def Orderly : Op Resource Worker → Prop
  | .create key object => ∀ ref ∈ object.ownerReferences, c.Genuine restMapping ⟨ref, key.ns⟩
  | .update key ownerReferences =>
    (∀ ref ∈ ownerReferences, c.Genuine restMapping ⟨ref, key.ns⟩) ∧
      ∀ worker item read object, (c.phase worker).reading = some (item, read) →
        lookup key c.objects = some object → object.uid = (c.identity item).uid →
        uids ownerReferences ⊆ uids read
  | _ => True

/-- An object with the UID has existed, and does not exist any more. -/
def Cluster.Dead (uid : UID) : Prop :=
  lookup uid c.born ≠ none ∧ ¬ c.Alive uid

end

/-- Every version of every object has the owner that was born under its key. -/
structure Cluster.Stored (c : Cluster Resource Worker) : Prop where
  versions : ∀ key object, lookup key c.objects = some object → (key, object) ∈ c.versions
  born : ∀ key object, (key, object) ∈ c.versions → lookup object.uid c.born = some key
  genuine : ∀ key object, (key, object) ∈ c.versions →
    ∀ ref ∈ object.ownerReferences, c.Genuine restMapping ⟨ref, key.ns⟩

/-- The graph has the identities of objects, and only dead objects are taken for absent. -/
structure Cluster.Observed (c : Cluster Resource Worker) : Prop where
  propagator : c.propagator.Identified (c.Genuine restMapping)
  cache : ∀ uid ∈ c.propagator.absentOwnerCache.entries, c.Dead uid
  eventQueue : ∀ event ∈ c.eventQueue, event.eventType = .deleteEvent ∧ c.Dead event.obj.uid

/-- The object of the node, as it is now, has no owners beyond the given ones. -/
def Cluster.Covers (c : Cluster Resource Worker) (item : Pointer) (read : List OwnerReference) :
    Prop :=
  ∀ key object, lookup key c.objects = some object → object.uid = (c.identity item).uid →
    uids object.ownerReferences ⊆ uids read

structure Cluster.Knows (c : Cluster Resource Worker) (phase : Phase) (item : Pointer)
    (read : List OwnerReference) : Prop where
  lt : item < c.propagator.next
  genuine : ∀ ref ∈ read, c.Genuine restMapping ⟨ref, (c.identity item).ns⟩
  unchecked : phase.unchecked ⊆ read
  dead : ∀ ref ∈ read, ref ∈ phase.unchecked ∨ c.Dead ref.uid
  covers : c.Covers item read

structure Sound (c : Cluster Resource Worker) : Prop where
  stored : c.Stored restMapping
  observed : c.Observed restMapping
  knows : ∀ worker item read, (c.phase worker).reading = some (item, read) →
    c.Knows restMapping (c.phase worker) item read

variable {restMapping} {c d : Cluster Resource Worker} {uid : UID} {key : Key Resource}

theorem sound_new : Sound restMapping (.new : Cluster Resource Worker) where
  stored := ⟨fun key object hget ↦ by simp [Cluster.new] at hget,
    fun _ _ hmem ↦ absurd hmem not_mem_nil, fun _ _ hmem ↦ absurd hmem not_mem_nil⟩
  observed := ⟨Propagator.identified_new, fun _ hmem ↦ absurd hmem not_mem_nil,
    fun _ hmem ↦ absurd hmem not_mem_nil⟩
  knows _ _ _ hreading := nomatch hreading

variable {ref : ObjectReference}

omit [DecidableEq Resource] in
theorem Cluster.Genuine.ns_eq {other : ObjectReference} (href : c.Genuine restMapping ref)
    (hother : c.Genuine restMapping other) (huid : ref.uid = other.uid) : ref.ns = other.ns := by
  obtain ⟨key, hkey, hborn⟩ := href
  obtain ⟨otherKey, hotherKey, hotherBorn⟩ := hother
  rw [huid, hotherBorn] at hborn
  cases hborn
  obtain ⟨_, -, rfl⟩ := map_eq_some_iff.mp hkey
  obtain ⟨_, -, hsame⟩ := map_eq_some_iff.mp hotherKey
  exact (congrArg Key.ns hsame).symm

theorem Cluster.Stored.dead_of_absent (hstored : c.Stored restMapping)
    (hgenuine : c.Genuine restMapping ref) (hkey : keyOf restMapping ref = some key)
    (habsent : ∀ object, c.objects.lookup key = some object → object.uid ≠ ref.uid) :
    c.Dead ref.uid := by
  obtain ⟨bornKey, hbornKey, hborn⟩ := hgenuine
  rw [hkey] at hbornKey
  cases hbornKey
  refine ⟨by simp [hborn], ?_⟩
  rintro ⟨aliveKey, object, hget, huid⟩
  have halive : c.born.lookup object.uid = some aliveKey :=
    hstored.born aliveKey object (hstored.versions aliveKey object hget)
  rw [huid, hborn] at halive
  cases halive
  exact habsent object hget huid

/-! ## What every step keeps -/

/-- Nothing that was born is forgotten, and nothing dead comes back. -/
structure Persists (c d : Cluster Resource Worker) : Prop where
  born : ∀ uid key, lookup uid c.born = some key → lookup uid d.born = some key
  alive : ∀ uid, d.Alive uid → lookup uid c.born = none ∨ c.Alive uid
  propagator : c.propagator.Extends d.propagator

theorem Persists.genuine (hpersists : Persists c d) (hgenuine : c.Genuine restMapping ref) :
    d.Genuine restMapping ref :=
  hgenuine.imp fun key hkey ↦ ⟨hkey.1, hpersists.born _ key hkey.2⟩

theorem Persists.dead (hpersists : Persists c d) (hdead : c.Dead uid) : d.Dead uid := by
  constructor
  · obtain ⟨key, hkey⟩ := ne_none_iff_exists'.mp hdead.1
    rw [hpersists.born uid key hkey]
    exact some_ne_none key
  · exact fun halive ↦ (hpersists.alive uid halive).elim hdead.1 hdead.2

variable {phase : Phase} {read : List OwnerReference}

theorem Persists.knows (hpersists : Persists c d) {item : Pointer}
    (hknows : c.Knows restMapping phase item read) (hcovers : d.Covers item read) :
    d.Knows restMapping phase item read where
  lt := hknows.lt.trans_le hpersists.propagator.next_le
  genuine ref href := by
    have hid : d.identity item = c.identity item :=
      hpersists.propagator.identity item hknows.lt
    rw [hid]
    exact hpersists.genuine (hknows.genuine ref href)
  unchecked := hknows.unchecked
  dead ref href := (hknows.dead ref href).imp_right hpersists.dead
  covers := hcovers

def Shrinks (c d : Cluster Resource Worker) : Prop :=
  ∀ key object, lookup key d.objects = some object →
    lookup key c.objects = some object

theorem Shrinks.persists (hshrinks : Shrinks c d) (hborn : d.born = c.born)
    (hpropagator : c.propagator.Extends d.propagator) : Persists c d where
  born uid key hkey := hborn.symm ▸ hkey
  alive uid halive := by
    obtain ⟨key, object, hget, huid⟩ := halive
    exact .inr ⟨key, object, hshrinks key object hget, huid⟩
  propagator := hpropagator

theorem Shrinks.covers (hshrinks : Shrinks c d) {item : Pointer}
    (hid : d.identity item = c.identity item) (hcovers : c.Covers item read) :
    d.Covers item read := by
  intro key object hget huid
  rw [hid] at huid
  exact hcovers key object (hshrinks key object hget) huid

theorem Shrinks.stored (hshrinks : Shrinks c d) (hborn : d.born = c.born)
    (hversions : d.versions = c.versions) (hstored : c.Stored restMapping) :
    d.Stored restMapping where
  versions key object hget := hversions ▸ hstored.versions key object (hshrinks key object hget)
  born key object hmem := hborn ▸ hstored.born key object (hversions ▸ hmem)
  genuine key object hmem ref href := by
    obtain ⟨owner, howner, hownerBorn⟩ := hstored.genuine key object (hversions ▸ hmem) ref href
    exact ⟨owner, howner, hborn ▸ hownerBorn⟩

/-- A step that writes no object keeps everything, if it does so for the graph, the cache, the queue
and the workers that move. -/
theorem Sound.of_shrinks (hsound : Sound restMapping c) (hshrinks : Shrinks c d)
    (hborn : d.born = c.born) (hversions : d.versions = c.versions)
    (hpropagator : c.propagator.Extends d.propagator)
    (hidentified : d.propagator.Identified (c.Genuine restMapping))
    (hcache : ∀ uid ∈ d.propagator.absentOwnerCache.entries, c.Dead uid)
    (hqueue : ∀ event ∈ d.eventQueue, event.eventType = .deleteEvent ∧ c.Dead event.obj.uid)
    (hphase : ∀ worker item read, (d.phase worker).reading = some (item, read) →
      c.Knows restMapping (d.phase worker) item read) : Sound restMapping d := by
  have hpersists : Persists c d := hshrinks.persists hborn hpropagator
  refine ⟨hshrinks.stored hborn hversions hsound.stored, ⟨?_, ?_, ?_⟩, ?_⟩
  · exact hidentified.mono fun ref ↦ hpersists.genuine
  · exact fun uid huid ↦ hpersists.dead (hcache uid huid)
  · exact fun event hevent ↦ (hqueue event hevent).imp_right hpersists.dead
  · intro worker item read hreading
    have hknows := hphase worker item read hreading
    exact hpersists.knows hknows
      (hshrinks.covers (hpropagator.identity item hknows.lt) hknows.covers)

/-! ## Clients -/

variable {object : Object}

theorem lookup_store (other : Key Resource) :
    (c.store key object).objects.lookup other =
      if other = key then some object else c.objects.lookup other :=
  Map.lookup_insert ..

section

variable (hsound : Sound restMapping c)

include hsound

/-- A version is stored.  It is the first one of its UID, or the object had the UID before. -/
theorem Sound.write {born : Map UID (Key Resource)}
    (hborn : ∀ uid key, c.born.lookup uid = some key → born.lookup uid = some key)
    (hobj : born.lookup object.uid = some key)
    (hgenuine : ∀ ref ∈ object.ownerReferences, c.Genuine restMapping ⟨ref, key.ns⟩)
    (halive : c.born.lookup object.uid = none ∨ c.Alive object.uid)
    (hcovers : ∀ worker item read, (c.phase worker).reading = some (item, read) →
      object.uid = (c.identity item).uid → uids object.ownerReferences ⊆ uids read) :
    Sound restMapping { c.store key object with born := born } := by
  have hpersists : Persists c { c.store key object with born := born } := by
    refine ⟨hborn, ?_, .refl _⟩
    rintro uid ⟨other, stored, hget, rfl⟩
    rw [lookup_store] at hget
    split_ifs at hget
    · cases hget
      exact halive
    · exact .inr ⟨other, stored, hget, rfl⟩
  refine ⟨⟨?_, ?_, ?_⟩, ⟨?_, ?_, ?_⟩, ?_⟩
  · intro other stored hget
    rw [lookup_store] at hget
    split_ifs at hget with hother
    · cases hget
      rw [hother]
      exact mem_cons_self
    · exact mem_cons_of_mem _ (hsound.stored.versions other stored hget)
  · intro other stored hmem
    rcases mem_cons.mp hmem with hnew | hold
    · cases hnew
      exact hobj
    · exact hborn _ _ (hsound.stored.born other stored hold)
  · intro other stored hmem ref href
    apply hpersists.genuine
    rcases mem_cons.mp hmem with hnew | hold
    · cases hnew
      exact hgenuine ref href
    · exact hsound.stored.genuine other stored hold ref href
  · exact hsound.observed.propagator.mono fun ref ↦ hpersists.genuine
  · exact fun uid huid ↦ hpersists.dead (hsound.observed.cache uid huid)
  · exact fun event hevent ↦ (hsound.observed.eventQueue event hevent).imp_right hpersists.dead
  · intro worker item read hreading
    have hknows := hsound.knows worker item read hreading
    apply hpersists.knows hknows
    intro other stored hget huid
    rw [lookup_store] at hget
    split_ifs at hget
    · cases hget
      exact hcovers worker item read hreading huid
    · exact hknows.covers other stored hget huid

theorem Sound.create (hfresh : c.born.lookup object.uid = none)
    (hgenuine : ∀ ref ∈ object.ownerReferences, c.Genuine restMapping ⟨ref, key.ns⟩) :
    Sound restMapping (c.createObject key object) := by
  apply hsound.write _ _ hgenuine (.inl hfresh)
  · -- the node that a worker is busy with has the UID of an object that was born
    intro worker item read hreading huid
    obtain ⟨key, -, hborn⟩ :=
      hsound.observed.propagator.identity item (hsound.knows worker item read hreading).lt
    cases hborn.symm.trans (huid ▸ hfresh)
  · intro uid other hother
    rw [Map.lookup_insert, if_neg]
    · exact hother
    · rintro rfl
      rw [hfresh] at hother
      cases hother
  · rw [Map.lookup_insert, if_pos rfl]

theorem Sound.update {ownerReferences : List OwnerReference}
    (hobj : c.objects.lookup key = some object)
    (hord : Orderly restMapping c (.update key ownerReferences)) :
    Sound restMapping (c.store key { object with ownerReferences := ownerReferences }) :=
  hsound.write (fun _ _ hborn ↦ hborn)
    (hsound.stored.born key object (hsound.stored.versions key object hobj)) hord.1
    (.inr ⟨key, object, hobj, rfl⟩)
    fun worker item read hreading huid ↦ hord.2 worker item read object hreading hobj huid

theorem Sound.observe {event : Event} {propagator : Propagator}
    (hstep : c.propagator.Step event propagator) (hwrite : event.eventType ≠ .deleteEvent →
      c.Genuine restMapping event.obj.toObjectReference ∧
        ∀ ref ∈ event.obj.ownerReferences, c.Genuine restMapping ⟨ref, event.obj.ns⟩)
    (hdelete : event.eventType = .deleteEvent → c.Dead event.obj.uid) :
    Sound restMapping { c with propagator := propagator } := by
  have hgraph := hsound.observed.propagator
  obtain ⟨hextends, hidentified, hcache⟩ := hgraph.step hstep (fun h ↦ (hwrite h).1)
    (fun h ↦ (hwrite h).2) fun h n hn ↦
      (hgraph.identity n (hgraph.wellFormed.lt _ n hn)).ns_eq (hwrite h).1
        (hgraph.wellFormed.uid _ n hn)
  refine hsound.of_shrinks (fun _ _ hget ↦ hget) rfl rfl hextends hidentified ?_
    hsound.observed.eventQueue hsound.knows
  intro uid huid
  rcases hcache uid huid with ⟨htype, rfl⟩ | hold
  · exact hdelete htype
  · exact hsound.observed.cache uid hold

end

theorem Cluster.Stored.genuine_meta (hstored : c.Stored restMapping)
    {version : Key Resource × Object} {obj : ObjectMeta} (hver : version ∈ c.versions)
    (hmeta : IsMetaOf restMapping version obj) :
    c.Genuine restMapping obj.toObjectReference ∧
      ∀ ref ∈ obj.ownerReferences, c.Genuine restMapping ⟨ref, obj.ns⟩ := by
  refine ⟨⟨version.1, hmeta.key, ?_⟩, fun ref href ↦ ?_⟩
  · rw [hmeta.uid]
    exact hstored.born version.1 version.2 hver
  · have hns : obj.ns = version.1.ns := by
      obtain ⟨_, -, hkey⟩ := map_eq_some_iff.mp hmeta.key
      exact congrArg Key.ns hkey
    rw [hns]
    exact hstored.genuine version.1 version.2 hver ref (hmeta.ownerReferences ▸ href)

/-! ## Workers -/

variable {worker : Worker} {item : Pointer} {ownerReferences remaining : List OwnerReference}
  {reference : OwnerReference}

theorem Sound.gone (hsound : Sound restMapping c) (hitem : item < c.propagator.next)
    (hkey : keyOf restMapping (c.identity item) = some key)
    (habsent : ∀ object, c.objects.lookup key = some object → object.uid ≠ (c.identity item).uid) :
    Sound restMapping
      { c with eventQueue := c.eventQueue ++ [virtualDeleteEvent (c.identity item)] } := by
  refine hsound.of_shrinks (fun _ _ hget ↦ hget) rfl rfl (.refl _)
    hsound.observed.propagator hsound.observed.cache ?_ hsound.knows
  intro event hevent
  rcases mem_append.mp hevent with hold | hnew
  · exact hsound.observed.eventQueue event hold
  · rw [mem_singleton.mp hnew]
    exact ⟨rfl, hsound.stored.dead_of_absent (hsound.observed.propagator.identity item hitem)
      hkey habsent⟩

theorem Cluster.Knows.next (hknows : c.Knows restMapping phase item ownerReferences)
    (hunchecked : phase.unchecked = reference :: remaining) (hdead : c.Dead reference.uid) :
    c.Knows restMapping (.checking item ownerReferences remaining) item ownerReferences where
  lt := hknows.lt
  genuine := hknows.genuine
  unchecked ref href := hknows.unchecked (hunchecked ▸ mem_cons_of_mem _ href)
  dead ref href := by
    rcases hknows.dead ref href with hmem | hold
    · rw [hunchecked] at hmem
      rcases mem_cons.mp hmem with rfl | hrest
      · exact .inr hdead
      · exact .inl hrest
    · exact .inr hold
  covers := hknows.covers

theorem Sound.erase (hsound : Sound restMapping c) (key : Key Resource) :
    Sound restMapping { c with objects := erase key c.objects } :=
  hsound.of_shrinks (Map.forall_lookup_erase fun _ _ ↦ id) rfl rfl (.refl _)
    hsound.observed.propagator hsound.observed.cache hsound.observed.eventQueue hsound.knows

theorem Sound.deletesOrphansOnly (hsound : Sound restMapping c) :
    c.DeletesOrphansOnly restMapping := by
  intro worker item read key object hphase _ hget huid reference href
  have hknows := hsound.knows worker item read (by rw [hphase]; rfl)
  rw [hphase] at hknows
  have hmem : reference.uid ∈ uids read :=
    hknows.covers key object hget huid (Propagator.mem_uids.mpr ⟨reference, href, rfl⟩)
  obtain ⟨other, hother, hsame⟩ := Propagator.mem_uids.mp hmem
  have hdead : c.Dead other.uid := (hknows.dead other hother).resolve_left not_mem_nil
  exact hsame ▸ hdead.2

variable [DecidableEq Worker]

section

variable (hsound : Sound restMapping c)

include hsound

section

variable {cache : UIDCache} (hcache : ∀ uid ∈ cache.entries, c.Dead uid)
  (hphase : ∀ item read, phase.reading = some (item, read) → c.Knows restMapping phase item read)

include hphase

include hcache in
theorem Sound.enter :
    Sound restMapping ((c.setCache cache).enter worker phase) := by
  have hgraph := hsound.observed.propagator
  refine hsound.of_shrinks (fun _ _ hget ↦ hget) rfl rfl ⟨le_rfl, fun _ _ ↦ rfl⟩
    ⟨hgraph.identity, { hgraph.wellFormed with }, hgraph.dependents,
      hgraph.dirtyQueue⟩ hcache hsound.observed.eventQueue ?_
  intro other item read hreading
  by_cases hother : other = worker
  · rw [hother, Cluster.enter_phase_self] at hreading ⊢
    exact hphase item read hreading
  · rw [Cluster.enter_phase_of_ne hother] at hreading ⊢
    exact hsound.knows other item read hreading

theorem Sound.enterPhase : Sound restMapping (c.enter worker phase) :=
  hsound.enter hsound.observed.cache hphase

end

theorem Sound.idle : Sound restMapping (c.enter worker .idle) :=
  hsound.enterPhase fun _ _ hreading ↦ nomatch hreading

theorem Sound.getItem (hdirty : item ∈ c.propagator.dirtyQueue)
    (hkey : keyOf restMapping (c.identity item) = some key) :
    Sound restMapping (c.getItem worker item key) := by
  have hitem : item < c.propagator.next := hsound.observed.propagator.dirtyQueue item hdirty
  unfold Cluster.getItem
  cases hget : c.objects.lookup key with
  | none =>
    apply hsound.gone hitem hkey
    intro object hobj
    rw [hget] at hobj
    cases hobj
  | some latest =>
    dsimp only
    split_ifs with huid hnone
    · apply hsound.gone hitem hkey
      intro object hobj
      rw [hget] at hobj
      cases hobj
      exact huid
    · exact hsound
    · apply hsound.enterPhase
      intro other read hreading
      cases hreading
      have hver := hsound.stored.versions key latest hget
      have hborn := hsound.stored.born key latest hver
      refine ⟨hitem, fun ref href ↦ ?_, fun _ href ↦ href, fun _ href ↦ .inl href, ?_⟩
      · obtain ⟨_, -, hns⟩ := map_eq_some_iff.mp hkey
        have hitemNs : (c.identity item).ns = key.ns := congrArg Key.ns hns
        rw [hitemNs]
        exact hsound.stored.genuine key latest hver ref href
      -- The UID tells the key, so the object is the one that was read.
      · intro other object hobj hobjectUid
        have hotherBorn :=
          hsound.stored.born other object (hsound.stored.versions other object hobj)
        rw [hobjectUid, ← not_not.mp huid, hborn] at hotherBorn
        cases hotherBorn
        rw [hget] at hobj
        cases hobj
        exact Finset.Subset.refl _

theorem Sound.checkCache
    (hphase : c.phase worker = .checking item ownerReferences (reference :: remaining)) :
    Sound restMapping (c.checkCache worker item ownerReferences reference remaining) := by
  have hknows := hsound.knows worker item ownerReferences (by rw [hphase]; rfl)
  rw [hphase] at hknows
  apply hsound.enter
  · exact fun uid huid ↦ hsound.observed.cache uid (UIDCache.mem_has huid)
  · intro other read hreading
    split_ifs at hreading ⊢ with habsent
    · cases hreading
      exact hknows.next rfl (hsound.observed.cache _ (UIDCache.has_eq_true.mp habsent))
    · cases hreading
      exact { hknows with }

theorem Sound.getOwner
    (hphase : c.phase worker = .looking item ownerReferences reference remaining)
    (hkey : keyOf restMapping ⟨reference, (c.identity item).ns⟩ = some key) :
    Sound restMapping (c.getOwner worker item ownerReferences reference remaining key) := by
  have hknows := hsound.knows worker item ownerReferences (by rw [hphase]; rfl)
  rw [hphase] at hknows
  have hmem : reference ∈ ownerReferences := hknows.unchecked mem_cons_self
  have habsent (hnot : ∀ object, c.objects.lookup key = some object →
      object.uid ≠ reference.uid) :
      Sound restMapping ((c.setCache (c.propagator.absentOwnerCache.add reference.uid)).enter worker
        (.checking item ownerReferences remaining)) := by
    have hdead : c.Dead reference.uid :=
      hsound.stored.dead_of_absent (hknows.genuine reference hmem) hkey hnot
    apply hsound.enter
    · intro uid huid
      rcases UIDCache.mem_add huid with rfl | hold
      · exact hdead
      · exact hsound.observed.cache uid hold
    · intro other read hreading
      cases hreading
      exact hknows.next rfl hdead
  unfold Cluster.getOwner
  cases hget : c.objects.lookup key with
  | none =>
    apply habsent
    intro object hobj
    rw [hget] at hobj
    cases hobj
  | some owner =>
    dsimp only
    split_ifs with huid
    · apply habsent
      intro object hobj
      rw [hget] at hobj
      cases hobj
      exact huid
    · exact hsound.idle

theorem Sound.deleteObject : Sound restMapping (c.deleteObject worker item key) := by
  unfold Cluster.deleteObject
  split
  · exact hsound.idle
  · split_ifs
    · exact (hsound.erase key).idle
    · exact hsound.idle

theorem Sound.step {op : Op Resource Worker} (hord : Orderly restMapping c op)
    (hstep : Step restMapping c op d) : Sound restMapping d := by
  cases hstep with
  | create key object _ hfresh => exact hsound.create hfresh hord
  | update key object ownerReferences hobj => exact hsound.update hobj hord
  | delete key => exact hsound.erase key
  | observe event version propagator hver hmeta hdel hstep =>
    have hgenuine := hsound.stored.genuine_meta hver hmeta
    refine hsound.observe hstep (fun _ ↦ hgenuine) fun htype ↦ ⟨?_, hdel htype⟩
    obtain ⟨key, -, hborn⟩ := hgenuine.1
    rw [hborn]
    exact some_ne_none key
  | observeVirtual event propagator hevent hstep =>
    have hqueued := hsound.observed.eventQueue event hevent
    exact hsound.observe hstep (fun htype ↦ absurd hqueued.1 htype) fun _ ↦ hqueued.2
  | getItem worker item key _ hdirty hkey => exact hsound.getItem hdirty hkey
  | checkCache worker item ownerReferences reference remaining hphase =>
    exact hsound.checkCache hphase
  | getOwner worker item ownerReferences reference remaining key hphase hkey =>
    exact hsound.getOwner hphase hkey
  | deleteObject worker item ownerReferences key _ _ => exact hsound.deleteObject
  | fail worker => exact hsound.idle

end

open Transition in
/-- If clients keep to the rules, workers delete only objects none of whose owners exists. -/
theorem deletes_orphans_only (restMapping : String → String → Option Resource)
    (c : Cluster Resource Worker)
    (hreach : Reachable (· = .new) (guarded (Orderly restMapping) (Step restMapping)) c) :
    c.DeletesOrphansOnly restMapping := by
  apply Sound.deletesOrphansOnly
  induction hreach with
  | start hinit => exact hinit ▸ sound_new
  | next _ hstep ih => exact ih.step hstep.1 hstep.2

/-! ## Two runs that delete an object with an owner -/

section Samples

open Transition

def sampleMapping (_ kind : String) : Option String := some kind

abbrev SampleCluster := Cluster String Unit

def sampleSet (name uid : String) : OwnerReference := ⟨"v1", "ReplicaSet", name, uid⟩

def sampleSetKey (name : String) : Key String := ⟨"ReplicaSet", "ns", name⟩

def samplePodKey (ns : String) : Key String := ⟨"Pod", ns, "pod"⟩

def samplePod (ns uid : String) (owner : OwnerReference) : ObjectMeta :=
  ⟨⟨⟨"v1", "Pod", "pod", uid⟩, ns⟩, [owner], false, []⟩

def Cluster.process (c : SampleCluster) (loops : Loops) (event : Event) : SampleCluster :=
  { c with propagator := c.propagator.processEvent loops event }

def sampleOwned : SampleCluster :=
  Cluster.new.createObject (sampleSetKey "a") ⟨"1", []⟩
    |>.createObject (sampleSetKey "b") ⟨"2", []⟩
    |>.createObject (samplePodKey "ns") ⟨"3", [sampleSet "a" "1"]⟩

def sampleOrphaned : SampleCluster :=
  let c := sampleOwned.process ⟨[], [], []⟩ ⟨.addEvent, samplePod "ns" "3" (sampleSet "a" "1"), none⟩
  { c with objects := erase (sampleSetKey "a") c.objects }

def sampleDirty : SampleCluster :=
  sampleOrphaned.process ⟨[], [], [0]⟩
    ⟨.deleteEvent, ⟨⟨sampleSet "a" "1", "ns"⟩, [], false, []⟩, none⟩

def sampleChecked : SampleCluster :=
  (sampleDirty.getItem () 0 (samplePodKey "ns")).checkCache () 0 [sampleSet "a" "1"]
    (sampleSet "a" "1") []

theorem sampleChecked_reachable : Reachable (· = (.new : SampleCluster))
    (guarded (Orderly sampleMapping) (Step sampleMapping)) sampleChecked := by
  have hstart : Reachable (· = (.new : SampleCluster))
      (guarded (Orderly sampleMapping) (Step sampleMapping)) .new := .start rfl
  have hfirst := hstart.guardedNext (.create (sampleSetKey "a") ⟨"1", []⟩ rfl rfl)
    (fun ref href ↦ absurd href not_mem_nil)
  have hsecond := hfirst.guardedNext
    (.create (sampleSetKey "b") ⟨"2", []⟩ (by decide +kernel) (by decide +kernel))
    (fun ref href ↦ absurd href not_mem_nil)
  have howned : Reachable (· = (.new : SampleCluster))
      (guarded (Orderly sampleMapping) (Step sampleMapping)) sampleOwned := by
    apply hsecond.guardedNext (.create (samplePodKey "ns") ⟨"3", [sampleSet "a" "1"]⟩
      (by decide +kernel) (by decide +kernel))
    intro ref href
    rw [mem_singleton.mp href]
    exact ⟨sampleSetKey "a", rfl, by decide +kernel⟩
  have hobs := howned.guardedNext
    (.observe ⟨.addEvent, samplePod "ns" "3" (sampleSet "a" "1"), none⟩
      (samplePodKey "ns", ⟨"3", [sampleSet "a" "1"]⟩) _ (by decide +kernel) ⟨rfl, rfl, rfl⟩
      nofun ⟨⟨[], [], []⟩, by decide +kernel, rfl⟩) trivial
  have horphaned := hobs.guardedNext (.delete (sampleSetKey "a")) trivial
  have hdirty : Reachable (· = (.new : SampleCluster))
      (guarded (Orderly sampleMapping) (Step sampleMapping)) sampleDirty :=
    horphaned.guardedNext
      (.observe ⟨.deleteEvent, ⟨⟨sampleSet "a" "1", "ns"⟩, [], false, []⟩, none⟩
        (sampleSetKey "a", ⟨"1", []⟩) _ (by decide +kernel) ⟨rfl, rfl, rfl⟩
        (fun _ ↦ by decide +kernel) ⟨⟨[], [], [0]⟩, by decide +kernel, rfl⟩) trivial
  have hread := hdirty.guardedNext (.getItem () 0 (samplePodKey "ns") (by decide +kernel)
    (by decide +kernel) (by decide +kernel)) trivial
  exact hread.guardedNext (.checkCache () 0 _ _ _ (by decide +kernel)) trivial

theorem deletes_orphaned_pod :
    sampleChecked.phase () = .checking 0 [sampleSet "a" "1"] [] ∧ ¬ sampleChecked.Alive "1" :=
  have hphase : sampleChecked.phase () = .checking 0 [sampleSet "a" "1"] [] := by decide +kernel
  ⟨hphase, deletes_orphans_only sampleMapping sampleChecked sampleChecked_reachable () 0 _
    (samplePodKey "ns") ⟨"3", [sampleSet "a" "1"]⟩ hphase (by decide +kernel) (by decide +kernel)
    (by decide +kernel) (sampleSet "a" "1") mem_cons_self⟩

/-- The pod is given to the other replica set before the worker deletes it. -/
def sampleAdopted : SampleCluster :=
  sampleChecked.store (samplePodKey "ns") ⟨"3", [sampleSet "b" "2"]⟩

/-- A replica set, a pod in another namespace that refers to it, and a pod that it owns. -/
def sampleForeign : SampleCluster :=
  Cluster.new.createObject (sampleSetKey "b") ⟨"2", []⟩
    |>.createObject (samplePodKey "other") ⟨"3", [sampleSet "b" "2"]⟩
    |>.createObject (samplePodKey "ns") ⟨"4", [sampleSet "b" "2"]⟩

/-- Both pods are observed.  The virtual node of the owner is in the other namespace. -/
def sampleVirtual : SampleCluster :=
  sampleForeign.process ⟨[], [], []⟩ ⟨.addEvent, samplePod "other" "3" (sampleSet "b" "2"), none⟩
    |>.process ⟨[], [], []⟩ ⟨.addEvent, samplePod "ns" "4" (sampleSet "b" "2"), none⟩

/-- A worker does not find the owner, and its virtual deletion puts the UID into the cache. -/
def samplePoisoned : SampleCluster :=
  (sampleVirtual.getItem () 1 ⟨"ReplicaSet", "other", "b"⟩).process ⟨[], [], [0, 2]⟩
    (virtualDeleteEvent ⟨sampleSet "b" "2", "other"⟩)

/-- The worker reads the pod that is owned, and asks the cache. -/
def sampleMisled : SampleCluster :=
  (samplePoisoned.getItem () 2 (samplePodKey "ns")).checkCache () 2 [sampleSet "b" "2"]
    (sampleSet "b" "2") []

theorem sampleMisled_reachable :
    Reachable (· = (.new : SampleCluster)) (Step sampleMapping) sampleMisled := by
  have hstart : Reachable (· = (.new : SampleCluster)) (Step sampleMapping) .new := .start rfl
  have hforeign : Reachable (· = (.new : SampleCluster)) (Step sampleMapping) sampleForeign :=
    ((hstart.next (.create (sampleSetKey "b") ⟨"2", []⟩ rfl rfl)).next
      (.create (samplePodKey "other") ⟨"3", [sampleSet "b" "2"]⟩ (by decide +kernel)
        (by decide +kernel))).next
      (.create (samplePodKey "ns") ⟨"4", [sampleSet "b" "2"]⟩ (by decide +kernel)
        (by decide +kernel))
  have hfirst := hforeign.next
    (.observe ⟨.addEvent, samplePod "other" "3" (sampleSet "b" "2"), none⟩
      (samplePodKey "other", ⟨"3", [sampleSet "b" "2"]⟩) _ (by decide +kernel) ⟨rfl, rfl, rfl⟩
      nofun ⟨⟨[], [], []⟩, by decide +kernel, rfl⟩)
  have hvirtual : Reachable (· = (.new : SampleCluster)) (Step sampleMapping) sampleVirtual :=
    hfirst.next
      (.observe ⟨.addEvent, samplePod "ns" "4" (sampleSet "b" "2"), none⟩
        (samplePodKey "ns", ⟨"4", [sampleSet "b" "2"]⟩) _ (by decide +kernel) ⟨rfl, rfl, rfl⟩
        nofun ⟨⟨[], [], []⟩, by decide +kernel, rfl⟩)
  have hgone := hvirtual.next (.getItem () 1 ⟨"ReplicaSet", "other", "b"⟩ (by decide +kernel)
    (by decide +kernel) (by decide +kernel))
  have hpoisoned : Reachable (· = (.new : SampleCluster)) (Step sampleMapping) samplePoisoned :=
    hgone.next (.observeVirtual (virtualDeleteEvent ⟨sampleSet "b" "2", "other"⟩) _
      (by decide +kernel) ⟨⟨[], [], [0, 2]⟩, by decide +kernel, rfl⟩)
  have hread := hpoisoned.next (.getItem () 2 (samplePodKey "ns") (by decide +kernel)
    (by decide +kernel) (by decide +kernel))
  exact hread.next (.checkCache () 2 _ _ _ (by decide +kernel))

/-- A worker deletes a pod that got another owner after it was read, and one whose owner is taken
for absent because of a reference from another namespace. -/
theorem deletes_owned_pods :
    (Reachable (· = .new) (Step sampleMapping) sampleAdopted ∧
      ¬ sampleAdopted.DeletesOrphansOnly sampleMapping) ∧
      Reachable (· = .new) (Step sampleMapping) sampleMisled ∧
        ¬ sampleMisled.DeletesOrphansOnly sampleMapping := by
  refine ⟨⟨?_, fun horphans ↦ ?_⟩, sampleMisled_reachable, fun horphans ↦ ?_⟩
  · exact sampleChecked_reachable.of_guarded.next
      (.update (samplePodKey "ns") ⟨"3", [sampleSet "a" "1"]⟩ [sampleSet "b" "2"]
        (by decide +kernel))
  · exact horphans () 0 [sampleSet "a" "1"] (samplePodKey "ns") ⟨"3", [sampleSet "b" "2"]⟩
      (by decide +kernel) (by decide +kernel) (by decide +kernel) (by decide +kernel)
      (sampleSet "b" "2") mem_cons_self (by decide +kernel)
  · exact horphans () 2 [sampleSet "b" "2"] (samplePodKey "ns") ⟨"4", [sampleSet "b" "2"]⟩
      (by decide +kernel) (by decide +kernel) (by decide +kernel) (by decide +kernel)
      (sampleSet "b" "2") mem_cons_self (by decide +kernel)

end Samples

end Kubernetes.GarbageCollector

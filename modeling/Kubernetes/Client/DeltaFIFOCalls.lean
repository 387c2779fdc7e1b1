import Kubernetes.Client.InformerTarget

/-!
# Sequences of calls on the delta queue

The queued keys are the keys with pending deltas, and no list of pending deltas is empty.  Every
exported call keeps this.  A resync is a series of `syncKey` calls, each under a lock of its own and
with its own answers of the known objects.
-/

namespace Kubernetes.Client

open List

variable {Object : Type} {config : Config Object} {keyFunc : Object → Except String String}

inductive DeltaFIFOCall (Object : Type)
  | add (obj : Obj Object)
  | update (obj : Obj Object)
  | delete (knownObjects : Option (KeyListerGetter Object)) (obj : Obj Object)
  | addIfNotPresent (deltas : Deltas Object)
  | replace (knownObjects : Option (KeyListerGetter Object)) (itemOrder : List String)
      (list : List (Obj Object))
  | syncKey (known : KeyListerGetter Object) (key : String)
  | pop (process : Deltas Object → Option (ProcessError Object))

namespace DeltaFIFO

section

variable (config : Config Object) (fifo : DeltaFIFO Object)

/-- `AddIfNotPresent` files the deltas under the key of the newest one, and panics without one. -/
def addDeltasIfNotPresent (deltas : Deltas Object) : DeltaFIFO Object × Option (Error Object) :=
  match Deltas.newest deltas with
  | none => (fifo, none)
  | some newest =>
    match keyOf config.keyFunc newest.object with
    | .error err => (fifo, some (.deltasKeyError deltas err))
    | .ok id => (fifo.addIfNotPresent id deltas, none)

def call : DeltaFIFOCall Object → DeltaFIFO Object
  | .add obj => (fifo.add config obj).1
  | .update obj => (fifo.update config obj).1
  | .delete knownObjects obj => (fifo.delete config knownObjects obj).1
  | .addIfNotPresent deltas => (fifo.addDeltasIfNotPresent config deltas).1
  | .replace knownObjects itemOrder list => (fifo.replace config knownObjects itemOrder list).1
  | .syncKey known key => (fifo.syncKey config known key).1
  | .pop process => (fifo.pop (fun _ item ↦ ((), process item)) ()).1

def run (calls : List (DeltaFIFOCall Object)) : DeltaFIFO Object :=
  calls.foldl (call config) fifo

end

/-- A kept property survives every call that does not store deltas given by its caller. -/
theorem Kept.call {P : DeltaFIFO Object → Prop} (hkept : Kept config P) {fifo : DeltaFIFO Object}
    (hfifo : P fifo) (producer : DeltaFIFOCall Object)
    (hadd : ∀ deltas, producer ≠ .addIfNotPresent deltas)
    (hpop : ∀ process, producer ≠ .pop process) : P (fifo.call config producer) := by
  cases producer with
  | add | update => exact hkept.action _ _ _ (hkept.setPopulated _ hfifo)
  | delete knownObjects obj => exact hkept.delete hfifo knownObjects obj
  | addIfNotPresent deltas => exact absurd rfl (hadd deltas)
  | replace knownObjects itemOrder list => exact hkept.replace hfifo knownObjects itemOrder list
  | syncKey known key => exact syncKey_rec (fun fifo ↦ hkept.action fifo .sync) hfifo known key
  | pop process => exact absurd rfl (hpop process)

end DeltaFIFO

/-! ## The representation invariant -/

def Deltas.NoAdjacentDeletions (deltas : Deltas Object) : Prop :=
  List.IsChain (fun older newer ↦ ¬(older.type = .deleted ∧ newer.type = .deleted)) deltas

/-- Deltas as `Pop` returns them: those of one key, with repeated deletions merged. -/
structure Deltas.WellFormed (keyFunc : Object → Except String String) (key : String)
    (deltas : Deltas Object) : Prop where
  nonempty : deltas ≠ []
  keyed : ∀ delta ∈ deltas, keyOf keyFunc delta.object = .ok key
  merged : Deltas.NoAdjacentDeletions deltas

theorem isDup_eq_none {a b : Delta Object} :
    isDup a b = none ↔ ¬(b.type = .deleted ∧ a.type = .deleted) := by
  unfold isDup isDeletionDup
  split_ifs with htypes
  · simpa [imp_iff_not_or] using htypes
  · push Not at htypes
    split <;> simp [htypes]

variable {deltas : Deltas Object}

/-- A deletion that would follow another one is merged with it. -/
theorem noAdjacentDeletions_dedupDeltas (hdeltas : Deltas.NoAdjacentDeletions deltas)
    (delta : Delta Object) : Deltas.NoAdjacentDeletions (dedupDeltas (deltas ++ [delta])) := by
  rcases eq_nil_or_concat' deltas with rfl | ⟨older, newest, rfl⟩
  · exact isChain_singleton delta
  · rw [dedupDeltas_concat]
    cases hdup : isDup delta newest with
    | some out =>
      have hboth : newest.type = .deleted ∧ delta.type = .deleted := by
        by_contra hnot
        rw [isDup_eq_none.mpr hnot] at hdup
        cases hdup
      -- only the types matter to the neighbour, and both deletions have the same
      obtain ⟨hchain, -, hlast⟩ := isChain_append.mp hdeltas
      refine isChain_append.mpr ⟨hchain, isChain_singleton out, ?_⟩
      intro older' holder out' hout
      rintro ⟨hdel, -⟩
      exact hlast older' holder newest rfl ⟨hdel, hboth.1⟩
    | none =>
      refine isChain_append.mpr ⟨hdeltas, isChain_singleton delta, ?_⟩
      intro newest' hnewest delta' hdelta
      rw [List.getLast?_concat] at hnewest
      cases hnewest
      cases hdelta
      exact isDup_eq_none.mp hdup

namespace DeltaFIFO

/-- The property the queue depends on, and what merging adds to it. -/
structure Representation (keyFunc : Object → Except String String) (fifo : DeltaFIFO Object) :
    Prop extends Consistent keyFunc fifo where
  merged : ∀ key deltas, fifo.items.lookup key = some deltas → Deltas.NoAdjacentDeletions deltas

variable {fifo : DeltaFIFO Object} {id : String}

section

variable (hfifo : fifo.Representation keyFunc)

include hfifo

theorem Representation.wellFormed {key : String} (hget : fifo.items.lookup key = some deltas) :
    Deltas.WellFormed keyFunc key deltas :=
  ⟨hfifo.nonempty key deltas hget, hfifo.keyed key deltas hget,
    hfifo.merged key deltas hget⟩

theorem Representation.insert (hdeltas : Deltas.WellFormed keyFunc id deltas) :
    Representation keyFunc { fifo with
      queue := if id ∈ fifo.items then fifo.queue else fifo.queue ++ [id]
      items := fifo.items.insert id deltas } := by
  refine ⟨hfifo.toConsistent.insert hdeltas.nonempty hdeltas.keyed, ?_⟩
  exact Map.forall_lookup_insert hfifo.merged hdeltas.merged

theorem Representation.action (actionType : DeltaType) (obj : Obj Object) :
    (fifo.queueActionLocked (InformerState.config keyFunc) actionType obj).1.Representation
      keyFunc := by
  refine queueActionLocked_rec hfifo actionType obj fun id hkey ↦ ?_
  refine hfifo.insert ⟨dedupDeltas_ne_nil _ _, hfifo.keyed_dedupDeltas hkey, ?_⟩
  apply noAdjacentDeletions_dedupDeltas
  rw [deltasAt]
  cases hget : fifo.items.lookup id with
  | none => exact isChain_nil
  | some old => exact hfifo.merged id old hget

end

theorem representation_kept (keyFunc : Object → Except String String) :
    Kept (InformerState.config keyFunc) (Representation keyFunc) where
  setPopulated _ hfifo := ⟨hfifo.toConsistent.setPopulated, hfifo.merged⟩
  populate fifo count hfifo := by
    refine ⟨hfifo.toConsistent.populate count, ?_⟩
    unfold populate
    split_ifs <;> exact hfifo.merged
  action _ actionType obj hfifo := hfifo.action actionType obj

theorem Representation.addIfNotPresent (hfifo : fifo.Representation keyFunc)
    (hdeltas : Deltas.WellFormed keyFunc id deltas) :
    (fifo.addIfNotPresent id deltas).Representation keyFunc := by
  have hpopulated := (representation_kept keyFunc).setPopulated fifo hfifo
  unfold DeltaFIFO.addIfNotPresent
  split_ifs with hmem
  · exact hpopulated
  · have hinserted := hpopulated.insert hdeltas
    rwa [if_neg hmem] at hinserted

/-- A pop takes the oldest key, which always has deltas, and a requeue puts the same deltas back. -/
theorem Representation.pop (hfifo : fifo.Representation keyFunc)
    (process : Deltas Object → Option (ProcessError Object)) :
    (fifo.pop (fun _ item ↦ ((), process item)) ()).1.Representation keyFunc := by
  unfold DeltaFIFO.pop
  cases hqueue : fifo.queue with
  | nil =>
    rw [popLoop, ← hqueue]
    exact hfifo
  | cons id rest =>
    have hmem : id ∈ fifo.items := by
      rw [← hfifo.mem_queue, hqueue]
      exact mem_cons_self
    obtain ⟨item, hitem⟩ := Finmap.mem_iff.mp hmem
    have hremoved : Representation keyFunc { fifo with
        queue := rest
        initialPopulationCount := fifo.initialPopulationCount - 1
        items := fifo.items.erase id } :=
      ⟨hfifo.toConsistent.dequeue hqueue _, Map.forall_lookup_erase hfifo.merged⟩
    simp only [popLoop, hitem]
    cases process item with
    | none => exact hremoved
    | some err =>
      cases err with
      | error err => exact hremoved
      | requeue err => exact hremoved.addIfNotPresent (hfifo.wellFormed hitem)

end DeltaFIFO

def DeltaFIFOCall.Returned (keyFunc : Object → Except String String) : DeltaFIFOCall Object → Prop
  | .addIfNotPresent deltas => ∃ key, Deltas.WellFormed keyFunc key deltas
  | _ => True

namespace DeltaFIFO

variable {fifo : DeltaFIFO Object}

theorem Representation.call (hfifo : fifo.Representation keyFunc) (made : DeltaFIFOCall Object)
    (hmade : made.Returned keyFunc) :
    (fifo.call (InformerState.config keyFunc) made).Representation keyFunc := by
  cases made with
  | addIfNotPresent deltas =>
    obtain ⟨key, hdeltas⟩ := hmade
    cases hnewest : Deltas.newest deltas with
    | none => exact absurd (newest_eq_none.mp hnewest) hdeltas.nonempty
    | some newest =>
      have hkey := hdeltas.keyed newest (List.mem_of_getLast? hnewest)
      simp only [DeltaFIFO.call, addDeltasIfNotPresent, hnewest,
        show (InformerState.config keyFunc).keyFunc = keyFunc from rfl, hkey]
      exact hfifo.addIfNotPresent hdeltas
  | pop process => exact hfifo.pop process
  | add | update | delete | replace | syncKey =>
    exact (representation_kept keyFunc).call hfifo _ nofun nofun

/-- All calls keep the representation, if `AddIfNotPresent` gets deltas like those `Pop` returns. -/
theorem run_representation (keyFunc : Object → Except String String)
    (calls : List (DeltaFIFOCall Object)) (hcalls : ∀ made ∈ calls, made.Returned keyFunc) :
    (newDeltaFIFO.run (InformerState.config keyFunc) calls).Representation keyFunc := by
  have hnew : (newDeltaFIFO : DeltaFIFO Object).Representation keyFunc :=
    ⟨consistent_new, fun key deltas h ↦ by simp [newDeltaFIFO] at h⟩
  exact List.foldlRecOn calls _ hnew fun fifo hfifo made hmade ↦
    hfifo.call made (hcalls made hmade)

def sampleCalls : List (DeltaFIFOCall ℕ) :=
  [.addIfNotPresent [⟨.sync, .object 1⟩], .delete none (.object 1), .replace none ["a"] [],
    .pop fun _ ↦ some (.requeue none)]

theorem run_representation_sample :
    let fifo := newDeltaFIFO.run (InformerState.config fun _ : ℕ ↦ .ok "a") sampleCalls
    fifo.items.lookup "a" = some [⟨.sync, .object 1⟩, ⟨.deleted, .object 1⟩] ∧
      fifo.Representation fun _ ↦ .ok "a" := by
  refine ⟨rfl, run_representation _ sampleCalls ?_⟩
  intro made hmade
  simp only [sampleCalls, mem_cons, not_mem_nil, or_false] at hmade
  rcases hmade with rfl | rfl | rfl | rfl
  · refine ⟨"a", cons_ne_nil _ _, fun delta hdelta ↦ ?_, isChain_singleton _⟩
    rw [mem_singleton.mp hdelta]
    rfl
  all_goals trivial

/-- Deltas of a caller that did not come from `Pop` are stored as they are. -/
theorem adjacent_deletions_stored :
    ¬ Representation (fun _ : ℕ ↦ .ok "a") (newDeltaFIFO.run
      (InformerState.config fun _ ↦ .ok "a")
      [.addIfNotPresent [⟨.deleted, .object 1⟩, ⟨.deleted, .object 1⟩]]) := by
  intro hfifo
  have hmerged := hfifo.merged "a" [⟨.deleted, .object 1⟩, ⟨.deleted, .object 1⟩] rfl
  rw [Deltas.NoAdjacentDeletions, isChain_pair] at hmerged
  exact hmerged ⟨rfl, rfl⟩

end DeltaFIFO

end Kubernetes.Client

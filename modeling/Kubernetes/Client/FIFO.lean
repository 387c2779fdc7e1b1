import Kubernetes.Client.DeltaFIFO

/-!
# The plain queue of the client cache

`FIFO` keeps only the newest version of every object.  A deletion takes the object out of `items`
and leaves its key in `queue`: `Pop` skips the keys without an item, and an object added again has
its key in the queue twice.  A log records which calls stored an object and which pops returned one.
-/

namespace Kubernetes.Client

open Finmap List

variable {Obj : Type} {keyFunc : Obj → Except String String}

structure FIFO (Obj : Type) where
  items : Map String Obj
  queue : List String
  populated : Bool
  initialPopulationCount : ℕ

def newFIFO : FIFO Obj where
  items := ∅
  queue := []
  populated := false
  initialPopulationCount := 0

structure KeyError (Obj : Type) where
  obj : Obj
  err : String

namespace FIFO

section

variable (keyFunc : Obj → Except String String) (fifo : FIFO Obj) (obj : Obj)

def add : FIFO Obj × Option (KeyError Obj) :=
  match keyFunc obj with
  | .error err => (fifo, some ⟨obj, err⟩)
  | .ok id =>
    ({ fifo with
        populated := true
        queue := if id ∈ fifo.items then fifo.queue else fifo.queue ++ [id]
        items := fifo.items.insert id obj }, none)

def update : FIFO Obj × Option (KeyError Obj) :=
  fifo.add keyFunc obj

end

/-- `addIfNotPresent` leaves a stored object alone. -/
def addIfNotPresentLocked (fifo : FIFO Obj) (id : String) (obj : Obj) : FIFO Obj :=
  if id ∈ fifo.items then { fifo with populated := true }
  else
    { fifo with
      populated := true
      queue := fifo.queue ++ [id]
      items := fifo.items.insert id obj }

section

variable (keyFunc : Obj → Except String String) (fifo : FIFO Obj) (obj : Obj)

def addIfNotPresent : FIFO Obj × Option (KeyError Obj) :=
  match keyFunc obj with
  | .error err => (fifo, some ⟨obj, err⟩)
  | .ok id => (fifo.addIfNotPresentLocked id obj, none)

/-- `Delete` removes the object and leaves the key in the queue. -/
def delete : FIFO Obj × Option (KeyError Obj) :=
  match keyFunc obj with
  | .error err => (fifo, some ⟨obj, err⟩)
  | .ok id => ({ fifo with populated := true, items := fifo.items.erase id }, none)

end

def replaceItems (keyFunc : Obj → Except String String) :
    List Obj → Map String Obj → Except (KeyError Obj) (Map String Obj)
  | [], items => .ok items
  | item :: rest, items =>
    match keyFunc item with
    | .error err => .error ⟨item, err⟩
    | .ok key => replaceItems keyFunc rest (items.insert key item)

/-- `Replace` installs the new map and queues its keys in the order of its loop. -/
def replace (keyFunc : Obj → Except String String) (order : List String) (fifo : FIFO Obj)
    (list : List Obj) : FIFO Obj × Option (KeyError Obj) :=
  match replaceItems keyFunc list ∅ with
  | .error err => (fifo, some err)
  | .ok items =>
    ({ items
       queue := order
       populated := true
       initialPopulationCount :=
        if fifo.populated then fifo.initialPopulationCount else items.keys.card }, none)

def resync (order : List String) (fifo : FIFO Obj) : FIFO Obj :=
  { fifo with queue := fifo.queue ++ order.filter fun id ↦ id ∈ fifo.items ∧ id ∉ fifo.queue }

end FIFO

/-- What `Pop` takes: keys, and the last of them with its item unless the call waits. -/
structure Taken (Item : Type) where
  keys : List String
  item : Option (String × Item)

/-- The loop of `Pop` over the queued keys, up to the first one with an item. -/
def take {Item : Type} (items : Map String Item) : List String → Taken Item
  | [] => ⟨[], none⟩
  | id :: rest =>
    match items.lookup id with
    | some item => ⟨[id], some (id, item)⟩
    | none => ⟨id :: (take items rest).keys, (take items rest).item⟩

/-- The answer of a process function: its error, inside an `ErrRequeue` if it wants the item put
back. -/
structure Answer (Obj : Type) where
  requeued : Bool
  err : Option (Error Obj)

namespace FIFO

/-- `Pop` processes the oldest item and puts it back if asked to.  With no item it waits. -/
def pop (process : Obj → Answer Obj) (fifo : FIFO Obj) :
    FIFO Obj × Option (Obj × Option (Error Obj)) :=
  let taken := take fifo.items fifo.queue
  let dequeued :=
    { fifo with
      queue := fifo.queue.drop taken.keys.length
      initialPopulationCount := fifo.initialPopulationCount - taken.keys.length }
  match taken.item with
  | none => (dequeued, none)
  | some (id, item) =>
    let removed := { dequeued with items := fifo.items.erase id }
    let answer := process item
    (if answer.requeued then removed.addIfNotPresentLocked id item else removed,
      some (item, answer.err))

end FIFO

inductive FIFOCall (Obj : Type)
  | add (obj : Obj)
  | update (obj : Obj)
  | delete (obj : Obj)
  | addIfNotPresent (obj : Obj)
  | replace (order : List String) (list : List Obj)
  | resync (order : List String)
  | pop (process : Obj → Answer Obj)

def FIFOCall.Ordered (keyFunc : Obj → Except String String) : FIFOCall Obj → Prop
  | .replace order list =>
    ∀ items, FIFO.replaceItems keyFunc list ∅ = .ok items → Map.IsOrder order items
  | _ => True

inductive FIFORecord (Obj : Type)
  | stored (key : String) (obj : Obj)
  | popped (key : String) (obj : Obj)

def FIFORecord.key : FIFORecord Obj → String
  | .stored key _ => key
  | .popped key _ => key

/-- The newest entry of a key in a log, which has its newest entry first. -/
def newestRecord (key : String) (log : List (FIFORecord Obj)) : Option (FIFORecord Obj) :=
  log.find? fun record ↦ record.key = key

namespace FIFO

section

variable (keyFunc : Obj → Except String String)

def call (fifo : FIFO Obj) : FIFOCall Obj → FIFO Obj
  | .add obj => (fifo.add keyFunc obj).1
  | .update obj => (fifo.update keyFunc obj).1
  | .delete obj => (fifo.delete keyFunc obj).1
  | .addIfNotPresent obj => (fifo.addIfNotPresent keyFunc obj).1
  | .replace order list => (fifo.replace keyFunc order list).1
  | .resync order => fifo.resync order
  | .pop process => (fifo.pop process).1

def storedRecords (obj : Obj) : List (FIFORecord Obj) :=
  match keyFunc obj with
  | .error _ => []
  | .ok id => [.stored id obj]

def records (fifo : FIFO Obj) : FIFOCall Obj → List (FIFORecord Obj)
  | .add obj => storedRecords keyFunc obj
  | .update obj => storedRecords keyFunc obj
  | .addIfNotPresent obj =>
    (storedRecords keyFunc obj).filter fun record ↦ record.key ∉ fifo.items
  | .replace _ list =>
    match replaceItems keyFunc list ∅ with
    | .error _ => []
    | .ok _ => (list.flatMap (storedRecords keyFunc)).reverse
  | .pop process =>
    match (take fifo.items fifo.queue).item with
    | none => []
    | some (id, item) =>
      if (process item).requeued then [.stored id item, .popped id item] else [.popped id item]
  | .delete _ => []
  | .resync _ => []

def run (calls : List (FIFOCall Obj)) : FIFO Obj × List (FIFORecord Obj) :=
  calls.foldl (fun state made ↦
    (state.1.call keyFunc made, state.1.records keyFunc made ++ state.2)) (newFIFO, [])

end

end FIFO

section Take

variable {Item : Type} {items : Map String Item} {id key : String} {item : Item}

theorem take_item {queue : List String} (htaken : (take items queue).item = some (id, item)) :
    items.lookup id = some item := by
  induction queue with
  | nil => cases htaken
  | cons head rest ih =>
    rw [take] at htaken
    split at htaken
    · next hget =>
      cases htaken
      exact hget
    · exact ih htaken

theorem mem_drop_take {queue : List String} (hqueue : key ∈ queue)
    (hget : items.lookup key = some item) :
    key ∈ queue.drop (take items queue).keys.length ∨
      (take items queue).item = some (key, item) := by
  induction queue with
  | nil => cases hqueue
  | cons head rest ih =>
    rw [take]
    rcases mem_cons.mp hqueue with rfl | hrest
    · exact .inr (by rw [hget])
    · split
      · exact .inl hrest
      · exact ih hrest

theorem exists_take {queue : List String} (hqueue : key ∈ queue)
    (hget : items.lookup key = some item) :
    ∃ id item, (take items queue).item = some (id, item) := by
  induction queue with
  | nil => cases hqueue
  | cons head rest ih =>
    rw [take]
    split
    · exact ⟨head, _, rfl⟩
    · next hnone =>
      refine ih ((mem_cons.mp hqueue).resolve_left fun heq ↦ ?_)
      rw [← heq, hget] at hnone
      cases hnone

end Take

/-! ## Histories -/

theorem newestRecord_cons (key : String) (record : FIFORecord Obj)
    (log : List (FIFORecord Obj)) :
    newestRecord key (record :: log) =
      if record.key = key then some record else newestRecord key log := by
  unfold newestRecord
  by_cases h : record.key = key <;> simp [h]

/-- Every popped object is the one last stored under its key, and was not popped since. -/
def Delivered (log : List (FIFORecord Obj)) : Prop :=
  ∀ earlier key obj, FIFORecord.popped key obj :: earlier <:+ log →
    newestRecord key earlier = some (.stored key obj)

variable {log : List (FIFORecord Obj)}

theorem Delivered.stored (hlog : Delivered log) (key : String) (obj : Obj) :
    Delivered (.stored key obj :: log) := by
  intro earlier key' obj' hsuffix
  rcases suffix_cons_iff.mp hsuffix with heq | hsuffix
  · cases heq
  · exact hlog earlier key' obj' hsuffix

theorem Delivered.popped (hlog : Delivered log) {key : String} {obj : Obj}
    (hnewest : newestRecord key log = some (.stored key obj)) :
    Delivered (.popped key obj :: log) := by
  intro earlier key' obj' hsuffix
  rcases suffix_cons_iff.mp hsuffix with heq | hsuffix
  · cases heq
    exact hnewest
  · exact hlog earlier key' obj' hsuffix

namespace FIFO

/-- The items are what was last stored under their keys. -/
def Latest (items : Map String Obj) (log : List (FIFORecord Obj)) : Prop :=
  ∀ key obj, items.lookup key = some obj → newestRecord key log = some (.stored key obj)

structure Traced (fifo : FIFO Obj) (log : List (FIFORecord Obj)) : Prop where
  queued : ∀ key obj, fifo.items.lookup key = some obj → key ∈ fifo.queue
  latest : Latest fifo.items log
  delivered : Delivered log

variable {fifo : FIFO Obj} {log : List (FIFORecord Obj)} {items : Map String Obj}

theorem Latest.insert (hlatest : Latest items log) (id : String) (obj : Obj) :
    Latest (items.insert id obj) (.stored id obj :: log) := by
  intro key obj' hget
  rw [Map.lookup_insert] at hget
  rw [newestRecord_cons]
  by_cases heq : key = id
  · subst heq
    rw [if_pos rfl] at hget
    cases hget
    exact if_pos rfl
  · rw [if_neg heq] at hget
    exact (if_neg (Ne.symm heq)).trans (hlatest key obj' hget)

theorem Latest.erase_popped (hlatest : Latest items log) (id : String) (item : Obj) :
    Latest (items.erase id) (.popped id item :: log) := by
  intro key obj hget
  rw [Map.lookup_erase] at hget
  split_ifs at hget with heq
  rw [newestRecord_cons]
  exact (if_neg (Ne.symm heq)).trans (hlatest key obj hget)

theorem Traced.store (htraced : fifo.Traced log) (id : String) (obj : Obj) (populated : Bool) :
    Traced { fifo with
      populated
      queue := if id ∈ fifo.items then fifo.queue else fifo.queue ++ [id]
      items := fifo.items.insert id obj } (.stored id obj :: log) := by
  refine ⟨?_, htraced.latest.insert id obj, htraced.delivered.stored id obj⟩
  dsimp only
  split_ifs with hmem
  · obtain ⟨old, hold⟩ := mem_iff.mp hmem
    exact Map.forall_lookup_insert htraced.queued (htraced.queued id old hold)
  · exact Map.forall_lookup_insert
      (fun key obj' hget ↦ mem_append_left _ (htraced.queued key obj' hget))
      (mem_append_right _ mem_cons_self)

theorem Traced.addIfNotPresentLocked (htraced : fifo.Traced log) (id : String) (obj : Obj) :
    (fifo.addIfNotPresentLocked id obj).Traced
      (if id ∈ fifo.items then log else .stored id obj :: log) := by
  have hstored := htraced.store id obj true
  unfold FIFO.addIfNotPresentLocked
  split_ifs with hmem
  · exact { htraced with }
  · rwa [if_neg hmem] at hstored

theorem replaceItems_traced (list : List Obj) {new : Map String Obj}
    (hlist : replaceItems keyFunc list items = .ok new) (hlatest : Latest items log)
    (hlog : Delivered log) :
    Latest new ((list.flatMap (storedRecords keyFunc)).reverse ++ log) ∧
      Delivered ((list.flatMap (storedRecords keyFunc)).reverse ++ log) := by
  induction list generalizing items log with
  | nil =>
    cases hlist
    exact ⟨hlatest, hlog⟩
  | cons item rest ih =>
    rw [replaceItems] at hlist
    split at hlist
    · cases hlist
    · next key hkey =>
      have hrest := ih hlist (hlatest.insert key item) (hlog.stored key item)
      simpa [storedRecords, hkey] using hrest

theorem lookup_pop (fifo : FIFO Obj) (process : Obj → Answer Obj) {id : String}
    {item : Obj} (htaken : (take fifo.items fifo.queue).item = some (id, item)) :
    (fifo.pop process).2 = some (item, (process item).err) ∧
      ∀ key, (fifo.pop process).1.items.lookup key =
        if key = id ∧ (process item).requeued = false then none
        else fifo.items.lookup key := by
  have hitem := take_item htaken
  have herased : id ∉ fifo.items.erase id := notMem_erase_self
  simp only [pop, htaken, FIFO.addIfNotPresentLocked, if_neg herased, true_and]
  intro key
  cases hrequeued : (process item).requeued with
  | false => simp [Map.lookup_erase]
  | true =>
    by_cases heq : key = id
    · subst heq
      simp [hitem]
    · simp [heq, lookup_insert_of_ne _ heq, lookup_erase_ne heq]

theorem Traced.pop (htraced : fifo.Traced log) (process : Obj → Answer Obj) :
    (fifo.pop process).1.Traced (fifo.records keyFunc (.pop process) ++ log) := by
  have hstay := fun key obj hget ↦
    mem_drop_take (htraced.queued key obj hget) hget
  cases htaken : (take fifo.items fifo.queue).item with
  | none =>
    simp only [FIFO.pop, records, htaken]
    refine ⟨fun key obj hget ↦ ?_, htraced.latest, htraced.delivered⟩
    exact (hstay key obj hget).resolve_right (by simp [htaken])
  | some taken =>
    obtain ⟨id, item⟩ := taken
    have hitem := take_item htaken
    have hremoved : Traced { fifo with
        queue := fifo.queue.drop (take fifo.items fifo.queue).keys.length
        initialPopulationCount :=
          fifo.initialPopulationCount - (take fifo.items fifo.queue).keys.length
        items := fifo.items.erase id } (.popped id item :: log) := by
      refine ⟨fun key obj hget ↦ ?_, htraced.latest.erase_popped id item,
        htraced.delivered.popped (htraced.latest id item hitem)⟩
      rw [Map.lookup_erase] at hget
      split_ifs at hget with heq
      refine (hstay key obj hget).resolve_right ?_
      rw [htaken]
      rintro ⟨⟩
      exact heq rfl
    simp only [FIFO.pop, records, htaken]
    cases (process item).requeued with
    | false => exact hremoved
    | true =>
      have hrequeued := hremoved.addIfNotPresentLocked id item
      rwa [if_neg notMem_erase_self] at hrequeued

theorem Traced.call (htraced : fifo.Traced log) (made : FIFOCall Obj)
    (hmade : made.Ordered keyFunc) :
    (fifo.call keyFunc made).Traced (fifo.records keyFunc made ++ log) := by
  cases made with
  | add obj | update obj =>
    simp only [FIFO.call, FIFO.update, FIFO.add, records, storedRecords]
    cases keyFunc obj with
    | error err => exact htraced
    | ok id => exact htraced.store id obj true
  | addIfNotPresent obj =>
    simp only [FIFO.call, FIFO.addIfNotPresent, records, storedRecords]
    cases keyFunc obj with
    | error err => exact htraced
    | ok id =>
      have hadded := htraced.addIfNotPresentLocked id obj
      by_cases hmem : id ∈ fifo.items <;> simpa [FIFORecord.key, hmem] using hadded
  | delete obj =>
    simp only [FIFO.call, FIFO.delete]
    cases keyFunc obj with
    | error err => exact htraced
    | ok id =>
      exact ⟨Map.forall_lookup_erase htraced.queued, Map.forall_lookup_erase htraced.latest,
        htraced.delivered⟩
  | replace order list =>
    simp only [FIFO.call, FIFO.replace, records]
    cases hlist : replaceItems keyFunc list ∅ with
    | error err => exact htraced
    | ok new =>
      obtain ⟨hlatest, hdelivered⟩ := replaceItems_traced list hlist
        (fun key obj hget ↦ by simp at hget) htraced.delivered
      refine ⟨fun key obj hget ↦ ?_, hlatest, hdelivered⟩
      exact ((hmade new hlist).2 key).mpr (mem_of_lookup_eq_some hget)
  | resync order =>
    refine ⟨fun key obj hget ↦ ?_, htraced.latest, htraced.delivered⟩
    exact mem_append_left _ (htraced.queued key obj hget)
  | pop process => exact htraced.pop process

theorem run_traced (calls : List (FIFOCall Obj))
    (hcalls : ∀ made ∈ calls, made.Ordered keyFunc) :
    (run keyFunc calls).1.Traced (run keyFunc calls).2 := by
  refine List.foldlRecOn
    (motive := fun state : FIFO Obj × List (FIFORecord Obj) ↦ state.1.Traced state.2)
    calls _ ?_ fun state hstate made hmade ↦ hstate.call made (hcalls made hmade)
  refine ⟨fun key obj hget ↦ ?_, fun key obj hget ↦ ?_, fun earlier key obj hsuffix ↦ ?_⟩
  · simp [newFIFO] at hget
  · simp [newFIFO] at hget
  · simp at hsuffix

/-- In every sequence of calls the stored keys are queued, and a pop returns the object last stored
under its key, once.  The next pop does not wait if an object is stored, and it takes the one it
returns off, unless it is asked to put it back. -/
theorem pops_last_stored (keyFunc : Obj → Except String String)
    (calls : List (FIFOCall Obj)) (hcalls : ∀ made ∈ calls, made.Ordered keyFunc) :
    let fifo := (run keyFunc calls).1
    let log := (run keyFunc calls).2
    (∀ key ∈ fifo.items, key ∈ fifo.queue ∧ ∀ process, (fifo.pop process).2.isSome) ∧
      Delivered log ∧
      ∀ process item err, (fifo.pop process).2 = some (item, err) →
        ∃ key, fifo.items.lookup key = some item ∧
          newestRecord key log = some (.stored key item) ∧
          .popped key item ∈ fifo.records keyFunc (.pop process) ∧
          ∀ other, (fifo.pop process).1.items.lookup other =
            if other = key ∧ (process item).requeued = false then none
            else fifo.items.lookup other := by
  have htraced := run_traced calls hcalls
  refine ⟨fun key hkey ↦ ?_, htraced.delivered, fun process item err hpop ↦ ?_⟩
  · obtain ⟨obj, hget⟩ := mem_iff.mp hkey
    have hqueued := htraced.queued key obj hget
    refine ⟨hqueued, fun process ↦ ?_⟩
    obtain ⟨id, item, htaken⟩ := exists_take hqueued hget
    rw [(lookup_pop _ process htaken).1]
    rfl
  · cases htaken : (take (run keyFunc calls).1.items (run keyFunc calls).1.queue).item with
    | none => simp [FIFO.pop, htaken] at hpop
    | some taken =>
      obtain ⟨key, taken⟩ := taken
      obtain ⟨hret, hget⟩ := lookup_pop _ process htaken
      rw [hret] at hpop
      cases hpop
      have hitem := take_item htaken
      refine ⟨key, hitem, htraced.latest key item hitem, ?_, hget⟩
      simp only [records, htaken]
      split <;> simp

/-- A deleted object that is added again has its key in the queue twice and is popped once. -/
theorem pops_last_stored_readded :
    let calls : List (FIFOCall ℕ) :=
      [.add 1, .delete 1, .add 2, .replace ["a"] [3, 4], .delete 4, .add 5]
    let fifo := (run (fun _ ↦ .ok "a") calls).1
    fifo.queue = ["a", "a"] ∧ (fifo.pop fun _ ↦ ⟨false, none⟩).2 = some (5, none) ∧
      ∃ key, fifo.items.lookup key = some 5 := by
  intro calls fifo
  have hcalls : ∀ made ∈ calls, made.Ordered fun _ ↦ .ok "a" := by
    intro made hmade
    simp only [calls, mem_cons, not_mem_nil, or_false] at hmade
    rcases hmade with rfl | rfl | rfl | rfl | rfl | rfl
    case inr.inr.inr.inl =>
      intro items hitems
      cases hitems
      exact ⟨nodup_singleton _, fun key ↦ by simp [mem_insert, notMem_empty]⟩
    all_goals trivial
  obtain ⟨-, -, hpop⟩ := pops_last_stored (fun _ ↦ .ok "a") calls hcalls
  obtain ⟨key, hget, -⟩ := hpop (fun _ ↦ ⟨false, none⟩) 5 none rfl
  exact ⟨rfl, rfl, key, hget⟩

end FIFO

end Kubernetes.Client

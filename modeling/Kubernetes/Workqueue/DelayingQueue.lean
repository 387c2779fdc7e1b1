import Kubernetes.Basic.Map
import Kubernetes.Basic.RingBuffer

/-!
# The list of waiting items of a delaying queue

The items to be added later are in a list sorted by time, and the time of every waiting item in a
map.  `insert` moves an item forward if it is asked for earlier, and leaves it alone otherwise.  The
loop adds the ready items at the front.  All times come from one clock, so `==` on them is the
equality of the instants that `Before` and `After` compare.
-/

namespace Kubernetes.Workqueue

open List

variable {Item Time : Type} [DecidableEq Item] [LinearOrder Time]

structure WaitFor (Item Time : Type) where
  data : Item
  readyAt : Time
  deriving DecidableEq

/-- `waitingForAdd` and `waitingTimeByEntry`. -/
structure Waiting (Item Time : Type) where
  entries : List (WaitFor Item Time)
  known : Map Item Time

def searchEntries (entries : List (WaitFor Item Time)) (found : WaitFor Item Time → Bool) : ℕ :=
  search entries.length fun index ↦ (entries[index]?).any found

/-- The first entry not before the time of an existing one, and then the first of the item from
there on. -/
def findEntryIndex (entries : List (WaitFor Item Time)) (existingTime : Time) (data : Item) : ℕ :=
  let index := searchEntries entries fun entry ↦
    existingTime < entry.readyAt ∨ existingTime = entry.readyAt
  index + (entries.drop index).findIdx fun entry ↦ entry.data = data

namespace Waiting

section

variable (waiting : Waiting Item Time)

/-- The second half of `insert`: put the entry behind those that are not later. -/
def insertSorted (entry : WaitFor Item Time) : Waiting Item Time :=
  let insertionIndex := searchEntries waiting.entries fun other ↦ entry.readyAt < other.readyAt
  { entries :=
      waiting.entries.take insertionIndex ++ entry :: waiting.entries.drop insertionIndex
    known := waiting.known.insert entry.data entry.readyAt }

/-- `insert` keeps the earlier of two times of an item. -/
def insert (entry : WaitFor Item Time) : Waiting Item Time :=
  match waiting.known.lookup entry.data with
  | none => waiting.insertSorted entry
  | some existingTime =>
    if existingTime < entry.readyAt then waiting
    else
      let existingIndex := findEntryIndex waiting.entries existingTime entry.data
      insertSorted { waiting with entries := waiting.entries.eraseIdx existingIndex } entry

def ready (now : Time) : List (WaitFor Item Time) :=
  waiting.entries.takeWhile fun entry ↦ ¬ now < entry.readyAt

/-- The loop adds the ready entries and forgets them. -/
def fire (now : Time) : Waiting Item Time where
  entries := waiting.entries.dropWhile fun entry ↦ ¬ now < entry.readyAt
  known := (waiting.ready now).foldl (fun known entry ↦ known.erase entry.data) waiting.known

end

end Waiting

inductive DelayOp (Item Time : Type)
  | insert (entry : WaitFor Item Time)
  | fire (now : Time)

/-- The list, and the times asked for every item since it last left the list. -/
structure Asked (Item Time : Type) where
  waiting : Waiting Item Time
  times : Item → List Time

namespace Asked

def new : Asked Item Time := ⟨⟨[], ∅⟩, fun _ ↦ []⟩

def step (asked : Asked Item Time) : DelayOp Item Time → Asked Item Time
  | .insert entry =>
    { waiting := asked.waiting.insert entry
      times := Function.update asked.times entry.data (entry.readyAt :: asked.times entry.data) }
  | .fire now =>
    { waiting := asked.waiting.fire now
      times := fun data ↦
        if data ∈ (asked.waiting.ready now).map WaitFor.data then [] else asked.times data }

end Asked

/-- The list is sorted and agrees with the map; the time of an item is the earliest asked for. -/
structure Waiting.Valid (waiting : Waiting Item Time) (times : Item → List Time) : Prop where
  sorted : waiting.entries.Pairwise fun a b ↦ a.readyAt ≤ b.readyAt
  nodup : (waiting.entries.map WaitFor.data).Nodup
  known : ∀ entry, waiting.known.lookup entry.data = some entry.readyAt ↔ entry ∈ waiting.entries
  earliest : ∀ data, waiting.known.lookup data = (times data).min?

/-! ## The searches -/

omit [DecidableEq Item] in
/-- The search for a property that later entries inherit finds where it begins. -/
theorem searchEntries_split {entries : List (WaitFor Item Time)}
    (found : WaitFor Item Time → Bool) (hsorted : entries.Pairwise fun a b ↦ a.readyAt ≤ b.readyAt)
    (hmono : ∀ a b, a.readyAt ≤ b.readyAt → found a = true → found b = true) :
    (∀ entry ∈ entries.take (searchEntries entries found), found entry = false) ∧
      ∀ entry ∈ entries.drop (searchEntries entries found), found entry = true := by
  refine search_split entries found (hsorted.imp fun hle ↦ hmono _ _ hle) _ fun index hindex ↦ ?_
  rw [List.getElem?_eq_getElem hindex]
  rfl

/-- The entry of an item is found, also among others of its time. -/
theorem getElem_findEntryIndex {entries : List (WaitFor Item Time)} {entry : WaitFor Item Time}
    (hsorted : entries.Pairwise fun a b ↦ a.readyAt ≤ b.readyAt) (hentry : entry ∈ entries) :
    ∃ found, entries[findEntryIndex entries entry.readyAt entry.data]? = some found ∧
      found.data = entry.data := by
  obtain ⟨htake, -⟩ := searchEntries_split
    (fun other ↦ entry.readyAt < other.readyAt ∨ entry.readyAt = other.readyAt) hsorted
    (fun a b hle ha ↦ by
      rw [decide_eq_true_eq, ← le_iff_lt_or_eq] at ha ⊢
      exact ha.trans hle)
  unfold findEntryIndex
  generalize searchEntries entries _ = index at htake ⊢
  -- the entry itself is not before its time
  have hdrop : entry ∈ entries.drop index := by
    rw [← take_append_drop index entries, mem_append] at hentry
    refine hentry.resolve_left fun hmem ↦ ?_
    simpa using htake entry hmem
  have hlt := findIdx_lt_length_of_exists (p := fun other ↦ other.data = entry.data)
    ⟨entry, hdrop, by simp⟩
  refine ⟨_, (List.getElem?_drop).symm.trans (List.getElem?_eq_getElem hlt), ?_⟩
  simpa using findIdx_getElem (w := hlt)

namespace Waiting

variable {waiting : Waiting Item Time} {times : Item → List Time}

section

variable (waiting : Waiting Item Time) (entry : WaitFor Item Time)

theorem lookup_insertSorted (data : Item) : (waiting.insertSorted entry).known.lookup data =
      if data = entry.data then some entry.readyAt else waiting.known.lookup data :=
  Map.lookup_insert ..

theorem perm_insertSorted :
    (waiting.insertSorted entry).entries.Perm (entry :: waiting.entries) := by
  refine perm_middle.trans (List.Perm.cons entry ?_)
  rw [take_append_drop]

end

theorem sorted_insertSorted (entry : WaitFor Item Time)
    (hsorted : waiting.entries.Pairwise fun a b ↦ a.readyAt ≤ b.readyAt) :
    (waiting.insertSorted entry).entries.Pairwise fun a b ↦ a.readyAt ≤ b.readyAt := by
  obtain ⟨htake, hdrop⟩ := searchEntries_split (fun other ↦ entry.readyAt < other.readyAt) hsorted
    (fun a b hle ha ↦ by
      rw [decide_eq_true_eq] at ha ⊢
      exact ha.trans_le hle)
  unfold insertSorted
  generalize searchEntries waiting.entries _ = index at htake hdrop ⊢
  have hsplit := hsorted
  rw [← take_append_drop index waiting.entries, pairwise_append] at hsplit
  rw [pairwise_append, pairwise_cons]
  refine ⟨hsplit.1, ⟨fun other hother ↦ ?_, hsplit.2.1⟩, fun a ha b hb ↦ ?_⟩
  · simpa using (of_decide_eq_true (hdrop other hother)).le
  · rcases mem_cons.mp hb with rfl | hb
    · simpa using htake a ha
    · exact hsplit.2.2 a ha b hb

/-- An entry put in place of the old one of its item keeps the list valid, if its time is the
earliest asked for. -/
theorem Valid.insertSorted (hvalid : waiting.Valid times) {rest : List (WaitFor Item Time)}
    (hrest : rest.Sublist waiting.entries) (entry : WaitFor Item Time)
    (hmem : ∀ other, other ∈ rest ↔ other ∈ waiting.entries ∧ other.data ≠ entry.data)
    (hearliest : some entry.readyAt = (entry.readyAt :: times entry.data).min?) :
    (Waiting.insertSorted { waiting with entries := rest } entry).Valid
      (Function.update times entry.data (entry.readyAt :: times entry.data)) := by
  have hperm := perm_insertSorted { waiting with entries := rest } entry
  refine ⟨sorted_insertSorted entry (hvalid.sorted.sublist hrest), ?_, fun other ↦ ?_,
    fun data ↦ ?_⟩
  · rw [(hperm.map WaitFor.data).nodup_iff, map_cons, nodup_cons]
    refine ⟨fun hdata ↦ ?_, hvalid.nodup.sublist (hrest.map _)⟩
    obtain ⟨other, hother, heq⟩ := mem_map.mp hdata
    exact ((hmem other).mp hother).2 heq
  · rw [lookup_insertSorted, hperm.mem_iff, mem_cons, hmem, ← hvalid.known]
    by_cases heq : other.data = entry.data
    · rw [if_pos heq]
      constructor
      · intro htime
        cases entry
        cases heq
        cases htime
        exact .inl rfl
      · rintro (rfl | hne)
        · rfl
        · exact absurd heq hne.2
    · rw [if_neg heq]
      constructor
      · exact fun hget ↦ .inr ⟨hget, heq⟩
      · rintro (rfl | hother)
        · exact absurd rfl heq
        · exact hother.1
  · rw [lookup_insertSorted, Function.update_apply]
    split_ifs with heq
    · exact hearliest
    · exact hvalid.earliest data

theorem Valid.insert (hvalid : waiting.Valid times) (entry : WaitFor Item Time) :
    (waiting.insert entry).Valid
      (Function.update times entry.data (entry.readyAt :: times entry.data)) := by
  have hearliest := hvalid.earliest entry.data
  unfold Waiting.insert
  cases hget : waiting.known.lookup entry.data with
  | none =>
    rw [hget, eq_comm] at hearliest
    refine hvalid.insertSorted (List.Sublist.refl _) entry (fun other ↦ ?_) (by simp [hearliest])
    refine ⟨fun hother ↦ ⟨hother, fun heq ↦ ?_⟩, fun hother ↦ hother.1⟩
    rw [← hvalid.known, heq, hget] at hother
    cases hother
  | some existingTime =>
    have hmin : (entry.readyAt :: times entry.data).min? =
        some (min entry.readyAt existingTime) := by
      rw [List.min?_cons, ← hearliest, hget]
      rfl
    dsimp only
    split_ifs with hlt
    · refine ⟨hvalid.sorted, hvalid.nodup, hvalid.known, fun data ↦ ?_⟩
      rw [Function.update_apply]
      split_ifs with heq
      · rw [heq, hget, hmin, min_eq_right hlt.le]
      · exact hvalid.earliest data
    · have hexisting := (hvalid.known ⟨entry.data, existingTime⟩).mp hget
      obtain ⟨found, hfound, hdata⟩ := getElem_findEntryIndex hvalid.sorted hexisting
      refine hvalid.insertSorted (eraseIdx_sublist _ _) entry (fun other ↦ ?_) ?_
      · obtain ⟨hindex, rfl⟩ := List.getElem?_eq_some_iff.mp hfound
        have hperm := getElem_cons_eraseIdx_perm hindex
        have hnodup := hvalid.nodup
        rw [← (hperm.map WaitFor.data).nodup_iff, map_cons, nodup_cons] at hnodup
        rw [← hperm.mem_iff, mem_cons]
        constructor
        · intro hother
          refine ⟨.inr hother, fun heq ↦ hnodup.1 ?_⟩
          rw [hdata]
          exact mem_map.mpr ⟨other, hother, heq⟩
        · rintro ⟨rfl | hother, hne⟩
          · exact absurd hdata hne
          · exact hother
      · rw [hmin, min_eq_left (not_lt.mp hlt)]

theorem lookup_fire (waiting : Waiting Item Time) (now : Time) (data : Item) :
    (waiting.fire now).known.lookup data =
      if data ∈ (waiting.ready now).map WaitFor.data then none
      else waiting.known.lookup data := by
  unfold fire
  generalize waiting.known = known
  induction waiting.ready now generalizing known with
  | nil => rfl
  | cons entry rest ih =>
    rw [foldl_cons, ih, Map.lookup_erase]
    by_cases heq : data = entry.data
    · simp [heq]
    · simp [heq]

theorem ready_append (waiting : Waiting Item Time) (now : Time) :
    waiting.ready now ++ (waiting.fire now).entries = waiting.entries :=
  takeWhile_append_dropWhile

theorem Valid.fire (hvalid : waiting.Valid times) (now : Time) :
    (waiting.fire now).Valid fun data ↦
      if data ∈ (waiting.ready now).map WaitFor.data then [] else times data := by
  have hsublist : (waiting.fire now).entries.Sublist waiting.entries := dropWhile_sublist _
  have hnodup := hvalid.nodup
  rw [← ready_append waiting now, map_append, nodup_append] at hnodup
  refine ⟨hvalid.sorted.sublist hsublist, hvalid.nodup.sublist (hsublist.map _), fun entry ↦ ?_,
    fun data ↦ ?_⟩
  · rw [lookup_fire]
    split_ifs with hready
    · refine iff_of_false nofun fun hentry ↦ ?_
      exact hnodup.2.2 entry.data hready entry.data (mem_map_of_mem hentry) rfl
    · have hsplit : entry ∈ waiting.ready now ∨ entry ∈ (waiting.fire now).entries ↔
          entry ∈ waiting.entries := by
        rw [← mem_append, ready_append]
      rw [hvalid.known, ← hsplit]
      exact or_iff_right fun hentry ↦ hready (mem_map_of_mem hentry)
  · rw [lookup_fire]
    split_ifs
    · rfl
    · exact hvalid.earliest data

omit [DecidableEq Item] in
theorem mem_ready_iff (hsorted : waiting.entries.Pairwise fun a b ↦ a.readyAt ≤ b.readyAt)
    (now : Time) (entry : WaitFor Item Time) :
    entry ∈ waiting.ready now ↔ entry ∈ waiting.entries ∧ entry.readyAt ≤ now := by
  unfold ready
  generalize waiting.entries = entries at hsorted ⊢
  induction entries with
  | nil => simp
  | cons first rest ih =>
    rw [pairwise_cons] at hsorted
    by_cases hlt : now < first.readyAt
    · rw [takeWhile_cons_of_neg (by simpa using hlt)]
      refine iff_of_false not_mem_nil fun hentry ↦ not_lt.mpr hentry.2 ?_
      rcases mem_cons.mp hentry.1 with rfl | hrest
      · exact hlt
      · exact hlt.trans_le (hsorted.1 entry hrest)
    · rw [takeWhile_cons_of_pos (by simpa using hlt), mem_cons, ih hsorted.2,
        mem_cons, or_and_right]
      refine or_congr_left (iff_self_and.mpr ?_)
      rintro rfl
      exact not_lt.mp hlt

/-- The items fired are those asked for by now. -/
theorem Valid.ready_iff (hvalid : waiting.Valid times) (now : Time) (data : Item) :
    data ∈ (waiting.ready now).map WaitFor.data ↔ ∃ time ∈ times data, time ≤ now := by
  rw [mem_map]
  constructor
  · rintro ⟨entry, hready, rfl⟩
    obtain ⟨hentry, hle⟩ := (mem_ready_iff hvalid.sorted now entry).mp hready
    have hearliest := ((hvalid.known entry).mpr hentry).symm.trans (hvalid.earliest entry.data)
    exact ⟨entry.readyAt, (List.min?_eq_some_iff.mp hearliest.symm).1, hle⟩
  · rintro ⟨time, htime, hle⟩
    cases hmin : (times data).min? with
    | none => simp [List.min?_eq_none_iff.mp hmin] at htime
    | some earliest =>
      have hentry := (hvalid.known ⟨data, earliest⟩).mp ((hvalid.earliest data).trans hmin)
      have hready := ((List.min?_eq_some_iff.mp hmin).2 time htime).trans hle
      exact ⟨⟨data, earliest⟩, (mem_ready_iff hvalid.sorted now _).mpr ⟨hentry, hready⟩, rfl⟩

end Waiting

/-- After every sequence of insertions and firings the list is sorted and has one entry for every
known item, at the earliest time asked for since it last left.  So a firing takes every item asked
for by then, once. -/
theorem waits_for_earliest (ops : List (DelayOp Item Time)) :
    let asked : Asked Item Time := ops.foldl Asked.step Asked.new
    asked.waiting.Valid asked.times ∧
      ∀ now, ((asked.waiting.ready now).map WaitFor.data).Nodup ∧
        ∀ data, (data ∈ (asked.waiting.ready now).map WaitFor.data ↔
            ∃ time ∈ asked.times data, time ≤ now) ∧
          (data ∈ (asked.waiting.ready now).map WaitFor.data →
            (asked.waiting.fire now).known.lookup data = none) := by
  intro asked
  have hvalid : asked.waiting.Valid asked.times := by
    refine List.foldlRecOn (motive := fun asked : Asked Item Time ↦
      asked.waiting.Valid asked.times) ops _ ?_ fun asked hvalid op _ ↦ ?_
    · exact ⟨List.Pairwise.nil, nodup_nil, fun _ ↦ iff_of_false nofun not_mem_nil,
        fun _ ↦ rfl⟩
    · cases op with
      | insert entry => exact hvalid.insert entry
      | fire now => exact hvalid.fire now
  refine ⟨hvalid, fun now ↦ ⟨?_, fun data ↦ ⟨hvalid.ready_iff now data, fun hready ↦ ?_⟩⟩⟩
  · exact hvalid.nodup.sublist ((takeWhile_sublist _).map _)
  · rw [Waiting.lookup_fire, if_pos hready]

end Kubernetes.Workqueue

import Kubernetes.Basic.Transition
import Kubernetes.NodeController.RateLimitedQueue

/-!
# No node is lost by the eviction queue

`Try` finds the entry it works on by the value.  As long as nobody removes that value in between and
adds it again, the queue keeps its guarantees.  If the value is removed and added again while the
function runs, the new entry is dropped or overwritten, and the function is never called with the
new UID.
-/

namespace Kubernetes.NodeController

open List

variable {Value UID : Type}

def Phase.held : Phase Value UID → Option (TimedValue Value UID)
  | .idle => none
  | .checking val => some val
  | .calling val _ => some val
  | .returned val _ _ _ => some val

def Phase.busy : Phase Value UID → Option (TimedValue Value UID)
  | .idle => none
  | .checking _ => none
  | .calling val _ => some val
  | .returned val _ _ _ => some val

variable {val : TimedValue Value UID} {phase : Phase Value UID}

theorem Phase.held_of_busy (hbusy : phase.busy = some val) :
    phase.held = some val := by
  cases phase with
  | idle | calling | returned => exact hbusy
  | checking => cases hbusy

/-- The value was removed and then added. -/
def Readded (later : List (Event Value UID)) (value : Value) : Prop :=
  ∃ newer uid older, later = newer ++ .added value uid :: older ∧ .removed value ∈ older

/-- The last success of the value is not followed by a removal. -/
def Done (log : List (Event Value UID)) (value : Value) : Prop :=
  ∃ later earlier, log = later ++ .finished value true :: earlier ∧ .removed value ∉ later

/-- A value that is not in the set is not added while `Try` works on it, nor after a success that no
removal follows. -/
def Orderly (state : System Value UID) : Op Value UID → Prop
  | .add value _ _ => value ∉ state.queue.set →
    (∀ val, state.phase.held = some val → val.value ≠ value) ∧ ¬ Done state.log value
  | _ => True

/-- The value has no entry and is not worked on, or it is about to lose its entry. -/
def Retired (state : System Value UID) (value : Value) : Prop :=
  ∀ entry, entry ∈ state.queue.queue ∨ state.phase.held = some entry → entry.value = value →
    ∃ now wait, state.phase = .returned entry now true wait

/-- The value is queued with the UID, and the function was not called on it. -/
def Waiting (state : System Value UID) (value : Value) (uid : UID) : Prop :=
  state.Queued value uid ∧ ∀ val, state.phase.busy = some val → val.value ≠ value

structure Inv (state : System Value UID) : Prop where
  wellFormed : state.queue.WellFormed
  held : ∀ val, state.phase.held = some val →
    val ∈ state.queue.queue ∨ val.value ∉ state.queue.set
  waiting : ∀ value uid later earlier, state.log = later ++ .added value uid :: earlier →
    Waiting state value uid ∨ .started value uid ∈ later ∨ .removed value ∈ later
  retired : ∀ value later earlier, state.log = later ++ .finished value true :: earlier →
    Readded later value ∨ Retired state value
  once : ∀ value uid later between earlier,
    state.log = later ++ .started value uid :: between ++ .finished value true :: earlier →
    Readded between value
  entry : ∀ value ∈ state.queue.set,
    (∃ entry ∈ state.queue.queue, entry.value = value) ∨ Done state.log value
  done : ∀ val now wait, state.phase = .returned val now true wait →
    val.value ∈ state.queue.set → Done state.log val.value

theorem Inv.reliable {state : System Value UID} (hinv : Inv state) : Reliable state where
  queued value uid later earlier hlog :=
    (hinv.waiting value uid later earlier hlog).imp_left And.left
  once := hinv.once
  entry := hinv.entry
  wellFormed := hinv.wellFormed

theorem inv_new : Inv (.new : System Value UID) where
  wellFormed := UniqueQueue.wellFormed_new
  held _ hheld := nomatch hheld
  waiting _ _ _ _ hlog := absurd hlog (by simp [System.new])
  retired _ _ _ hlog := absurd hlog (by simp [System.new])
  once _ _ _ _ _ hlog := absurd hlog (by simp [System.new])
  entry value hvalue := absurd hvalue (by simp [System.new, UniqueQueue.new])
  done _ _ _ hphase := nomatch hphase

section Log

variable {value other : Value} {event : Event Value UID} {log later : List (Event Value UID)}

theorem Readded.cons (hreadded : Readded later value) (event : Event Value UID) :
    Readded (event :: later) value := by
  obtain ⟨newer, uid, older, rfl, hremoved⟩ := hreadded
  exact ⟨event :: newer, uid, older, rfl, hremoved⟩

theorem Done.cons (hdone : Done log value) (hevent : event ≠ .removed value) :
    Done (event :: log) value := by
  obtain ⟨later, earlier, rfl, hremoved⟩ := hdone
  refine ⟨event :: later, earlier, rfl, fun hmem ↦ ?_⟩
  exact (mem_cons.mp hmem).elim (fun heq ↦ hevent heq.symm) hremoved

variable {last : Event Value UID}

theorem append_eq_cons {earlier : List (Event Value UID)}
    (hlog : last :: log = later ++ event :: earlier) :
    (later = [] ∧ event = last ∧ earlier = log) ∨
      ∃ rest, later = last :: rest ∧ log = rest ++ event :: earlier := by
  rcases cons_eq_append_iff.mp hlog with ⟨hnil, hcons⟩ | hrest
  · cases hcons
    exact .inl ⟨hnil, rfl, rfl⟩
  · exact .inr hrest

/-- The last event does not start the function again, so nothing changes about repeated calls. -/
theorem once_cons (hlast : ∀ value uid, last ≠ .started value uid)
    (honce : ∀ value uid later between earlier,
      log = later ++ .started value uid :: between ++ .finished value true :: earlier →
      Readded between value) :
    ∀ value uid later between earlier,
      last :: log = later ++ .started value uid :: between ++ .finished value true :: earlier →
      Readded between value := by
  intro value uid later between earlier hlog
  rw [append_assoc] at hlog
  rcases append_eq_cons hlog with ⟨-, heq, -⟩ | ⟨rest, -, hrest⟩
  · exact absurd heq.symm (hlast value uid)
  · apply honce value uid rest between earlier
    rw [append_assoc]
    exact hrest

end Log

/-! ## Steps that add nothing to the log -/

section Silent

variable {state target : System Value UID}

theorem Inv.silent (hinv : Inv state) (hlog : target.log = state.log)
    (hset : target.queue.set = state.queue.set) (hwellFormed : target.queue.WellFormed)
    (hheld : ∀ val, target.phase.held = some val → val ∈ target.queue.queue)
    (hwait : ∀ value uid, Waiting state value uid → Waiting target value uid)
    (hretired : ∀ value, Retired state value → Retired target value)
    (hentry : ∀ entry ∈ state.queue.queue,
      (∃ other ∈ target.queue.queue, other.value = entry.value) ∨ Done state.log entry.value)
    (hdone : ∀ val now wait, target.phase ≠ .returned val now true wait) : Inv target where
  wellFormed := hwellFormed
  held val hval := .inl (hheld val hval)
  waiting value uid later earlier hsplit :=
    (hinv.waiting value uid later earlier (hlog ▸ hsplit)).imp_left (hwait value uid)
  retired value later earlier hsplit :=
    (hinv.retired value later earlier (hlog ▸ hsplit)).imp_right (hretired value)
  once := hlog ▸ hinv.once
  entry value hvalue := by
    rw [hlog]
    rcases hinv.entry value (hset ▸ hvalue) with ⟨entry, hmem, rfl⟩ | hold
    · exact hentry entry hmem
    · exact .inr hold
  done val now wait hret := absurd hret (hdone val now wait)

theorem Inv.enter (hinv : Inv state)
    (hstate : ∀ val now ok wait, state.phase ≠ .returned val now ok wait)
    (hheld : ∀ val, phase.held = some val → val ∈ state.queue.queue) (hbusy : phase.busy = none) :
    Inv { state with phase := phase } := by
  refine hinv.silent rfl rfl hinv.wellFormed hheld ?_ ?_ ?_ ?_
  · intro value uid hwait
    refine ⟨hwait.1, fun val hval ↦ ?_⟩
    rw [hbusy] at hval
    cases hval
  · intro value hretired entry hentry hvalue
    obtain ⟨now, wait, hphase⟩ := hretired entry (.inl (hentry.elim id (hheld entry))) hvalue
    exact absurd hphase (hstate entry now true wait)
  · exact fun entry hentry ↦ .inl ⟨entry, hentry, rfl⟩
  · intro val now wait hphase
    dsimp only at hphase
    rw [hphase] at hbusy
    cases hbusy

theorem Inv.head (hinv : Inv state) (hphase : state.phase = .idle) : Inv state.head := by
  unfold System.head
  cases hhead : state.queue.head with
  | none => exact hinv
  | some val =>
    apply hinv.enter (fun _ _ _ _ hret ↦ by rw [hphase] at hret; cases hret) _ rfl
    intro other hother
    cases hother
    exact List.mem_of_getElem? hhead

variable [DecidableEq Value] {now wait : ℤ}

theorem Inv.settleOk (hinv : Inv state) (hphase : state.phase = .returned val now true wait) :
    Inv (state.settle val now true wait) := by
  obtain ⟨hwellFormed, hmem, hset⟩ := hinv.wellFormed.removeFromQueue val.value
  have hbusy : state.phase.busy = some val := by rw [hphase]; rfl
  refine hinv.silent rfl hset hwellFormed ?_ ?_ ?_ ?_ ?_
  · exact fun _ hheld ↦ nomatch hheld
  · rintro value uid ⟨⟨entry, hentry, rfl, huid⟩, hother⟩
    refine ⟨⟨entry, (hmem entry).mpr ⟨hentry, ?_⟩, rfl, huid⟩, fun _ hnone ↦ nomatch hnone⟩
    exact Ne.symm (hother val hbusy)
  · intro value hretired entry hentry hvalue
    obtain ⟨hold, hne⟩ := (hmem entry).mp (hentry.resolve_right nofun)
    obtain ⟨_, _, hret⟩ := hretired entry (.inl hold) hvalue
    rw [hphase] at hret
    cases hret
    exact absurd rfl hne
  · intro entry hentry
    by_cases hvalue : entry.value = val.value
    · refine .inr (hvalue ▸ hinv.done val now wait hphase ?_)
      exact hvalue ▸ hinv.wellFormed.mem_set entry hentry
    · exact .inl ⟨entry, (hmem entry).mpr ⟨hentry, hvalue⟩, rfl⟩
  · exact fun _ _ _ hret ↦ nomatch hret

theorem Inv.settleRetry (hinv : Inv state) (hphase : state.phase = .returned val now false wait) :
    Inv (state.settle val now false wait) := by
  have hbusy : state.phase.busy = some val := by rw [hphase]; rfl
  let retried : TimedValue Value UID := { val with processAt := now + (wait + 1) }
  obtain ⟨hwellFormed, hmem, hset⟩ := hinv.wellFormed.replace retried
  refine hinv.silent rfl hset hwellFormed ?_ ?_ ?_ ?_ ?_
  · exact fun _ hheld ↦ nomatch hheld
  · rintro value uid ⟨⟨entry, hentry, rfl, huid⟩, hother⟩
    refine ⟨⟨entry, (hmem entry).mpr (.inr ⟨hentry, ?_⟩), rfl, huid⟩, fun _ hnone ↦ nomatch hnone⟩
    exact Ne.symm (hother val hbusy)
  · intro value hretired entry hentry hvalue
    -- A retired value has no entry now, since the function has failed.
    have hnone : ∀ other ∈ state.queue.queue, other.value ≠ value := by
      intro other hother heq
      obtain ⟨_, _, hret⟩ := hretired other (.inl hother) heq
      rw [hphase] at hret
      cases hret
    rcases (hmem entry).mp (hentry.resolve_right nofun) with ⟨rfl, old, hold, heq⟩ | ⟨hold, -⟩
    · exact absurd (heq.trans hvalue) (hnone old hold)
    · exact absurd hvalue (hnone entry hold)
  · intro entry hentry
    by_cases hvalue : entry.value = val.value
    · exact .inl ⟨retried, (hmem retried).mpr (.inl ⟨rfl, entry, hentry, hvalue⟩), hvalue.symm⟩
    · exact .inl ⟨entry, (hmem entry).mpr (.inr ⟨hentry, hvalue⟩), rfl⟩
  · exact fun _ _ _ hret ↦ nomatch hret

end Silent

/-! ## Steps that are logged -/

section Logged

variable {state : System Value UID}

theorem Inv.waiting_cons {target : System Value UID} {last : Event Value UID} (hinv : Inv state)
    (hnew : ∀ value uid, last = .added value uid → Waiting target value uid)
    (hold : ∀ value uid, Waiting state value uid →
      Waiting target value uid ∨ .started value uid = last ∨ .removed value = last) :
    ∀ value uid later earlier, last :: state.log = later ++ .added value uid :: earlier →
      Waiting target value uid ∨ .started value uid ∈ later ∨ .removed value ∈ later := by
  intro value uid later earlier hlog
  rcases append_eq_cons hlog with ⟨-, heq, -⟩ | ⟨rest, rfl, hrest⟩
  · exact .inl (hnew value uid heq.symm)
  · simp only [mem_cons]
    rcases hinv.waiting value uid rest earlier hrest with hwait | hstarted | hremoved
    · exact (hold value uid hwait).imp_right (.imp .inl .inl)
    · exact .inr (.inl (.inr hstarted))
    · exact .inr (.inr (.inr hremoved))

theorem Inv.retired_cons {target : System Value UID} {last : Event Value UID} (hinv : Inv state)
    (hnew : ∀ value, last = .finished value true → Retired target value)
    (hold : ∀ value, Retired state value →
      Retired target value ∨ ∃ uid, last = .added value uid ∧ ¬ Done state.log value) :
    ∀ value later earlier, last :: state.log = later ++ .finished value true :: earlier →
      Readded later value ∨ Retired target value := by
  intro value later earlier hlog
  rcases append_eq_cons hlog with ⟨-, heq, -⟩ | ⟨rest, rfl, hrest⟩
  · exact .inr (hnew value heq.symm)
  · rcases hinv.retired value rest earlier hrest with hreadded | hretired
    · exact .inl (hreadded.cons _)
    · rcases hold value hretired with hretired | ⟨uid, rfl, hdone⟩
      · exact .inr hretired
      · -- The value was removed after its success.
        exact .inl ⟨[], uid, rest, rfl, by_contra fun hkept ↦ hdone ⟨rest, earlier, hrest, hkept⟩⟩

theorem Retired.of_not_returned {value : Value} (hretired : Retired state value)
    (hphase : ∀ val now wait, state.phase ≠ .returned val now true wait)
    (htarget : ∀ val, phase.held = some val → state.phase.held = some val)
    (log : List (Event Value UID)) : Retired { state with phase, log } value := by
  intro entry hentry hvalue
  obtain ⟨now, wait, hret⟩ := hretired entry (hentry.imp_right (htarget entry)) hvalue
  exact absurd hret (hphase entry now wait)

theorem Inv.call (hinv : Inv state) (now : ℤ) (hphase : state.phase = .checking val) :
    Inv { state with
      phase := .calling val now
      log := .started val.value val.uid :: state.log } where
  wellFormed := hinv.wellFormed
  held other hheld := hinv.held other (by rw [hphase]; exact hheld)
  waiting := by
    apply hinv.waiting_cons (by nofun)
    intro value uid hwait
    obtain ⟨entry, hentry, hvalue, huid⟩ := hwait.1
    by_cases hsame : val.value = value
    -- There is only one entry with the value, so the UID is the one of the addition.
    · have hval : val ∈ state.queue.queue := (hinv.held val (by rw [hphase]; rfl)).resolve_right
        (not_not.mpr (hsame ▸ hvalue ▸ hinv.wellFormed.mem_set entry hentry))
      have heq : entry = val := hinv.wellFormed.eq_of_value hentry hval (hvalue.trans hsame.symm)
      subst heq
      rw [hvalue, huid]
      exact .inr (.inl rfl)
    · refine .inl ⟨hwait.1, fun other hother ↦ ?_⟩
      cases hother
      exact hsame
  retired := by
    refine hinv.retired_cons nofun fun value hretired ↦ .inl (hretired.of_not_returned ?_ ?_ _)
    · exact fun _ _ _ hret ↦ by rw [hphase] at hret; cases hret
    · exact fun other hheld ↦ by rw [hphase]; exact hheld
  once value uid later between earlier hlog := by
    rw [append_assoc] at hlog
    rcases append_eq_cons hlog with ⟨-, heq, hbefore⟩ | ⟨rest, -, hrest⟩
    · cases heq
      -- A value that may be called is not retired.
      rcases hinv.retired _ between earlier hbefore.symm with hreadded | hretired
      · exact hreadded
      · obtain ⟨_, _, hret⟩ := hretired val (.inr (by rw [hphase]; rfl)) rfl
        rw [hphase] at hret
        cases hret
    · apply hinv.once value uid rest between earlier
      rw [append_assoc]
      exact hrest
  entry value hvalue := (hinv.entry value hvalue).imp_right (Done.cons · nofun)
  done _ _ _ hret := nomatch hret

theorem Inv.finish (hinv : Inv state) {now : ℤ} (ok : Bool) (wait : ℤ)
    (hphase : state.phase = .calling val now) :
    Inv { state with
      phase := .returned val now ok wait
      log := .finished val.value ok :: state.log } := by
  have hval := hinv.held val (by rw [hphase]; rfl)
  have hbusy : state.phase.busy = some val := by rw [hphase]; rfl
  refine ⟨hinv.wellFormed, ?_, ?_, ?_, once_cons nofun hinv.once, ?_, ?_⟩
  · intro other hheld
    cases hheld
    exact hval
  · apply hinv.waiting_cons (by nofun)
    refine fun value uid hwait ↦ .inl ⟨hwait.1, fun other hother ↦ ?_⟩
    cases hother
    exact hwait.2 val hbusy
  · apply hinv.retired_cons
    · intro value heq entry hentry hvalue
      cases heq
      refine ⟨now, wait, ?_⟩
      rcases hentry with hentry | hheld
      · rw [hinv.wellFormed.eq_of_value hentry (hval.resolve_right
          (not_not.mpr (hvalue ▸ hinv.wellFormed.mem_set entry hentry))) hvalue]
      · cases hheld
        rfl
    · refine fun value hretired ↦ .inl (hretired.of_not_returned ?_ ?_ _)
      · exact fun _ _ _ hret ↦ by rw [hphase] at hret; cases hret
      · exact fun other hheld ↦ by rw [hphase]; exact hheld
  · exact fun value hvalue ↦ (hinv.entry value hvalue).imp_right (Done.cons · nofun)
  · intro other later _ hret _
    cases hret
    exact ⟨[], state.log, rfl, not_mem_nil⟩

variable [DecidableEq Value]

theorem Inv.add (hinv : Inv state) {value : Value} {uid : UID} {now : ℤ}
    (hord : Orderly state (.add value uid now)) : Inv (state.add value uid now) := by
  let entry : TimedValue Value UID := ⟨value, uid, now, now⟩
  by_cases hset : value ∈ state.queue.set
  · have heq : state.add value uid now = state := by
      rw [System.add, UniqueQueue.add_of_mem hset]
      rfl
    exact heq.symm ▸ hinv
  · have hfresh : entry.value ∉ state.queue.set := hset
    obtain ⟨hwellFormed, hok, hmem, htargetSet⟩ := hinv.wellFormed.add hfresh
    have heq : state.add value uid now =
        { state with queue := (state.queue.add entry).1, log := .added value uid :: state.log } := by
      rw [System.add]
      dsimp only
      rw [hok]
      rfl
    obtain ⟨hnew, hdone⟩ := hord hset
    rw [heq]
    refine ⟨hwellFormed, ?_, ?_, ?_, once_cons nofun hinv.once, ?_, ?_⟩
    · intro val hheld
      rw [hmem, htargetSet, Finset.mem_insert, not_or]
      exact (hinv.held val hheld).imp .inr fun hgone ↦ ⟨hnew val hheld, hgone⟩
    · apply hinv.waiting_cons
      · intro other otherUid heq
        cases heq
        refine ⟨⟨entry, (hmem entry).mpr (.inl rfl), rfl, rfl⟩, fun val hbusy ↦ ?_⟩
        exact hnew val (Phase.held_of_busy hbusy)
      · intro other otherUid hwait
        obtain ⟨old, hold, hvalue⟩ := hwait.1
        exact .inl ⟨⟨old, (hmem old).mpr (.inr hold), hvalue⟩, hwait.2⟩
    · refine hinv.retired_cons nofun fun other hretired ↦ ?_
      by_cases hsame : other = value
      · subst hsame
        exact .inr ⟨uid, rfl, hdone⟩
      · refine .inl fun e he hvalue ↦ ?_
        rw [hmem, or_assoc] at he
        rcases he with rfl | hold
        · exact absurd hvalue.symm hsame
        · exact hretired e hold hvalue
    · intro other hother
      rw [htargetSet] at hother
      rcases Finset.mem_insert.mp hother with rfl | hold
      · exact .inl ⟨entry, (hmem entry).mpr (.inl rfl), rfl⟩
      · refine (hinv.entry other hold).imp ?_ (Done.cons · nofun)
        rintro ⟨e, he, hvalue⟩
        exact ⟨e, (hmem e).mpr (.inr he), hvalue⟩
    · intro val later wait hphase hin
      have hheld : state.phase.held = some val := by rw [hphase]; rfl
      rw [htargetSet] at hin
      exact (hinv.done val later wait hphase (Finset.mem_of_mem_insert_of_ne hin
        (hnew val hheld))).cons nofun

theorem Inv.remove (hinv : Inv state) (value : Value) : Inv (state.remove value) := by
  by_cases hset : value ∈ state.queue.set
  · obtain ⟨hwellFormed, hok, hmem, htargetSet⟩ := hinv.wellFormed.remove hset
    have heq : state.remove value =
        { state with queue := (state.queue.remove value).1, log := .removed value :: state.log } := by
      rw [System.remove]
      dsimp only
      rw [hok]
      rfl
    have hevent {other : Value} (hne : other ≠ value) :
        (.removed value : Event Value UID) ≠ .removed other :=
      fun hsame ↦ hne (Event.removed.inj hsame).symm
    rw [heq]
    refine ⟨hwellFormed, ?_, ?_, ?_, once_cons nofun hinv.once, ?_, ?_⟩
    · intro val hheld
      rw [hmem, htargetSet, Finset.mem_erase, not_and]
      by_cases hsame : val.value = value
      · exact .inr fun hne ↦ absurd hsame hne
      · exact (hinv.held val hheld).imp (⟨·, hsame⟩) fun hgone _ ↦ hgone
    · apply hinv.waiting_cons (by nofun)
      intro other uid hwait
      by_cases hsame : other = value
      · exact .inr (.inr (hsame ▸ rfl))
      · obtain ⟨entry, hentry, hvalue, huid⟩ := hwait.1
        refine .inl ⟨⟨entry, (hmem entry).mpr ⟨hentry, ?_⟩, hvalue, huid⟩, hwait.2⟩
        exact fun heq ↦ hsame (hvalue.symm.trans heq)
    · refine hinv.retired_cons nofun fun other hretired ↦ .inl fun e he ↦ ?_
      exact hretired e (he.imp_left fun hin ↦ ((hmem e).mp hin).1)
    · intro other hother
      rw [htargetSet] at hother
      obtain ⟨hne, hold⟩ := Finset.mem_erase.mp hother
      refine (hinv.entry other hold).imp ?_ (Done.cons · (hevent hne))
      rintro ⟨e, he, rfl⟩
      exact ⟨e, (hmem e).mpr ⟨he, hne⟩, rfl⟩
    · intro val now wait hphase hin
      rw [htargetSet] at hin
      obtain ⟨hne, hin⟩ := Finset.mem_erase.mp hin
      exact (hinv.done val now wait hphase hin).cons (hevent hne)
  · have heq : state.remove value = state := by
      rw [System.remove, UniqueQueue.remove_of_notMem hset]
      rfl
    exact heq.symm ▸ hinv

/-! ## Runs -/

theorem Inv.step {target : System Value UID} {op : Op Value UID} (hinv : Inv state)
    (hord : Orderly state op) (hstep : Step state op target) : Inv target := by
  cases hstep with
  | add value uid now => exact hinv.add hord
  | remove value => exact hinv.remove value
  | head hphase => exact hinv.head hphase
  | giveUp val hphase =>
    exact hinv.enter (fun _ _ _ _ hret ↦ by rw [hphase] at hret; cases hret)
      (fun _ hheld ↦ nomatch hheld) rfl
  | call val now hphase _ => exact hinv.call now hphase
  | finish val now ok wait hphase => exact hinv.finish ok wait hphase
  | settle val now ok wait hphase =>
    cases ok with
    | true => exact hinv.settleOk hphase
    | false => exact hinv.settleRetry hphase

open Transition in
/-- The queue keeps its guarantees in every run in which the value that `Try` works on is not
removed and added again. -/
theorem eviction_queue_reliable (state : System Value UID)
    (hreach : Reachable (· = .new) (guarded Orderly Step) state) : Reliable state := by
  apply Inv.reliable
  induction hreach with
  | start hinit => exact hinit ▸ inv_new
  | next _ hstep ih => exact ih.step hstep.1 hstep.2

end Logged

section Order

open Transition

variable [DecidableEq Value] {state target : System Value UID}

/-- The queue stays well formed also if the entry that `Try` works on is gone or another one. -/
theorem UniqueQueue.WellFormed.step {op : Op Value UID} (hq : state.queue.WellFormed)
    (hstep : Step state op target) : target.queue.WellFormed := by
  cases hstep with
  | add value uid now =>
    by_cases hmem : value ∈ state.queue.set
    · rw [System.add, add_of_mem hmem]
      exact hq
    · exact (hq.add hmem).1
  | remove value =>
    by_cases hmem : value ∈ state.queue.set
    · exact (hq.remove hmem).1
    · rw [System.remove, remove_of_notMem hmem]
      exact hq
  | head => cases hhead : state.queue.head <;> rw [System.head, hhead] <;> exact hq
  | giveUp | call | finish => exact hq
  | settle val now ok wait =>
    cases ok with
    | true => exact (hq.removeFromQueue val.value).1
    | false => exact (hq.replace { val with processAt := now + (wait + 1) }).1

/-- In every run the heap has one entry for a value, and the entry that `Try` takes is one that is
due first. -/
theorem head_due_first (hreach : Reachable (· = .new) Step state) :
    (state.queue.queue.map TimedValue.value).Nodup ∧ ∀ val, state.queue.head = some val →
      ∀ entry ∈ state.queue.queue, val.processAt ≤ entry.processAt := by
  have hq : state.queue.WellFormed := by
    induction hreach with
    | start hinit => exact hinit ▸ UniqueQueue.wellFormed_new
    | next _ hstep ih => exact ih.step hstep
  refine ⟨hq.nodup, fun val hhead entry hmem ↦ ?_⟩
  obtain ⟨k, hk, hget⟩ := getElem_of_mem hmem
  exact hq.ordered.head_le hk val entry hhead (hget ▸ getElem?_eq_getElem hk)

theorem later_node_due_first : ∃ state : System ℕ ℕ, Reachable (· = .new) Step state ∧
    state.queue.head = some ⟨1, 1, 0, 0⟩ ∧ ∀ entry ∈ state.queue.queue, 0 ≤ entry.processAt := by
  have hstart : Reachable (· = .new) Step (.new : System ℕ ℕ) := .start rfl
  have hadded := (hstart.next (.add _ 0 1 2)).next (.add _ 1 1 0)
  exact ⟨_, hadded, by decide +kernel, (head_due_first hadded).2 ⟨1, 1, 0, 0⟩ (by decide +kernel)⟩

end Order

section Samples

open Transition

def sampleCalled : System ℕ ℕ where
  queue := ⟨[⟨0, 1, 0, 0⟩], {0}⟩
  phase := .calling ⟨0, 1, 0, 0⟩ 0
  log := [.started 0 1, .added 0 1]

theorem sampleCalled_reachable : Reachable (· = .new) (guarded Orderly Step) sampleCalled := by
  have hstart : Reachable (· = .new) (guarded Orderly Step) (.new : System ℕ ℕ) := .start rfl
  have hadded := hstart.guardedNext (.add _ 0 1 0) fun _ ↦
    ⟨nofun, by simp [Done, System.new]⟩
  have hhead := hadded.guardedNext (.head _ (by decide +kernel)) trivial
  have hcalled := hhead.guardedNext (.call _ ⟨0, 1, 0, 0⟩ 0 (by decide +kernel) le_rfl) trivial
  refine (?_ : _ = sampleCalled) ▸ hcalled
  decide +kernel

def sampleRetried : System ℕ ℕ where
  queue := ⟨[⟨0, 1, 0, 6⟩], {0}⟩
  phase := .idle
  log := [.finished 0 false, .started 0 1, .added 0 1]

theorem reliable_after_retry :
    sampleRetried.log = [.finished 0 false, .started 0 1, .added 0 1] ∧ Reliable sampleRetried := by
  refine ⟨rfl, eviction_queue_reliable sampleRetried ?_⟩
  have hfinished := sampleCalled_reachable.guardedNext (.finish _ ⟨0, 1, 0, 0⟩ 0 false 5 rfl) trivial
  have hsettled := hfinished.guardedNext (.settle _ ⟨0, 1, 0, 0⟩ 0 false 5 rfl) trivial
  refine (?_ : _ = sampleRetried) ▸ hsettled
  decide +kernel

/-- The node is removed and added with another UID while the function runs, and then the function
succeeds. -/
def sampleLost : System ℕ ℕ where
  queue := ⟨[], {0}⟩
  phase := .idle
  log := [.finished 0 true, .added 0 2, .removed 0, .started 0 1, .added 0 1]

/-- The second addition is lost: there is no entry, and the function was not called with its UID. -/
theorem readded_node_lost : Reachable (· = .new) Step sampleLost ∧ ¬ Reliable sampleLost := by
  constructor
  · have hremoved := sampleCalled_reachable.of_guarded.next (.remove _ 0)
    have hadded := hremoved.next (.add _ 0 2 0)
    have hfinished := hadded.next (.finish _ ⟨0, 1, 0, 0⟩ 0 true 0 (by decide +kernel))
    have hsettled := hfinished.next (.settle _ ⟨0, 1, 0, 0⟩ 0 true 0 (by decide +kernel))
    refine (?_ : _ = sampleLost) ▸ hsettled
    decide +kernel
  · intro hreliable
    rcases hreliable.queued 0 2 [.finished 0 true] [.removed 0, .started 0 1, .added 0 1] rfl with
      ⟨entry, hentry, -⟩ | hstarted | hremoved
    · exact absurd hentry not_mem_nil
    · exact absurd hstarted (by decide)
    · exact absurd hremoved (by decide)

end Samples

end Kubernetes.NodeController

import Kubernetes.Basic.Transition
import Kubernetes.Storage.UpdateHistory

/-!
# Updates take effect at one instant

After a read or a failed transaction a call of `GuaranteedUpdate` works on what is stored while it
runs.  A suggested object decides the first attempt without being compared with etcd, unless that
attempt ends in a transaction.  So every outcome is the one for some instant of the call in the runs
whose suggestions are current or lead to a transaction.
-/

namespace Kubernetes.Storage.Etcd3

open Finmap

open Kubernetes.Transition (guarded)

variable {Body Bytes Err : Type} {start : ℕ} {phase : UpdatePhase Body Bytes Err} {i : ℕ}

section Calls

variable {codec : Codec Body Bytes} {sys target : System Body Bytes Err} {err : StoreError Err}

theorem System.not_isRejection_of_getStateFromObject {obj : Object Body}
    (herr : getStateFromObject codec obj = .error err) : err.isRejection = false := by
  rw [getStateFromObject] at herr
  cases hrv : obj.objectResourceVersion with
  | error numErr =>
    rw [hrv] at herr
    cases herr
    rfl
  | ok rv =>
    cases hencode : codec.encode (obj.updateObject 0) with
    | error encodeErr =>
      rw [hrv, hencode] at herr
      cases herr
      rfl
    | ok data => simp [hrv, hencode] at herr

theorem System.extends_write {etcd : Etcd Bytes} (hnext : sys.etcd.Next etcd) :
    sys.Extends (sys.write etcd) :=
  .inr ⟨hnext, rfl⟩

theorem System.instant_write (sys : System Body Bytes Err) (etcd : Etcd Bytes) :
    (sys.write etcd).instant = sys.instant + 1 :=
  List.length_append

theorem IsInitial.lookup_of_stored (hinit : IsInitial sys) {key : String} {kv : KeyValue Bytes}
    (hkv : sys.stored i key = some kv) :
    sys.etcd.kvs.lookup key = some kv := by
  obtain ⟨etcd, rfl⟩ := hinit
  cases i with
  | zero => exact hkv
  | succ i =>
    cases hkv

theorem IsInitial.versioned (hinit : IsInitial sys) : sys.Versioned where
  pos hkv := (sys.etcd.modRevision_mem _ _ (hinit.lookup_of_stored hkv)).1
  le hkv := (sys.etcd.modRevision_mem _ _ (hinit.lookup_of_stored hkv)).2
  unique hkv hkv' _ := by
    have hget := (hinit.lookup_of_stored hkv).symm.trans (hinit.lookup_of_stored hkv')
    exact Option.some.inj hget

variable [Inhabited Body] {req : UpdateRequest Body Err}

/-! ## Calls in progress -/

/-- The precondition and the caller's function accept the object, and what is to be stored differs
from it. -/
def UpdateRequest.Changes (codec : Codec Body Bytes) (req : UpdateRequest Body Err)
    (st : ObjState Body Bytes) : Prop :=
  ∃ data ttl, propose codec req st = .ok (data, ttl) ∧ st.data ≠ some data

/-- What is known about a call that was made at `start`. -/
def System.PhaseSound (codec : Codec Body Bytes) (sys : System Body Bytes Err)
    (req : UpdateRequest Body Err) (start : ℕ) : UpdatePhase Body Bytes Err → Prop
  | .reading => True
  | .attempting st => ∃ i, sys.Backed codec req st i ∧ (start ≤ i ∨ req.Changes codec st)
  | .committing st data ttl =>
      ∃ i, sys.Backed codec req st i ∧ propose codec req st = .ok (data, ttl)
  | .returned outcome stop => stop ≤ sys.instant ∧ sys.Answers codec req start stop outcome

namespace System

theorem PhaseSound.extend (hsound : sys.PhaseSound codec req start phase) (h : sys.Extends target) :
    target.PhaseSound codec req start phase := by
  cases phase with
  | reading => exact hsound
  | attempting st =>
    obtain ⟨i, hbacked, hchoice⟩ := hsound
    exact ⟨i, hbacked.extend h, hchoice⟩
  | committing st data ttl =>
    obtain ⟨i, hbacked, hpropose⟩ := hsound
    exact ⟨i, hbacked.extend h, hpropose⟩
  | returned outcome stop =>
    obtain ⟨hstop, hanswers⟩ := hsound
    exact ⟨hstop.trans h.instant_le, hanswers.extend h hstop⟩

theorem phaseSound_restore (hstart : start ≤ sys.instant) :
    sys.PhaseSound codec req start
      (req.restore codec (sys.etcd.kvs.lookup req.key) sys.instant) := by
  rw [← stored_instant, UpdateRequest.restore]
  cases hst : (getState codec req.key req.ignoreNotFound (sys.stored sys.instant req.key) :
      Except (StoreError Err) (ObjState Body Bytes)) with
  | error err =>
    refine ⟨le_rfl, fun _ ↦ ⟨sys.instant, hstart, le_rfl, ?_⟩⟩
    rw [UpdateRequest.apply, hst]
  | ok st => exact ⟨sys.instant, .of_getState le_rfl hst, .inl hstart⟩

/-- A suggestion that was stored some time ago starts the call, if the first attempt changes it or
it is still stored. -/
theorem phaseSound_begin_some {obj : Object Body} {kv : KeyValue Bytes} (hi : i ≤ sys.instant)
    (hkv : sys.stored i req.key = some kv) (hobj : DecodesTo codec kv.value kv.modRevision obj)
    (husable : i = sys.instant ∨
      ∀ st, getStateFromObject codec obj =
        (.ok st : Except (StoreError Err) (ObjState Body Bytes)) → req.Changes codec st) :
    sys.PhaseSound codec req sys.instant (.begin codec (some obj) sys.instant) := by
  rw [UpdatePhase.begin]
  cases hst : (getStateFromObject codec obj : Except (StoreError Err) (ObjState Body Bytes)) with
  | error err =>
    refine ⟨le_rfl, fun hrejection ↦ ?_⟩
    rw [not_isRejection_of_getStateFromObject hst] at hrejection
    cases hrejection
  | ok st =>
    refine ⟨i, .of_suggestion hi hkv hobj hst, ?_⟩
    obtain hnow | hchanges := husable
    · exact .inl hnow.ge
    · exact .inr (hchanges st hst)

variable {st : ObjState Body Bytes} {data : Bytes}

/-- An attempt that stores nothing returns the object it started from, which is stored. -/
theorem Backed.keeps (hbacked : sys.Backed codec req st i) (hdata : st.data = some data) :
    Keeps codec (sys.stored i req.key) data st.obj := by
  obtain ⟨hsome, hdecodes⟩ := hbacked.data data hdata
  obtain ⟨kv, hkv⟩ := Option.isSome_iff_exists.mp hsome
  obtain ⟨-, hrev, hobj⟩ := getState_eq_ok hbacked.getState
  have hrev' : st.rev = kv.modRevision := by
    rw [hkv] at hrev
    exact hrev
  rw [hrev'] at hdecodes
  exact ⟨kv, hkv, hobj kv hkv, hdecodes⟩

theorem phaseSound_attempt [DecidableEq Bytes]
    (hsound : sys.PhaseSound codec req start (.attempting st)) :
    sys.PhaseSound codec req start (req.attempt codec st sys.instant) := by
  obtain ⟨i, hbacked, hchoice⟩ := hsound
  rw [UpdateRequest.attempt]
  cases hpropose : propose codec req st with
  | error err =>
    obtain hstart | ⟨data, ttl, hok, -⟩ := hchoice
    · refine ⟨le_rfl, fun _ ↦ ⟨i, hstart, hbacked.le, ?_⟩⟩
      rw [hbacked.apply_eq, hpropose]
    · rw [hpropose] at hok
      cases hok
  | ok result =>
    obtain ⟨data, ttl⟩ := result
    dsimp only
    split_ifs with hdata
    · obtain hstart | ⟨other, otherTtl, hok, hne⟩ := hchoice
      · have hkeeps := hbacked.keeps hdata
        have hout : (decode codec data st.rev : Outcome Body Err) = .ok st.obj :=
          decode_eq_ok_iff.mpr (hbacked.data data hdata).2
        rw [hout]
        refine ⟨le_rfl, i, hstart, hbacked.le, data, ttl, ?_, .inl hkeeps⟩
        rw [hbacked.apply_eq, hpropose]
      · rw [hpropose] at hok
        cases hok
        exact absurd hdata hne
    · exact ⟨i, hbacked, hpropose⟩

theorem phaseSound_commit {ttl : UInt64} (hversioned : sys.Versioned) (hstart : start ≤ sys.instant)
    (hsound : sys.PhaseSound codec req start (.committing st data ttl))
    (hrev : sys.etcd.modRevision req.key = st.rev) (leased : Bool) :
    (sys.write (sys.etcd.put req.key data leased)).PhaseSound codec req start
      (.returned (decode codec data (sys.etcd.revision + 1)) (sys.instant + 1)) := by
  obtain ⟨i, hbacked, hpropose⟩ := hsound
  have hextends := extends_write (sys.etcd.next_put req.key data leased)
  refine ⟨(instant_write _ _).ge, ?_⟩
  cases hout : (decode codec data (sys.etcd.revision + 1) : Outcome Body Err) with
  | error err =>
    intro hrejection
    rw [decode] at hout
    split at hout <;> cases hout
    cases hrejection
  | ok out =>
    refine ⟨sys.instant, hstart, Nat.le_succ _, data, ttl, ?_, .inr ⟨Nat.lt_succ_self _, ?_⟩⟩
    · rw [hextends.stored_eq le_rfl, hbacked.stored_eq hversioned hrev, hbacked.apply_eq,
        hpropose]
    · rw [← instant_write, stored_instant]
      exact ⟨⟨data, sys.etcd.revision + 1, leased⟩, lookup_insert _, rfl, decode_eq_ok_iff.mp hout⟩

/-! ## Runs -/

structure Sound (codec : Codec Body Bytes) (sys : System Body Bytes Err) : Prop where
  versioned : sys.Versioned
  updates : ∀ number call, sys.updates.lookup number = some call →
    call.start ≤ sys.instant ∧ sys.PhaseSound codec call.req call.start call.phase

section

variable (hsound : sys.Sound codec)

include hsound

theorem Sound.extend (h : sys.Extends target) (hupdates : target.updates = sys.updates) :
    target.Sound codec where
  versioned := hsound.versioned.extend h
  updates := by
    intro number call hcall
    rw [hupdates] at hcall
    obtain ⟨hstart, hphase⟩ := hsound.updates number call hcall
    exact ⟨hstart.trans h.instant_le, hphase.extend h⟩

theorem Sound.write {etcd : Etcd Bytes} (hnext : sys.etcd.Next etcd) :
    (sys.write etcd).Sound codec :=
  hsound.extend (extends_write hnext) rfl

theorem Sound.setDelete (number : ℕ) (call : DeleteCall Body Bytes Err)
    (phase : DeletePhase Body Bytes Err) : (sys.setDelete number call phase).Sound codec :=
  hsound.extend (.inl ⟨rfl, rfl⟩) rfl

theorem Sound.setUpdate (number : ℕ) {call : UpdateCall Body Bytes Err}
    (hstart : call.start ≤ sys.instant) (hphase : sys.PhaseSound codec call.req call.start phase) :
    (sys.setUpdate number call phase).Sound codec := by
  have hextends : sys.Extends (sys.setUpdate number call phase) := .inl ⟨rfl, rfl⟩
  refine ⟨hsound.versioned.extend hextends, ?_⟩
  apply Map.forall_lookup_insert
  · intro number' call' hcall'
    obtain ⟨hstart', hphase'⟩ := hsound.updates number' call' hcall'
    exact ⟨hstart', hphase'.extend hextends⟩
  · exact ⟨hstart, hphase.extend hextends⟩

end

/-- A suggestion is stored under the key now, or the precondition and the caller's function accept
it and the latter changes it. -/
def SuggestionUsable (codec : Codec Body Bytes) (sys : System Body Bytes Err) : Op Body Err → Prop
  | .update _ req (some obj) =>
      (∃ kv, sys.etcd.kvs.lookup req.key = some kv ∧ DecodesTo codec kv.value kv.modRevision obj) ∨
      ∀ st, getStateFromObject codec obj =
        (.ok st : Except (StoreError Err) (ObjState Body Bytes)) → req.Changes codec st
  | _ => True

theorem phaseSound_begin {number : ℕ} {suggestion : Option (Object Body)}
    (hver : ∀ obj, suggestion = some obj → sys.IsVersion codec req.key obj)
    (husable : sys.SuggestionUsable codec (.update number req suggestion)) :
    sys.PhaseSound codec req sys.instant (.begin codec suggestion sys.instant) := by
  cases suggestion with
  | none => trivial
  | some obj =>
    obtain ⟨kv, hkv, hobj⟩ | hchanges := husable
    · rw [← stored_instant] at hkv
      exact phaseSound_begin_some le_rfl hkv hobj (.inl rfl)
    · obtain ⟨i, kv, hkv, hobj⟩ := hver obj rfl
      have hi : i ≤ sys.instant := by
        by_contra hlt
        rw [stored_eq_none (Nat.lt_of_not_le hlt)] at hkv
        cases hkv
      exact phaseSound_begin_some hi hkv hobj (.inr hchanges)

theorem Sound.step [DecidableEq Bytes] {op : Op Body Err} (hsound : sys.Sound codec)
    (husable : sys.SuggestionUsable codec op) (hstep : Step codec sys op target) :
    target.Sound codec := by
  cases hstep with
  | create => exact hsound.write (Etcd.next_create codec _ _ _ _)
  | delete | expire => exact hsound.write (Etcd.next_delete _ _)
  | update _ hver => exact hsound.setUpdate _ le_rfl (phaseSound_begin hver husable)
  | read hcall | conflict hcall =>
    have hstart := (hsound.updates _ _ hcall).1
    exact hsound.setUpdate _ hstart (phaseSound_restore hstart)
  | attempt hcall hphase =>
    obtain ⟨hstart, hcallSound⟩ := hsound.updates _ _ hcall
    rw [hphase] at hcallSound
    exact hsound.setUpdate _ hstart (phaseSound_attempt hcallSound)
  | @commit number call st data ttl hcall hphase hrev =>
    obtain ⟨hstart, hcallSound⟩ := hsound.updates _ _ hcall
    rw [hphase] at hcallSound
    have hnext := sys.etcd.next_put call.req.key data (ttl ≠ 0)
    exact (hsound.write hnext).setUpdate _ (hstart.trans (extends_write hnext).instant_le)
      (phaseSound_commit hsound.versioned hstart hcallSound hrev _)
  | fail hcall =>
    have hstart := (hsound.updates _ _ hcall).1
    exact hsound.setUpdate _ hstart ⟨le_rfl, fun hrejection ↦ nomatch hrejection⟩
  | @commitUnheard number call st data ttl hcall =>
    have hstart := (hsound.updates _ _ hcall).1
    have hnext := sys.etcd.next_put call.req.key data (ttl ≠ 0)
    exact (hsound.write hnext).setUpdate _ (hstart.trans (extends_write hnext).instant_le)
      ⟨(instant_write _ _).ge, fun hrejection ↦ nomatch hrejection⟩
  | conditionalDelete | readDelete | conflictDelete | failDelete => exact hsound.setDelete _ _ _
  | commitDelete | commitDeleteUnheard =>
    exact (hsound.write (Etcd.next_delete _ _)).setDelete _ _ _

end System

end Calls

variable [Inhabited Body] [DecidableEq Bytes] {codec : Codec Body Bytes}
variable {sys : System Body Bytes Err}

def Reachable (codec : Codec Body Bytes) (sys : System Body Bytes Err) : Prop :=
  Transition.Reachable IsInitial (Step codec) sys

def ReachableUsable (codec : Codec Body Bytes) (sys : System Body Bytes Err) : Prop :=
  Transition.Reachable IsInitial (guarded (System.SuggestionUsable codec) (Step codec)) sys

theorem ReachableUsable.sound (hreach : ReachableUsable codec sys) : sys.Sound codec := by
  refine Transition.Reachable.invariant ?_ ?_ hreach
  · intro first hinit
    refine ⟨hinit.versioned, ?_⟩
    obtain ⟨etcd, rfl⟩ := hinit
    intro number call hcall
    cases hcall
  · intro before op after _ hsound hstep
    exact hsound.step hstep.1 hstep.2

/-- Every update that has returned answers for an instant of the call, if suggestions are
usable. -/
theorem ReachableUsable.update_answers (hreach : ReachableUsable codec sys) {number : ℕ}
    {call : UpdateCall Body Bytes Err} {outcome : Outcome Body Err} {stop : ℕ}
    (hcall : sys.updates.lookup number = some call)
    (hret : call.phase = .returned outcome stop) :
    sys.Answers codec call.req call.start stop outcome := by
  have hphase := (hreach.sound.updates number call hcall).2
  rw [hret] at hphase
  exact hphase.2

/-! ## Two runs -/

def uidCodec : Codec Unit String where
  encode obj := .ok obj.uid
  decode value := .ok ⟨value, "", ()⟩
  roundTrip := by
    intro value obj data hdecode hencode
    cases hdecode
    cases hencode
    rfl

def emptySystem : System Unit String String := ⟨⟨∅, 1, fun _ _ hkv ↦ nomatch hkv⟩, [], ∅, ∅⟩

def createdSystem : System Unit String String :=
  emptySystem.write
    (create uidCodec emptySystem.etcd "web" ⟨"a", "", ()⟩ 0 : Etcd String × Outcome Unit String).1

def createdObject : Object Unit := ⟨"a", "2", ()⟩

def renameRequest : UpdateRequest Unit String :=
  ⟨"web", false, none, fun obj _ ↦ .ok ({ obj with uid := "b" }, none)⟩

theorem createdObject_isVersion :
    createdSystem.stored 1 "web" = some ⟨"a", 2, false⟩ ∧ DecodesTo uidCodec "a" 2 createdObject :=
  ⟨rfl, ⟨"a", "", ()⟩, rfl, rfl⟩

def createdState : ObjState Unit String := ⟨createdObject, ⟨0, 2⟩, 2, some "a"⟩

theorem createdSystem_reachable : ReachableUsable uidCodec createdSystem := by
  have hempty : ReachableUsable uidCodec emptySystem := .start ⟨emptySystem.etcd, rfl⟩
  have hcreate : Step uidCodec emptySystem (.create "web" ⟨"a", "", ()⟩ 0) createdSystem := .create
  exact hempty.guardedNext hcreate trivial

/-- An update with a current suggestion stores and returns the changed object. -/
theorem rename_answers :
    ∃ (sys : System Unit String String) (call : UpdateCall Unit String String),
      ReachableUsable uidCodec sys ∧ sys.updates.lookup 0 = some call ∧
        call.phase = .returned (.ok ⟨"b", "3", ()⟩) 2 ∧
        sys.Answers uidCodec call.req call.start 2 (.ok ⟨"b", "3", ()⟩) := by
  let call : UpdateCall Unit String String := ⟨renameRequest, 1, .reading⟩
  let begun := createdSystem.setUpdate 0 call (.attempting createdState)
  let proposed := begun.setUpdate 0 call (.committing createdState "b" 0)
  let written := proposed.write (proposed.etcd.put "web" "b" false)
  let returned := written.setUpdate 0 call
    (.returned (decode uidCodec "b" (proposed.etcd.revision + 1)) 2)
  have hout : (decode uidCodec "b" (proposed.etcd.revision + 1) : Outcome Unit String) =
      .ok ⟨"b", "3", ()⟩ := by
    have hrevision : proposed.etcd.revision = 2 := rfl
    rw [hrevision]
    rfl
  have hbegin : Step uidCodec createdSystem (.update 0 renameRequest (some createdObject))
      begun := by
    refine .update notMem_empty ?_
    intro obj hobj
    cases hobj
    exact ⟨1, _, createdObject_isVersion⟩
  have hattempt : Step uidCodec begun (.attempt 0) proposed :=
    @Step.attempt Unit String String _ _ uidCodec begun 0
      { call with phase := .attempting createdState } createdState (lookup_insert _) rfl
  have hcommit : Step uidCodec proposed (.commit 0) returned :=
    @Step.commit Unit String String _ _ uidCodec proposed 0
      { call with phase := .committing createdState "b" 0 } createdState "b" 0
      (lookup_insert _) rfl rfl
  have hcur : createdSystem.SuggestionUsable uidCodec
      (.update 0 renameRequest (some createdObject)) :=
    .inl ⟨_, createdObject_isVersion⟩
  have hreach : ReachableUsable uidCodec returned :=
    ((createdSystem_reachable.guardedNext hbegin hcur).guardedNext hattempt
      trivial).guardedNext hcommit trivial
  have hcall : returned.updates.lookup 0 = some _ := lookup_insert _
  have hphase : UpdatePhase.returned (decode uidCodec "b" (proposed.etcd.revision + 1)) 2 =
      (.returned (.ok ⟨"b", "3", ()⟩) 2 : UpdatePhase Unit String String) := by
    rw [hout]
  exact ⟨returned, _, hreach, hcall, hphase, hreach.update_answers hcall hphase⟩

/-- The object with UID `a` has been deleted and the one with UID `b` created. -/
def recreatedSystem : System Unit String String :=
  let deleted := createdSystem.write
    (unconditionalDelete uidCodec createdSystem.etcd "web" : Etcd String × Outcome Unit String).1
  deleted.write
    (create uidCodec deleted.etcd "web" ⟨"b", "", ()⟩ 0 : Etcd String × Outcome Unit String).1

def touchRequest : UpdateRequest Unit String :=
  ⟨"web", false, some ⟨some "b"⟩, fun obj _ ↦ .ok (obj, none)⟩

/-- An update that demands UID `b` is rejected because of a suggestion with UID `a`, although only
`b` is stored during the call. -/
theorem stale_suggestion_rejected :
    ∃ (sys : System Unit String String) (call : UpdateCall Unit String String)
      (err : StoreError String),
      Reachable uidCodec sys ∧ sys.updates.lookup 0 = some call ∧
        call.phase = .returned (.error err) 3 ∧ call.start = 3 ∧
        sys.stored 3 call.req.key = some ⟨"b", 4, false⟩ ∧
        call.req.apply uidCodec (sys.stored 3 call.req.key) = .ok ("b", 0) ∧
        ¬sys.Answers uidCodec call.req call.start 3 (.error err) := by
  let call : UpdateCall Unit String String := ⟨touchRequest, 3, .reading⟩
  let err : StoreError String := .invalidObj "web"
    "Precondition failed: UID in precondition: b, UID in object meta: a"
  let deleted := createdSystem.write
    (unconditionalDelete uidCodec createdSystem.etcd "web" : Etcd String × Outcome Unit String).1
  let begun := recreatedSystem.setUpdate 0 call (.attempting createdState)
  let returned := begun.setUpdate 0 call (.returned (.error err) 3)
  have hdelete : Step uidCodec createdSystem (.delete "web") deleted := .delete
  have hcreate : Step uidCodec deleted (.create "web" ⟨"b", "", ()⟩ 0) recreatedSystem := .create
  have hbegin : Step uidCodec recreatedSystem (.update 0 touchRequest (some createdObject))
      begun := by
    refine .update notMem_empty ?_
    intro obj hobj
    cases hobj
    exact ⟨1, ⟨"a", 2, false⟩, rfl, createdObject_isVersion.2⟩
  have hattempt : Step uidCodec begun (.attempt 0) returned :=
    @Step.attempt Unit String String _ _ uidCodec begun 0
      { call with phase := .attempting createdState } createdState (lookup_insert _) rfl
  have hreach : Reachable uidCodec returned :=
    .next (.next (.next (.next createdSystem_reachable.of_guarded hdelete) hcreate) hbegin)
      hattempt
  have happly : touchRequest.apply uidCodec (returned.stored 3 "web") = .ok ("b", 0) := by
    rfl
  refine ⟨returned, _, err, hreach, lookup_insert _, rfl, rfl, rfl, happly, ?_⟩
  intro hanswers
  obtain ⟨i, hstart, hstop, hrejected⟩ := hanswers rfl
  have hi : i = 3 := le_antisymm hstop hstart
  subst hi
  cases happly.symm.trans hrejected
end Kubernetes.Storage.Etcd3

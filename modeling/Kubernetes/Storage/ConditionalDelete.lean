import Kubernetes.Storage.GuaranteedUpdate

/-!
# A conditional delete removes what it has checked

`conditionalDelete` checks an object and then removes the key, if its revision is still that of the
object.  In every run, whatever happens meanwhile, a deletion that succeeds has removed the object
that it returns while it ran, and this object meets the preconditions.
-/

namespace Kubernetes.Storage.Etcd3

open Etcd3.System

variable {Body Bytes Err : Type} {codec : Codec Body Bytes} {sys target : System Body Bytes Err}
  {key : String} {preconditions : Preconditions} {call : DeleteCall Body Bytes Err}
  {phase : DeletePhase Body Bytes Err}

def Preconditions.Accepts (preconditions : Preconditions) (obj : Object Body) : Prop :=
  ∀ uid, preconditions.uid = some uid → uid = obj.uid

theorem Preconditions.Accepts.of_check {obj : Object Body}
    (hcheck : (checkPreconditions key (some preconditions) obj : Except (StoreError Err) Unit) =
      .ok ()) : preconditions.Accepts obj := by
  obtain ⟨_ | uid⟩ := preconditions
  · exact fun _ huid ↦ by cases huid
  · rw [checkPreconditions] at hcheck
    split_ifs at hcheck with heq
    exact fun _ huid ↦ Option.some.inj huid ▸ heq

/-- At some instant of the call the object is stored, and the next change removes it. -/
def System.Removes (codec : Codec Body Bytes) (sys : System Body Bytes Err)
    (call : DeleteCall Body Bytes Err) (out : Object Body) : Prop :=
  call.latest ≤ sys.instant ∧ ∃ i, call.start ≤ i ∧ i < call.latest ∧
    (∃ kv, sys.stored i call.key = some kv ∧ DecodesTo codec kv.value kv.modRevision out) ∧
    sys.stored (i + 1) call.key = none

variable [Inhabited Body]

/-- A transaction is about an object that was stored and checked. -/
def System.DeleteSound (codec : Codec Body Bytes) (sys : System Body Bytes Err)
    (call : DeleteCall Body Bytes Err) : Prop :=
  call.start ≤ sys.instant ∧
    match call.phase with
    | .committing st => call.preconditions.Accepts st.obj ∧ ∃ i ≤ sys.instant,
        getState codec call.key false (sys.stored i call.key) =
          (.ok st : Except (StoreError Err) (ObjState Body Bytes))
    | .returned (.ok out) => call.preconditions.Accepts out ∧ sys.Removes codec call out
    | _ => True

theorem System.DeleteSound.extend (hsound : sys.DeleteSound codec call)
    (h : sys.Extends target) : target.DeleteSound codec call := by
  obtain ⟨key, preconditions, phase, start, latest⟩ := call
  obtain ⟨hstart, hsound⟩ := hsound
  refine ⟨hstart.trans h.instant_le, ?_⟩
  cases phase with
  | reading => trivial
  | committing st =>
    obtain ⟨haccepts, i, hi, hst⟩ := hsound
    exact ⟨haccepts, i, hi.trans h.instant_le, by rwa [h.stored_eq hi]⟩
  | returned outcome =>
    cases outcome with
    | error err => trivial
    | ok out =>
      obtain ⟨haccepts, hlatest, i, hi, hlt, hstored, hgone⟩ := hsound
      refine ⟨haccepts, hlatest.trans h.instant_le, i, hi, hlt, ?_, ?_⟩
      · rwa [h.stored_eq (hlt.le.trans hlatest)]
      · rwa [h.stored_eq (Nat.lt_of_lt_of_le hlt hlatest)]

theorem deleteSound_check (hstart : call.start ≤ sys.instant) (latest : ℕ) :
    sys.DeleteSound codec { call with
      phase := call.check codec (sys.etcd.kvs.lookup call.key), latest := latest } := by
  refine ⟨hstart, ?_⟩
  dsimp only
  rw [← stored_instant, DeleteCall.check]
  cases hst : (getState codec call.key false (sys.stored sys.instant call.key) :
    Except (StoreError Err) (ObjState Body Bytes)) with
  | error err => trivial
  | ok st =>
    cases hcheck : (checkPreconditions call.key (some call.preconditions) st.obj :
      Except (StoreError Err) Unit) with
    | error err => simp only [hcheck]
    | ok =>
      simp only [hcheck]
      exact ⟨.of_check hcheck, _, le_rfl, hst⟩

/-- Revisions do not repeat, so the transaction removes the object that was checked. -/
theorem deleteSound_commit {st : ObjState Body Bytes} {data : Bytes} (hver : sys.Versioned)
    (hsound : sys.DeleteSound codec call) (hphase : call.phase = .committing st)
    (hrev : sys.etcd.modRevision call.key = st.rev) (hdata : st.data = some data) :
    (sys.write (sys.etcd.delete call.key)).DeleteSound codec { call with
      phase := .returned (decode codec data st.rev), latest := sys.instant + 1 } := by
  rw [DeleteSound, hphase] at hsound
  obtain ⟨hstart, haccepts, i, hi, hst⟩ := hsound
  have hbacked : sys.Backed codec ⟨call.key, false, none, fun obj _ ↦ .ok (obj, none)⟩ st i :=
    .of_getState hi hst
  have hnow := hbacked.stored_eq hver hrev
  obtain ⟨hvalue, hstrev, hobj⟩ := getState_eq_ok hst
  obtain ⟨kv, hkv, rfl⟩ := Option.map_eq_some_iff.mp (hvalue.symm.trans hdata)
  rw [hkv] at hstrev hnow
  rw [hstrev, Option.elim_some, decode_eq_ok_iff.mpr (hobj kv hkv)]
  have hinstant := instant_write sys (sys.etcd.delete call.key)
  refine ⟨hstart.trans (hinstant.ge.trans' (Nat.le_succ _)), haccepts, hinstant.ge, sys.instant,
    hstart, Nat.lt_succ_self _, ⟨kv, ?_, hobj kv hkv⟩, ?_⟩
  · rw [(extends_write (Etcd.next_delete _ _)).stored_eq le_rfl]
    exact hnow
  · rw [← hinstant, stored_instant]
    exact Finmap.lookup_erase _ _

structure System.DeletesSound (codec : Codec Body Bytes) (sys : System Body Bytes Err) :
    Prop where
  versioned : sys.Versioned
  deletes : ∀ number call, sys.deletes.lookup number = some call →
    sys.DeleteSound codec call

namespace System.DeletesSound

variable (hsound : sys.DeletesSound codec)

include hsound

theorem extend (h : sys.Extends target) (hdeletes : target.deletes = sys.deletes) :
    target.DeletesSound codec where
  versioned := hsound.versioned.extend h
  deletes number call hcall := (hsound.deletes number call (hdeletes ▸ hcall)).extend h

theorem setDelete (number : ℕ)
    (hcall : sys.DeleteSound codec { call with phase := phase, latest := sys.instant }) :
    (sys.setDelete number call phase).DeletesSound codec := by
  have hextends : sys.Extends (sys.setDelete number call phase) := .inl ⟨rfl, rfl⟩
  refine ⟨hsound.versioned.extend hextends, ?_⟩
  apply Map.forall_lookup_insert
  · exact fun number' call' hcall' ↦ (hsound.deletes number' call' hcall').extend hextends
  · exact hcall.extend hextends

theorem step [DecidableEq Bytes] {op : Op Body Err} (hstep : Step codec sys op target) :
    target.DeletesSound codec := by
  have hdelete (key : String) : (sys.write (sys.etcd.delete key)).DeletesSound codec :=
    hsound.extend (extends_write (Etcd.next_delete _ _)) rfl
  cases hstep with
  | create => exact hsound.extend (extends_write (Etcd.next_create codec _ _ _ _)) rfl
  | delete | expire => exact hdelete _
  | commit | commitUnheard => exact hsound.extend (extends_write (Etcd.next_put _ _ _ _)) rfl
  | conditionalDelete => exact hsound.setDelete _ ⟨le_rfl, trivial⟩
  | failDelete hcall => exact hsound.setDelete _ ⟨(hsound.deletes _ _ hcall).1, trivial⟩
  | readDelete hcall | conflictDelete hcall =>
    exact hsound.setDelete _ (deleteSound_check (hsound.deletes _ _ hcall).1 _)
  | commitDelete hcall hphase hrev hdata =>
    have hcommit := deleteSound_commit hsound.versioned (hsound.deletes _ _ hcall) hphase hrev hdata
    rw [← instant_write sys] at hcommit
    exact (hdelete _).setDelete _ hcommit
  | commitDeleteUnheard hcall =>
    exact (hdelete _).setDelete _ ⟨((hdelete _).deletes _ _ hcall).1, trivial⟩
  | _ => exact hsound.extend (.inl ⟨rfl, rfl⟩) rfl

end System.DeletesSound

variable [DecidableEq Bytes]

/-- In every run, a deletion that has returned an object has removed it while it ran, and the object
meets the preconditions. -/
theorem Reachable.delete_removes (hreach : Reachable codec sys) {number : ℕ} {out : Object Body}
    (hcall : sys.deletes.lookup number = some call) (hret : call.phase = .returned (.ok out)) :
    call.preconditions.Accepts out ∧ sys.Removes codec call out := by
  have hsound : sys.DeletesSound codec := by
    refine Transition.Reachable.invariant ?_ (fun _ _ _ _ hsound hstep ↦ hsound.step hstep) hreach
    intro first hinit
    refine ⟨hinit.versioned, ?_⟩
    obtain ⟨etcd, rfl⟩ := hinit
    intro number call hcall
    cases hcall
  have hphase := (hsound.deletes number call hcall).2
  rw [hret] at hphase
  exact hphase

/-- The created object is deleted by its UID. -/
theorem created_object_removed :
    ∃ (sys : System Unit String String) (call : DeleteCall Unit String String),
      Reachable uidCodec sys ∧ sys.deletes.lookup 0 = some call ∧
        call.phase = .returned (.ok createdObject) ∧ call.preconditions.Accepts createdObject ∧
        sys.Removes uidCodec call createdObject := by
  let call (phase : DeletePhase Unit String String) : DeleteCall Unit String String :=
    ⟨"web", ⟨some "a"⟩, phase, 1, 1⟩
  let begun := createdSystem.setDelete 0 (call .reading) .reading
  let found := (call .reading).check uidCodec (begun.etcd.kvs.lookup "web")
  let checked := begun.setDelete 0 (call .reading) found
  let returned := (checked.write (checked.etcd.delete "web")).setDelete 0 (call found)
    (.returned (decode uidCodec "a" 2))
  have hkv : begun.etcd.kvs.lookup "web" = some ⟨"a", 2, false⟩ := rfl
  have hfound : found = .committing createdState :=
    (congrArg ((call .reading).check uidCodec) hkv).trans rfl
  have hbegin : Step uidCodec createdSystem (.conditionalDelete 0 "web" ⟨some "a"⟩) begun :=
    .conditionalDelete Finmap.notMem_empty
  have hread : Step uidCodec begun (.readDelete 0) checked :=
    @Step.readDelete Unit String String _ _ uidCodec begun 0 (call .reading)
      (Finmap.lookup_insert _) rfl
  have hcommit : Step uidCodec checked (.commitDelete 0) returned :=
    @Step.commitDelete Unit String String _ _ uidCodec checked 0 (call found) createdState "a"
      (Finmap.lookup_insert _) hfound rfl rfl
  have hreach : Reachable uidCodec returned :=
    ((createdSystem_reachable.of_guarded.next hbegin).next hread).next hcommit
  have hcall : returned.deletes.lookup 0 =
      some { call (.returned (.ok createdObject)) with latest := 2 } :=
    Finmap.lookup_insert _
  exact ⟨returned, _, hreach, hcall, rfl, hreach.delete_removes hcall rfl⟩

end Kubernetes.Storage.Etcd3

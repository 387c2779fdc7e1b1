import Kubernetes.Storage.Etcd3Store

/-!
# Updates and the history of etcd

A call of `GuaranteedUpdate` answers for an instant if its outcome is that of the precondition and
of the caller's function on the object stored then.  Revisions never repeat, so a transaction that
compares the revision of a key succeeds only on the very object that the call has seen.
-/

namespace Kubernetes.Storage.Etcd3

variable {Body Bytes Err : Type}

/-- At one change of etcd a key keeps its entry, loses it, or gets one with a new revision. -/
structure Etcd.Next (etcd target : Etcd Bytes) : Prop where
  revision_le : etcd.revision ≤ target.revision
  lookup : ∀ key kv, target.kvs.lookup key = some kv →
    etcd.kvs.lookup key = some kv ∨ etcd.revision < kv.modRevision

variable {key : String}

namespace Etcd

theorem Next.refl (etcd : Etcd Bytes) : etcd.Next etcd := ⟨le_rfl, fun _ _ hkv ↦ .inl hkv⟩

theorem next_put (etcd : Etcd Bytes) (key : String) (value : Bytes) (leased : Bool) :
    etcd.Next (etcd.put key value leased) where
  revision_le := Nat.le_succ _
  lookup := Map.forall_lookup_insert (fun _ _ ↦ .inl) (.inr (Nat.lt_succ_self _))

theorem next_delete (etcd : Etcd Bytes) (key : String) : etcd.Next (etcd.delete key) where
  revision_le := by
    rw [delete]
    split_ifs
    · exact Nat.le_succ _
    · exact le_rfl
  lookup := Map.forall_lookup_erase fun _ _ ↦ .inl

theorem next_create (codec : Codec Body Bytes) (etcd : Etcd Bytes) (key : String)
    (obj : Object Body) (ttl : UInt64) :
    etcd.Next (create codec etcd key obj ttl : Etcd Bytes × Outcome Body Err).1 := by
  rw [create]
  split_ifs
  · exact .refl etcd
  · cases codec.encode obj with
    | error err => exact .refl etcd
    | ok data => exact next_put etcd key data _
  · cases codec.encode obj <;> exact .refl etcd

/-- A comparison reads revision zero only for a missing key. -/
theorem lookup_eq_none {etcd : Etcd Bytes} (hrev : etcd.modRevision key = 0) :
    etcd.kvs.lookup key = none := by
  cases hkv : etcd.kvs.lookup key with
  | none => rfl
  | some kv =>
    have hpos := (etcd.modRevision_mem key kv hkv).1
    rw [modRevision, hkv] at hrev
    exact absurd hrev hpos.ne'

end Etcd

namespace System

variable {sys target : System Body Bytes Err}

@[simp]
theorem stored_instant (sys : System Body Bytes Err) (key : String) :
    sys.stored sys.instant key = sys.etcd.kvs.lookup key := by
  simp [stored, instant]

/-- The history of the second system is that of the first one, or prolongs it by one change. -/
def Extends (sys target : System Body Bytes Err) : Prop :=
  (target.etcd = sys.etcd ∧ target.past = sys.past) ∨
    (sys.etcd.Next target.etcd ∧ target.past = sys.past ++ [sys.etcd])

theorem Extends.instant_le (h : sys.Extends target) : sys.instant ≤ target.instant := by
  obtain ⟨-, hpast⟩ | ⟨-, hpast⟩ := h
  · rw [instant, instant, hpast]
  · rw [instant, instant, hpast, List.length_append]
    exact Nat.le_add_right _ _

theorem Extends.stored_eq (h : sys.Extends target) {i : ℕ} (hi : i ≤ sys.instant) (key : String) :
    target.stored i key = sys.stored i key := by
  obtain ⟨hetcd, hpast⟩ | ⟨-, hpast⟩ := h
  · rw [stored, stored, hetcd, hpast]
  · have hlt : i < (sys.past ++ [sys.etcd]).length := by
      rw [List.length_append]
      exact Nat.lt_succ_of_le hi
    rw [stored, stored, hpast, List.getElem?_append_left hlt]

theorem stored_eq_none {i : ℕ} (hi : sys.instant < i) (key : String) : sys.stored i key = none := by
  have hlen : (sys.past ++ [sys.etcd]).length ≤ i := by
    rw [List.length_append]
    exact hi
  rw [stored, List.getElem?_eq_none hlen, Option.bind_none]

theorem Extends.stored_cases (h : sys.Extends target) {i : ℕ} {kv : KeyValue Bytes}
    (hkv : target.stored i key = some kv) :
    (∃ j, sys.stored j key = some kv) ∨
      (sys.etcd.revision < kv.modRevision ∧ target.etcd.kvs.lookup key = some kv) := by
  by_cases hi : i ≤ sys.instant
  · rw [h.stored_eq hi] at hkv
    exact .inl ⟨i, hkv⟩
  · have hlast : i = target.instant := by
      by_contra hne
      have hle : target.instant ≤ sys.instant + 1 := by
        obtain ⟨-, hpast⟩ | ⟨-, hpast⟩ := h
        · rw [instant, hpast]
          exact Nat.le_succ _
        · rw [instant, hpast, List.length_append]
          exact le_rfl
      rw [stored_eq_none (by omega)] at hkv
      cases hkv
    rw [hlast, stored_instant] at hkv
    obtain ⟨hetcd, hpast⟩ | ⟨hnext, -⟩ := h
    · rw [hetcd, ← stored_instant] at hkv
      exact .inl ⟨_, hkv⟩
    · obtain hold | hnew := hnext.lookup key kv hkv
      · rw [← stored_instant] at hold
        exact .inl ⟨_, hold⟩
      · exact .inr ⟨hnew, hkv⟩

/-- The revisions of the entries are positive and etcd has gone through them, and they tell the
entries of a key apart. -/
structure Versioned (sys : System Body Bytes Err) : Prop where
  pos : ∀ {i : ℕ} {key : String} {kv : KeyValue Bytes}, sys.stored i key = some kv →
    0 < kv.modRevision
  le : ∀ {i : ℕ} {key : String} {kv : KeyValue Bytes}, sys.stored i key = some kv →
    kv.modRevision ≤ sys.etcd.revision
  unique : ∀ {i j : ℕ} {key : String} {kv kv' : KeyValue Bytes}, sys.stored i key = some kv →
    sys.stored j key = some kv' → kv.modRevision = kv'.modRevision → kv = kv'

theorem Versioned.extend (hversioned : sys.Versioned) (h : sys.Extends target) :
    target.Versioned where
  pos := by
    intro i key kv hkv
    obtain ⟨j, hold⟩ | ⟨-, hnew⟩ := h.stored_cases hkv
    · exact hversioned.pos hold
    · exact (target.etcd.modRevision_mem key kv hnew).1
  le := by
    intro i key kv hkv
    obtain ⟨j, hold⟩ | ⟨-, hnew⟩ := h.stored_cases hkv
    · have hle := hversioned.le hold
      obtain ⟨hetcd, -⟩ | ⟨hnext, -⟩ := h
      · rw [hetcd]
        exact hle
      · exact hle.trans hnext.revision_le
    · exact (target.etcd.modRevision_mem key kv hnew).2
  unique := by
    intro i j key kv kv' hkv hkv' heq
    obtain ⟨_, hold⟩ | ⟨hlt, hnew⟩ := h.stored_cases hkv
    · obtain ⟨_, hold'⟩ | ⟨hlt', -⟩ := h.stored_cases hkv'
      · exact hversioned.unique hold hold' heq
      · have hle := hversioned.le hold
        omega
    · obtain ⟨_, hold'⟩ | ⟨-, hnew'⟩ := h.stored_cases hkv'
      · have hle := hversioned.le hold'
        omega
      · exact Option.some.inj (hnew.symm.trans hnew')

end System

section Outcomes

variable [Inhabited Body] (codec : Codec Body Bytes)

def UpdateRequest.apply (req : UpdateRequest Body Err) (kv : Option (KeyValue Bytes)) :
    Except (StoreError Err) (Bytes × UInt64) :=
  match getState codec req.key req.ignoreNotFound kv with
  | .error err => .error err
  | .ok st => propose codec req st

section

variable (kv : Option (KeyValue Bytes)) (data : Bytes) (out : Object Body)

/-- The stored object is the one the update asks for and the one returned. -/
def Keeps : Prop :=
  ∃ entry, kv = some entry ∧ DecodesTo codec entry.value entry.modRevision out ∧
    DecodesTo codec data entry.modRevision out

/-- What the update asks for is stored, and the stored object is the one returned. -/
def Stores : Prop :=
  ∃ entry, kv = some entry ∧ entry.value = data ∧ DecodesTo codec entry.value entry.modRevision out

end

/-- The outcome is that for what is stored at some instant from `start` to `stop`: a rejection of
that object, or the returned object, which was stored already or by the next change. -/
def System.Answers (sys : System Body Bytes Err) (req : UpdateRequest Body Err)
    (start stop : ℕ) : Outcome Body Err → Prop
  | .error err => err.isRejection = true →
      ∃ i, start ≤ i ∧ i ≤ stop ∧ req.apply codec (sys.stored i req.key) = .error err
  | .ok out => ∃ i, start ≤ i ∧ i ≤ stop ∧ ∃ data ttl,
      req.apply codec (sys.stored i req.key) = .ok (data, ttl) ∧
        (Keeps codec (sys.stored i req.key) data out ∨
          (i < stop ∧ Stores codec (sys.stored (i + 1) req.key) data out))

variable {codec} {sys target : System Body Bytes Err} {req : UpdateRequest Body Err}

theorem System.Answers.extend {start stop : ℕ} {outcome : Outcome Body Err}
    (hanswers : sys.Answers codec req start stop outcome) (h : sys.Extends target)
    (hstop : stop ≤ sys.instant) : target.Answers codec req start stop outcome := by
  cases outcome with
  | error err =>
    intro hrejection
    obtain ⟨i, hstart, hi, happly⟩ := hanswers hrejection
    refine ⟨i, hstart, hi, ?_⟩
    rw [h.stored_eq (hi.trans hstop)]
    exact happly
  | ok out =>
    obtain ⟨i, hstart, hi, data, ttl, happly, hres⟩ := hanswers
    refine ⟨i, hstart, hi, data, ttl, ?_, ?_⟩
    · rw [h.stored_eq (hi.trans hstop)]
      exact happly
    · obtain hkeeps | ⟨hlt, hstores⟩ := hres
      · rw [h.stored_eq (hi.trans hstop)]
        exact .inl hkeeps
      · rw [h.stored_eq (Nat.succ_le_of_lt hlt |>.trans hstop)]
        exact .inr ⟨hlt, hstores⟩

theorem getState_eq_ok {ignoreNotFound : Bool} {kv : Option (KeyValue Bytes)}
    {st : ObjState Body Bytes} (hst : getState codec key ignoreNotFound kv =
      (.ok st : Except (StoreError Err) (ObjState Body Bytes))) :
    st.data = kv.map KeyValue.value ∧ st.rev = kv.elim 0 KeyValue.modRevision ∧
      ∀ entry, kv = some entry → DecodesTo codec entry.value entry.modRevision st.obj := by
  cases kv with
  | none =>
    rw [getState] at hst
    split_ifs at hst
    cases hst
    exact ⟨rfl, rfl, fun entry hentry ↦ nomatch hentry⟩
  | some kv =>
    rw [getState] at hst
    split at hst
    · cases hst
    · next _ hdecode =>
      cases hst
      refine ⟨rfl, rfl, ?_⟩
      intro entry hentry
      cases hentry
      exact decode_eq_ok_iff.mp hdecode

/-- The state of an attempt is what is stored at an instant, up to the encoding of the object. -/
structure System.Backed (codec : Codec Body Bytes) (sys : System Body Bytes Err)
    (req : UpdateRequest Body Err) (st : ObjState Body Bytes) (i : ℕ) : Prop where
  le : i ≤ sys.instant
  getState : (getState codec req.key req.ignoreNotFound (sys.stored i req.key) :
    Except (StoreError Err) (ObjState Body Bytes)) =
      .ok { st with data := (sys.stored i req.key).map KeyValue.value }
  data : ∀ data, st.data = some data →
    (sys.stored i req.key).isSome = true ∧ DecodesTo codec data st.rev st.obj

namespace System.Backed

variable {st : ObjState Body Bytes} {i : ℕ}

theorem extend (hbacked : sys.Backed codec req st i) (h : sys.Extends target) :
    target.Backed codec req st i where
  le := hbacked.le.trans h.instant_le
  getState := by
    rw [h.stored_eq hbacked.le]
    exact hbacked.getState
  data := by
    rw [h.stored_eq hbacked.le]
    exact hbacked.data

theorem apply_eq (hbacked : sys.Backed codec req st i) :
    req.apply codec (sys.stored i req.key) = propose codec req st := by
  rw [UpdateRequest.apply, hbacked.getState]
  rfl

theorem of_getState (hi : i ≤ sys.instant)
    (hst : Etcd3.getState codec req.key req.ignoreNotFound (sys.stored i req.key) =
      (.ok st : Except (StoreError Err) (ObjState Body Bytes))) :
    sys.Backed codec req st i := by
  obtain ⟨hdata, hrev, hobj⟩ := getState_eq_ok hst
  refine ⟨hi, ?_, ?_⟩
  · rw [hst, ← hdata]
  · intro data hsome
    rw [hdata, Option.map_eq_some_iff] at hsome
    obtain ⟨kv, hkv, rfl⟩ := hsome
    rw [hrev, hkv]
    exact ⟨rfl, hobj kv hkv⟩

theorem of_suggestion {kv : KeyValue Bytes} {obj : Object Body} (hi : i ≤ sys.instant)
    (hkv : sys.stored i req.key = some kv) (hobj : DecodesTo codec kv.value kv.modRevision obj)
    (hst : getStateFromObject codec obj =
      (.ok st : Except (StoreError Err) (ObjState Body Bytes))) :
    sys.Backed codec req st i := by
  obtain ⟨decoded, hdecoded, rfl⟩ := hobj
  have hdecode : (decode codec kv.value kv.modRevision : Outcome Body Err) =
      .ok (decoded.updateObject kv.modRevision) :=
    decode_eq_ok_iff.mpr ⟨decoded, hdecoded, rfl⟩
  rw [getStateFromObject] at hst
  cases hrv : (decoded.updateObject kv.modRevision).objectResourceVersion with
  | error err => simp [hrv] at hst
  | ok rv =>
    have hrev : rv = kv.modRevision := Object.objectResourceVersion_updateObject hrv
    cases hencode : codec.encode ((decoded.updateObject kv.modRevision).updateObject 0) with
    | error err =>
      rw [hrv, hencode] at hst
      cases hst
    | ok bytes =>
      rw [hrv, hencode, hrev] at hst
      cases hst
      refine ⟨hi, ?_, ?_⟩
      · simp only [hkv, Etcd3.getState, hdecode, Option.map_some,
          Object.updateObject_updateObject]
      · intro data hdata
        cases hdata
        rw [hkv]
        have hround := codec.roundTrip hdecoded hencode
        cases hback : codec.decode bytes with
        | error err =>
          rw [hback] at hround
          cases hround
        | ok back =>
          rw [hback] at hround
          have hzero : back.updateObject 0 = decoded.updateObject 0 := Except.ok.inj hround
          have hver := congrArg (Object.updateObject · kv.modRevision) hzero
          exact ⟨rfl, back, hback, hver⟩

/-- A comparison with the revision of the state succeeds only on what the state was read from. -/
theorem stored_eq (hbacked : sys.Backed codec req st i) (hversioned : sys.Versioned)
    (hrev : sys.etcd.modRevision req.key = st.rev) :
    sys.stored sys.instant req.key = sys.stored i req.key := by
  obtain ⟨-, hst, -⟩ := getState_eq_ok hbacked.getState
  rw [stored_instant]
  cases hkv : sys.stored i req.key with
  | none =>
    rw [hkv] at hst
    exact Etcd.lookup_eq_none (hrev.trans hst)
  | some kv =>
    rw [hkv] at hst
    have heq : sys.etcd.modRevision req.key = kv.modRevision := hrev.trans hst
    cases hnow : sys.etcd.kvs.lookup req.key with
    | none =>
      have hpos := hversioned.pos hkv
      rw [Etcd.modRevision, hnow] at heq
      exact absurd heq hpos.ne
    | some now =>
      rw [Etcd.modRevision, hnow] at heq
      rw [← stored_instant] at hnow
      rw [hversioned.unique hnow hkv heq]

end System.Backed

end Outcomes

end Kubernetes.Storage.Etcd3

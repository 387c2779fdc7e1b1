import Kubernetes.Basic.Decimal
import Kubernetes.Basic.Map

/-!
# The etcd3 store

`GuaranteedUpdate`, `Create` and `Delete` of any number of clients over one etcd.  Every request to
etcd is one step, and so is the work of a client between two requests.  A client's request may fail,
and a transaction may take effect although its client is told that it failed.
-/

namespace Kubernetes.Storage.Etcd3

variable {Body Bytes Err : Type}

/-- An API object: the metadata the store looks at, and the rest. -/
structure Object (Body : Type) where
  uid : String
  resourceVersion : String
  body : Body
  deriving DecidableEq, Repr

namespace Object

/-- Set the resource version; version zero is the empty text. -/
def updateObject (obj : Object Body) (resourceVersion : ℕ) : Object Body :=
  { obj with
    resourceVersion :=
      if resourceVersion = 0 then "" else String.ofList (Nat.toDigits 10 resourceVersion) }

def objectResourceVersion (obj : Object Body) : Except Decimal.NumError ℕ :=
  if obj.resourceVersion = "" then .ok 0
  else (Decimal.parseUint obj.resourceVersion).map UInt64.toNat

def zeroValue [Inhabited Body] : Object Body := ⟨"", "", default⟩

@[simp]
theorem updateObject_updateObject (obj : Object Body) (first second : ℕ) :
    (obj.updateObject first).updateObject second = obj.updateObject second :=
  rfl

theorem objectResourceVersion_updateObject {obj : Object Body} {version read : ℕ}
    (hread : (obj.updateObject version).objectResourceVersion = .ok read) : read = version := by
  by_cases hzero : version = 0
  · rw [objectResourceVersion, updateObject, if_pos hzero] at hread
    rw [hzero]
    exact (Except.ok.inj hread).symm
  · have hne : String.ofList (Nat.toDigits 10 version) ≠ "" := by
      simp
    simp only [objectResourceVersion, updateObject, if_neg hzero, if_neg hne, Decimal.parseUint,
      String.toList_ofList, Decimal.parseNat_toDigits] at hread
    split_ifs at hread with hlt
    · have hval : (UInt64.ofNat version).toNat = read := Except.ok.inj hread
      rw [← hval, UInt64.toNat_ofNat_of_lt' hlt]
    · cases hread

end Object

/-- The serializer of the store.  Encoding a decoded object without its version and decoding the
result gives the object back. -/
structure Codec (Body Bytes : Type) where
  encode : Object Body → Except String Bytes
  decode : Bytes → Except String (Object Body)
  roundTrip : ∀ {value : Bytes} {obj : Object Body} {data : Bytes}, decode value = .ok obj →
    encode (obj.updateObject 0) = .ok data →
    (decode data).map (Object.updateObject · 0) = .ok (obj.updateObject 0)

inductive StoreError (Err : Type)
  | keyNotFound (key : String)
  | keyExists (key : String)
  | invalidObj (key additionalErrorMsg : String)
  | tryUpdate (err : Err)
  | resourceVersion (err : Decimal.NumError)
  | resourceVersionSet
  | encode (err : String)
  | decode (err : String)
  | request
  deriving DecidableEq, Repr

/-- The errors by which an update says something about the object it found. -/
def StoreError.isRejection : StoreError Err → Bool
  | .keyNotFound _ | .invalidObj .. | .tryUpdate _ => true
  | _ => false

abbrev Outcome (Body Err : Type) := Except (StoreError Err) (Object Body)

def decode (codec : Codec Body Bytes) (value : Bytes) (rev : ℕ) : Outcome Body Err :=
  match codec.decode value with
  | .error err => .error (.decode err)
  | .ok obj => .ok (obj.updateObject rev)

/-- The bytes are an encoding of the object, up to its version. -/
def DecodesTo (codec : Codec Body Bytes) (value : Bytes) (rev : ℕ) (out : Object Body) : Prop :=
  ∃ obj, codec.decode value = .ok obj ∧ obj.updateObject rev = out

theorem decode_eq_ok_iff {codec : Codec Body Bytes} {value : Bytes} {rev : ℕ} {out : Object Body} :
    (decode codec value rev : Outcome Body Err) = .ok out ↔ DecodesTo codec value rev out := by
  cases hdecode : codec.decode value <;> simp [decode, DecodesTo, hdecode]

structure KeyValue (Bytes : Type) where
  value : Bytes
  modRevision : ℕ
  leased : Bool
  deriving DecidableEq, Repr

/-- The contents of etcd.  Every key was last changed at a revision that etcd has gone through. -/
structure Etcd (Bytes : Type) where
  kvs : Map String (KeyValue Bytes)
  revision : ℕ
  modRevision_mem : ∀ key kv, kvs.lookup key = some kv →
    0 < kv.modRevision ∧ kv.modRevision ≤ revision

namespace Etcd

/-- What a comparison of the revision of a key reads: zero for a missing key. -/
def modRevision (etcd : Etcd Bytes) (key : String) : ℕ :=
  (etcd.kvs.lookup key).elim 0 KeyValue.modRevision

def put (etcd : Etcd Bytes) (key : String) (value : Bytes) (leased : Bool) : Etcd Bytes where
  kvs := etcd.kvs.insert key ⟨value, etcd.revision + 1, leased⟩
  revision := etcd.revision + 1
  modRevision_mem := Map.forall_lookup_insert
    (fun key' kv hkv ↦ (etcd.modRevision_mem key' kv hkv).imp_right Nat.le_succ_of_le)
    ⟨Nat.succ_pos _, le_rfl⟩

/-- Delete a key; the revision grows if the key was there. -/
def delete (etcd : Etcd Bytes) (key : String) : Etcd Bytes where
  kvs := etcd.kvs.erase key
  revision := if key ∈ etcd.kvs then etcd.revision + 1 else etcd.revision
  modRevision_mem := by
    split_ifs
    · exact Map.forall_lookup_erase fun key' kv hkv ↦
        (etcd.modRevision_mem key' kv hkv).imp_right Nat.le_succ_of_le
    · exact Map.forall_lookup_erase etcd.modRevision_mem

end Etcd

/-! ## The pieces of the operations -/

structure ResponseMeta where
  ttl : ℤ
  resourceVersion : ℕ
  deriving DecidableEq, Repr

structure Preconditions where
  uid : Option String
  deriving DecidableEq, Repr

/-- The state an operation starts from.  A missing key has no data. -/
structure ObjState (Body Bytes : Type) where
  obj : Object Body
  responseMeta : ResponseMeta
  rev : ℕ
  data : Option Bytes
  deriving DecidableEq

def getState [Inhabited Body] (codec : Codec Body Bytes) (key : String) (ignoreNotFound : Bool)
    (kv : Option (KeyValue Bytes)) : Except (StoreError Err) (ObjState Body Bytes) :=
  match kv with
  | none =>
    if ignoreNotFound then .ok ⟨.zeroValue, ⟨0, 0⟩, 0, none⟩ else .error (.keyNotFound key)
  | some kv =>
    match decode codec kv.value kv.modRevision with
    | .error err => .error err
    | .ok obj => .ok ⟨obj, ⟨0, kv.modRevision⟩, kv.modRevision, some kv.value⟩

def getStateFromObject (codec : Codec Body Bytes) (obj : Object Body) :
    Except (StoreError Err) (ObjState Body Bytes) :=
  match obj.objectResourceVersion with
  | .error err => .error (.resourceVersion err)
  | .ok rv =>
    match codec.encode (obj.updateObject 0) with
    | .error err => .error (.encode err)
    | .ok data => .ok ⟨(obj.updateObject 0).updateObject rv, ⟨0, rv⟩, rv, some data⟩

def checkPreconditions (key : String) (preconditions : Option Preconditions)
    (obj : Object Body) : Except (StoreError Err) Unit :=
  match preconditions with
  | none | some ⟨none⟩ => .ok ()
  | some ⟨some uid⟩ =>
    if uid = obj.uid then .ok ()
    else
      let uidInMeta := obj.uid
      .error (.invalidObj key
        s!"Precondition failed: UID in precondition: {uid}, UID in object meta: {uidInMeta}")

structure UpdateRequest (Body Err : Type) where
  key : String
  ignoreNotFound : Bool
  preconditions : Option Preconditions
  tryUpdate : Object Body → ResponseMeta → Except Err (Object Body × Option UInt64)

def updateState (st : ObjState Body Bytes)
    (userUpdate : Object Body → ResponseMeta → Except Err (Object Body × Option UInt64)) :
    Except (StoreError Err) (Object Body × UInt64) :=
  match userUpdate st.obj st.responseMeta with
  | .error err => .error (.tryUpdate err)
  | .ok (ret, ttl) =>
    match ret.objectResourceVersion with
    | .error err => .error (.resourceVersion err)
    | .ok version =>
      .ok (if version ≠ 0 then ret.updateObject 0 else ret, ttl.getD 0)

def propose (codec : Codec Body Bytes) (req : UpdateRequest Body Err)
    (st : ObjState Body Bytes) : Except (StoreError Err) (Bytes × UInt64) :=
  match checkPreconditions req.key req.preconditions st.obj with
  | .error err => .error err
  | .ok () =>
    match updateState st req.tryUpdate with
    | .error err => .error err
    | .ok (ret, ttl) =>
      match codec.encode ret with
      | .error err => .error (.encode err)
      | .ok data => .ok (data, ttl)

section

variable (codec : Codec Body Bytes) (etcd : Etcd Bytes) (key : String)

/-- `Create`: the contents of etcd afterwards, and the result. -/
def create (obj : Object Body) (ttl : UInt64) : Etcd Bytes × Outcome Body Err :=
  if obj.objectResourceVersion.toOption.any (· ≠ 0) then (etcd, .error .resourceVersionSet)
  else
    match codec.encode obj with
    | .error err => (etcd, .error (.encode err))
    | .ok data =>
      if etcd.modRevision key = 0 then
        (etcd.put key data (ttl ≠ 0), decode codec data (etcd.revision + 1))
      else (etcd, .error (.keyExists key))

/-- `Delete` without preconditions: the contents of etcd afterwards, and the result. -/
def unconditionalDelete : Etcd Bytes × Outcome Body Err :=
  (etcd.delete key,
    match etcd.kvs.lookup key with
    | none => .error (.keyNotFound key)
    | some kv => decode codec kv.value kv.modRevision)

end

/-- Where a call of `GuaranteedUpdate` is, or the instant it returned at. -/
inductive UpdatePhase (Body Bytes Err : Type)
  | reading
  | attempting (st : ObjState Body Bytes)
  | committing (st : ObjState Body Bytes) (data : Bytes) (ttl : UInt64)
  | returned (outcome : Outcome Body Err) (stop : ℕ)

/-- A call of `GuaranteedUpdate` and the instant it was made at. -/
structure UpdateCall (Body Bytes Err : Type) where
  req : UpdateRequest Body Err
  start : ℕ
  phase : UpdatePhase Body Bytes Err

def UpdatePhase.begin (codec : Codec Body Bytes) (suggestion : Option (Object Body)) (instant : ℕ) :
    UpdatePhase Body Bytes Err :=
  match suggestion with
  | none => .reading
  | some obj =>
    match getStateFromObject codec obj with
    | .error err => .returned (.error err) instant
    | .ok st => .attempting st

namespace UpdateRequest

def restore [Inhabited Body] (codec : Codec Body Bytes) (req : UpdateRequest Body Err)
    (kv : Option (KeyValue Bytes)) (instant : ℕ) : UpdatePhase Body Bytes Err :=
  match getState codec req.key req.ignoreNotFound kv with
  | .error err => .returned (.error err) instant
  | .ok st => .attempting st

/-- The loop body up to the transaction. -/
def attempt [DecidableEq Bytes] (codec : Codec Body Bytes) (req : UpdateRequest Body Err)
    (st : ObjState Body Bytes) (instant : ℕ) : UpdatePhase Body Bytes Err :=
  match propose codec req st with
  | .error err => .returned (.error err) instant
  | .ok (data, ttl) =>
    if st.data = some data then .returned (decode codec data st.rev) instant
    else .committing st data ttl

end UpdateRequest

inductive DeletePhase (Body Bytes Err : Type)
  | reading
  | committing (st : ObjState Body Bytes)
  | returned (outcome : Outcome Body Err)

/-- A call with the instants of its start and of its latest step. -/
structure DeleteCall (Body Bytes Err : Type) where
  key : String
  preconditions : Preconditions
  phase : DeletePhase Body Bytes Err
  start : ℕ
  latest : ℕ

/-- The loop body of `conditionalDelete` up to the transaction. -/
def DeleteCall.check [Inhabited Body] (codec : Codec Body Bytes)
    (call : DeleteCall Body Bytes Err) (kv : Option (KeyValue Bytes)) :
    DeletePhase Body Bytes Err :=
  match getState codec call.key false kv with
  | .error err => .returned (.error err)
  | .ok st =>
    match checkPreconditions call.key (some call.preconditions) st.obj with
    | .error err => .returned (.error err)
    | .ok () => .committing st

/-! ## Clients and etcd together -/

/-- etcd with its earlier contents, and the calls that have been made. -/
structure System (Body Bytes Err : Type) where
  etcd : Etcd Bytes
  past : List (Etcd Bytes)
  updates : Map ℕ (UpdateCall Body Bytes Err)
  deletes : Map ℕ (DeleteCall Body Bytes Err)

namespace System

section

variable (sys : System Body Bytes Err)

def instant : ℕ := sys.past.length

def stored (instant : ℕ) (key : String) : Option (KeyValue Bytes) :=
  (sys.past ++ [sys.etcd])[instant]?.bind fun etcd ↦ etcd.kvs.lookup key

def write (etcd : Etcd Bytes) : System Body Bytes Err :=
  { sys with etcd := etcd, past := sys.past ++ [sys.etcd] }

def setUpdate (number : ℕ) (call : UpdateCall Body Bytes Err) (phase : UpdatePhase Body Bytes Err) :
    System Body Bytes Err :=
  { sys with updates := sys.updates.insert number { call with phase := phase } }

def setDelete (number : ℕ) (call : DeleteCall Body Bytes Err) (phase : DeletePhase Body Bytes Err) :
    System Body Bytes Err :=
  { sys with
    deletes := sys.deletes.insert number { call with phase := phase, latest := sys.instant } }

end

/-- The suggestion is a version of the key that was stored at some instant. -/
def IsVersion (codec : Codec Body Bytes) (sys : System Body Bytes Err) (key : String)
    (suggestion : Object Body) : Prop :=
  ∃ instant kv, sys.stored instant key = some kv ∧
    DecodesTo codec kv.value kv.modRevision suggestion

end System

/-- What a step does.  Calls of `GuaranteedUpdate` and of `Delete` with preconditions are
numbered. -/
inductive Op (Body Err : Type)
  | create (key : String) (obj : Object Body) (ttl : UInt64)
  | delete (key : String)
  | expire (key : String)
  | update (number : ℕ) (req : UpdateRequest Body Err) (suggestion : Option (Object Body))
  | read (number : ℕ)
  | attempt (number : ℕ)
  | commit (number : ℕ)
  | fail (number : ℕ)
  | commitUnheard (number : ℕ)
  | conditionalDelete (number : ℕ) (key : String) (preconditions : Preconditions)
  | readDelete (number : ℕ)
  | commitDelete (number : ℕ)
  | failDelete (number : ℕ)
  | commitDeleteUnheard (number : ℕ)

inductive Step [Inhabited Body] [DecidableEq Bytes] (codec : Codec Body Bytes)
    (sys : System Body Bytes Err) : Op Body Err → System Body Bytes Err → Prop
  | create {key : String} {obj : Object Body} {ttl : UInt64} :
      Step codec sys (.create key obj ttl)
        (sys.write (create codec sys.etcd key obj ttl : Etcd Bytes × Outcome Body Err).1)
  | delete {key : String} :
      Step codec sys (.delete key)
        (sys.write (unconditionalDelete codec sys.etcd key : Etcd Bytes × Outcome Body Err).1)
  | expire {key : String} {kv : KeyValue Bytes}
      (hkv : sys.etcd.kvs.lookup key = some kv) (hleased : kv.leased = true) :
      Step codec sys (.expire key) (sys.write (sys.etcd.delete key))
  | update {number : ℕ} {req : UpdateRequest Body Err}
      {suggestion : Option (Object Body)} (hnum : number ∉ sys.updates)
      (hver : ∀ obj, suggestion = some obj → sys.IsVersion codec req.key obj) :
      Step codec sys (.update number req suggestion)
        (sys.setUpdate number ⟨req, sys.instant, .reading⟩ (.begin codec suggestion sys.instant))
  | read {number : ℕ} {call : UpdateCall Body Bytes Err}
      (hcall : sys.updates.lookup number = some call) (hphase : call.phase = .reading) :
      Step codec sys (.read number)
        (sys.setUpdate number call
          (call.req.restore codec (sys.etcd.kvs.lookup call.req.key) sys.instant))
  | attempt {number : ℕ} {call : UpdateCall Body Bytes Err}
      {st : ObjState Body Bytes} (hcall : sys.updates.lookup number = some call)
      (hphase : call.phase = .attempting st) :
      Step codec sys (.attempt number)
        (sys.setUpdate number call (call.req.attempt codec st sys.instant))
  | commit {number : ℕ} {call : UpdateCall Body Bytes Err}
      {st : ObjState Body Bytes} {data : Bytes} {ttl : UInt64}
      (hcall : sys.updates.lookup number = some call)
      (hphase : call.phase = .committing st data ttl)
      (hrev : sys.etcd.modRevision call.req.key = st.rev) :
      Step codec sys (.commit number)
        ((sys.write (sys.etcd.put call.req.key data (ttl ≠ 0))).setUpdate number call
          (.returned (decode codec data (sys.etcd.revision + 1)) (sys.instant + 1)))
  | conflict {number : ℕ} {call : UpdateCall Body Bytes Err}
      {st : ObjState Body Bytes} {data : Bytes} {ttl : UInt64}
      (hcall : sys.updates.lookup number = some call)
      (hphase : call.phase = .committing st data ttl)
      (hrev : sys.etcd.modRevision call.req.key ≠ st.rev) :
      Step codec sys (.commit number)
        (sys.setUpdate number call
          (call.req.restore codec (sys.etcd.kvs.lookup call.req.key) sys.instant))
  | fail {number : ℕ} {call : UpdateCall Body Bytes Err}
      (hcall : sys.updates.lookup number = some call)
      (hphase : call.phase = .reading ∨ ∃ st data ttl, call.phase = .committing st data ttl) :
      Step codec sys (.fail number)
        (sys.setUpdate number call (.returned (.error .request) sys.instant))
  | commitUnheard {number : ℕ} {call : UpdateCall Body Bytes Err}
      {st : ObjState Body Bytes} {data : Bytes} {ttl : UInt64}
      (hcall : sys.updates.lookup number = some call)
      (hphase : call.phase = .committing st data ttl)
      (hrev : sys.etcd.modRevision call.req.key = st.rev) :
      Step codec sys (.commitUnheard number)
        ((sys.write (sys.etcd.put call.req.key data (ttl ≠ 0))).setUpdate number call
          (.returned (.error .request) (sys.instant + 1)))
  | conditionalDelete {number : ℕ} {key : String}
      {preconditions : Preconditions} (hnum : number ∉ sys.deletes) :
      Step codec sys (.conditionalDelete number key preconditions)
        (sys.setDelete number ⟨key, preconditions, .reading, sys.instant, sys.instant⟩ .reading)
  | readDelete {number : ℕ} {call : DeleteCall Body Bytes Err}
      (hcall : sys.deletes.lookup number = some call) (hphase : call.phase = .reading) :
      Step codec sys (.readDelete number)
        (sys.setDelete number call (call.check codec (sys.etcd.kvs.lookup call.key)))
  | commitDelete {number : ℕ} {call : DeleteCall Body Bytes Err}
      {st : ObjState Body Bytes} {data : Bytes}
      (hcall : sys.deletes.lookup number = some call) (hphase : call.phase = .committing st)
      (hrev : sys.etcd.modRevision call.key = st.rev) (hdata : st.data = some data) :
      Step codec sys (.commitDelete number)
        ((sys.write (sys.etcd.delete call.key)).setDelete number call
          (.returned (decode codec data st.rev)))
  | conflictDelete {number : ℕ} {call : DeleteCall Body Bytes Err} {st : ObjState Body Bytes}
      (hcall : sys.deletes.lookup number = some call) (hphase : call.phase = .committing st)
      (hrev : sys.etcd.modRevision call.key ≠ st.rev) :
      Step codec sys (.commitDelete number)
        (sys.setDelete number call (call.check codec (sys.etcd.kvs.lookup call.key)))
  | failDelete {number : ℕ} {call : DeleteCall Body Bytes Err}
      (hcall : sys.deletes.lookup number = some call)
      (hphase : call.phase = .reading ∨ ∃ st, call.phase = .committing st) :
      Step codec sys (.failDelete number)
        (sys.setDelete number call (.returned (.error .request)))
  | commitDeleteUnheard {number : ℕ} {call : DeleteCall Body Bytes Err} {st : ObjState Body Bytes}
      (hcall : sys.deletes.lookup number = some call) (hphase : call.phase = .committing st)
      (hrev : sys.etcd.modRevision call.key = st.rev) :
      Step codec sys (.commitDeleteUnheard number)
        ((sys.write (sys.etcd.delete call.key)).setDelete number call (.returned (.error .request)))

def IsInitial (sys : System Body Bytes Err) : Prop := ∃ etcd : Etcd Bytes, sys = ⟨etcd, [], ∅, ∅⟩

end Kubernetes.Storage.Etcd3

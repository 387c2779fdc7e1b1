import Kubernetes.Storage.Etcd3Watch
import Mathlib.Data.List.TakeWhile

/-!
# A watch on etcd delivers a prefix of the changes

The events go through two channels in order, and their transformation is the change that the client
should see.  Three things make a gap.  An event that cannot be decoded is reported as an error, but
`processEvent` goes on until `run` has cancelled it.  In a cancelled context `sendEvent` may drop an
event and still send the next one.  And a deletion is lost if etcd has compacted the previous value.
-/

namespace Kubernetes.Storage.Etcd3Watch

open List Option

variable {Obj Err : Type} {wc : Watch Obj Err}

/-! ## The transformation -/

/-- What etcd guarantees about an event after a revision. -/
structure EtcdEvent.WellFormed (e : EtcdEvent) : Prop where
  deleted : e.isDelete = true → e.prevKv ≠ none
  created : e.isDelete = false → (e.isCreate = true ↔ e.prevKv = none)
  nonempty : ∀ prevKv, e.prevKv = some prevKv → prevKv.value ≠ []

/-- The stored pairs are older than the revision and not empty. -/
def StoreBefore (store : Map String KeyValue) (rev : ℕ) : Prop :=
  ∀ key kv, Finmap.lookup key store = some kv → kv.value ≠ [] ∧ kv.createRevision ≤ rev

variable {rev : ℕ} {store : Map String KeyValue}

theorem applyWrite_wellFormed (hstore : StoreBefore store rev) (write : Write) :
    StoreBefore (applyWrite store (rev + 1) write).1 (rev + 1) ∧
      ∀ e, (applyWrite store (rev + 1) write).2 = some e → e.WellFormed := by
  have hlater : StoreBefore store (rev + 1) := fun key kv hkv ↦
    (hstore key kv hkv).imp_right fun hle ↦ hle.trans (Nat.le_succ _)
  cases write with
  | other => exact ⟨hlater, fun _ he ↦ nomatch he⟩
  | delete key =>
    rw [applyWrite]
    cases hkey : store.lookup key with
    | none => exact ⟨hlater, fun _ he ↦ nomatch he⟩
    | some prevKv =>
      refine ⟨Map.forall_lookup_erase hlater, fun e he ↦ ?_⟩
      cases he
      refine ⟨fun _ ↦ nofun, fun hdelete ↦ (nomatch hdelete), fun kv hkv ↦ ?_⟩
      cases hkv
      exact (hstore key prevKv hkey).1
  | put key value hvalue =>
    refine ⟨fun other kv hkv ↦ ?_, fun e he ↦ ?_⟩
    · rw [applyWrite, Map.lookup_insert] at hkv
      split_ifs at hkv
      · cases hkv
        refine ⟨hvalue, ?_⟩
        cases hprev : store.lookup key with
        | none => exact le_rfl
        | some prevKv => exact (hlater key prevKv hprev).2
      · exact hlater other kv hkv
    · cases he
      refine ⟨fun hdelete ↦ (nomatch hdelete), fun _ ↦ ?_, fun kv hkv ↦ (hstore key kv hkv).1⟩
      cases hprev : store.lookup key with
      | none => simp [EtcdEvent.isCreate]
      | some prevKv =>
        have hold := (hstore key prevKv hprev).2
        simp only [EtcdEvent.isCreate, map_some, getD_some, Bool.not_false,
          Bool.true_and, beq_iff_eq, reduceCtorEq, iff_false]
        omega

theorem replay_wellFormed (hstore : StoreBefore store rev) (writes : List Write) :
    ∀ e ∈ replay store rev writes, e.WellFormed := by
  induction writes generalizing store rev with
  | nil => exact fun e he ↦ absurd he not_mem_nil
  | cons write writes ih =>
    obtain ⟨hnext, hevent⟩ := applyWrite_wellFormed hstore write
    intro e he
    rcases mem_append.mp he with hfirst | hrest
    · exact hevent e (mem_toList.mp hfirst)
    · exact ih hnext e hrest

theorem events_wellFormed (history : List Write) : ∀ e ∈ wc.events history, e.WellFormed :=
  fun e he ↦ replay_wellFormed (fun key kv hkv ↦ absurd hkv (by simp)) history e
    (mem_of_mem_filter he)

theorem filter_of_acceptAll (hall : wc.acceptAll = true) (obj : Option Obj) :
    wc.filter obj = true := by
  rw [Watch.filter, isNone_iff_eq_none.mp hall]

section

variable {value : Bytes} {obj : Obj} (hobj : wc.decodeObj value rev = .ok obj)

include hobj

theorem sees_some :
    wc.sees rev (some value) = wc.filter (some obj) := by
  rw [Watch.sees, hobj]
  cases hall : wc.acceptAll with
  | true => rw [Bool.true_or, filter_of_acceptAll hall]
  | false => rfl

theorem object_some :
    ((some value).bind fun value ↦ (wc.decodeObj value rev).toOption) = some obj := by
  rw [bind_some, hobj]
  rfl

end

theorem map_some_eq_ok {result : Except Err Obj} {obj : Option Obj}
    (hresult : result.map some = .ok obj) : ∃ value, result = .ok value ∧ obj = some value := by
  cases result with
  | error err => cases hresult
  | ok value =>
    cases hresult
    exact ⟨value, rfl, rfl⟩

theorem prepareObjs_eq_ok {e : Event} {curObj oldObj : Option Obj}
    (hobjs : wc.prepareObjs e = .ok (curObj, oldObj)) :
    (e.isDeleted = false → ∃ obj, wc.decodeObj e.value e.rev = .ok obj ∧ curObj = some obj) ∧
      (e.prevValue ≠ [] → (e.isDeleted = true ∨ wc.acceptAll = false) →
        ∃ obj, wc.decodeObj e.prevValue e.rev = .ok obj ∧ oldObj = some obj) := by
  have hboth : wc.curObj e = .ok curObj ∧ wc.oldObj e = .ok oldObj := by
    rw [Watch.prepareObjs] at hobjs
    cases hcur : wc.curObj e with
    | error err =>
      rw [hcur] at hobjs
      cases hobjs
    | ok cur =>
      cases hold : wc.oldObj e with
      | error err =>
        rw [hcur, hold] at hobjs
        cases hobjs
      | ok old =>
        rw [hcur, hold] at hobjs
        cases hobjs
        exact ⟨rfl, rfl⟩
  constructor
  · intro hdel
    have hcur := hboth.1
    rw [Watch.curObj, hdel] at hcur
    exact map_some_eq_ok hcur
  · intro hprev hneeded
    have hold := hboth.2
    rw [Watch.oldObj, if_pos] at hold
    · exact map_some_eq_ok hold
    · exact ⟨hprev, hneeded.imp_right fun hall ↦ by rw [hall]; exact Bool.false_ne_true⟩

theorem prevValue_parseEvent {e : EtcdEvent} {prevKv : KeyValue} (hprev : e.prevKv = some prevKv) :
    (parseEvent e).prevValue = prevKv.value := by
  rw [parseEvent, hprev]
  rfl

/-- The transformation of an event is the change that the client should see. -/
theorem transform_eq_changeOf {e : EtcdEvent} (hwf : e.WellFormed) (hdecodes : wc.Decodes e) :
    wc.transform (parseEvent e) = .ok (wc.changeOf e) := by
  obtain ⟨⟨curObj, oldObj⟩, hobjs⟩ := hdecodes
  obtain ⟨hcur, hold⟩ := prepareObjs_eq_ok hobjs
  rw [Watch.transform, hobjs, Watch.changeOf, Watch.change]
  dsimp only [bind, Except.bind, pure, Except.pure]
  have hrev : (parseEvent e).rev = e.kv.modRevision := rfl
  have hvalue : (parseEvent e).value = e.kv.value := rfl
  have hdel : (parseEvent e).isDeleted = e.isDelete := rfl
  have hcreated : (parseEvent e).isCreated = e.isCreate := rfl
  have hnone : wc.sees e.kv.modRevision none = false := rfl
  rw [hrev, hvalue] at hcur
  rw [hrev] at hold
  rw [hdel, hcreated]
  cases hdelete : e.isDelete with
  | true =>
    obtain ⟨prevKv, hprev⟩ := ne_none_iff_exists'.mp (hwf.deleted hdelete)
    rw [prevValue_parseEvent hprev] at hold
    obtain ⟨old, hdecode, rfl⟩ := hold (hwf.nonempty prevKv hprev) (.inl hdelete)
    rw [hprev, map_some, sees_some hdecode, object_some hdecode]
    cases wc.filter (some old) <;> rfl
  | false =>
    obtain ⟨cur, hdecode, rfl⟩ := hcur hdelete
    rw [if_neg Bool.false_ne_true, if_neg Bool.false_ne_true, sees_some hdecode, object_some hdecode]
    cases hprev : e.prevKv with
    | none =>
      have hcreate : e.isCreate = true := (hwf.created hdelete).mpr hprev
      rw [if_pos hcreate, map_none, hnone]
      cases wc.filter (some cur) <;> rfl
    | some prevKv =>
      have hcreate : ¬ e.isCreate = true := by
        rw [hwf.created hdelete, hprev]
        nofun
      rw [if_neg hcreate, map_some]
      cases hall : wc.acceptAll with
      | true =>
        have hsees : wc.sees e.kv.modRevision (some prevKv.value) = true := by
          rw [Watch.sees, hall, Bool.true_or]
        rw [if_pos rfl, hsees, filter_of_acceptAll hall]
      | false =>
        rw [prevValue_parseEvent hprev] at hold
        obtain ⟨old, holdDecode, rfl⟩ := hold (hwf.nonempty prevKv hprev) (.inr hall)
        rw [sees_some holdDecode, object_some holdDecode]
        cases wc.filter (some cur) with
        | true | false =>
          cases wc.filter (some old) <;> rfl

/-! ## The way of the events -/

/-- The watch decodes the value before the event. -/
def Watch.readsPrev (wc : Watch Obj Err) (e : EtcdEvent) : Bool :=
  e.prevKv.isSome && (e.isDelete || !wc.acceptAll)

/-- A previous value that the watch decodes is not compacted when etcd sends the event, and in a
cancelled context `sendEvent` does not send any more. -/
def Orderly (wc : Watch Obj Err) (s : State Obj Err) : Op Err → Prop
  | .receive count => ∀ e ∈ s.upstream.take count, wc.readsPrev e → s.compactRev < e.kv.modRevision
  | .sendEvent => s.cancelled = false
  | _ => True

theorem transform_sent {e : EtcdEvent} {compactRev : ℕ}
    (hkept : wc.readsPrev e → compactRev < e.kv.modRevision) :
    wc.transform (parseEvent (e.sent compactRev)) = wc.transform (parseEvent e) := by
  unfold EtcdEvent.sent
  split_ifs with hcompacted
  · have hunread : ¬ wc.readsPrev e := fun hreads ↦ by
      have hlt := hkept hreads
      omega
    simp only [Watch.readsPrev, Bool.and_eq_true, Bool.or_eq_true, Bool.not_eq_true', not_and, not_or,
      Bool.not_eq_true, Bool.not_eq_false] at hunread
    cases hprev : e.prevKv with
    | none => rw [← hprev]
    | some kv =>
      obtain ⟨hdelete, hall⟩ := hunread (hprev ▸ rfl)
      have hold : ∀ prevKv, wc.oldObj (parseEvent { e with prevKv }) = .ok none := by
        intro prevKv
        rw [Watch.oldObj, if_neg]
        simp [parseEvent, hdelete, hall]
      have hprepare : wc.prepareObjs (parseEvent { e with prevKv := none }) =
          wc.prepareObjs (parseEvent e) := by
        rw [Watch.prepareObjs, Watch.prepareObjs, hold none, hold e.prevKv]
        rfl
      rw [Watch.transform, Watch.transform, hprepare]
      rfl
  · rfl

def Starting.pending : Starting Err → List Event
  | .watching pending => pending
  | .failing _ => []
  | .returned => []

def Watch.results (wc : Watch Obj Err) (events : List Event) : List (WatchEvent Obj) :=
  (events.map wc.transform).filterMap fun result ↦ result.toOption.join

/-- What was delivered, compared with the results of the events that `processEvent` has taken. -/
def Delivers (wc : Watch Obj Err) (taken : List Event) (s : State Obj Err) : Prop :=
  match s.processing with
  | .selecting => s.delivered = wc.results taken
  | .sending res => s.delivered ++ [res] = wc.results taken
  | .failing _ => False
  | .returned => s.delivered <+: wc.results taken

/-- The events taken and those in the channel are a prefix up to what they are transformed to, with
nothing missing as long as the context is not cancelled. -/
structure Inv (wc : Watch Obj Err) (events taken : List Event) (s : State Obj Err) : Prop where
  queued : (taken ++ s.incomingEventChan).map wc.transform <+: events.map wc.transform
  complete : s.cancelled = false → events.map wc.transform =
    (taken ++ s.incomingEventChan ++ s.starting.pending ++ s.upstream.map parseEvent).map wc.transform
  delivers : Delivers wc taken s

variable {events taken : List Event} {s target : State Obj Err}

theorem inv_start (history : List Write) :
    Inv wc ((wc.events history).map parseEvent) [] (wc.start history) where
  queued := nil_prefix
  complete _ := rfl
  delivers := rfl

theorem Inv.of_eq (hinv : Inv wc events taken s)
    (hincoming : target.incomingEventChan = s.incomingEventChan)
    (hstarting : s.cancelled = false → target.starting.pending = s.starting.pending)
    (hupstream : target.upstream = s.upstream)
    (hcancelled : target.cancelled = false → s.cancelled = false)
    (hproc : target.processing = s.processing) (hdelivered : target.delivered = s.delivered) :
    Inv wc events taken target where
  queued := hincoming ▸ hinv.queued
  complete hnot := by
    rw [hincoming, hstarting (hcancelled hnot), hupstream]
    exact hinv.complete (hcancelled hnot)
  delivers := by
    have hold := hinv.delivers
    unfold Delivers at hold ⊢
    rw [hproc, hdelivered]
    exact hold

theorem delivered_append (result : Result Obj Err) :
    State.delivered { s with resultChan := s.resultChan ++ [result] } =
      s.delivered ++ result.event?.toList := by
  rw [State.delivered, ← append_assoc, filterMap_append]
  rfl

section

variable (hinv : Inv wc events taken s)

include hinv

theorem Inv.delivered_prefix : s.delivered <+: wc.results taken := by
  have hdelivers := hinv.delivers
  unfold Delivers at hdelivers
  cases hproc : s.processing <;> rw [hproc] at hdelivers
  case selecting => exact hdelivers ▸ prefix_rfl
  case sending res => exact ⟨[res], hdelivers⟩
  case failing => exact hdelivers.elim
  case returned => exact hdelivers

theorem Inv.take {e : Event} {incoming : List Event} (htransform : ∃ res, wc.transform e = .ok res)
    (hproc : s.processing = .selecting) (hincoming : s.incomingEventChan = e :: incoming) :
    Inv wc events (taken ++ [e])
      { s with incomingEventChan := incoming, processing := wc.process e } := by
  have hassoc : taken ++ [e] ++ incoming = taken ++ s.incomingEventChan := by
    rw [hincoming, append_assoc]
    rfl
  refine ⟨hassoc ▸ hinv.queued, fun hnot ↦ ?_, ?_⟩
  · rw [hassoc]
    exact hinv.complete hnot
  · have hdelivers : s.delivered = wc.results taken := by
      have hold := hinv.delivers
      unfold Delivers at hold
      rwa [hproc] at hold
    obtain ⟨res, hres⟩ := htransform
    have hresults : wc.results (taken ++ [e]) = wc.results taken ++ res.toList := by
      cases res <;> simp [Watch.results, hres, Except.toOption]
    have hsame : State.delivered
        { s with incomingEventChan := incoming, processing := wc.process e } = s.delivered := rfl
    unfold Delivers
    rw [hsame, hdelivers, hresults]
    dsimp only [Watch.process]
    rw [hres]
    cases res with
    | none => exact (append_nil _).symm
    | some res => rfl

theorem Inv.deliver {res : WatchEvent Obj} (hproc : s.processing = .sending res) :
    Inv wc events taken { s with
      processing := .selecting
      resultChan := s.resultChan ++ [.event res] } := by
  refine ⟨hinv.queued, hinv.complete, ?_⟩
  have hold := hinv.delivers
  unfold Delivers at hold
  rw [hproc] at hold
  exact (delivered_append (.event res)).trans hold

end

theorem Inv.step {op : Op Err}
    (htransform : ∀ result ∈ events.map wc.transform, ∃ res, result = .ok res)
    (hinv : Inv wc events taken s) (hord : Orderly wc s op) (hstep : Step wc s op target) :
    ∃ taken, Inv wc events taken target := by
  cases hstep with
  | receive count hstarting =>
    refine ⟨taken, hinv.queued, fun hnot ↦ ?_, hinv.delivers⟩
    have hcomplete := hinv.complete hnot
    rw [hstarting] at hcomplete
    dsimp only [Starting.pending] at hcomplete ⊢
    have hsent : ((s.upstream.take count).map fun e ↦ parseEvent (e.sent s.compactRev)).map
        wc.transform = ((s.upstream.take count).map parseEvent).map wc.transform := by
      rw [List.map_map, List.map_map]
      exact map_congr_left fun e he ↦ transform_sent (hord e he)
    rw [hcomplete]
    conv_lhs => rw [← take_append_drop count s.upstream]
    simp only [map_append, hsent, append_nil, append_assoc]
  | watchError _ hstarting | watchEnd hstarting | startingSendError _ hstarting
  | startingGiveUp _ hstarting =>
    exact ⟨taken, hinv.of_eq rfl (fun _ ↦ by rw [hstarting]; rfl) rfl id rfl rfl⟩
  | sendEvent e pending hstarting hroom =>
    have hcomplete := hinv.complete hord
    rw [hstarting] at hcomplete
    have hassoc : events.map wc.transform = (taken ++ (s.incomingEventChan ++ [e]) ++ pending ++
        s.upstream.map parseEvent).map wc.transform := by
      rw [hcomplete]
      simp [Starting.pending]
    refine ⟨taken, ?_, fun _ ↦ hassoc, hinv.delivers⟩
    rw [hassoc, append_assoc _ pending]
    exact (prefix_append _ _).map _
  | dropEvent e pending hstarting hdone =>
    refine ⟨taken, hinv.of_eq rfl (fun hnot ↦ ?_) rfl id rfl rfl⟩
    rw [hdone] at hnot
    cases hnot
  | take e incoming hproc hincoming =>
    refine ⟨taken ++ [e], hinv.take (htransform _ (hinv.queued.subset ?_)) hproc hincoming⟩
    rw [hincoming]
    exact List.mem_map_of_mem (mem_append_right _ mem_cons_self)
  | deliver res hproc hroom => exact ⟨taken, hinv.deliver hproc⟩
  | processingDone hproc hdone =>
    exact ⟨taken, hinv.queued, hinv.complete, hinv.delivered_prefix⟩
  | processingSendError _ hproc | processingGiveUp _ hproc =>
    have hfalse := hinv.delivers
    unfold Delivers at hfalse
    rw [hproc] at hfalse
    exact hfalse.elim
  | runError err hrun herr =>
    refine ⟨taken, hinv.of_eq rfl (fun _ ↦ rfl) rfl (fun hnot ↦ ?_) rfl rfl⟩
    exact (Bool.or_eq_false_iff.mp hnot).1
  | runSendError err hrun hroom =>
    refine ⟨taken, hinv.of_eq rfl (fun _ ↦ rfl) rfl nofun rfl ?_⟩
    exact (delivered_append (.error err)).trans (append_nil _)
  | compact | runSkipError | runCancelled | runClose =>
    exact ⟨taken, hinv.of_eq rfl (fun _ ↦ rfl) rfl id rfl rfl⟩
  | runWatchClosed | stop => exact ⟨taken, hinv.of_eq rfl (fun _ ↦ rfl) rfl nofun rfl rfl⟩
  | clientReceive result results hresult =>
    refine ⟨taken, hinv.of_eq rfl (fun _ ↦ rfl) rfl id rfl ?_⟩
    rw [State.delivered, State.delivered, hresult, append_assoc]
    rfl

theorem results_events {history : List Write} (hdecodes : ∀ e ∈ wc.events history, wc.Decodes e) :
    wc.results ((wc.events history).map parseEvent) = wc.expected history := by
  have hall : (wc.events history).takeWhile (fun e ↦ wc.Decodes e) = wc.events history := by
    apply takeWhile_eq_self_iff.mpr
    exact fun e he ↦ decide_eq_true (hdecodes e he)
  rw [Watch.expected, hall, Watch.results, filterMap_map, filterMap_map]
  apply filterMap_congr
  intro e he
  rw [Function.comp_apply, Function.comp_apply,
    transform_eq_changeOf (events_wellFormed history e he) (hdecodes e he)]
  rfl

open Transition in
/-- The client gets a prefix of the changes if all objects can be decoded, the previous values are
not compacted, and nothing is sent in a cancelled context. -/
theorem watch_delivers_prefix (wc : Watch Obj Err) (history : List Write)
    (hdecodes : ∀ e ∈ wc.events history, wc.Decodes e) (s : State Obj Err)
    (hreach : Reachable (· = wc.start history) (guarded (Orderly wc) (Step wc)) s) :
    s.delivered <+: wc.expected history := by
  have htransform : ∀ result ∈ ((wc.events history).map parseEvent).map wc.transform,
      ∃ res, result = .ok res := by
    intro result hresult
    rw [List.map_map] at hresult
    obtain ⟨e, hmem, rfl⟩ := List.mem_map.mp hresult
    exact ⟨_, transform_eq_changeOf (events_wellFormed history e hmem) (hdecodes e hmem)⟩
  have hinv : ∃ taken, Inv wc ((wc.events history).map parseEvent) taken s := by
    induction hreach with
    | start hinit => exact ⟨[], hinit ▸ inv_start history⟩
    | next _ hstep ih =>
      obtain ⟨taken, hinv⟩ := ih
      exact hinv.step htransform hstep.1 hstep.2
  obtain ⟨taken, hinv⟩ := hinv
  rw [← results_events hdecodes]
  have htaken : taken.map wc.transform <+: ((wc.events history).map parseEvent).map wc.transform :=
    ((prefix_append _ _).map _).trans hinv.queued
  exact hinv.delivered_prefix.trans (htaken.filterMap _)

/-! ## Two runs with a gap -/

section Samples

open Transition

def sampleWatch : Watch Bytes Unit where
  decodeObj value _ := if value = [0] then .error () else .ok value
  internalFilter := none
  initialRev := 1
  initialRev_pos := Nat.one_pos
  isCanceled _ := false

def sampleHistory (value : UInt8) : List Write :=
  [.other, .put "a" [value] (List.cons_ne_nil _ _), .put "b" [1] (List.cons_ne_nil _ _)]

def createA (value : UInt8) : Event := ⟨"a", [value], [], 2, false, true⟩

def createB : Event := ⟨"b", [1], [], 3, false, true⟩

def sampleReceived (value : UInt8) : State Bytes Unit :=
  { sampleWatch.start (sampleHistory value) with
    starting := .watching [createA value, createB]
    upstream := [] }

def sampleDelivered : State Bytes Unit :=
  { sampleReceived 2 with
    starting := .watching [createB]
    resultChan := [.event ⟨.added, some [2]⟩] }

/-- All objects can be decoded, and the client has got the first change. -/
theorem delivers_first_change :
    sampleDelivered.delivered = [⟨.added, some [2]⟩] ∧
      sampleDelivered.delivered <+: sampleWatch.expected (sampleHistory 2) := by
  refine ⟨by decide +kernel,
    watch_delivers_prefix sampleWatch (sampleHistory 2) (by decide +kernel) sampleDelivered ?_⟩
  have hstart : Reachable (· = sampleWatch.start (sampleHistory 2))
      (guarded (Orderly sampleWatch) (Step sampleWatch)) (sampleWatch.start (sampleHistory 2)) :=
    .start rfl
  have hreceived := hstart.guardedNext (.receive 2 rfl) (by
    change ∀ e ∈ _, _ → _
    decide +kernel)
  have hsent := hreceived.guardedNext (.sendEvent (createA 2) [createB] (by decide +kernel)
    (by decide +kernel)) rfl
  have htaken := hsent.guardedNext (.take (createA 2) [] rfl (by decide +kernel)) trivial
  have hdelivered := htaken.guardedNext (.deliver ⟨.added, some [2]⟩ (by decide +kernel)
    (by decide +kernel)) trivial
  refine (?_ : _ = sampleDelivered) ▸ hdelivered
  decide +kernel

/-- The second event was delivered, and the first one was not. -/
def sampleGap (value : UInt8) (errChan : Option Unit) (cancelled : Bool) : State Bytes Unit :=
  { sampleReceived value with
    starting := .watching []
    errChan := errChan
    cancelled := cancelled
    resultChan := [.event ⟨.added, some [1]⟩] }

/-- The first event cannot be decoded, or it is dropped in a cancelled context. -/
theorem delivers_with_gap :
    (Reachable (· = sampleWatch.start (sampleHistory 0)) (Step sampleWatch)
        (sampleGap 0 (some ()) false) ∧
      ¬ (sampleGap 0 (some ()) false).delivered <+: sampleWatch.expected (sampleHistory 0)) ∧
      Reachable (· = sampleWatch.start (sampleHistory 2)) (Step sampleWatch)
        (sampleGap 2 none true) ∧
      ¬ (sampleGap 2 none true).delivered <+: sampleWatch.expected (sampleHistory 2) := by
  refine ⟨⟨?_, by decide +kernel⟩, ?_, by decide +kernel⟩
  · have hstart : Reachable (· = sampleWatch.start (sampleHistory 0)) (Step sampleWatch)
        (sampleWatch.start (sampleHistory 0)) := .start rfl
    have hreceived := hstart.next (.receive 2 rfl)
    have hfirst := hreceived.next (.sendEvent (createA 0) [createB] (by decide +kernel)
      (by decide +kernel))
    have hsecond := hfirst.next (.sendEvent createB [] (by decide +kernel)
      (by decide +kernel))
    have hfailed := hsecond.next (.take (createA 0) [createB] rfl (by decide +kernel))
    have hreported := hfailed.next (.processingSendError () (by decide +kernel) rfl)
    have htaken := hreported.next (.take createB [] rfl (by decide +kernel))
    have hdelivered := htaken.next (.deliver ⟨.added, some [1]⟩ (by decide +kernel)
      (by decide +kernel))
    refine (?_ : _ = sampleGap 0 (some ()) false) ▸ hdelivered
    decide +kernel
  · have hstart : Reachable (· = sampleWatch.start (sampleHistory 2)) (Step sampleWatch)
        (sampleWatch.start (sampleHistory 2)) := .start rfl
    have hreceived := hstart.next (.receive 2 rfl)
    have hstopped := hreceived.next .stop
    have hdropped := hstopped.next (.dropEvent (createA 2) [createB] (by decide +kernel) rfl)
    have hsent := hdropped.next (.sendEvent createB [] (by decide +kernel)
      (by decide +kernel))
    have htaken := hsent.next (.take createB [] rfl (by decide +kernel))
    have hdelivered := htaken.next (.deliver ⟨.added, some [1]⟩ (by decide +kernel)
      (by decide +kernel))
    refine (?_ : _ = sampleGap 2 none true) ▸ hdelivered
    decide +kernel

end Samples

end Kubernetes.Storage.Etcd3Watch

import Kubernetes.Quota.BatchSafety

/-!
# The places of a waiter

A waiter that was added is collected in `work` or in `dirtyWork`, is in the batch of one worker, or
is finished.  Every step moves waiters from place to place, and none is dropped or doubled as long
as work is added in order.
-/

namespace Kubernetes.Quota.Batching

open Function List Workqueue

variable {Ns Worker AdmissionWaiter : Type} {nsOf : AdmissionWaiter → Ns}

inductive Place (Worker : Type)
  | work
  | dirtyWork
  | batch (worker : Worker)
  | finished
  deriving DecidableEq, Repr

def At (nsOf : AdmissionWaiter → Ns) (state : System Ns Worker AdmissionWaiter)
    (a : AdmissionWaiter) : Place Worker → Prop
  | .work => a ∈ state.evaluator.work (nsOf a)
  | .dirtyWork => a ∈ state.evaluator.dirtyWork (nsOf a)
  | .batch worker => a ∈ (state.phase worker).batch
  | .finished => a ∈ state.finished

/-- Every waiter that was added is at one place, and the places have no other waiters. -/
structure Placed (nsOf : AdmissionWaiter → Ns) (state : System Ns Worker AdmissionWaiter) : Prop where
  unique : ∀ a ∈ state.added, ∃! place, At nsOf state a place
  added : ∀ a place, At nsOf state a place → a ∈ state.added
  work : ∀ ns, ∀ a ∈ state.evaluator.work ns, nsOf a = ns
  dirtyWork : ∀ ns, ∀ a ∈ state.evaluator.dirtyWork ns, nsOf a = ns

variable {state target : System Ns Worker AdmissionWaiter}

theorem placed_new : Placed nsOf (.new : System Ns Worker AdmissionWaiter) where
  unique a ha := absurd ha not_mem_nil
  added a place hat := by
    cases place <;> exact hat
  work ns a ha := absurd ha not_mem_nil
  dirtyWork ns a ha := absurd ha not_mem_nil

section

variable (hplaced : Placed nsOf state) (hadded : target.added = state.added)
  (hwork : ∀ ns, ∀ a ∈ target.evaluator.work ns, nsOf a = ns)
  (hdirtyWork : ∀ ns, ∀ a ∈ target.evaluator.dirtyWork ns, nsOf a = ns)

include hplaced hadded hwork hdirtyWork

/-- A step that moves the waiters from place to place keeps them at one place. -/
theorem Placed.of_move (move : AdmissionWaiter → Place Worker → Place Worker)
    (hto : ∀ a source, At nsOf state a source → At nsOf target a (move a source))
    (hfrom : ∀ a place, At nsOf target a place →
      ∃ source, At nsOf state a source ∧ place = move a source) :
    Placed nsOf target where
  unique a ha := by
    rw [hadded] at ha
    obtain ⟨source, hsource, honly⟩ := hplaced.unique a ha
    refine ⟨move a source, hto a source hsource, fun place hplace ↦ ?_⟩
    obtain ⟨other, hother, rfl⟩ := hfrom a place hplace
    rw [honly other hother]
  added a place hat := by
    obtain ⟨source, hsource, _⟩ := hfrom a place hat
    rw [hadded]
    exact hplaced.added a source hsource
  work := hwork
  dirtyWork := hdirtyWork

theorem Placed.of_iff (hat : ∀ a place, At nsOf target a place ↔ At nsOf state a place) :
    Placed nsOf target :=
  hplaced.of_move hadded hwork hdirtyWork (fun _ place ↦ place)
    (fun a source ↦ (hat a source).mpr)
    (fun a place hplace ↦ ⟨place, (hat a place).mp hplace, rfl⟩)

end

variable {entry : List AdmissionWaiter}

section Steps

variable {worker : Worker} {ns : Ns} {phase : Phase Ns AdmissionWaiter} {a : AdmissionWaiter}

theorem forall_mem_append (hentry : ∀ b ∈ entry, nsOf b = nsOf a) :
    ∀ b ∈ entry ++ [a], nsOf b = nsOf a := by
  intro b hb
  rcases mem_append.mp hb with hold | hnew
  · exact hentry b hold
  · rw [mem_singleton.mp hnew]

theorem at_batch (hphase : state.phase worker = phase) (a : AdmissionWaiter) :
    At nsOf state a (.batch worker) ↔ a ∈ phase.batch := by
  rw [At, hphase]

/-- There is nothing left to be overwritten when a worker completes a namespace. -/
theorem work_eq_nil_of_done (hsafe : Safe state.evaluator state.phase)
    (hdone : state.phase worker = .checked ns ∨ state.phase worker = .emptied ns) :
    state.evaluator.work ns = [] := by
  by_contra hne
  obtain ⟨hprog, hmem⟩ := hsafe.work ns hne
  have hengaged : (state.phase worker).engaged = some ns := by
    rcases hdone with hdone | hdone <;> rw [hdone] <;> rfl
  rcases hmem with hqueued | ⟨other, hgot⟩
  · exact hsafe.not_engaged hqueued worker hengaged
  · have heq := hsafe.unique ns other worker (by rw [hgot]; rfl) hengaged
    rcases hdone with hdone | hdone <;> simp [← heq, hgot] at hdone

section Enter

variable [DecidableEq Worker]

theorem at_enter_of_ne {other : Worker} (hne : other ≠ worker) (a : AdmissionWaiter) :
    At nsOf (state.enter worker phase) a (.batch other) ↔ At nsOf state a (.batch other) := by
  simp only [At, System.enter, update_of_ne hne]

theorem at_enter_self (a : AdmissionWaiter) :
    At nsOf (state.enter worker phase) a (.batch worker) ↔ a ∈ phase.batch := by
  simp only [At, System.enter, update_self]

theorem Placed.checkAttributes (hplaced : Placed nsOf state) {batch : List AdmissionWaiter}
    (hchecking : state.phase worker = .checking ns batch) :
    Placed nsOf
      ({ state with finished := batch ++ state.finished }.enter worker (.checked ns)) := by
  refine hplaced.of_move rfl hplaced.work hplaced.dirtyWork
    (fun _ place ↦ if place = .batch worker then .finished else place)
    (fun a source hsource ↦ ?_) fun a place hplace ↦ ?_
  · cases source with
    | work | dirtyWork => exact hsource
    | finished => exact mem_append_right _ hsource
    | batch other =>
      by_cases hother : other = worker
      · subst hother
        rw [if_pos rfl]
        exact mem_append_left _ ((at_batch hchecking a).mp hsource)
      · rw [if_neg (by simpa using hother)]
        exact (at_enter_of_ne hother a).mpr hsource
  · cases place with
    | work => exact ⟨.work, hplace, by simp⟩
    | dirtyWork => exact ⟨.dirtyWork, hplace, by simp⟩
    | finished =>
      rcases mem_append.mp hplace with hbatch | hold
      · exact ⟨.batch worker, (at_batch hchecking a).mpr hbatch, by simp⟩
      · exact ⟨.finished, hold, by simp⟩
    | batch other =>
      by_cases hother : other = worker
      · subst hother
        exact absurd ((at_enter_self a).mp hplace) not_mem_nil
      · exact ⟨.batch other, (at_enter_of_ne hother a).mp hplace, by simp [hother]⟩

end Enter

variable [DecidableEq Ns]

theorem mem_update_append (waiters : Ns → List AdmissionWaiter) (a b : AdmissionWaiter) :
    b ∈ update waiters (nsOf a) (waiters (nsOf a) ++ [a]) (nsOf b) ↔
      b ∈ waiters (nsOf b) ∨ b = a := by
  by_cases hns : nsOf b = nsOf a
  · rw [hns, update_self, mem_append, mem_singleton]
  · rw [update_of_ne hns]
    exact (or_iff_left fun heq ↦ hns (congrArg nsOf heq)).symm

theorem mem_update_nil (waiters : Ns → List AdmissionWaiter) (ns : Ns) (b : AdmissionWaiter) :
    b ∈ update waiters ns [] (nsOf b) ↔ nsOf b ≠ ns ∧ b ∈ waiters (nsOf b) := by
  by_cases hns : nsOf b = ns
  · simp [hns]
  · simp [hns]

theorem forall_mem_update {waiters : Ns → List AdmissionWaiter}
    (hwaiters : ∀ ns, ∀ a ∈ waiters ns, nsOf a = ns) {ns : Ns} (hentry : ∀ a ∈ entry, nsOf a = ns) :
    ∀ other, ∀ a ∈ update waiters ns entry other, nsOf a = other := by
  intro other a ha
  rw [update_apply] at ha
  split_ifs at ha with heq
  · rw [heq]
    exact hentry a ha
  · exact hwaiters other a ha

/-- `addWork` puts the waiter at one place, and the others stay where they are. -/
theorem at_addWork (nsOf : AdmissionWaiter → Ns) (state : System Ns Worker AdmissionWaiter)
    (a : AdmissionWaiter) :
    ∃ new : Place Worker, ∀ b place, At nsOf { state with
      evaluator := state.evaluator.addWork (nsOf a) a
      added := a :: state.added } b place ↔ At nsOf state b place ∨ (b = a ∧ place = new) := by
  by_cases hin : nsOf a ∈ state.evaluator.inProgress
  · refine ⟨.dirtyWork, fun b place ↦ ?_⟩
    cases place with
    | dirtyWork => simp [At, QuotaEvaluator.addWork, hin, mem_update_append]
    | work => simp [At, QuotaEvaluator.addWork, hin]
    | batch | finished => simp [At]
  · refine ⟨.work, fun b place ↦ ?_⟩
    cases place with
    | dirtyWork => simp [At, QuotaEvaluator.addWork, hin]
    | work => simp [At, QuotaEvaluator.addWork, hin, mem_update_append]
    | batch | finished => simp [At]

theorem Placed.addWork (hplaced : Placed nsOf state) (hfresh : a ∉ state.added) :
    Placed nsOf { state with
      evaluator := state.evaluator.addWork (nsOf a) a
      added := a :: state.added } := by
  obtain ⟨new, hnew⟩ := at_addWork nsOf state a
  have hnowhere : ∀ place, ¬ At nsOf state a place :=
    fun place hat ↦ hfresh (hplaced.added a place hat)
  refine ⟨fun b hb ↦ ?_, fun b place hat ↦ ?_, ?_, ?_⟩
  · rcases mem_cons.mp hb with rfl | hold
    · refine ⟨new, (hnew b new).mpr (.inr ⟨rfl, rfl⟩), fun place hat ↦ ?_⟩
      exact (((hnew b place).mp hat).resolve_left (hnowhere place)).2
    · obtain ⟨place, hplace, honly⟩ := hplaced.unique b hold
      refine ⟨place, (hnew b place).mpr (.inl hplace), fun other hother ↦ ?_⟩
      refine honly other (((hnew b other).mp hother).resolve_right fun hsame ↦ ?_)
      exact hfresh (hsame.1 ▸ hold)
  · rcases (hnew b place).mp hat with hold | ⟨rfl, _⟩
    · exact mem_cons_of_mem _ (hplaced.added b place hold)
    · exact mem_cons_self
  · unfold QuotaEvaluator.addWork
    dsimp only
    split_ifs
    · exact hplaced.work
    · exact forall_mem_update hplaced.work (forall_mem_append (hplaced.work _))
  · unfold QuotaEvaluator.addWork
    dsimp only
    split_ifs
    · exact forall_mem_update hplaced.dirtyWork (forall_mem_append (hplaced.dirtyWork _))
    · exact hplaced.dirtyWork

variable [DecidableEq Worker]

theorem Placed.get (hplaced : Placed nsOf state) (hidle : state.phase worker = .idle) :
    Placed nsOf
      ({ state with evaluator.queue := state.evaluator.queue.get.2 }.enter worker (.got ns)) := by
  refine hplaced.of_iff rfl hplaced.work hplaced.dirtyWork fun a place ↦ ?_
  cases place with
  | work | dirtyWork | finished => rfl
  | batch other =>
    by_cases hother : other = worker
    · subst hother
      rw [at_enter_self, at_batch hidle]
      rfl
    · exact at_enter_of_ne hother a

variable (hplaced : Placed nsOf state) (hsafe : Safe state.evaluator state.phase)

include hplaced hsafe

theorem Placed.getWork (hgot : state.phase worker = .got ns) :
    Placed nsOf (state.getWork worker ns) := by
  have hdirty : state.evaluator.dirtyWork ns = [] := by
    by_contra hne
    exact hsafe.notMem_inProgress hgot (hsafe.dirtyWork ns hne).1
  have hdirtyWork : update state.evaluator.dirtyWork ns [] = state.evaluator.dirtyWork := by
    rw [← hdirty, update_eq_self]
  have hbatch : ∀ a, ¬ At nsOf state a (.batch worker) :=
    fun a hat ↦ not_mem_nil ((at_batch hgot a).mp hat)
  by_cases hwork : state.evaluator.work ns = []
  · rw [System.getWork_of_nil hwork, hdirtyWork, ← hwork, update_eq_self]
    refine hplaced.of_iff rfl hplaced.work hplaced.dirtyWork fun a place ↦ ?_
    cases place with
    | work | dirtyWork | finished => rfl
    | batch other =>
      by_cases hother : other = worker
      · subst hother
        rw [at_enter_self]
        exact iff_of_false not_mem_nil (hbatch a)
      · exact at_enter_of_ne hother a
  · rw [System.getWork_of_ne_nil hwork, hdirtyWork]
    refine hplaced.of_move rfl (forall_mem_update hplaced.work (by simp)) hplaced.dirtyWork
      (fun a place ↦ if place = .work ∧ nsOf a = ns then .batch worker else place)
      (fun a source hsource ↦ ?_) fun a place hplace ↦ ?_
    · cases source with
      | work =>
        by_cases hns : nsOf a = ns
        · rw [if_pos ⟨rfl, hns⟩]
          exact (at_enter_self a).mpr (hns ▸ hsource)
        · rw [if_neg (by simp [hns])]
          exact (mem_update_nil _ _ _).mpr ⟨hns, hsource⟩
      | dirtyWork | finished => exact hsource
      | batch other =>
        have hother : other ≠ worker := by
          rintro rfl
          exact hbatch a hsource
        exact (at_enter_of_ne hother a).mpr hsource
    · cases place with
      | work =>
        obtain ⟨hns, ha⟩ := (mem_update_nil _ _ _).mp hplace
        exact ⟨.work, ha, by simp [hns]⟩
      | dirtyWork => exact ⟨.dirtyWork, hplace, by simp⟩
      | finished => exact ⟨.finished, hplace, by simp⟩
      | batch other =>
        by_cases hother : other = worker
        · subst hother
          have ha : a ∈ state.evaluator.work ns := (at_enter_self a).mp hplace
          have hns := hplaced.work ns a ha
          refine ⟨.work, ?_, by simp [hns]⟩
          rw [← hns] at ha
          exact ha
        · exact ⟨.batch other, (at_enter_of_ne hother a).mp hplace, by simp⟩

theorem Placed.completeWork
    (hdone : state.phase worker = .checked ns ∨ state.phase worker = .emptied ns) :
    Placed nsOf
      ({ state with evaluator := state.evaluator.completeWork ns }.enter worker .idle) := by
  have hwork := work_eq_nil_of_done hsafe hdone
  have hbatch : ∀ a, ¬ At nsOf state a (.batch worker) := by
    intro a hat
    rcases hdone with hdone | hdone <;> exact not_mem_nil ((at_batch hdone a).mp hat)
  refine hplaced.of_move rfl (forall_mem_update hplaced.work (hplaced.dirtyWork ns))
    (forall_mem_update hplaced.dirtyWork (by simp))
    (fun a place ↦ if place = .dirtyWork ∧ nsOf a = ns then .work else place)
    (fun a source hsource ↦ ?_) fun a place hplace ↦ ?_
  · cases source with
    | work =>
      have hns : nsOf a ≠ ns := by
        rintro rfl
        simp [At, hwork] at hsource
      simpa [At, System.enter, QuotaEvaluator.completeWork, hns] using hsource
    | dirtyWork =>
      by_cases hns : nsOf a = ns
      · subst hns
        simpa [At, System.enter, QuotaEvaluator.completeWork] using hsource
      · simpa [At, System.enter, QuotaEvaluator.completeWork, hns] using hsource
    | finished => exact hsource
    | batch other =>
      have hother : other ≠ worker := by
        rintro rfl
        exact hbatch a hsource
      exact (at_enter_of_ne hother a).mpr hsource
  · cases place with
    | work =>
      by_cases hns : nsOf a = ns
      · refine ⟨.dirtyWork, ?_, by simp [hns]⟩
        subst hns
        simpa [At, System.enter, QuotaEvaluator.completeWork] using hplace
      · simpa [At, System.enter, QuotaEvaluator.completeWork, hns] using hplace
    | dirtyWork =>
      obtain ⟨hns, ha⟩ := (mem_update_nil _ _ _).mp hplace
      exact ⟨.dirtyWork, ha, by simp [hns]⟩
    | finished => exact ⟨.finished, hplace, by simp⟩
    | batch other =>
      by_cases hother : other = worker
      · subst hother
        exact absurd ((at_enter_self a).mp hplace) not_mem_nil
      · exact ⟨.batch other, (at_enter_of_ne hother a).mp hplace, by simp⟩

end Steps

/-! ## Runs -/

variable {op : Op Worker AdmissionWaiter}

section Runs

variable [DecidableEq Ns] [DecidableEq Worker]

/-- Nobody adds work for a namespace that a worker found empty and has not completed yet. -/
def Orderly (nsOf : AdmissionWaiter → Ns) (state : System Ns Worker AdmissionWaiter) :
    Op Worker AdmissionWaiter → Prop
  | .addWork a => ∀ worker, state.phase worker ≠ .emptied (nsOf a)
  | .get _ | .getWork _ | .checkAttributes _ | .completeWork _ => True

def Reachable (nsOf : AdmissionWaiter → Ns) : System Ns Worker AdmissionWaiter → Prop :=
  Transition.Reachable (· = .new) (Step nsOf)

def ReachableOrderly (nsOf : AdmissionWaiter → Ns) : System Ns Worker AdmissionWaiter → Prop :=
  Transition.Reachable (· = .new) (Transition.guarded (Orderly nsOf) (Step nsOf))

theorem Safe.step (hsafe : Safe state.evaluator state.phase) (hord : Orderly nsOf state op)
    (hstep : Step nsOf state op target) :
    Safe target.evaluator target.phase := by
  cases hstep with
  | addWork a hfresh => exact hsafe.addWork a hord
  | get worker ns hidle hitem => exact hsafe.get hidle hitem
  | getWork worker ns hgot =>
    by_cases hwork : state.evaluator.work ns = []
    · rw [System.getWork_of_nil hwork]
      exact hsafe.takeNothing hgot hwork
    · rw [System.getWork_of_ne_nil hwork]
      exact hsafe.take hgot _
  | checkAttributes worker ns batch hchecking => exact hsafe.checkAttributes hchecking
  | completeWork worker ns hdone => exact hsafe.completeWork hdone

theorem Placed.step (hplaced : Placed nsOf state) (hsafe : Safe state.evaluator state.phase)
    (hstep : Step nsOf state op target) : Placed nsOf target := by
  cases hstep with
  | addWork a hfresh => exact hplaced.addWork hfresh
  | get worker ns hidle hitem => exact hplaced.get hidle
  | getWork worker ns hgot => exact hplaced.getWork hsafe hgot
  | checkAttributes worker ns batch hchecking => exact hplaced.checkAttributes hchecking
  | completeWork worker ns hdone => exact hplaced.completeWork hsafe hdone

theorem ReachableOrderly.safe_placed (hreach : ReachableOrderly nsOf state) :
    Safe state.evaluator state.phase ∧ Placed nsOf state := by
  refine @Transition.Reachable.invariant _ _ _ _
    (fun state ↦ Safe state.evaluator state.phase ∧ Placed nsOf state) ?_ ?_ _ hreach
  · rintro _ rfl
    exact ⟨safe_new, placed_new⟩
  · rintro before op after _ ⟨hsafe, hplaced⟩ ⟨hord, hstep⟩
    exact ⟨hsafe.step hord hstep, hplaced.step hsafe hstep⟩

/-- If nobody adds work between an empty `getWork` and its `completeWork`, every waiter is at one
place, a namespace with collected waiters is queued or with a worker, and no two workers check
batches of one namespace. -/
theorem ReachableOrderly.no_waiter_lost (hreach : ReachableOrderly nsOf state) :
    (∀ a ∈ state.added, ∃! place, At nsOf state a place) ∧
    (∀ ns, state.evaluator.work ns ≠ [] ∨ state.evaluator.dirtyWork ns ≠ [] →
      ns ∈ state.evaluator.queue.queue ∨ ∃ worker, (state.phase worker).engaged = some ns) ∧
    ∀ first second ns firstBatch secondBatch, state.phase first = .checking ns firstBatch →
      state.phase second = .checking ns secondBatch → first = second := by
  obtain ⟨hsafe, hplaced⟩ := hreach.safe_placed
  refine ⟨hplaced.unique, fun ns hcollected ↦ ?_, fun first second ns _ _ hfirst hsecond ↦ ?_⟩
  · rcases hcollected with hwork | hdirty
    · refine (hsafe.work ns hwork).2.imp_right fun ⟨worker, hgot⟩ ↦ ⟨worker, ?_⟩
      rw [hgot]
      rfl
    · obtain ⟨worker, hworking⟩ := (hsafe.inProgress ns).mp (hsafe.dirtyWork ns hdirty).1
      exact .inr ⟨worker, Phase.engaged_iff.mpr (.inl (Phase.holding_iff.mpr (.inl hworking)))⟩
  · exact hsafe.unique ns first second (by rw [hfirst]; rfl) (by rw [hsecond]; rfl)

end Runs

/-! ## Work that is added too early -/

abbrev single : ℕ → ℕ := fun _ ↦ 0

instance (state : System ℕ (Fin 3) ℕ) (op : Op (Fin 3) ℕ) : Decidable (Orderly single state op) :=
  match op with
  | .addWork a => inferInstanceAs (Decidable (∀ worker, state.phase worker ≠ .emptied (single a)))
  | .get _ | .getWork _ | .checkAttributes _ | .completeWork _ => isTrue trivial

def execOrderly (state : System ℕ (Fin 3) ℕ) (op : Op (Fin 3) ℕ) : Option (System ℕ (Fin 3) ℕ) :=
  if Orderly single state op then exec single state op else none

theorem execOrderly_step {state target : System ℕ (Fin 3) ℕ} {op : Op (Fin 3) ℕ}
    (hexec : execOrderly state op = some target) :
    Transition.guarded (Orderly single) (Step single) state op target := by
  rw [execOrderly] at hexec
  split_ifs at hexec with hord
  exact ⟨hord, exec_step single hexec⟩

/-- Worker `0` checks a batch with the first waiter when the second one is added. -/
theorem batch_and_dirty :
    ∃ state : System ℕ (Fin 3) ℕ, ReachableOrderly single state ∧ state.added = [2, 1] ∧
      At single state 1 (.batch 0) ∧ At single state 2 .dirtyWork ∧
      (∃! place, At single state 1 place) ∧ ∃! place, At single state 2 place := by
  have hrun : (([.addWork 1, .get 0, .getWork 0, .addWork 2] : List (Op (Fin 3) ℕ)).foldlM
      execOrderly .new).any (fun state : System ℕ (Fin 3) ℕ ↦ state.added = [2, 1] ∧
        1 ∈ (state.phase 0).batch ∧ 2 ∈ state.evaluator.dirtyWork 0) = true := by
    decide +kernel
  obtain ⟨state, hstate, hends⟩ := (Option.any_eq_true _ _).mp hrun
  obtain ⟨hadded, hbatch, hdirty⟩ := of_decide_eq_true hends
  have hreach : ReachableOrderly single state :=
    Transition.Reachable.of_foldlM (fun _ _ _ ↦ execOrderly_step) (.start rfl) hstate
  have hunique := hreach.no_waiter_lost.1
  rw [hadded] at hunique
  exact ⟨state, hreach, hadded, hbatch, hdirty, hunique 1 (by decide), hunique 2 (by decide)⟩

/-- Two waiters are checked in one batch; worker `0` got the namespace again and found no waiters.
-/
abbrev emptyHanded : List (Op (Fin 3) ℕ) :=
  [.addWork 1, .get 0, .addWork 2, .getWork 0, .checkAttributes 0, .completeWork 0,
    .get 0, .getWork 0]

/-- Work added between an empty `getWork` and its `completeWork` can be dropped, and two workers can
check one namespace. -/
theorem lost :
    (∃ state : System ℕ (Fin 3) ℕ, Reachable single state ∧
      3 ∈ state.added ∧ ∀ place, ¬ At single state 3 place) ∧
    ∃ state : System ℕ (Fin 3) ℕ, Reachable single state ∧
      state.phase 1 = .checking 0 [3] ∧ state.phase 2 = .checking 0 [4] := by
  constructor
  · have hrun : ((emptyHanded ++ [.addWork 3, .completeWork 0] : List (Op (Fin 3) ℕ)).foldlM
        (exec single) .new).any (fun state : System ℕ (Fin 3) ℕ ↦ 3 ∈ state.added ∧
          3 ∉ state.evaluator.work 0 ∧ 3 ∉ state.evaluator.dirtyWork 0 ∧
          (∀ worker, 3 ∉ (state.phase worker).batch) ∧ 3 ∉ state.finished) = true := by
      decide +kernel
    obtain ⟨state, hstate, hends⟩ := (Option.any_eq_true _ _).mp hrun
    obtain ⟨hadded, hwork, hdirty, hbatch, hfinished⟩ := of_decide_eq_true hends
    refine ⟨state, Transition.Reachable.of_foldlM (fun _ _ _ ↦ exec_step single) (.start rfl) hstate,
      hadded, fun place ↦ ?_⟩
    cases place with
    | work => exact hwork
    | dirtyWork => exact hdirty
    | batch worker => exact hbatch worker
    | finished => exact hfinished
  · have hrun : ((emptyHanded ++ [.addWork 3, .get 1, .getWork 1, .addWork 4, .completeWork 0,
        .get 2, .getWork 2] : List (Op (Fin 3) ℕ)).foldlM (exec single) .new).any
          (fun state : System ℕ (Fin 3) ℕ ↦
            state.phase 1 = .checking 0 [3] ∧ state.phase 2 = .checking 0 [4]) = true := by
      decide +kernel
    obtain ⟨state, hstate, hends⟩ := (Option.any_eq_true _ _).mp hrun
    exact ⟨state, Transition.Reachable.of_foldlM (fun _ _ _ ↦ exec_step single) (.start rfl) hstate,
      of_decide_eq_true hends⟩

end Kubernetes.Quota.Batching

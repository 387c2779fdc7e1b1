import Kubernetes.Registry.IPRepair

/-!
# The grace period of leaked IPs

In an orderly run an IP that a completed pass drops was seen unused by at least
`numRepairsBeforeLeakCleanup` consecutive completed passes: the counter of an unused allocated IP
and the number of passes that saw it unused add up to the grace period.

Otherwise the entry of an IP that was cleaned up stays at zero.  When the IP is allocated again, for
a service that is not yet created, the next pass drops it.
-/

namespace Kubernetes.Registry

open List
open IPRange (mem_allocated_allocate allocate_eq_ok net_allocate mem_ips)

variable {parseIP : String → Option ℕ} {network : IPNet}

/-! ## The two loops, seen from one IP -/

namespace Rebuild

variable {state : Rebuild} {svc : ClusterService} {ip ip' : ℕ}

theorem checkService_of_none (hip : svc.ip parseIP = none) :
    state.checkService parseIP svc = state := by
  simp [checkService, hip]

/-- The first service with an address of the network claims it. -/
theorem checkService_of_new (hip : svc.ip parseIP = some ip)
    (hnew : state.rebuilt.net.Contains ip ∧ ip ∉ state.rebuilt.allocated) :
    state.checkService parseIP svc =
      ⟨if ip ∈ state.stored.allocated then state.stored.release ip else state.stored,
        (state.rebuilt.allocate ip).1, Finmap.erase ip state.leaks⟩ := by
  have hok : state.rebuilt.allocate ip = ((state.rebuilt.allocate ip).1, .ok) :=
    Prod.ext rfl (allocate_eq_ok.mpr hnew)
  unfold checkService
  rw [hip]
  dsimp only
  rw [hok]

theorem checkService_of_not_new (hip : svc.ip parseIP = some ip)
    (hnew : ¬ (state.rebuilt.net.Contains ip ∧ ip ∉ state.rebuilt.allocated)) :
    state.checkService parseIP svc = state := by
  have hres : (state.rebuilt.allocate ip).2 ≠ .ok := mt allocate_eq_ok.mp hnew
  unfold checkService
  rw [hip]
  dsimp only
  split
  · rename_i heq
    exact absurd (congrArg Prod.snd heq) hres
  · rfl
  · rfl

@[simp]
theorem net_checkService : (state.checkService parseIP svc).rebuilt.net = state.rebuilt.net := by
  cases hip : svc.ip parseIP with
  | none => rw [checkService_of_none hip]
  | some ip =>
    by_cases hnew : state.rebuilt.net.Contains ip ∧ ip ∉ state.rebuilt.allocated
    · rw [checkService_of_new hip hnew, net_allocate]
    · rw [checkService_of_not_new hip hnew]

/-- What the loops have made of one IP, once it is known whether a service uses it. -/
structure Claims (ip : ℕ) (used : Prop) (initial state : Rebuild) : Prop where
  net_eq : state.rebuilt.net = initial.rebuilt.net
  of_used : used →
    ip ∉ state.stored.allocated ∧ ip ∈ state.rebuilt.allocated ∧ Finmap.lookup ip state.leaks = none
  of_unused : ¬ used →
    (ip ∈ state.stored.allocated ↔ ip ∈ initial.stored.allocated) ∧
      ip ∉ state.rebuilt.allocated ∧ Finmap.lookup ip state.leaks = Finmap.lookup ip initial.leaks

theorem Claims.checkService {initial : Rebuild} {used : Prop}
    (hclaims : Claims ip used initial state) (hcont : initial.rebuilt.net.Contains ip) :
    Claims ip (used ∨ svc.ip parseIP = some ip) initial (state.checkService parseIP svc) := by
  cases hip : svc.ip parseIP with
  | none =>
    rw [checkService_of_none hip]
    simpa using hclaims
  | some ip' =>
    by_cases hnew : state.rebuilt.net.Contains ip' ∧ ip' ∉ state.rebuilt.allocated
    · rw [checkService_of_new hip hnew]
      by_cases heq : ip' = ip
      · -- the service claims this IP
        subst heq
        refine ⟨?_, fun _ ↦ ⟨?_, ?_, ?_⟩, fun hunused ↦ absurd (.inr rfl) hunused⟩
        · rw [net_allocate, hclaims.net_eq]
        · split_ifs with hmem
          · simp
          · exact hmem
        · exact mem_allocated_allocate.mpr (.inr ⟨rfl, hnew.1⟩)
        · rw [Map.lookup_erase, if_pos rfl]
      · -- the service claims another one
        have hne : ip ≠ ip' := fun h ↦ heq h.symm
        have hor : (used ∨ some ip' = some ip) ↔ used := by simp [heq]
        have hstored : ip ∈ (if ip' ∈ state.stored.allocated then state.stored.release ip'
            else state.stored).allocated ↔ ip ∈ state.stored.allocated := by
          split_ifs <;> simp [hne]
        refine ⟨?_, fun hused ↦ ?_, fun hunused ↦ ?_⟩
        · rw [net_allocate, hclaims.net_eq]
        · obtain ⟨hold, hrebuilt, hleaks⟩ := hclaims.of_used (hor.mp hused)
          exact ⟨mt hstored.mp hold, mem_allocated_allocate.mpr (.inl hrebuilt), by
            rw [Map.lookup_erase, if_neg hne, hleaks]⟩
        · obtain ⟨hold, hrebuilt, hleaks⟩ := hclaims.of_unused (mt hor.mpr hunused)
          exact ⟨hstored.trans hold, by simp [hne, hrebuilt], by
            rw [Map.lookup_erase, if_neg hne, hleaks]⟩
    · rw [checkService_of_not_new hip hnew]
      by_cases heq : ip' = ip
      · -- the IP is in the network, so another service has claimed it before
        subst heq
        have hused : used := by
          by_contra hunused
          exact hnew ⟨hclaims.net_eq ▸ hcont, (hclaims.of_unused hunused).2.1⟩
        exact ⟨hclaims.net_eq, fun _ ↦ hclaims.of_used hused, fun h ↦ absurd (.inl hused) h⟩
      · have hor : (used ∨ some ip' = some ip) ↔ used := by simp [heq]
        rwa [hor]

theorem claims_checkServices {stored : IPRange} {leaks : Map ℕ ℕ}
    (services : List ClusterService) (hcont : network.Contains ip) :
    Claims ip (Uses parseIP services ip) ⟨stored, .newCIDRRange network, leaks⟩
      (checkServices parseIP network leaks stored services) := by
  unfold checkServices
  induction services using List.reverseRecOn with
  | nil =>
    exact ⟨rfl, fun hused ↦ by simp [Uses] at hused, fun _ ↦
      ⟨Iff.rfl, by simp [IPRange.newCIDRRange], rfl⟩⟩
  | append_singleton services svc ih =>
    have huses : Uses parseIP (services ++ [svc]) ip ↔
        Uses parseIP services ip ∨ svc.ip parseIP = some ip := by
      simp [Uses, or_and_right, exists_or]
    rw [foldl_append, huses]
    exact ih.checkService hcont

/-- What a pass does to the entry of an IP it sees unused. -/
def countDown : Option ℕ → ℕ
  | none => numRepairsBeforeLeakCleanup - 2
  | some count => count - 1

theorem checkLeak_of_ne (hne : ip ≠ ip') :
    (ip ∈ (state.checkLeak ip').rebuilt.allocated ↔ ip ∈ state.rebuilt.allocated) ∧
      (state.checkLeak ip').leaks.lookup ip = state.leaks.lookup ip := by
  have hkeep : ∀ count, (ip ∈ (state.keep ip' count).rebuilt.allocated ↔
      ip ∈ state.rebuilt.allocated) ∧
      (state.keep ip' count).leaks.lookup ip = state.leaks.lookup ip := by
    intro count
    exact ⟨by simp [keep, hne], by rw [keep, Map.lookup_insert, if_neg hne]⟩
  unfold checkLeak
  split
  · exact hkeep _
  · split_ifs
    · exact hkeep _
    · exact ⟨Iff.rfl, rfl⟩

theorem foldl_checkLeak_of_not_mem {ips : List ℕ} (hip : ip ∉ ips) :
    (ip ∈ (ips.foldl checkLeak state).rebuilt.allocated ↔ ip ∈ state.rebuilt.allocated) ∧
      (ips.foldl checkLeak state).leaks.lookup ip = state.leaks.lookup ip := by
  induction ips generalizing state with
  | nil => exact ⟨Iff.rfl, rfl⟩
  | cons ip' ips ih =>
    obtain ⟨hne, hips⟩ : ip ≠ ip' ∧ ip ∉ ips := by simpa using hip
    obtain ⟨hrebuilt, hleaks⟩ := @ih (state.checkLeak ip') hips
    have hstep := @checkLeak_of_ne state ip ip' hne
    exact ⟨hrebuilt.trans hstep.1, hleaks.trans hstep.2⟩

theorem checkLeak_self (hnew : ip ∉ state.rebuilt.allocated)
    (hcont : state.rebuilt.net.Contains ip) :
    (ip ∈ (state.checkLeak ip).rebuilt.allocated ↔ state.leaks.lookup ip ≠ some 0) ∧
      (state.checkLeak ip).leaks.lookup ip = some (countDown (state.leaks.lookup ip)) := by
  have hkeep : ∀ count, ip ∈ (state.keep ip count).rebuilt.allocated ∧
      (state.keep ip count).leaks.lookup ip = some (count - 1) := by
    intro count
    exact ⟨by simp [keep, hcont], by rw [keep, Map.lookup_insert, if_pos rfl]⟩
  unfold checkLeak
  cases hget : state.leaks.lookup ip with
  | none => exact ⟨iff_of_true (hkeep _).1 (by simp), (hkeep _).2⟩
  | some count =>
    dsimp only
    by_cases hcount : count > 0
    · rw [if_pos hcount]
      exact ⟨iff_of_true (hkeep _).1 (by simp; omega), (hkeep _).2⟩
    · have hzero : count = 0 := by omega
      rw [if_neg hcount, hget, hzero]
      exact ⟨iff_of_false hnew (by simp), rfl⟩

@[simp]
theorem net_checkLeak : (state.checkLeak ip).rebuilt.net = state.rebuilt.net := by
  unfold checkLeak
  split
  · simp [keep]
  · split_ifs <;> simp [keep]

theorem net_foldl_checkLeak (ips : List ℕ) :
    (ips.foldl checkLeak state).rebuilt.net = state.rebuilt.net := by
  induction ips generalizing state with
  | nil => rfl
  | cons ip ips ih => rw [foldl_cons, ih, net_checkLeak]

theorem foldl_checkLeak_of_mem {ips : List ℕ} (hnodup : ips.Nodup) (hip : ip ∈ ips)
    (hnew : ip ∉ state.rebuilt.allocated) (hcont : state.rebuilt.net.Contains ip) :
    (ip ∈ (ips.foldl checkLeak state).rebuilt.allocated ↔ state.leaks.lookup ip ≠ some 0) ∧
      (ips.foldl checkLeak state).leaks.lookup ip = some (countDown (state.leaks.lookup ip)) := by
  obtain ⟨earlier, later, rfl⟩ := append_of_mem hip
  obtain ⟨hearlier, hlater⟩ : ip ∉ earlier ∧ ip ∉ later := by
    have := nodup_middle.mp hnodup
    simpa [not_or] using (nodup_cons.mp this).1
  rw [foldl_append, foldl_cons]
  have hbefore := @foldl_checkLeak_of_not_mem state ip earlier hearlier
  have hself := @checkLeak_self (earlier.foldl checkLeak state) ip (mt hbefore.1.mp hnew)
    (by rwa [net_foldl_checkLeak])
  have hafter := @foldl_checkLeak_of_not_mem ((earlier.foldl checkLeak state).checkLeak ip) ip
    later hlater
  rw [hafter.1, hafter.2, ← hbefore.2]
  exact hself

variable {leaks : Map ℕ ℕ} {stored : IPRange} {services : List ClusterService}

theorem net_run : (run parseIP network leaks stored services).rebuilt.net = network := by
  have hservices : ∀ state : Rebuild,
      (services.foldl (checkService parseIP) state).rebuilt.net = state.rebuilt.net := by
    induction services with
    | nil => exact fun _ ↦ rfl
    | cons svc services ih => exact fun state ↦ (ih _).trans net_checkService
  exact (net_foldl_checkLeak _).trans (hservices _)

variable (hcont : network.Contains ip)

include hcont

theorem run_of_uses (huses : Uses parseIP services ip) :
    ip ∈ (run parseIP network leaks stored services).rebuilt.allocated ∧
      (run parseIP network leaks stored services).leaks.lookup ip = none := by
  obtain ⟨hstored, hrebuilt, hleaks⟩ :=
    (@claims_checkServices parseIP network ip stored leaks services hcont).of_used huses
  have hloop := @foldl_checkLeak_of_not_mem (checkServices parseIP network leaks stored services) ip
    _ (mt mem_ips.mp hstored)
  exact ⟨hloop.1.mpr hrebuilt, hloop.2.trans hleaks⟩

/-- A pass counts an IP down that is allocated without a service, and drops it when its counter has
expired. -/
theorem run_of_leaked (hunused : ¬ Uses parseIP services ip) (hip : ip ∈ stored.allocated) :
    (ip ∈ (run parseIP network leaks stored services).rebuilt.allocated ↔
        leaks.lookup ip ≠ some 0) ∧
      (run parseIP network leaks stored services).leaks.lookup ip =
        some (countDown (leaks.lookup ip)) := by
  have hclaims := @claims_checkServices parseIP network ip stored leaks services hcont
  obtain ⟨hstored, hrebuilt, hleaks⟩ := hclaims.of_unused hunused
  rw [← hleaks]
  exact foldl_checkLeak_of_mem (Finset.sort_nodup _ _) (mem_ips.mpr (hstored.mpr hip))
    hrebuilt (by rw [hclaims.net_eq]; exact hcont)

theorem run_of_free (hunused : ¬ Uses parseIP services ip) (hip : ip ∉ stored.allocated) :
    ip ∉ (run parseIP network leaks stored services).rebuilt.allocated ∧
      (run parseIP network leaks stored services).leaks.lookup ip = leaks.lookup ip := by
  obtain ⟨hstored, hrebuilt, hleaks⟩ :=
    (@claims_checkServices parseIP network ip stored leaks services hcont).of_unused hunused
  have hloop := @foldl_checkLeak_of_not_mem (checkServices parseIP network leaks stored services) ip
    _ (mt (mem_ips.trans hstored).mp hip)
  exact ⟨mt hloop.1.mp hrebuilt, hloop.2.trans hleaks⟩

end Rebuild

/-- The counter of an unused allocated IP and the completed passes that saw it unused add up to the
grace period. -/
def Graced (parseIP : String → Option ℕ) (network : IPNet) (leaks : Map ℕ ℕ) (seen : ℕ → ℕ)
    (services : List ClusterService) (allocated : Finset ℕ) : Prop :=
  ∀ ip count, ip ∈ allocated → network.Contains ip → ¬ Uses parseIP services ip →
    Finmap.lookup ip leaks = some count → numRepairsBeforeLeakCleanup - 1 ≤ seen ip + count

variable {leaks : Map ℕ ℕ} {seen : ℕ → ℕ} {services services' : List ClusterService}
  {allocated allocated' : Finset ℕ} {cleared : Option ℕ}

namespace Graced

section

variable (hgraced : Graced parseIP network leaks seen services allocated)

include hgraced

/-- The sum is kept if every IP with an entry that is now allocated and unused was so before, not
counted anew. -/
theorem change (hchange : ∀ ip count, leaks.lookup ip = some count → ip ∈ allocated' →
      ¬ Uses parseIP services' ip →
        cleared ≠ some ip ∧ ip ∈ allocated ∧ ¬ Uses parseIP services ip) :
    Graced parseIP network leaks (clear seen cleared) services' allocated' := by
  intro ip count hip hcont hunused hget
  obtain ⟨hne, hmem, hunused'⟩ := hchange ip count hget hip hunused
  rw [clear, if_neg hne]
  exact hgraced ip count hmem hcont hunused' hget

theorem allocate {ip : ℕ} (hentry : leaks.lookup ip = none)
    (halloc : ∀ ip', ip' ∈ allocated' → ip' ∈ allocated ∨ ip' = ip) :
    Graced parseIP network leaks (clear seen (some ip)) services allocated' := by
  refine hgraced.change fun ip' count hget hip' hunused ↦ ?_
  have hne : ip' ≠ ip := by
    rintro rfl
    rw [hentry] at hget
    cases hget
  exact ⟨fun h ↦ hne (Option.some.inj h).symm, (halloc ip' hip').resolve_right hne, hunused⟩

theorem release {ip : ℕ} (halloc : ∀ ip', ip' ∈ allocated' → ip' ≠ ip ∧ ip' ∈ allocated) :
    Graced parseIP network leaks (clear seen (some ip)) services allocated' := by
  refine hgraced.change fun ip' _ _ hip' hunused ↦ ?_
  obtain ⟨hne, hmem⟩ := halloc ip' hip'
  exact ⟨fun h ↦ hne (Option.some.inj h).symm, hmem, hunused⟩

theorem createService (svc : ClusterService) :
    Graced parseIP network leaks (clear seen (svc.ip parseIP)) (svc :: services) allocated := by
  refine hgraced.change fun ip _ _ hip hunused ↦ ?_
  have hboth : svc.ip parseIP ≠ some ip ∧ ¬ Uses parseIP services ip := by
    simpa [Uses, not_or] using hunused
  exact ⟨hboth.1, hip, hboth.2⟩

theorem deleteService {svc : ClusterService}
    (hentry : ∀ ip, svc.ip parseIP = some ip → leaks.lookup ip = none) :
    Graced parseIP network leaks (clear seen (svc.ip parseIP)) (services.erase svc) allocated := by
  refine hgraced.change fun ip count hget hip hunused ↦ ?_
  have hne : svc.ip parseIP ≠ some ip := by
    intro hsvc
    rw [hentry ip hsvc] at hget
    cases hget
  refine ⟨hne, hip, ?_⟩
  rintro ⟨svc', hmem, hip'⟩
  have hne' : svc' ≠ svc := by
    rintro rfl
    exact hne hip'
  exact hunused ⟨svc', (mem_erase_of_ne hne').mpr hmem, hip'⟩

end

end Graced

/-! ## The invariant -/

namespace RepairSystem

/-- The sums are right for the record, and during a pass, which has counted down, for the bitmap it
is about to write. -/
def Invariant (parseIP : String → Option ℕ) (network : IPNet) (state : RepairSystem) : Prop :=
  match state.phase with
  | .idle => Graced parseIP network state.leaks state.seen state.services state.record.allocated
  | .got snapshot =>
    Graced parseIP network state.leaks state.seen state.services state.record.allocated ∧
      snapshot.resourceVersion ≤ state.record.resourceVersion ∧
      (snapshot.resourceVersion = state.record.resourceVersion → snapshot = state.record)
  | .updating pass =>
    (pass.NoLeak parseIP →
      Graced parseIP network state.leaks state.seen state.services state.record.allocated) ∧
      pass.resourceVersion ≤ state.record.resourceVersion ∧
      (pass.resourceVersion = state.record.resourceVersion →
        Graced parseIP network state.leaks pass.carry state.services pass.rebuilt.allocated ∧
        ∀ ip ∈ state.record.allocated, network.Contains ip → ip ∉ pass.rebuilt.allocated →
          numRepairsBeforeLeakCleanup ≤ pass.streak ip)

variable {state target : RepairSystem}

theorem Invariant.change {record : IPRecord} (hinv : Invariant parseIP network state)
    (hver : record = state.record ∨ state.record.resourceVersion < record.resourceVersion)
    (hrecord : ∀ seen,
      Graced parseIP network state.leaks seen state.services state.record.allocated →
        Graced parseIP network state.leaks (clear seen cleared) services' record.allocated)
    (hservices : record = state.record → ∀ seen allocated,
      Graced parseIP network state.leaks seen state.services allocated →
        Graced parseIP network state.leaks (clear seen cleared) services' allocated) :
    Invariant parseIP network
      (reset { state with record := record, services := services' } cleared) := by
  cases hphase : state.phase <;> simp only [Invariant, hphase] at hinv
  case idle => simpa only [Invariant, reset, hphase] using hrecord _ hinv
  case got snapshot =>
    simp only [Invariant, reset]
    obtain ⟨hgraced, hle, heq⟩ := hinv
    refine ⟨hrecord _ hgraced, ?_⟩
    rcases hver with rfl | hlt
    · exact ⟨hle, heq⟩
    · exact ⟨by omega, by omega⟩
  case updating pass =>
    simp only [Invariant, reset]
    obtain ⟨hgraced, hle, heq⟩ := hinv
    refine ⟨fun hnoLeak ↦ hrecord _ (hgraced hnoLeak), ?_⟩
    rcases hver with rfl | hlt
    · refine ⟨hle, fun h ↦ ?_⟩
      exact ⟨hservices rfl _ _ (heq h).1, (heq h).2⟩
    · exact ⟨by omega, by omega⟩

theorem allocated_getD (record : IPRecord) :
    (record.range.getD (.newCIDRRange network)).allocated = record.allocated := by
  unfold IPRecord.allocated
  cases record.range <;> rfl

/-- The two loops count down the leaks of the snapshot. -/
theorem Invariant.evaluate {snapshot : IPRecord} (hinv : Invariant parseIP network state)
    (hphase : state.phase = .got snapshot) :
    Invariant parseIP network (state.evaluate parseIP network snapshot) := by
  simp only [Invariant, hphase] at hinv
  obtain ⟨hgraced, hle, heq⟩ := hinv
  refine ⟨fun hnoLeak ip count hip hcont hunused hget ↦ ?_, hle, fun hver ↦ ?_⟩
  · have hfree : ip ∉ (snapshot.range.getD (.newCIDRRange network)).allocated :=
      fun h ↦ hunused (hnoLeak ip h)
    have hleaks : state.leaks.lookup ip = some count :=
      (Rebuild.run_of_free hcont hunused hfree).2.symm.trans hget
    exact hgraced ip count hip hcont hunused hleaks
  · obtain rfl : snapshot = state.record := heq hver
    have hstored := @allocated_getD network state.record
    refine ⟨fun ip count hip hcont hunused hget ↦ ?_, fun ip hip hcont hdropped ↦ ?_⟩
    · have hmem : ip ∈ (state.record.range.getD (.newCIDRRange network)).allocated := by
        by_contra hfree
        exact (Rebuild.run_of_free hcont hunused hfree).1 hip
      obtain ⟨hkept, hcount⟩ := @Rebuild.run_of_leaked parseIP network ip state.leaks _ _ hcont
        hunused hmem
      have hcarry : (state.evaluated parseIP network state.record).carry ip = state.seen ip + 1 :=
        if_pos ⟨hmem, hunused⟩
      have hlookup' := Option.some.inj (hcount.symm.trans hget)
      cases hold : state.leaks.lookup ip with
      | none =>
        rw [hold] at hlookup'
        simp only [Rebuild.countDown, numRepairsBeforeLeakCleanup] at hlookup' ⊢
        omega
      | some old =>
        have hsum := hgraced ip old (hstored ▸ hmem) hcont hunused hold
        rw [hold] at hlookup'
        simp only [Rebuild.countDown] at hlookup'
        omega
    · have hunused : ¬ Uses parseIP state.services ip :=
        fun huses ↦ hdropped (Rebuild.run_of_uses hcont huses).1
      have hmem : ip ∈ (state.record.range.getD (.newCIDRRange network)).allocated := by
        rwa [hstored]
      have hzero : state.leaks.lookup ip = some 0 := by
        by_contra hne
        exact hdropped ((Rebuild.run_of_leaked hcont hunused hmem).1.mpr hne)
      have hstreak : (state.evaluated parseIP network state.record).streak ip = state.seen ip + 1 :=
        if_pos ⟨hmem, hunused⟩
      have hsum := hgraced ip 0 hip hcont hunused hzero
      omega

theorem Invariant.step {label : RepairLabel} (hinv : Invariant parseIP network state)
    (hord : Orderly parseIP state label) (hstep : RepairStep parseIP network state label target) :
    Invariant parseIP network target := by
  cases hstep with
  | allocate r ip hrange hok =>
    have halloc : state.record.allocated = r.allocated := by simp [IPRecord.allocated, hrange]
    refine hinv.change (.inr (Nat.lt_succ_self _)) (fun _ hgraced ↦ ?_) ?_
    · refine hgraced.allocate hord fun ip' hip' ↦ ?_
      rw [halloc]
      exact (mem_allocated_allocate.mp hip').imp_right And.left
    · intro h
      exact absurd (congrArg IPRecord.resourceVersion h) (Nat.succ_ne_self _)
  | release r ip hrange =>
    have halloc : state.record.allocated = r.allocated := by simp [IPRecord.allocated, hrange]
    refine hinv.change (.inr (Nat.lt_succ_self _)) (fun _ hgraced ↦ ?_) ?_
    · refine hgraced.release fun ip' hip' ↦ ?_
      rw [halloc]
      exact IPRange.mem_allocated_release.mp hip'
    · intro h
      exact absurd (congrArg IPRecord.resourceVersion h) (Nat.succ_ne_self _)
  | createService svc =>
    exact hinv.change (.inl rfl) (fun _ hgraced ↦ hgraced.createService svc)
      fun _ _ _ hgraced ↦ hgraced.createService svc
  | deleteService svc hmem =>
    exact hinv.change (.inl rfl) (fun _ hgraced ↦ hgraced.deleteService hord)
      fun _ _ _ hgraced ↦ hgraced.deleteService hord
  | get hphase =>
    simp only [Invariant, hphase] at hinv
    exact ⟨hinv, le_refl _, fun _ ↦ rfl⟩
  | abort snapshot hphase =>
    simp only [Invariant, hphase] at hinv
    exact hinv.1
  | list snapshot hphase => exact hinv.evaluate hphase
  | complete pass hphase hver =>
    simp only [Invariant, hphase] at hinv
    exact (hinv.2.2 hver).1
  | fail pass hphase =>
    simp only [Invariant, hphase] at hinv
    exact hinv.1 (hord pass hphase)

theorem ReachableOrderly.invariant (hreach : ReachableOrderly parseIP network state) :
    Invariant parseIP network state := by
  refine Transition.Reachable.invariant ?_ ?_ hreach
  · intro state hnew
    simp only [Invariant, hnew.phase_eq]
    intro ip count _ _ _ hget
    rw [hnew.leaks_eq] at hget
    cases hget
  · intro state label target _ hinv hstep
    exact hinv.step hstep.1 hstep.2

section

variable (parseIP : String → Option ℕ) (network : IPNet) (state : RepairSystem)

def listed : RepairSystem :=
  evaluate parseIP network { state with phase := .got state.record } state.record

def passed : RepairSystem :=
  (listed parseIP network state).complete (state.evaluated parseIP network state.record)

end

theorem complete_listed (state : RepairSystem) :
    RepairStep parseIP network (listed parseIP network state) .complete
      (passed parseIP network state) :=
  .complete _ _ rfl rfl

section

variable (hreach : ReachableOrderly parseIP network state) (hidle : state.phase = .idle)

include hreach hidle

theorem ReachableOrderly.listed :
    ReachableOrderly parseIP network (listed parseIP network state) :=
  (hreach.guardedNext (.get state hidle) trivial).guardedNext (.list _ _ rfl) trivial

theorem ReachableOrderly.passed :
    ReachableOrderly parseIP network (passed parseIP network state) :=
  (hreach.listed hidle).guardedNext (complete_listed state) trivial

end

/-- An uninterrupted pass keeps a leaked IP and counts it down, or drops it once its counter has
expired. -/
theorem passed_spec {ip : ℕ} (hcont : network.Contains ip)
    (hunused : ¬ Uses parseIP state.services ip) (hip : ip ∈ state.record.allocated) :
    (ip ∈ (passed parseIP network state).record.allocated ↔ state.leaks.lookup ip ≠ some 0) ∧
      (passed parseIP network state).leaks.lookup ip =
        some (Rebuild.countDown (state.leaks.lookup ip)) ∧
      (listed parseIP network state).streak ip = state.seen ip + 1 ∧
      (passed parseIP network state).seen ip = state.seen ip + 1 := by
  have hmem : ip ∈ (state.record.range.getD (.newCIDRRange network)).allocated := by
    rwa [allocated_getD]
  obtain ⟨hkept, hcount⟩ :=
    @Rebuild.run_of_leaked parseIP network ip state.leaks _ _ hcont hunused hmem
  exact ⟨hkept, hcount, if_pos ⟨hmem, hunused⟩, if_pos ⟨hmem, hunused⟩⟩

/-- In an orderly run a completed pass drops an IP only if at least `numRepairsBeforeLeakCleanup`
consecutive completed passes saw this allocation unused. -/
theorem ReachableOrderly.grace_period {ip : ℕ} (hreach : ReachableOrderly parseIP network state)
    (hstep : RepairStep parseIP network state .complete target)
    (hcont : network.Contains ip) (halloc : ip ∈ state.record.allocated)
    (hdropped : ip ∉ target.record.allocated) :
    numRepairsBeforeLeakCleanup ≤ state.streak ip := by
  have hinv := hreach.invariant
  cases hstep with
  | complete pass hphase hver =>
    simp only [Invariant, hphase] at hinv
    simp only [streak, hphase]
    exact (hinv.2.2 hver).2 ip halloc hcont hdropped

/-! ## A leaked address -/

/-- The network `10.0.0.0/28`, with the leaked address `10.0.0.5`. -/
def leakNetwork : IPNet := ⟨167772160, 16⟩

def leakedIP : ℕ := 167772165

def leaked : RepairSystem where
  record := ⟨1, some ⟨leakNetwork, {leakedIP}, by decide⟩⟩
  services := []
  leaks := ∅
  phase := .idle
  seen := fun _ ↦ 0

def noIP : String → Option ℕ := fun _ ↦ none

def leakedOnce : RepairSystem := passed noIP leakNetwork leaked

def leakedTwice : RepairSystem := passed noIP leakNetwork leakedOnce

def leakedThrice : RepairSystem := passed noIP leakNetwork leakedTwice

theorem leaked_reachableOrderly : ReachableOrderly noIP leakNetwork leaked := .start ⟨rfl, rfl, rfl⟩

theorem leakedOnce_spec : leakedIP ∈ leakedOnce.record.allocated ∧
    leakedOnce.leaks.lookup leakedIP = some 1 ∧ leakedOnce.seen leakedIP = 1 := by
  obtain ⟨hkept, hcount, _, hseen⟩ :=
    @passed_spec noIP leakNetwork leaked leakedIP (by decide) (by decide) (by decide)
  exact ⟨hkept.mpr (by decide), hcount, hseen⟩

theorem leakedTwice_spec : leakedIP ∈ leakedTwice.record.allocated ∧
    leakedTwice.leaks.lookup leakedIP = some 0 ∧ leakedTwice.seen leakedIP = 2 := by
  obtain ⟨hmem, hget, hseen⟩ := leakedOnce_spec
  obtain ⟨hkept, hcount, _, hseen'⟩ :=
    @passed_spec noIP leakNetwork leakedOnce leakedIP (by decide) (by decide) hmem
  rw [hget] at hkept hcount
  exact ⟨hkept.mpr (by decide), hcount, hseen'⟩

theorem leakedThrice_spec :
    leakedIP ∉ leakedThrice.record.allocated ∧ leakedThrice.leaks.lookup leakedIP = some 0 := by
  obtain ⟨hmem, hget, _⟩ := leakedTwice_spec
  obtain ⟨hkept, hcount, _⟩ :=
    @passed_spec noIP leakNetwork leakedTwice leakedIP (by decide) (by decide) hmem
  rw [hget] at hkept hcount
  exact ⟨fun h ↦ hkept.mp h rfl, hcount⟩

theorem leaked_dropped_by_third :
    numRepairsBeforeLeakCleanup ≤ (listed noIP leakNetwork leakedTwice).streak leakedIP :=
  ReachableOrderly.grace_period
    (((leaked_reachableOrderly.passed rfl).passed rfl).listed rfl)
    (complete_listed leakedTwice) (by decide) leakedTwice_spec.1 leakedThrice_spec.1

def reallocated : RepairSystem :=
  let r := leakedThrice.record.range.getD (.newCIDRRange leakNetwork)
  (leakedThrice.write (r.allocate leakedIP).1).reset (some leakedIP)

theorem leakedThrice_contains :
    (leakedThrice.record.range.getD (.newCIDRRange leakNetwork)).net.Contains leakedIP := by
  have hnet : (leakedThrice.record.range.getD (.newCIDRRange leakNetwork)).net = leakNetwork :=
    Rebuild.net_run
  rw [hnet]
  decide

/-- After a leak was cleaned up, the first pass that sees the new allocation drops it. -/
theorem reallocated_dropped_by_first :
    ∃ target, (listed noIP leakNetwork reallocated).Reachable noIP leakNetwork ∧
      RepairStep noIP leakNetwork (listed noIP leakNetwork reallocated) .complete target ∧
      leakNetwork.Contains leakedIP ∧
      leakedIP ∈ (listed noIP leakNetwork reallocated).record.allocated ∧
      leakedIP ∉ target.record.allocated ∧
      (listed noIP leakNetwork reallocated).streak leakedIP = 1 := by
  have hthrice : leakedThrice.ReachableOrderly noIP leakNetwork :=
    ((leaked_reachableOrderly.passed rfl).passed rfl).passed rfl
  have hreach : reallocated.Reachable noIP leakNetwork :=
    .next hthrice.of_guarded (.allocate leakedThrice _ leakedIP rfl
      (allocate_eq_ok.mpr ⟨leakedThrice_contains, leakedThrice_spec.1⟩))
  have hmem : leakedIP ∈ reallocated.record.allocated :=
    mem_allocated_allocate.mpr (.inr ⟨rfl, leakedThrice_contains⟩)
  obtain ⟨hkept, _, hstreak, _⟩ :=
    @passed_spec noIP leakNetwork reallocated leakedIP (by decide) (by decide) hmem
  refine ⟨_, ?_, complete_listed reallocated, by decide, hmem, ?_, ?_⟩
  · exact (hreach.next (.get _ rfl)).next (.list _ _ rfl)
  · exact fun h ↦ hkept.mp h leakedThrice_spec.2
  · exact hstreak

end RepairSystem

end Kubernetes.Registry

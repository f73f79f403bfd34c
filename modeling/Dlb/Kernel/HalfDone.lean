import Dlb.Cpuinfo.Owners
import Dlb.Kernel.Node
import Dlb.Procinfo.Pending

/-!
# Initializations that stay half done

`Initialize` registers a process in procinfo and then in cpuinfo, and `PreInitialize` does the same for another process.
Procinfo looks at masks, where a CPU is free as soon as its process loses it; cpuinfo looks at owners, which change when
that process polls. In between, the first registration succeeds and the second one fails, and nobody undoes the first:
both succeed exactly when the CPUs of the mask have no other owner in cpuinfo (`initialization_whole_iff`).
-/

namespace Dlb.Kernel

variable {S : System} {p : Process} {n : Node} {call : Call} {mask : CpuSet}

/-! ## Operations as processes make them -/

/-- The process is initialized: it knows its entry in procinfo. -/
def Up (p : Process) (n : Node) : Prop :=
  p.id ≠ 0 ∧ ∃ i, p.procinfo.myPinfo = some i ∧ (n.procinfo.processInfo i).pid = p.id

/-- A process polls and finishes once it is initialized. One that sets masks knows its entry if it is initialized, and
none if it is not. -/
def Proper (p : Process) (n : Node) : Call → Prop
  | .init _ => p.id ≠ 0
  | .preInit pid _ _ => pid ≠ 0
  | .finish | .pollDrom => Up p n
  | .dromSetprocessmask .. => if p.dlbInitialized then Up p n else p.procinfo.myPinfo = none
  | _ => True

/-- Cpuinfo is set up before anybody is registered, and without owners. -/
structure Started (n : Node) : Prop where
  bounded : Procinfo.Bounded n.procinfo
  unowned : Cpuinfo.Unowned n.cpuinfo
  empty : n.cpuinfo.initialized = false → ∀ i, (n.procinfo.processInfo i).pid = 0

theorem Up.initialized (hup : Up p n) (h : Started n) : n.cpuinfo.initialized = true := by
  obtain ⟨hid, i, -, hi⟩ := hup
  by_contra hinit
  exact hid (hi ▸ h.empty (by simpa using hinit) i)

theorem Started.of_initialized {n1 : Node} (hb : Procinfo.Bounded n1.procinfo) (hinit : n1.cpuinfo.initialized = true) :
    Started n1 where
  bounded := hb
  unowned hno := by simp [hinit] at hno
  empty hno := by simp [hinit] at hno

theorem Started.leaves (h : Started n) {d : Procinfo.Shdata} (hb : Procinfo.Bounded d)
    (hpid : ∀ i, (d.processInfo i).pid = (n.procinfo.processInfo i).pid ∨ (d.processInfo i).pid = 0) :
    Started ⟨d, n.cpuinfo⟩ :=
  ⟨hb, h.unowned, fun hinit i => (hpid i).elim (fun he => he.trans (h.empty hinit i)) id⟩

theorem preinit_failed_pid {c : Procinfo.Caller} {d : Procinfo.Shdata} {pid : Pid} {flags : Procinfo.DromFlags}
    (h : (Procinfo.preinit S c d pid mask flags).2.error ≠ .success) (i : ℕ) :
    ((Procinfo.preinit S c d pid mask flags).1.processInfo i).pid = (d.processInfo i).pid ∨
      ((Procinfo.preinit S c d pid mask flags).1.processInfo i).pid = 0 := by
  unfold Procinfo.preinit at h ⊢
  cases hscan : Lib.scan c.maxProcesses fun p => (d.processInfo p).pid = pid ∨ (d.processInfo p).pid = 0 with
  | none => exact .inl rfl
  | some p =>
    rw [hscan] at h
    dsimp only at h ⊢
    split
    · exact .inl rfl
    · rename_i hne
      rw [if_neg hne] at h
      have hsame := Procinfo.takeMask_same S (d.set p { pid := pid, preregistered := true }) p mask flags
      unfold Procinfo.preregister at h ⊢
      dsimp only at h ⊢
      split
      · by_cases hi : i = p
        · right
          rw [hi, Procinfo.Shdata.modify, Procinfo.set_same_slot]
        · left
          rw [Procinfo.Shdata.modify, Procinfo.set_other_slot _ _ hi, hsame.pid i, Procinfo.set_other_slot _ _ hi]
      · rename_i hok
        rw [if_neg hok] at h
        exact absurd rfl h

theorem pid_of_isShmemEmpty {d : Procinfo.Shdata} (hb : Procinfo.Bounded d) (h : d.isShmemEmpty = true) (i : ℕ) :
    (d.processInfo i).pid = 0 := by
  rw [Procinfo.Shdata.isShmemEmpty, Option.isNone_iff_eq_none] at h
  by_contra hi
  have := Lib.scan_none h (hb.lt_num hi)
  simp only [ne_eq, decide_eq_false_iff_not, not_not] at this
  exact hi this

theorem started_zeroed : Started {} := ⟨⟨fun _ _ => rfl, fun _ => rfl⟩, fun _ _ => rfl, fun _ _ => rfl⟩

theorem Started.exec (h : Started n) (hproper : Proper p n call) : Started (exec S p n call).node := by
  have hb : Procinfo.Bounded (Kernel.exec S p n call).node.procinfo := by
    rcases exec_procinfo S p n call with heq | ⟨c, -, heq⟩
    · rw [heq]
      exact h.bounded
    · rw [heq]
      exact Procinfo.exec_bounded S p.procinfo c h.bounded
  cases call with
  | attach => exact h.leaves hb (Procinfo.extInit_leaves S p.procinfo n.procinfo).pid
  | init mask =>
    unfold Kernel.exec initializeSpd at hb ⊢
    dsimp only at hb ⊢
    split
    · rename_i hfail
      rw [if_pos hfail] at hb
      refine h.leaves hb fun i => ?_
      rcases Procinfo.init_failed h.bounded hfail.1 hfail.2 i with he | ⟨-, he⟩
      · exact .inl (congrArg _ he)
      · exact .inr (congrArg _ he)
    · rename_i hok
      rw [if_neg hok] at hb
      exact .of_initialized hb Cpuinfo.init_opens
  | preInit pid mask flags =>
    unfold Kernel.exec preInit at hb ⊢
    dsimp only at hb ⊢
    split
    · rename_i hfail
      rw [if_pos hfail] at hb
      refine h.leaves hb fun i => ?_
      simp only [Procinfo.exec] at hfail ⊢
      split
      · exact .inl rfl
      · rename_i hinit
        rw [if_neg hinit] at hfail
        exact preinit_failed_pid hfail i
    · rename_i hok
      rw [if_neg hok] at hb
      exact .of_initialized hb Cpuinfo.extPreinit_opens
  | finish =>
    refine .of_initialized hb ?_
    have hinit := Up.initialized hproper h
    have hderegistered : ∀ d, d.initialized = true → (Cpuinfo.finalize S p.cpuinfo d p.id).initialized = true := fun d hd =>
      (Cpuinfo.finalize_respects p.cpuinfo).initialized hd
    refine hderegistered _ ?_
    split
    · exact (Cpuinfo.shmemDeregister_respects p.cpuinfo).initialized hinit
    · exact hinit
  | pollDrom =>
    have hinit := Up.initialized hproper h
    refine .of_initialized hb ?_
    unfold Kernel.exec pollDrom
    dsimp only
    split
    · exact hinit
    · split
      · exact (Cpuinfo.shmemUpdateOwnership_respects p.lewi _).initialized hinit
      · exact hinit
  | dromSetprocessmask pid parents mask flags =>
    unfold Kernel.exec dromSetprocessmask at hb ⊢
    dsimp only at hb ⊢
    split
    · rename_i hself
      rw [if_pos hself] at hb
      unfold Proper at hproper
      rw [if_pos hself.2.1] at hproper
      exact .of_initialized hb ((Cpuinfo.shmemUpdateOwnership_respects p.lewi mask).initialized (hproper.initialized h))
    · rename_i hother
      rw [if_neg hother] at hb
      refine h.leaves hb fun i => .inl ?_
      simp only [Procinfo.exec]
      split
      · rfl
      · exact (Procinfo.setprocessmask_same S p.procinfo n.procinfo pid parents mask flags).pid i
  | closeProcinfo =>
    refine h.leaves hb fun i => ?_
    simp only [Procinfo.exec]
    split
    · exact .inl rfl
    · exact (Procinfo.closeShmem_leaves n.procinfo).pid i
  | closeCpuinfo =>
    unfold Kernel.exec closeCpuinfo at hb ⊢
    dsimp only
    split
    · rename_i hempty
      exact ⟨hb, fun _ _ => rfl, fun _ => pid_of_isShmemEmpty h.bounded hempty.1⟩
    · exact h

theorem reachable_started (h : Reachable S Proper n) : Started n := by
  refine Lib.Run.invariant h started_zeroed ?_
  rintro n _ hn ⟨p, call, hproper⟩
  exact hn.exec hproper

/-! ## Both registrations -/

/-- **Initializations are whole** exactly when the CPUs are obtainable: in every state, when procinfo registers a process
that inherits nothing, or preregisters one without stealing, then cpuinfo registers it too if and only if none of the
CPUs has another owner there. -/
theorem initialization_whole_iff (h : Reachable S Proper n) (p : Process) (mask : CpuSet) :
    (p.preinitPid = 0 → (Procinfo.exec S p.procinfo n.procinfo (.init p.id 0 mask false)).2.error = .success →
      ((exec S p n (.init mask)).error = .success ↔
        ∀ c ∈ mask, c < S.size → (n.cpuinfo.nodeInfo c).owner = 0 ∨ (n.cpuinfo.nodeInfo c).owner = p.id)) ∧
    ∀ pid flags, flags.stealCpus = false →
      (Procinfo.exec S p.procinfo n.procinfo (.preinit pid mask flags)).2.error = .success →
      ((exec S p n (.preInit pid mask flags)).error = .success ↔
        ∀ c ∈ mask, c < S.size → (n.cpuinfo.nodeInfo c).owner = 0 ∨ (n.cpuinfo.nodeInfo c).owner = pid) := by
  have hs := reachable_started h
  have hiff : ∀ pid, Cpuinfo.Registrable S n.cpuinfo pid 0 mask ↔
      ∀ c ∈ mask, c < S.size → (n.cpuinfo.nodeInfo c).owner = 0 ∨ (n.cpuinfo.nodeInfo c).owner = pid := by
    intro pid
    refine forall₃_congr fun c _ _ => ⟨fun h => ?_, fun h => ?_⟩
    · rcases h with h | h | h
      · exact .inl h
      · exact .inr h
      · exact .inl h
    · rcases h with h | h
      · exact .inl h
      · exact .inr (.inl h)
  constructor
  · intro hpre hok
    unfold Kernel.exec initializeSpd
    rw [hpre]
    dsimp only
    rw [if_neg (by simp [hok]), if_neg (by simp [hok]), ← hiff]
    exact Cpuinfo.init_success_iff hs.unowned
  · intro pid flags hsteal hok
    unfold Kernel.exec preInit
    dsimp only
    rw [if_neg (by simp [hok]), hsteal, ← hiff]
    exact Cpuinfo.extPreinit_success_iff hs.unowned

/-- Process `1` has CPUs `0` and `1`, and another process takes CPU `1` from it. -/
def shrunk : List (Process × Call) := [(process 1, .init {0, 1}), (process 3, .dromSetprocessmask 1 [] {0} {})]

theorem shrunk_run : Reachable Procinfo.threeCpus Proper (shrunk.foldl (next Procinfo.threeCpus) {}) := by
  refine along_run ⟨?_, ?_, trivial⟩
  · exact Nat.one_ne_zero
  · exact rfl

/-- Once process `1` has polled, process `2` gets the CPU that it lost. -/
theorem initialization_whole_iff_polled :
    (exec Procinfo.threeCpus (process 2) ((shrunk ++ [(running 1 0, Call.pollDrom)]).foldl (next Procinfo.threeCpus) {})
      (.init {1})).error = .success := by
  have hrun : Reachable Procinfo.threeCpus Proper
      ((shrunk ++ [(running 1 0, Call.pollDrom)]).foldl (next Procinfo.threeCpus) {}) := by
    exact shrunk_run.tail (.call (running 1 0) .pollDrom ⟨Nat.one_ne_zero, 0, rfl, by decide⟩)
  exact ((initialization_whole_iff hrun (process 2) {1}).1 rfl (by decide)).mpr (by decide)

/-- Before, procinfo registers process `2` with the CPU and cpuinfo refuses it. -/
theorem registered_in_procinfo_only :
    ¬∀ n p mask, Reachable Procinfo.threeCpus Proper n → p.preinitPid = 0 → (∀ i, (n.procinfo.processInfo i).pid ≠ p.id) →
      (Procinfo.exec Procinfo.threeCpus p.procinfo n.procinfo (.init p.id 0 mask false)).2.error = .success →
      (exec Procinfo.threeCpus p n (.init mask)).error = .success := by
  intro h
  have hnew : ∀ i, ((shrunk.foldl (next Procinfo.threeCpus) {}).procinfo.processInfo i).pid ≠ (process 2).id := by
    intro i hi
    have hlt := (reachable_started shrunk_run).bounded.lt_num (i := i) (by rw [hi]; decide)
    have hnum : i < 1 := lt_of_lt_of_eq hlt (by decide)
    obtain rfl : i = 0 := by omega
    exact absurd hi (by decide)
  have hok := h _ (process 2) {1} shrunk_run rfl hnew (by decide)
  exact absurd hok (by decide)

end Dlb.Kernel

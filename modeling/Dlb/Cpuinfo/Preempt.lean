import Dlb.Cpuinfo.Respect

/-!
# Nobody is preempted, except by a late return

* an operation of a process leaves the guests of the others where they are, in every state (`exec_respects`);
* a deferred return of a CPU writes this CPU only, and replaces whoever is the guest by then (`returnAsync_self`), so it
  is harmless exactly when the CPU is still guested by the process of the task, by nobody, or already by the owner that
  has reclaimed it (`Harmless`);
* along any run, guests change by an operation of the guest or by a return on its behalf if and only if every return is
  harmless (`no_preemption_iff`).
-/

namespace Dlb.Cpuinfo

open Function

variable {S : System} {p q : Pid} {d : Shdata} {c : ℕ}

/-! ## Deferred returns -/

def returned (i : CpuInfo) : CpuInfo := { i with guest := if i.state = .busy then i.owner else 0 }

theorem returnGuest_info : (returnGuest d c).nodeInfo = update d.nodeInfo c (returned (d.nodeInfo c)) := by
  unfold returnGuest returned
  dsimp only
  split
  · rfl
  · rfl

def CpuInfo.ask (i : CpuInfo) (pid : Pid) : CpuInfo :=
  { i with requests := (i.requests.enqueue queuePidSize pid).getD i.requests }

theorem requestAgain_info : (requestAgain p d c).nodeInfo = update d.nodeInfo c ((d.nodeInfo c).ask p) := by
  unfold requestAgain CpuInfo.ask
  split
  · rename_i requests hr
    rw [hr]
    rfl
  · rename_i hr
    rw [hr]
    exact (update_eq_self c d.nodeInfo).symm

theorem requestAgain_flags : SameFlags d (requestAgain p d c) := by
  unfold requestAgain
  split
  · exact ⟨rfl, rfl, rfl⟩
  · exact ⟨rfl, rfl, rfl⟩

theorem returnAsync_info :
    (returnAsync S p d c).nodeInfo = update d.nodeInfo c ((returned (d.nodeInfo c)).ask p) := by
  have hinfo : (updateOccupiedCores S (returnGuest d c) (d.nodeInfo c).owner c).nodeInfo =
      update d.nodeInfo c (returned (d.nodeInfo c)) := returnGuest_info
  unfold returnAsync
  rw [requestAgain_info, hinfo, update_idem, update_self]

theorem returnAsync_flags : SameFlags d (returnAsync S p d c) := by
  have h := requestAgain_flags (p := p) (d := updateOccupiedCores S (returnGuest d c) (d.nodeInfo c).owner c) (c := c)
  have hguest : SameFlags d (returnGuest d c) := by
    unfold returnGuest
    dsimp only
    split
    · exact ⟨rfl, rfl, rfl⟩
    · exact ⟨rfl, rfl, rfl⟩
  exact ⟨h.initialized.trans hguest.initialized, h.queues.trans hguest.queues, h.smt.trans hguest.smt⟩

theorem returnAsync_of_ne {x : ℕ} (hx : x ≠ c) : (returnAsync S p d c).nodeInfo x = d.nodeInfo x := by
  rw [returnAsync_info, update_of_ne hx]

theorem returnAsync_self : (returnAsync S p d c).nodeInfo c = (returned (d.nodeInfo c)).ask p := by
  rw [returnAsync_info, update_self]

theorem returnAsyncs_info (p : Pid) (x : ℕ) : ∀ (l : List ℕ) (d : Shdata), l.Nodup →
    (l.foldl (returnAsync S p) d).nodeInfo x = if x ∈ l then (returned (d.nodeInfo x)).ask p else d.nodeInfo x
  | [], _, _ => rfl
  | c :: rest, d, hl => by
    obtain ⟨hc, hrest⟩ := List.nodup_cons.mp hl
    rw [List.foldl_cons, returnAsyncs_info p x rest _ hrest]
    by_cases hx : x = c
    · subst hx
      rw [if_neg hc, if_pos List.mem_cons_self, returnAsync_self]
    · rw [returnAsync_of_ne hx]
      simp [hx]

theorem returnAsyncs_guest (p : Pid) (x : ℕ) (l : List ℕ) (d : Shdata) (hl : l.Nodup) :
    ((l.foldl (returnAsync S p) d).nodeInfo x).guest =
      if x ∈ l then (returned (d.nodeInfo x)).guest else (d.nodeInfo x).guest := by
  rw [returnAsyncs_info p x l d hl]
  split
  · rfl
  · rfl

/-- The return takes the CPU from nobody but its process: that is the guest, or nobody is, or the owner that has
reclaimed the CPU is the guest already. -/
def Harmless (pid : Pid) (d : Shdata) (cpuid : ℕ) : Prop :=
  (d.nodeInfo cpuid).guest = pid ∨ (d.nodeInfo cpuid).guest = 0 ∨
    ((d.nodeInfo cpuid).state = .busy ∧ (d.nodeInfo cpuid).guest = (d.nodeInfo cpuid).owner)

theorem harmless_iff : Harmless p d c ↔ ((d.nodeInfo c).guest ≠ 0 →
    (returned (d.nodeInfo c)).guest ≠ (d.nodeInfo c).guest → (d.nodeInfo c).guest = p) := by
  unfold Harmless returned
  split
  · rename_i hb
    simp only [hb, true_and]
    constructor
    · rintro (h | h | h) h0 hne
      · exact h
      · exact absurd h h0
      · exact absurd h.symm hne
    · intro h
      by_cases h0 : (d.nodeInfo c).guest = 0
      · exact .inr (.inl h0)
      by_cases ho : (d.nodeInfo c).guest = (d.nodeInfo c).owner
      · exact .inr (.inr ho)
      · exact .inl (h h0 (Ne.symm ho))
  · rename_i hb
    simp only [hb, false_and, or_false]
    constructor
    · rintro (h | h) h0 -
      · exact h
      · exact absurd h h0
    · intro h
      by_cases h0 : (d.nodeInfo c).guest = 0
      · exact .inr h0
      · exact .inl (h h0 (Ne.symm h0))

/-! ## Runs -/

namespace AsyncNode

variable {n : AsyncNode}

/-- Process `p` does the operation, or the return is on its behalf. -/
def By (n : AsyncNode) (p : Pid) : Event → Prop
  | .op _ pid _ => pid = p
  | .resolve i => ∃ group ∈ n.pending[i]?, group.1 = p

/-- A guest that an event replaces is the process behind the event. -/
def NotPreempted (S : System) (n : AsyncNode) (e : Event) : Prop :=
  ∀ c, (n.shm.nodeInfo c).guest ≠ 0 → ((n.next S e).shm.nodeInfo c).guest ≠ (n.shm.nodeInfo c).guest →
    n.By (n.shm.nodeInfo c).guest e

/-- The memory is initialized, or nobody has used it. -/
def Started (n : AsyncNode) : Prop :=
  n.shm.initialized = true ∨ (n.shm.Zeroed ∧ (∀ p, n.phase p = .out) ∧ n.pending = [])

theorem Started.zeroed (h : n.Started) : n.shm.Zeroed := by
  rcases h with h | h
  · intro hi
    rw [h] at hi
    cases hi
  · exact h.1

end AsyncNode

/-- An `init` without preinit pid, or another event. -/
def Event.NoPreinit : Event → Prop
  | .op _ _ operation => operation.NoPreinit
  | .resolve _ => True

section Runs

variable {n : AsyncNode} {e : Event}

theorem init_initialized (co : Caller) (mask : CpuSet) : (init S co d q 0 mask).1.initialized = true := by
  have hstart : (initShmem S co d).initialized = true := by
    unfold initShmem
    split
    · assumption
    · rfl
  have hregister := (registerProcess_respects (S := S) (q := q) (d := initShmem S co d) mask false).initialized hstart
  unfold init
  dsimp only
  split
  · exact (finalize_respects co).initialized hregister
  · exact hregister

theorem returnAsyncs_flags (p : Pid) (l : List ℕ) (d : Shdata) : SameFlags d (l.foldl (returnAsync S p) d) := by
  refine List.foldlRecOn l _ ⟨rfl, rfl, rfl⟩ fun d' hd c _ => ?_
  have hc : SameFlags d' (returnAsync S p d' c) := returnAsync_flags
  exact ⟨hc.initialized.trans hd.initialized, hc.queues.trans hd.queues, hc.smt.trans hd.smt⟩

theorem AsyncNode.Started.next (h : n.Started) (he : e.NoPreinit) : (n.next S e).Started := by
  cases e with
  | op co pid op =>
    unfold AsyncNode.next
    dsimp only
    split
    · rename_i hallowed
      refine .inl ?_
      rcases h with h | ⟨-, hout, -⟩
      · exact (exec_respects (fun hi => absurd h (by simp [hi])) co he).initialized h
      · -- only `init` is allowed
        rw [hout pid] at hallowed
        cases op with
        | init preinitPid mask =>
          obtain rfl : preinitPid = 0 := he
          exact init_initialized co mask
        | lewiInit _ | lewi _ | removeRequests | checkCpuAvailability _ _ | updateOwnership _ _ | deregister | finalize =>
          cases hallowed
    · exact h
  | resolve i =>
    unfold AsyncNode.next
    dsimp only
    split
    · rename_i group hgroup
      rcases h with h | ⟨-, -, hnone⟩
      · exact .inl ((returnAsyncs_flags _ _ _).initialized.trans h)
      · rw [hnone] at hgroup
        cases hgroup
    · exact h

theorem notPreempted_iff (h : n.Started) (he : e.NoPreinit) : n.NotPreempted S e ↔ n.Returns S Harmless e := by
  cases e with
  | op co pid op =>
    refine iff_of_true (fun c h0 hne => ?_) trivial
    by_contra hby
    unfold AsyncNode.next at hne
    dsimp only at hne
    split at hne
    · exact hne (((exec_respects h.zeroed co he).cpu c).guest h0 (Ne.symm hby))
    · exact hne rfl
  | resolve i =>
    unfold AsyncNode.NotPreempted AsyncNode.Returns AsyncNode.By AsyncNode.next
    dsimp only
    cases hgroup : n.pending[i]? with
    | none => simp
    | some group =>
      have hguest := fun c => returnAsyncs_guest (S := S) group.1 c (nodeCpus S group.2) n.shm (nodeCpus_nodup group.2)
      have halong : Lib.Along (returnAsync S group.1) (Harmless group.1) n.shm (nodeCpus S group.2) ↔ _ :=
        Lib.Along.iff_forall (fun d c c' hne => by unfold Harmless; rw [returnAsync_of_ne hne]) n.shm _
          (nodeCpus_nodup group.2)
      simp only [Option.mem_some_iff, forall_eq', halong, exists_eq_left', returnAsyncCpuMask, hguest, harmless_iff]
      constructor
      · intro hall c hc h0 hne
        refine (hall c h0 ?_).symm
        rwa [if_pos hc]
      · intro hall c h0 hne
        by_cases hc : c ∈ nodeCpus S group.2
        · rw [if_pos hc] at hne
          exact (hall c hc h0 hne).symm
        · rw [if_neg hc] at hne
          exact absurd rfl hne

end Runs

/-- **No preemption**: an operation of process `q` does not change the guest of a CPU that another process guests; along
a run, a guest changes by its own operation or by a return on its behalf if and only if every return is harmless. -/
theorem no_preemption_iff (S : System) :
    (∀ (d : Shdata), d.Zeroed → ∀ (co : Caller) (q : Pid) (op : Op), op.NoPreinit → ∀ c, (d.nodeInfo c).guest ≠ 0 →
      (d.nodeInfo c).guest ≠ q → ((op.exec S co q d).1.nodeInfo c).guest = (d.nodeInfo c).guest) ∧
    ∀ events : List Event, (∀ e ∈ events, e.NoPreinit) →
      (Lib.Along (AsyncNode.next S) (AsyncNode.NotPreempted S) {} events ↔
        Lib.Along (AsyncNode.next S) (fun n => n.Returns S Harmless) {} events) := by
  refine ⟨fun d hd co q op hop c h0 hq => ((exec_respects hd co hop).cpu c).guest h0 hq, fun events hevents => ?_⟩
  have hstart : AsyncNode.Started {} := .inr ⟨fun _ _ => rfl, fun _ => rfl, rfl⟩
  exact Lib.Along.congr (R := Event.NoPreinit) (fun n e hn he _ => AsyncNode.Started.next hn he)
    (fun n e hn he => notPreempted_iff hn he) {} events hstart hevents

def oneCore : System where
  sysMask := {0, 1}
  cores := [{0, 1}]
  disjoint := by decide
  covered := by decide

/-- `1` lends its core and `2` takes it. `1` reclaims CPU `0`; before it has made the returns of `2`, `2` lends CPU `1`
and `3` takes it. -/
def lateReturn : List Event :=
  [.op {} 1 (.init 0 {0, 1}), .op {} 2 (.init 0 ∅), .op {} 3 (.init 0 ∅),
    .op {} 1 (.lewiInit true), .op {} 2 (.lewiInit true), .op {} 3 (.lewiInit true),
    .op {} 1 (.lewi (.lendCpuMask {0, 1})), .op {} 2 (.lewi (.borrowCpu 0)), .op {} 2 (.lewi (.borrowCpu 1)),
    .op {} 1 (.lewi (.reclaimCpu 0)), .op {} 2 (.lewi (.lendCpu 1)),
    .op {} 3 (.checkCpuAvailability { owner := 1, guest := 0, state := .lent } 1)]

/-- Nobody is preempted up to there, and a lend of `1` would preempt nobody. -/
theorem no_preemption_iff_lateReturn :
    let n := lateReturn.foldl (AsyncNode.next oneCore) {}
    Lib.Along (AsyncNode.next oneCore) (AsyncNode.NotPreempted oneCore) {} lateReturn ∧
      ((Op.exec oneCore {} 1 n.shm (.lewi (.lendCpu 1))).1.nodeInfo 1).guest = (n.shm.nodeInfo 1).guest := by
  intro n
  obtain ⟨hop, hrun⟩ := no_preemption_iff oneCore
  refine ⟨(hrun lateReturn (by simp [lateReturn, Event.NoPreinit, Op.NoPreinit])).mpr ?_, ?_⟩
  · simp [lateReturn, Lib.Along, AsyncNode.Returns]
  · have hinit : n.shm.initialized = true := by decide
    exact hop n.shm (fun hno => absurd hinit (by simp [hno])) {} 1 (.lewi (.lendCpu 1)) trivial 1 (by decide)
      (by decide)

/-- The return on behalf of `2` then takes CPU `1` from `3`. -/
theorem guest_preempted :
    let n := lateReturn.foldl (AsyncNode.next oneCore) {}
    (∀ e ∈ lateReturn, e.NoPreinit) ∧ n.pending = [(2, {0, 1})] ∧ (n.shm.nodeInfo 1).guest = 3 ∧
      ((n.next oneCore (.resolve 0)).shm.nodeInfo 1).guest = 0 ∧
      ¬Lib.Along (AsyncNode.next oneCore) (AsyncNode.NotPreempted oneCore) {} (lateReturn ++ [.resolve 0]) := by
  intro n
  have hpending : n.pending = [(2, {0, 1})] := by decide
  have hguest : (n.shm.nodeInfo 1).guest = 3 := by decide
  have hafter : ((n.next oneCore (.resolve 0)).shm.nodeInfo 1).guest = 0 := by decide
  refine ⟨by simp [lateReturn, Event.NoPreinit, Op.NoPreinit], hpending, hguest, hafter, fun hrun => ?_⟩
  rw [Lib.Along.append] at hrun
  obtain ⟨group, hgroup, hby⟩ := hrun.2.1 1 (by rw [hguest]; decide) (by rw [hafter, hguest]; decide)
  obtain rfl := Option.some.inj hgroup
  cases hby

end Dlb.Cpuinfo

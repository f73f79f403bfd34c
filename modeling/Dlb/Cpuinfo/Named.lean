import Dlb.Cpuinfo.Traces

/-!
# Tasks and requests name processes

The guest of an idle CPU is `NOBODY`. Only `shmem_cpuinfo__reclaim_cpu` makes a task of a guest that it does not look at,
for the rest of the core, and the task is then returned on behalf of `NOBODY`, which asks for the CPU. So the tasks and
requests of a run are of processes if and only if such a reclaim never meets an idle CPU (`named_iff`).
-/

namespace Dlb.Cpuinfo

open List

variable {S : System} {p q : Pid} {d d1 : Shdata} {c : ℕ} {i : CpuInfo}

/-- No request and no task is of `NOBODY`. -/
structure Named (d : Shdata) : Prop where
  requests : ∀ x, 0 ∉ (d.nodeInfo x).requests.items
  global : ∀ it ∈ d.lewiMaskRequests.items, it.pid ≠ 0
  tasks : ∀ t ∈ d.tasks, t.pid ≠ 0

/-! ## Changes -/

theorem Named.step (h : Named d) (hno : NoTrace 0 d d1) : Named d1 := by
  refine ⟨fun x h0 => h.requests x (hno.requests x h0), fun it hit h0 => ?_, fun t ht h0 => ?_⟩
  · obtain ⟨it', hit', h0'⟩ := hno.global it hit h0
    exact h.global it' hit' h0'
  · exact h.tasks t (hno.tasks t ht h0) h0

theorem Named.fewer (h : Named d) (hf : FewerRequests d d1) (ht : d1.tasks = d.tasks) : Named d1 :=
  h.step (hf.noTrace fun _ hmem _ => ht ▸ hmem)

theorem Named.congr (h : Named d) (hinfo : d1.nodeInfo = d.nodeInfo)
    (hglobal : d1.lewiMaskRequests = d.lewiMaskRequests) (ht : d1.tasks = d.tasks) : Named d1 :=
  h.fewer (.of_info hinfo hglobal) ht

theorem Named.write (h : Named d) (hinfo : d1.nodeInfo = Function.update d.nodeInfo c i)
    (hglobal : d1.lewiMaskRequests = d.lewiMaskRequests) (ht : d1.tasks = d.tasks)
    (hi : ∀ p ∈ i.requests.items, p ∈ (d.nodeInfo c).requests.items) : Named d1 := h.fewer (.write hinfo hglobal hi) ht

theorem Named.push (h : Named d) (action : CpuinfoAction) (hp0 : p ≠ 0) (c : ℕ) : Named (d.push action p c) := by
  refine h.step ⟨fun _ => id, fun it hit h0 => ⟨it, hit, h0⟩, fun t ht h0 => ?_⟩
  rcases mem_append.mp ht with hold | hnew
  · exact hold
  · rw [mem_singleton.mp hnew] at h0
    exact absurd h0 hp0

theorem Named.enqueue (h : Named d) (hq0 : q ≠ 0) {requests : Queue Pid}
    (hr : (d.nodeInfo c).requests.enqueue queuePidSize q = some requests) :
    Named (d.set c { d.nodeInfo c with requests := requests }) := by
  refine h.step ⟨fun x h0 => ?_, fun it hit h0 => ⟨it, hit, h0⟩, fun _ ht _ => ht⟩
  unfold Shdata.set at h0
  dsimp only at h0
  by_cases hx : x = c
  · subst hx
    rw [Function.update_self] at h0
    exact ((Queue.enqueue_items hr).mp h0).resolve_right hq0.symm
  · rwa [Function.update_of_ne hx] at h0

/-! ## Operations on one CPU -/

section Ops

theorem assignGuest_named (h : Named d) : Named (assignGuest S d c).1 := by
  have hfind : Named (findNewGuest S d c).1 := h.fewer findNewGuest_fewer findNewGuest_tasks
  unfold assignGuest
  dsimp only
  split
  · exact hfind
  · rename_i hnew
    refine Named.push ?_ .enableCpu hnew c
    exact hfind.write rfl rfl rfl fun _ => id

theorem assignRest_named (h : Named d) {cpuid : ℕ} : Named (assignRest S cpuid d c) := by
  unfold assignRest
  split
  · dsimp only
    split
    · exact assignGuest_named h
    · exact (assignGuest_named h).congr rfl rfl rfl
  · exact h

theorem findGuests_named (h : Named d) : Named (findGuests S d c) := by
  unfold findGuests
  split
  · dsimp only
    split
    · exact assignGuest_named h
    · exact foldlRecOn _ _ (assignGuest_named h) fun _ hd _ _ => assignRest_named hd
  · exact h

theorem lendCpu_named (h : Named d) : Named (lendCpu S q d c) := by
  have hown : Named (lendOwned d q c) := by
    refine h.fewer lendOwned_fewer ?_
    unfold lendOwned
    dsimp only
    split_ifs <;> rfl
  have hleave : Named (leave (lendOwned d q c) q c) := by
    refine hown.fewer leave_fewer ?_
    unfold leave
    dsimp only
    split_ifs <;> rfl
  have hfind : Named (findGuests S (leave (lendOwned d q c) q c) c) := findGuests_named hleave
  unfold lendCpu
  split
  · exact h
  · dsimp only
    split
    · exact hfind.congr rfl rfl rfl
    · exact hfind.congr rfl rfl rfl

theorem Named.take (h : Named d) (hq0 : q ≠ 0) (i : CpuInfo) (hi : i.requests = (d.nodeInfo c).requests) :
    Named (((d.set c i).push .enableCpu q c).clrFree c) := by
  have hset : Named (d.set c i) := h.write rfl rfl rfl fun _ hp => hi ▸ hp
  exact (hset.push .enableCpu hq0 c).congr rfl rfl rfl

theorem Named.recall (h : Named d) (hq0 : q ≠ 0) (hg : (d.nodeInfo c).guest ≠ 0) : Named (d.recall q c) :=
  (h.push .disableCpu hg c).push .enableCpu hq0 c

theorem Named.busy (h : Named d) : Named (d.set c { d.nodeInfo c with state := .busy }) :=
  h.write rfl rfl rfl fun _ => id

theorem guest_busy : ((d.set c { d.nodeInfo c with state := .busy }).nodeInfo c).guest = (d.nodeInfo c).guest := by
  unfold Shdata.set
  dsimp only
  rw [Function.update_self]

theorem reclaimCpu_named (h : Named d) (hq0 : q ≠ 0) : Named (reclaimCpu q d c).1 := by
  unfold reclaimCpu
  dsimp only
  split
  · split
    · exact h.busy
    split
    · exact h.take hq0 _ rfl
    · rename_i hg
      exact h.busy.recall hq0 (guest_busy.trans_ne hg)
  · exact h

theorem noteOccupied_named (h : Named d) : Named (noteOccupied S d c) := by
  unfold noteOccupied
  split
  · exact h.congr rfl rfl rfl
  · exact h

theorem noteOccupiedOwned_named (h : Named d) : Named (noteOccupiedOwned S d c) := by
  unfold noteOccupiedOwned
  split
  · exact noteOccupied_named h
  · exact h

theorem acquireCpu_named (h : Named d) (hq0 : q ≠ 0) : Named (acquireCpu S q d c).1 := by
  unfold acquireCpu
  dsimp only
  split
  · exact h
  split
  · split
    · exact h.take hq0 _ rfl
    · rename_i hg
      exact noteOccupied_named (h.busy.recall hq0 (guest_busy.trans_ne hg))
  split
  · have hset : Named (d.set c { d.nodeInfo c with guest := q }) := h.write rfl rfl rfl fun _ => id
    exact (noteOccupiedOwned_named (hset.push .enableCpu hq0 c)).congr rfl rfl rfl
  split
  · split
    · rename_i requests hr
      exact h.enqueue hq0 hr
    · exact h
  split
  · exact h
  · exact h

theorem borrowCpu_named (h : Named d) (hq0 : q ≠ 0) : Named (borrowCpu S q d c).1 := by
  unfold borrowCpu
  dsimp only
  split
  · exact h
  split
  · split
    · exact h.take hq0 _ rfl
    split
    · exact noteOccupiedOwned_named (h.take hq0 _ rfl)
    · exact h
  · exact h

theorem returnCpu_named (h : Named d) (hq0 : q ≠ 0) : Named (returnCpu S q d c).1 := by
  unfold returnCpu
  dsimp only
  split
  · exact h
  · refine Named.push ?_ .disableCpu hq0 c
    split
    · exact h.write rfl rfl rfl fun _ => id
    · exact h.write rfl rfl rfl fun _ => id

theorem returnAsync_named (h : Named d) (hp0 : p ≠ 0) : Named (returnAsync S p d c) := by
  have hback : Named (updateOccupiedCores S (returnGuest d c) (d.nodeInfo c).owner c) := by
    refine h.write returnGuest_info ?_ ?_ fun _ => id
    · unfold updateOccupiedCores returnGuest
      dsimp only
      split_ifs <;> rfl
    · unfold updateOccupiedCores returnGuest
      dsimp only
      split_ifs <;> rfl
  unfold returnAsync requestAgain
  split
  · rename_i requests hr
    exact hback.enqueue hp0 hr
  · exact hback

end Ops

/-! ## Operations of a process -/

section Calls

theorem petitionCpu_named (r : Shdata × DlbError) (h : Named r.1) (hq0 : q ≠ 0) : Named (petitionCpu q r c).1 := by
  unfold petitionCpu
  dsimp only
  split
  · split
    · split
      · rename_i requests hr
        exact h.enqueue hq0 hr
      · exact h
    · exact h
  · exact h

theorem named_kept (hq0 : q ≠ 0) : Kept S q Named where
  start _ h := ⟨h.requests, h.global, nofun⟩
  timestamp _ _ h := h.congr rfl rfl rfl
  lend _ _ h := lendCpu_named h
  reclaim _ _ h := reclaimCpu_named h hq0
  acquire _ _ h := acquireCpu_named h hq0
  borrow _ _ h := borrowCpu_named h hq0
  giveBack _ _ h := returnCpu_named h hq0
  disable _ c h := h.push .disableCpu hq0 c
  petitions w r h := by
    unfold addPetitions
    split
    · split
      · split
        · exact h.step (petition_noTrace hq0)
        · exact h
      · exact foldl_keeps (fun r _ hr => petitionCpu_named r hr hq0) _ _ h
    · exact h
  remove _ h := h.fewer removeRequests_fewer removeRequests_tasks

theorem disableRests_tasks (q : Pid) (cpuid : ℕ) : ∀ (l : List ℕ) (d : Shdata) (t : CpuinfoTask),
    t ∈ (l.foldl (disableRest q cpuid) d).tasks ↔ t ∈ d.tasks ∨
      ∃ e ∈ l, e ≠ cpuid ∧ (d.nodeInfo e).guest ≠ q ∧ t = ⟨.disableCpu, (d.nodeInfo e).guest, e⟩
  | [], d, t => by simp
  | e :: rest, d, t => by
    have hinfo : (disableRest q cpuid d e).nodeInfo = d.nodeInfo := by
      unfold disableRest
      split
      · rfl
      · rfl
    have hhead : t ∈ (disableRest q cpuid d e).tasks ↔ t ∈ d.tasks ∨
        (e ≠ cpuid ∧ (d.nodeInfo e).guest ≠ q ∧ t = ⟨.disableCpu, (d.nodeInfo e).guest, e⟩) := by
      unfold disableRest
      split
      · rename_i he
        unfold Shdata.push
        rw [mem_append, mem_singleton, and_iff_right he.1, and_iff_right he.2]
      · rename_i he
        refine ⟨.inl, fun ht => ?_⟩
        rcases ht with ht | ⟨hne, hg, -⟩
        · exact ht
        · exact absurd ⟨hne, hg⟩ he
    rw [foldl_cons, disableRests_tasks q cpuid rest, hhead, hinfo, exists_mem_cons_iff, or_assoc]

theorem disableRests_same (q : Pid) (cpuid : ℕ) (l : List ℕ) (d : Shdata) :
    (l.foldl (disableRest q cpuid) d).nodeInfo = d.nodeInfo ∧
      (l.foldl (disableRest q cpuid) d).lewiMaskRequests = d.lewiMaskRequests := by
  refine foldlRecOn (motive := fun r : Shdata => r.nodeInfo = d.nodeInfo ∧
    r.lewiMaskRequests = d.lewiMaskRequests) l _ ⟨rfl, rfl⟩ fun r hr e _ => ?_
  unfold disableRest
  split
  · exact hr
  · exact hr

/-- The reclaim of a guested CPU finds no idle CPU in the core. -/
def RestUsed (S : System) (pid : Pid) (d : Shdata) (cpuid : ℕ) : Prop :=
  cpuid < S.size → d.hwHasSmt = true → (d.nodeInfo cpuid).owner = pid → (d.nodeInfo cpuid).guest ≠ pid →
    (d.nodeInfo cpuid).guest ≠ 0 → ∀ e ∈ coreMask S cpuid, e ≠ cpuid → (d.nodeInfo e).guest ≠ 0

instance (cpuid : ℕ) : Decidable (RestUsed S q d cpuid) := by
  unfold RestUsed
  infer_instance

theorem reclaimCpu_noted (hnoted : (reclaimCpu q d c).2 = .noted) :
    (d.nodeInfo c).owner = q ∧ (d.nodeInfo c).guest ≠ q ∧ (d.nodeInfo c).guest ≠ 0 := by
  unfold reclaimCpu at hnoted
  dsimp only at hnoted
  split at hnoted
  · rename_i ho
    split at hnoted
    · cases hnoted
    rename_i hg
    split at hnoted
    · cases hnoted
    · rename_i hg0
      exact ⟨ho, hg, hg0⟩
  · cases hnoted

theorem reclaimCpu_smt : (reclaimCpu q d c).1.hwHasSmt = d.hwHasSmt := by
  unfold reclaimCpu
  dsimp only
  split_ifs <;> rfl

theorem shmemReclaimCpu_named_iff (h : Named d) (hq0 : q ≠ 0) {cpuid : ℕ} :
    Named (shmemReclaimCpu S d q cpuid).1 ↔ RestUsed S q d cpuid := by
  have hrec : Named (reclaimCpu q d cpuid).1 := reclaimCpu_named h hq0
  unfold shmemReclaimCpu
  dsimp only
  split
  · rename_i hsize
    exact iff_of_true h fun hlt => absurd hsize (by omega)
  rename_i hsize
  split
  · rename_i hsmt
    obtain ⟨ho, hg, hg0⟩ := reclaimCpu_noted hsmt.1
    have htasks := disableRests_tasks q cpuid (muCpus S (coreMask S cpuid)) (reclaimCpu q d cpuid).1
    obtain ⟨hinfo, hglobal⟩ := disableRests_same q cpuid (muCpus S (coreMask S cpuid)) (reclaimCpu q d cpuid).1
    have hmem : ∀ e, e ∈ muCpus S (coreMask S cpuid) ↔ e ∈ coreMask S cpuid := fun e => by
      unfold muCpus
      rw [mem_filter, mem_range, decide_eq_true_eq]
      exact ⟨And.right, fun he => ⟨coreMask_lt_bits he, he⟩⟩
    constructor
    · intro hnamed _ _ _ _ _ e he hne h0
      have h0' : ((reclaimCpu q d cpuid).1.nodeInfo e).guest = 0 := by rwa [reclaimCpu_of_ne hne]
      refine hnamed.tasks ⟨.disableCpu, 0, e⟩ ((htasks _).mpr (.inr ⟨e, (hmem e).mpr he, hne, ?_, ?_⟩)) rfl
      · rw [h0']
        exact hq0.symm
      · rw [h0']
    · intro hused
      have hused := hused (by omega) (reclaimCpu_smt ▸ hsmt.2) ho hg hg0
      refine ⟨fun x => by rw [hinfo]; exact hrec.requests x, fun it => by rw [hglobal]; exact hrec.global it, fun t ht => ?_⟩
      rcases (htasks t).mp ht with hold | ⟨e, he, hne, -, rfl⟩
      · exact hrec.tasks t hold
      · have he0 := hused e ((hmem e).mp he) hne
        rwa [← reclaimCpu_of_ne (q := q) (d := d) hne] at he0
  · rename_i hsmt
    refine iff_of_true hrec fun _ hs ho hg hg0 => absurd ⟨?_, ?_⟩ hsmt
    · unfold reclaimCpu
      rw [if_pos ho, if_neg hg, if_neg hg0]
    · rw [reclaimCpu_smt, hs]

theorem call_named (h : Named d) (hq0 : q ≠ 0) (co : Caller) {call : Call}
    (hcall : ∀ cpuid, call ≠ .reclaimCpu cpuid) : Named (exec S co q d call) :=
  exec_keeps (named_kept hq0) h co call fun cpuid hc => absurd hc (hcall cpuid)

end Calls

/-! ## The other operations -/

section Others

theorem leaveCpu_named (h : Named d) (hq0 : q ≠ 0) (co : Caller) : Named (leaveCpu S co q d c) := by
  unfold leaveCpu
  split
  · unfold leaveOwned
    split
    · exact (lendCpu_named h).write rfl rfl rfl fun _ => id
    · have hrec : Named (reclaimCpu q d c).1 := reclaimCpu_named h hq0
      generalize (reclaimCpu q d c).1 = d1 at hrec ⊢
      have hleave : Named ((d1.set c { d1.nodeInfo c with
          guest := if (d1.nodeInfo c).guest = q then 0 else (d1.nodeInfo c).guest, state := .disabled }).clrFree c) :=
        hrec.write rfl rfl rfl fun _ => id
      exact hleave.write rfl rfl rfl fun _ => id
  split
  · exact lendCpu_named h
  · exact h

theorem deregisterCpu_named (h : Named d) (co : Caller) : Named (deregisterCpu S co q d c) := by
  have htasks : (deregisterCpu S co q d c).tasks = d.tasks := deregisterCpu_tasks co
  unfold deregisterCpu at htasks ⊢
  dsimp only at htasks ⊢
  split at htasks
  · rename_i ho
    rw [if_pos ho]
    refine h.write (deregisterOwned_info co) ?_ htasks ?_
    · unfold deregisterOwned
      dsimp only
      split_ifs <;> rfl
    · unfold deregistered
      dsimp only
      split
      · exact fun _ => id
      · exact nofun
  · rename_i ho
    rw [if_neg ho]
    have hguest : Named (if (d.nodeInfo c).guest = q then (d.set c { d.nodeInfo c with guest := 0 }).setFree c else d) := by
      split
      · exact h.write rfl rfl rfl fun _ => id
      · exact h
    split
    · exact hguest.write rfl rfl rfl fun _ hp => (Queue.remove_items.mp hp).1
    · exact hguest

theorem finalize_named (h : Named d) (co : Caller) : Named (finalize S co d q) := by
  have hrun : Named ((range S.size).foldl (deregisterCpu S co q) d) :=
    foldlRecOn _ _ h fun _ hd _ _ => deregisterCpu_named hd co
  unfold finalize deregisterProcess
  dsimp only
  split
  · exact hrun.fewer ⟨fun _ _ => id, fun it hit => ⟨it, (Queue.remove_items.mp hit).1, rfl, rfl⟩⟩ rfl
  · exact hrun.congr rfl rfl rfl

theorem init_named (h : Named d) (co : Caller) (preinitPid : Pid) (mask : CpuSet) :
    Named (init S co d q preinitPid mask).1 := by
  have hstart : Named (initShmem S co d) := by
    unfold initShmem
    split
    · exact h
    · refine ⟨fun x => ?_, nofun, nofun⟩
      dsimp only
      split
      · exact nofun
      · exact nofun
  have hreg : Named (registerProcess S (initShmem S co d) q preinitPid mask false).1 := by
    unfold registerProcess
    split
    · exact hstart
    split
    · exact hstart
    · exact foldlRecOn _ _ hstart fun d hd c _ => hd.write registerCpu_info rfl rfl fun _ => id
  unfold init
  dsimp only
  split
  · exact finalize_named hreg co
  · exact hreg

theorem shmemUpdateOwnership_named (h : Named d) (hq0 : q ≠ 0) (hasTasks : Bool) (mask : CpuSet) :
    Named (shmemUpdateOwnership S hasTasks d q mask).1 := by
  refine foldl_keeps (fun r c hr => ?_) _ _ h
  unfold updateOwnershipCpu
  dsimp only
  split
  · exact hr
  split
  · split
    · -- the guest of a CPU that is taken over is told to leave
      have hguest : stolenGuest q (r.1.nodeInfo c) ≠ 0 := by
        unfold stolenGuest
        split
        · exact hq0
        · assumption
      refine hr.step ⟨fun x => ?_, fun it hit h0 => ⟨it, ?_, h0⟩, fun t ht h0 => ?_⟩
      · rw [stealCpu_info]
        by_cases hx : x = c
        · rw [hx, Function.update_self]
          exact id
        · rw [Function.update_of_ne hx]
          exact id
      · revert hit
        unfold stealCpu
        dsimp only
        split_ifs <;> exact id
      · rw [stealCpu_tasks, mem_append] at ht
        refine ht.resolve_right fun hnew => ?_
        split at hnew
        · rcases mem_append.mp hnew with hnew | hnew
          · split at hnew
            · rw [mem_singleton.mp hnew] at h0
              exact hguest h0
            · cases hnew
          · rw [mem_singleton.mp hnew] at h0
            exact hq0 h0
        · cases hnew
    · exact hr
  split
  · unfold releaseCpu
    dsimp only
    split
    · have hrel : Named (r.1.set c { r.1.nodeInfo c with owner := 0, state := .disabled, guest := 0 }) :=
        hr.write rfl rfl rfl fun _ => id
      split
      · exact (hrel.push .disableCpu hq0 c).congr rfl rfl rfl
      · exact hrel.congr rfl rfl rfl
    · exact hr.write rfl rfl rfl fun _ => id
  split
  · split
    · exact returnCpu_named hr hq0
    · exact hr
  · exact hr

/-- A reclaim of one CPU finds the rest of the core in use. -/
def Op.RestUsed (S : System) (pid : Pid) (d : Shdata) : Op → Prop
  | .lewi (.reclaimCpu cpuid) => Cpuinfo.RestUsed S pid d cpuid
  | _ => True

instance (op : Op) : Decidable (op.RestUsed S q d) := by
  cases op with
  | lewi call => cases call <;> unfold Op.RestUsed <;> infer_instance
  | _ => unfold Op.RestUsed; infer_instance

theorem exec_named_iff (h : Named d) (hq0 : q ≠ 0) (co : Caller) (op : Op) :
    Named (op.exec S co q d).1 ↔ op.RestUsed S q d := by
  have h₀ : Named { d with tasks := [] } := (named_kept (S := S) hq0).start d h
  by_cases hcall : ∃ cpuid, op = .lewi (.reclaimCpu cpuid)
  · obtain ⟨cpuid, rfl⟩ := hcall
    exact shmemReclaimCpu_named_iff ((named_kept (S := S) hq0).start _ h₀) hq0
  have hused : op.RestUsed S q d := by
    unfold Op.RestUsed
    split
    · exact absurd ⟨_, rfl⟩ hcall
    · trivial
  refine iff_of_true ?_ hused
  unfold Op.exec
  generalize { d with tasks := [] } = d0 at h₀ ⊢
  cases op with
  | init preinitPid mask => exact init_named h₀ co preinitPid mask
  | lewiInit async =>
    dsimp only
    split
    · exact h₀.congr rfl rfl rfl
    · exact h₀
  | lewi call => exact call_named h₀ hq0 co fun cpuid hc => hcall ⟨cpuid, hc ▸ rfl⟩
  | removeRequests =>
    show Named (shmemRemoveRequests S d0 q)
    unfold shmemRemoveRequests
    split
    · refine h₀.fewer ⟨fun x p hp => ?_, fun it hit => ⟨it, (Queue.remove_items.mp hit).1, rfl, rfl⟩⟩ rfl
      dsimp only at hp
      split at hp
      · exact (Queue.remove_items.mp hp).1
      · exact hp
    · exact h₀
  | checkCpuAvailability before cpuid =>
    show Named (checkCpuAvailability before d0 q cpuid).1
    unfold checkCpuAvailability
    split
    · exact h₀
    split
    · exact h₀
    split
    · split
      · exact h₀.write rfl rfl rfl fun _ => id
      · exact h₀
    split
    · exact h₀
    · exact h₀
  | updateOwnership hasTasks mask => exact shmemUpdateOwnership_named h₀ hq0 hasTasks mask
  | deregister =>
    have hrun : Named ((range S.size).foldl (leaveCpu S co q) (removeRequests S d0 q)) :=
      foldlRecOn _ _ ((named_kept hq0).remove d0 h₀) fun _ hd _ _ => leaveCpu_named hd hq0 co
    exact hrun.congr rfl rfl rfl
  | finalize => exact finalize_named h₀ co

/-- The tasks for other processes to disable a CPU are for its guest. -/
def ForGuests (q : Pid) (d : Shdata) : Prop :=
  ∀ t ∈ d.tasks, t.action = .disableCpu → t.pid ≠ q → (d.nodeInfo t.cpuid).guest = t.pid

theorem Told.forGuests (h : Told q d) : ForGuests q d := fun t ht haction hpid => (h t ht haction hpid).2.2

theorem exec_forGuests (co : Caller) (op : Op) : ForGuests q (op.exec S co q d).1 := by
  by_cases hcall : ∃ cpuid, op = .lewi (.reclaimCpu cpuid)
  swap
  · refine fun t ht haction hpid => (exec_ensured co op ?_ t ht haction hpid).2
    unfold Op.RestForeign
    split
    · exact absurd ⟨_, rfl⟩ hcall
    · trivial
  obtain ⟨cpuid, rfl⟩ := hcall
  show ForGuests q (shmemReclaimCpu S { { d with tasks := [] } with tasks := [] } q cpuid).1
  have hclear : Told q { { d with tasks := [] } with tasks := [] } := by intros t ht; cases ht
  generalize ({ { d with tasks := [] } with tasks := [] } : Shdata) = d0 at hclear ⊢
  have hrec : ForGuests q (reclaimCpu q d0 cpuid).1 := (reclaimCpu_told hclear).forGuests
  unfold shmemReclaimCpu
  dsimp only
  split
  · exact hclear.forGuests
  split
  · intro t ht haction hpid
    rw [(disableRests_same q cpuid _ _).1]
    rcases (disableRests_tasks q cpuid _ _ t).mp ht with hold | ⟨e, -, -, -, rfl⟩
    · exact hrec t hold haction hpid
    · rfl
  · exact hrec

end Others

/-! ## Runs -/

/-- A process does the operation; `NOBODY` does nothing. -/
def Event.ByProcess : Event → Prop
  | .op _ pid _ => pid ≠ 0
  | .resolve _ => True

def RequestsNamed (d : Shdata) : Prop :=
  (∀ x, 0 ∉ (d.nodeInfo x).requests.items) ∧ ∀ it ∈ d.lewiMaskRequests.items, it.pid ≠ 0

namespace AsyncNode

variable {n : AsyncNode} {e : Event}

/-- The tasks of an operation are for processes, and one for another process to disable a CPU is for its guest. -/
def TasksNamed (S : System) (n : AsyncNode) : Event → Prop
  | .op co q op => op.allowed (n.phase q) → ∀ t ∈ (op.exec S co q n.shm).1.tasks, t.pid ≠ 0 ∧
      (t.action = .disableCpu → t.pid ≠ q → ((op.exec S co q n.shm).1.nodeInfo t.cpuid).guest = t.pid)
  | .resolve _ => True

/-- A reclaim of one CPU finds the rest of the core in use. -/
def RestUsed (S : System) (n : AsyncNode) : Event → Prop
  | .op _ q op => op.allowed (n.phase q) → op.RestUsed S q n.shm
  | .resolve _ => True

instance (e : Event) : Decidable (n.RestUsed S e) :=
  match e with
  | .op _ q op => inferInstanceAs (Decidable (op.allowed (n.phase q) = true → _))
  | .resolve _ => inferInstanceAs (Decidable True)

/-- Requests, tasks and pending returns are of processes. -/
structure AllNamed (n : AsyncNode) : Prop where
  shm : Named n.shm
  pending : ∀ g ∈ n.pending, g.1 ≠ 0

theorem AllNamed.next (h : n.AllNamed) (he : e.ByProcess) (hused : n.RestUsed S e) : (n.next S e).AllNamed := by
  cases e with
  | op co q op =>
    unfold AsyncNode.next
    dsimp only
    split
    · rename_i hallowed
      have hnamed : Named (op.exec S co q n.shm).1 := (exec_named_iff h.shm he co op).mpr (hused hallowed)
      refine ⟨hnamed, fun g hg => ?_⟩
      rcases mem_append.mp hg with hold | hnew
      · exact h.pending g hold
      · split at hnew
        · obtain ⟨t, ht, hpid⟩ := mem_pending_tasks hnew
          exact hpid ▸ hnamed.tasks t ht
        · cases hnew
    · exact h
  | resolve i =>
    unfold AsyncNode.next
    dsimp only
    cases hgroup : n.pending[i]? with
    | none => exact h
    | some group =>
      have hp0 : group.1 ≠ 0 := h.pending group (mem_of_getElem? hgroup)
      refine ⟨?_, fun g hg => h.pending g (mem_of_mem_eraseIdx hg)⟩
      exact foldlRecOn _ _ h.shm fun _ hd _ _ => returnAsync_named hd hp0

theorem namedAt_iff (h : n.AllNamed) (he : e.ByProcess) :
    n.TasksNamed S e ∧ RequestsNamed (n.next S e).shm ↔ n.RestUsed S e := by
  constructor
  · rintro ⟨htasks, hrequests⟩
    cases e with
    | op co q op =>
      intro hallowed
      unfold AsyncNode.next at hrequests
      dsimp only at hrequests
      rw [if_pos hallowed] at hrequests
      exact (exec_named_iff h.shm he co op).mp ⟨hrequests.1, hrequests.2, fun t ht => (htasks hallowed t ht).1⟩
    | resolve i => trivial
  · intro hused
    have hnext := h.next he hused
    refine ⟨?_, hnext.shm.requests, hnext.shm.global⟩
    cases e with
    | op co q op =>
      intro hallowed t ht
      have hnamed : Named (op.exec S co q n.shm).1 := (exec_named_iff h.shm he co op).mpr (hused hallowed)
      exact ⟨hnamed.tasks t ht, exec_forGuests co op t ht⟩
    | resolve i => trivial

end AsyncNode

/-- **Tasks and requests name processes**: along every run of processes, in polling or asynchronous mode, all tasks and
requests are of processes, and a process is told to disable a CPU only as its guest, if and only if no reclaim of one CPU
meets an idle CPU in the core. -/
theorem named_iff (S : System) (events : List Event) (hevents : ∀ e ∈ events, e.ByProcess) :
    Lib.Along (AsyncNode.next S) (fun n e => n.TasksNamed S e ∧ RequestsNamed (n.next S e).shm) {} events ↔
      Lib.Along (AsyncNode.next S) (AsyncNode.RestUsed S) {} events :=
  Lib.Along.congr (R := Event.ByProcess) (fun _ _ hn he hused => AsyncNode.AllNamed.next hn he hused)
    (fun _ _ hn he => AsyncNode.namedAt_iff hn he) {} events ⟨⟨fun _ => nofun, nofun, nofun⟩, nofun⟩ hevents

/-- `1` lends its core, `2` takes one CPU of it, and `1` reclaims this one. -/
def idleSibling : List Event :=
  [.op {} 1 (.init 0 {0, 1}), .op {} 2 (.init 0 ∅), .op {} 1 (.lewiInit true), .op {} 2 (.lewiInit true),
    .op {} 1 (.lewi (.lendCpuMask {0, 1})), .op {} 2 (.lewi (.borrowCpu 0)), .op {} 1 (.lewi (.reclaimCpu 0))]

/-- Up to the reclaim everything names processes. -/
theorem named_iff_idleSibling : Lib.Along (AsyncNode.next oneCore)
    (fun n e => n.TasksNamed oneCore e ∧ RequestsNamed (n.next oneCore e).shm) {} (idleSibling.take 6) :=
  (named_iff oneCore (idleSibling.take 6) (by simp [idleSibling, Event.ByProcess])).mpr (by decide)

/-- `NOBODY` is told to disable the idle CPU, and asks for it when this is returned. -/
theorem nobody_told :
    let n := idleSibling.foldl (AsyncNode.next oneCore) {}
    (∀ e ∈ idleSibling, e.ByProcess) ∧ ⟨.disableCpu, 0, 1⟩ ∈ n.shm.tasks ∧ n.pending = [(0, {1}), (2, {0})] ∧
      0 ∈ ((n.next oneCore (.resolve 0)).shm.nodeInfo 1).requests.items ∧
      ¬Lib.Along (AsyncNode.next oneCore)
        (fun n e => n.TasksNamed oneCore e ∧ RequestsNamed (n.next oneCore e).shm) {} (idleSibling ++ [.resolve 0]) := by
  intro n
  have hrequest : 0 ∈ ((n.next oneCore (.resolve 0)).shm.nodeInfo 1).requests.items := by decide
  refine ⟨by simp [idleSibling, Event.ByProcess], by decide, by decide, hrequest, fun hrun => ?_⟩
  rw [Lib.Along.append] at hrun
  exact hrun.2.1.2.1 1 hrequest

end Dlb.Cpuinfo

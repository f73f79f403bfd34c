import Dlb.Cpuinfo.Deferred
import Dlb.Cpuinfo.Leaving

/-!
# Who asks for CPUs

Requests are of two kinds: those in the queue of a CPU, and the global ones. What an operation of process `q` can do to
them is said once (`Asks`): it takes requests away, and what it adds is of `q` and only when the queues are enabled. The
flags of the shared memory stay as they are, but for `init` of fresh memory and for the first process that enables the
queues (`exec_asks`).
-/

namespace Dlb.Cpuinfo

variable {S : System} {co : Caller} {p q : Pid} {d d1 d2 : Shdata} {c x : ℕ} {i : CpuInfo}

theorem SameFlags.refl (d : Shdata) : SameFlags d d := ⟨rfl, rfl, rfl⟩

/-- New requests are of process `q`, and the queues are enabled. -/
structure Asks (q : Pid) (d d1 : Shdata) : Prop where
  flags : SameFlags d d1
  own : ∀ x, ∀ p ∈ (d1.nodeInfo x).requests.items,
    p ∈ (d.nodeInfo x).requests.items ∨ (p = q ∧ d.queuesEnabled = true)
  global : ∀ it ∈ d1.lewiMaskRequests.items,
    (∃ it' ∈ d.lewiMaskRequests.items, it.pid = it'.pid ∧ it.allowed = it'.allowed) ∨
      (it.pid = q ∧ d.queuesEnabled = true)

namespace Asks

theorem fewer (hflags : SameFlags d d1) (h : FewerRequests d d1) : Asks q d d1 :=
  ⟨hflags, fun x p hp => .inl (h.own x p hp), fun it hit => .inl (h.global it hit)⟩

theorem refl (d : Shdata) : Asks q d d := fewer (.refl d) (.refl d)

theorem trans (h1 : Asks q d d1) (h2 : Asks q d1 d2) : Asks q d d2 := by
  refine ⟨h1.flags.trans h2.flags, fun x p hp => ?_, fun it hit => ?_⟩
  · rcases h2.own x p hp with hp | ⟨rfl, hq⟩
    · exact h1.own x p hp
    · exact .inr ⟨rfl, h1.flags.queues ▸ hq⟩
  · rcases h2.global it hit with ⟨it1, hit1, hpid1, hallowed₁⟩ | ⟨hpid, hq⟩
    · rcases h1.global it1 hit1 with ⟨it', hit', hpid, hallowed⟩ | ⟨hpid, hq⟩
      · exact .inl ⟨it', hit', hpid1.trans hpid, hallowed₁.trans hallowed⟩
      · exact .inr ⟨hpid1.trans hpid, hq⟩
    · exact .inr ⟨hpid, h1.flags.queues ▸ hq⟩

theorem write (hflags : SameFlags d d1) (hinfo : d1.nodeInfo = Function.update d.nodeInfo c i)
    (hglobal : d1.lewiMaskRequests = d.lewiMaskRequests)
    (hi : ∀ p ∈ i.requests.items, p ∈ (d.nodeInfo c).requests.items) : Asks q d d1 :=
  fewer hflags (.write hinfo hglobal hi)

theorem of_info (hflags : SameFlags d d1) (hinfo : d1.nodeInfo = d.nodeInfo)
    (hglobal : d1.lewiMaskRequests = d.lewiMaskRequests) : Asks q d d1 := fewer hflags (.of_info hinfo hglobal)

theorem enqueue (hq : d.queuesEnabled = true) {requests : Queue Pid}
    (hr : (d.nodeInfo c).requests.enqueue queuePidSize q = some requests) :
    Asks q d (d.set c { d.nodeInfo c with requests := requests }) := by
  refine ⟨⟨rfl, rfl, rfl⟩, fun x p hp => ?_, fun it hit => .inl ⟨it, hit, rfl, rfl⟩⟩
  unfold Shdata.set at hp
  dsimp only at hp
  by_cases hx : x = c
  · subst hx
    rw [Function.update_self] at hp
    rcases (Queue.enqueue_items hr).mp hp with hp | rfl
    · exact .inl hp
    · exact .inr ⟨rfl, hq⟩
  · rw [Function.update_of_ne hx] at hp
    exact .inl hp

theorem foldl {f : Shdata → ℕ → Shdata} (hf : ∀ d c, Asks q d (f d c)) (l : List ℕ) (d : Shdata) :
    Asks q d (l.foldl f d) := List.foldlRecOn l f (Asks.refl d) fun _ hd c _ => hd.trans (hf _ c)

end Asks

/-! ## Operations on one CPU -/

section Ops

theorem lendCpu_asks : Asks q d (lendCpu S q d c) := by
  by_cases hs : (d.nodeInfo c).state = .disabled
  · rw [lendCpu_of_disabled hs]
    exact .refl d
  · exact .fewer (lendCpu_lent hs).flags lendCpu_fewer

theorem reclaimCpu_asks : Asks q d (reclaimCpu q d c).1 := by
  unfold reclaimCpu
  dsimp only
  split
  · split
    · exact .write ⟨rfl, rfl, rfl⟩ rfl rfl fun _ => id
    split
    · exact .write ⟨rfl, rfl, rfl⟩ rfl rfl fun _ => id
    · exact .write ⟨rfl, rfl, rfl⟩ rfl rfl fun _ => id
  · exact .refl d

theorem noteOccupied_asks : Asks q d (noteOccupied S d c) := by
  unfold noteOccupied
  split
  · exact .of_info ⟨rfl, rfl, rfl⟩ rfl rfl
  · exact .refl d

theorem noteOccupiedOwned_asks : Asks q d (noteOccupiedOwned S d c) := by
  unfold noteOccupiedOwned
  split
  · exact noteOccupied_asks
  · exact .refl d

theorem acquireCpu_asks : Asks q d (acquireCpu S q d c).1 := by
  unfold acquireCpu
  dsimp only
  split
  · exact .refl d
  split
  · split
    · exact .write ⟨rfl, rfl, rfl⟩ rfl rfl fun _ => id
    · have hclaim : Asks q d ((d.set c { d.nodeInfo c with state := .busy }).recall q c) :=
        .write ⟨rfl, rfl, rfl⟩ rfl rfl fun _ => id
      exact hclaim.trans noteOccupied_asks
  split
  · have htake : Asks q d ((d.set c { d.nodeInfo c with guest := q }).push .enableCpu q c) :=
      .write ⟨rfl, rfl, rfl⟩ rfl rfl fun _ => id
    exact (htake.trans noteOccupiedOwned_asks).trans (.of_info ⟨rfl, rfl, rfl⟩ rfl rfl)
  split
  · rename_i hq
    split
    · rename_i requests hr
      exact .enqueue hq hr
    · exact .refl d
  split
  · exact .refl d
  · exact .refl d

theorem borrowCpu_asks : Asks q d (borrowCpu S q d c).1 := by
  unfold borrowCpu
  dsimp only
  split
  · exact .refl d
  split
  · split
    · exact .write ⟨rfl, rfl, rfl⟩ rfl rfl fun _ => id
    split
    · have htake : Asks q d (((d.set c { d.nodeInfo c with guest := q }).push .enableCpu q c).clrFree c) :=
        .write ⟨rfl, rfl, rfl⟩ rfl rfl fun _ => id
      exact htake.trans noteOccupiedOwned_asks
    · exact .refl d
  · exact .refl d

theorem returnCpu_asks : Asks q d (returnCpu S q d c).1 := by
  unfold returnCpu
  dsimp only
  split
  · exact .refl d
  · split
    · exact .write ⟨rfl, rfl, rfl⟩ rfl rfl fun _ => id
    · exact .write ⟨rfl, rfl, rfl⟩ rfl rfl fun _ => id

end Ops

/-! ## Calls -/

section Calls

theorem raiseRequest_mem {request : LewiMaskRequest} : ∀ {l items : List LewiMaskRequest},
    raiseRequest request l = some items → ∀ it ∈ items, ∃ it' ∈ l, it.pid = it'.pid ∧ it.allowed = it'.allowed
  | [], _, hitems => nomatch hitems
  | it0 :: rest, items, hitems => by
    intro it hit
    unfold raiseRequest at hitems
    split at hitems
    · obtain rfl := Option.some.inj hitems
      rcases List.mem_cons.mp hit with rfl | hit
      · exact ⟨it0, List.mem_cons_self, rfl, rfl⟩
      · exact ⟨it, List.mem_cons_of_mem _ hit, rfl, rfl⟩
    · obtain ⟨items', hitems', rfl⟩ := Option.map_eq_some_iff.mp hitems
      rcases List.mem_cons.mp hit with rfl | hit
      · exact ⟨it, List.mem_cons_self, rfl, rfl⟩
      · obtain ⟨it', hit', hsame⟩ := raiseRequest_mem hitems' it hit
        exact ⟨it', List.mem_cons_of_mem _ hit', hsame⟩

theorem petition_asks {request : LewiMaskRequest} (hpid : request.pid = q) (hq : d.queuesEnabled = true) :
    Asks q d (petition d request).1 := by
  unfold petition
  split
  · rename_i items hitems
    exact .fewer ⟨rfl, rfl, rfl⟩ ⟨fun _ _ => id, raiseRequest_mem hitems⟩
  split
  · rename_i queue hqueue
    refine ⟨⟨rfl, rfl, rfl⟩, fun _ _ => .inl, fun it hit => ?_⟩
    rcases (Queue.enqueue_items hqueue).mp hit with hit | rfl
    · exact .inl ⟨it, hit, rfl, rfl⟩
    · exact .inr ⟨hpid, hq⟩
  · exact .refl d

theorem petitionCpu_asks (r : Shdata × DlbError) (hq : r.1.queuesEnabled = true) : Asks q r.1 (petitionCpu q r c).1 := by
  unfold petitionCpu
  dsimp only
  split
  · split
    · split
      · rename_i requests hr
        exact .enqueue hq hr
      · exact .refl _
    · exact .refl _
  · exact .refl _

theorem addPetitions_asks (w : Wish) (r : Shdata × DlbError × ℤ) : Asks q r.1 (addPetitions w q r).1 := by
  unfold addPetitions
  split
  · rename_i hq
    split
    · split
      · exact petition_asks rfl hq
      · exact .refl _
    · refine (List.foldlRecOn (motive := fun r' : Shdata × DlbError => Asks q r.1 r'.1) w.cpusPriorityArray _
        (Asks.refl r.1) fun r' hr' c _ => ?_)
      exact hr'.trans (petitionCpu_asks r' (hr'.flags.queues.trans hq))
  · exact .refl _

theorem asks_kept (d0 : Shdata) : Kept S q (Asks q d0) where
  start _ h := h.trans (.of_info ⟨rfl, rfl, rfl⟩ rfl rfl)
  timestamp _ _ h := h.trans (.of_info ⟨rfl, rfl, rfl⟩ rfl rfl)
  lend _ _ h := h.trans lendCpu_asks
  reclaim _ _ h := h.trans reclaimCpu_asks
  acquire _ _ h := h.trans acquireCpu_asks
  borrow _ _ h := h.trans borrowCpu_asks
  giveBack _ _ h := h.trans returnCpu_asks
  disable _ _ h := h.trans (.of_info ⟨rfl, rfl, rfl⟩ rfl rfl)
  petitions w r h := h.trans (addPetitions_asks w r)
  remove _ h := h.trans (.fewer removeRequests_only.flags removeRequests_fewer)

theorem call_asks (co : Caller) (call : Call) : Asks q d (exec S co q d call) := by
  have hkept : Kept S q (Asks q d) := asks_kept d
  refine exec_keeps hkept (.refl d) co call fun cpuid _ => ?_
  refine shmemReclaimCpu_keeps hkept.reclaim (fun d' cpuid c h => ?_) (hkept.start d (.refl d)) cpuid
  unfold disableRest
  split
  · exact h.trans (.of_info ⟨rfl, rfl, rfl⟩ rfl rfl)
  · exact h

end Calls

/-! ## The other operations -/

section Others

theorem leaveCpu_asks : Asks q d (leaveCpu S co q d c) := by
  have hstep : LeaveStep S co q d c (leaveCpu S co q d c) := leaveCpu_step
  have hdisown : ∀ d, Asks q d (disown d c) := fun d => .fewer ⟨rfl, rfl, rfl⟩ disown_fewer
  generalize leaveCpu S co q d c = d1 at hstep ⊢
  cases hstep with
  | kept => exact .refl d
  | left => exact lendCpu_asks
  | dropped d1 _ _ hd => exact (Asks.fewer hd.flags hd.fewer).trans (hdisown d1)
  | lent => exact lendCpu_asks.trans (hdisown _)

theorem deregisterCpu_asks : Asks q d (deregisterCpu S co q d c) := by
  unfold deregisterCpu
  dsimp only
  split
  · refine .write (deregisterOwned_flags co) (deregisterOwned_info co) ?_ ?_
    · unfold deregisterOwned
      dsimp only
      split_ifs <;> rfl
    · unfold deregistered
      dsimp only
      split
      · exact fun _ => id
      · exact nofun
  · have hguest : Asks q d (if (d.nodeInfo c).guest = q then (d.set c { d.nodeInfo c with guest := 0 }).setFree c else d) := by
      split
      · exact .write ⟨rfl, rfl, rfl⟩ rfl rfl fun _ => id
      · exact .refl d
    split
    · exact hguest.trans (.write ⟨rfl, rfl, rfl⟩ rfl rfl fun _ hp => (Queue.remove_items.mp hp).1)
    · exact hguest

theorem deregisterProcess_asks : Asks q d (deregisterProcess S co d q) := by
  have hrun : Asks q d ((List.range S.size).foldl (deregisterCpu S co q) d) :=
    Asks.foldl (fun _ _ => deregisterCpu_asks) _ _
  unfold deregisterProcess
  dsimp only
  split
  · refine hrun.trans (.fewer ⟨rfl, rfl, rfl⟩ ⟨fun _ _ => id, fun it hit => ?_⟩)
    exact ⟨it, (Queue.remove_items.mp hit).1, rfl, rfl⟩
  · exact hrun

theorem registerProcess_asks (preinitPid : Pid) (mask : CpuSet) (steal : Bool) :
    Asks q d (registerProcess S d q preinitPid mask steal).1 := by
  unfold registerProcess
  split
  · exact .refl d
  split
  · exact .refl d
  · refine Asks.foldl (fun d c => ?_) _ _
    have hflags : SameFlags d (registerCpu S q preinitPid d c) := ⟨rfl, rfl, rfl⟩
    exact .write hflags registerCpu_info rfl fun _ => id

theorem stealCpu_asks (hasTasks : Bool) : Asks q d (stealCpu hasTasks q d c) := by
  refine .write (stealCpu_flags hasTasks) (stealCpu_info hasTasks) ?_ fun _ => id
  unfold stealCpu
  dsimp only
  split_ifs <;> rfl

theorem releaseCpu_asks (hasTasks : Bool) : Asks q d (releaseCpu hasTasks q d c) := by
  unfold releaseCpu
  dsimp only
  split
  · split
    · exact .write ⟨rfl, rfl, rfl⟩ rfl rfl fun _ => id
    · exact .write ⟨rfl, rfl, rfl⟩ rfl rfl fun _ => id
  · exact .write ⟨rfl, rfl, rfl⟩ rfl rfl fun _ => id

theorem shmemUpdateOwnership_asks (hasTasks : Bool) (mask : CpuSet) :
    Asks q d (shmemUpdateOwnership S hasTasks d q mask).1 := by
  refine foldl_keeps (P := Asks q d) (fun r c hr => ?_) _ _ (.refl d)
  unfold updateOwnershipCpu
  dsimp only
  split
  · exact hr
  split
  · split
    · exact hr.trans (stealCpu_asks hasTasks)
    · exact hr
  split
  · exact hr.trans (releaseCpu_asks hasTasks)
  split
  · split
    · exact hr.trans returnCpu_asks
    · exact hr
  · exact hr

theorem checkCpuAvailability_asks (before : CpuInfo) : Asks q d (checkCpuAvailability before d q c).1 := by
  unfold checkCpuAvailability
  split
  · exact .refl d
  split
  · exact .refl d
  split
  · split
    · exact .write ⟨rfl, rfl, rfl⟩ rfl rfl fun _ => id
    · exact .refl d
  split
  · exact .refl d
  · exact .refl d

theorem shmemRemoveRequests_asks : Asks q d (shmemRemoveRequests S d q) := by
  unfold shmemRemoveRequests
  split
  · refine .fewer ⟨rfl, rfl, rfl⟩ ⟨fun x p hp => ?_, fun it hit => ⟨it, (Queue.remove_items.mp hit).1, rfl, rfl⟩⟩
    dsimp only at hp
    split at hp
    · exact (Queue.remove_items.mp hp).1
    · exact hp
  · exact .refl d

theorem finalize_asks : Asks q d (finalize S co d q) := deregisterProcess_asks.trans (.of_info ⟨rfl, rfl, rfl⟩ rfl rfl)

theorem initShmem_of_initialized (hi : d.initialized = true) : initShmem S co d = d := by
  unfold initShmem
  rw [if_pos hi]

theorem init_asks (preinitPid : Pid) (mask : CpuSet) :
    Asks q (initShmem S co d) (init S co d q preinitPid mask).1 := by
  have hreg : Asks q (initShmem S co d) (registerProcess S (initShmem S co d) q preinitPid mask false).1 :=
    registerProcess_asks preinitPid mask false
  unfold init
  dsimp only
  split
  · exact hreg.trans finalize_asks
  · exact hreg

/-- **Every operation** in initialized memory asks for CPUs only on behalf of its own process; the first one that runs
LeWI in asynchronous mode enables the queues. -/
theorem exec_asks (hi : d.initialized = true) (co : Caller) (op : Op) :
    Asks q d (op.exec S co q d).1 ∨
      (op = .lewiInit true ∧ (op.exec S co q d).1 = enableRequestQueues { d with tasks := [] }) := by
  have h0 : Asks q d { d with tasks := [] } := .of_info ⟨rfl, rfl, rfl⟩ rfl rfl
  have hi0 : ({ d with tasks := [] } : Shdata).initialized = true := hi
  unfold Op.exec
  generalize { d with tasks := [] } = d0 at h0 hi0 ⊢
  cases op with
  | init preinitPid mask =>
    have hinit : Asks q (initShmem S co d0) (init S co d0 q preinitPid mask).1 := init_asks preinitPid mask
    rw [initShmem_of_initialized hi0] at hinit
    exact .inl (h0.trans hinit)
  | lewiInit async =>
    cases async with
    | true => exact .inr ⟨rfl, rfl⟩
    | false => exact .inl h0
  | lewi call => exact .inl (h0.trans (call_asks co call))
  | removeRequests => exact .inl (h0.trans shmemRemoveRequests_asks)
  | checkCpuAvailability before cpuid => exact .inl (h0.trans (checkCpuAvailability_asks before))
  | updateOwnership hasTasks mask => exact .inl (h0.trans (shmemUpdateOwnership_asks hasTasks mask))
  | deregister =>
    have hremove : Asks q d0 (removeRequests S d0 q) := (asks_kept d0).remove d0 (.refl d0)
    have hrun : Asks q d0 ((List.range S.size).foldl (leaveCpu S co q) (removeRequests S d0 q)) :=
      hremove.trans (Asks.foldl (fun _ _ => leaveCpu_asks) _ _)
    exact .inl (h0.trans (hrun.trans (.of_info ⟨rfl, rfl, rfl⟩ rfl rfl)))
  | finalize => exact .inl (h0.trans finalize_asks)

end Others

end Dlb.Cpuinfo

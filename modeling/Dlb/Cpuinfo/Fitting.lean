import Dlb.Cpuinfo.Departed

/-!
# The queues of requests fit their arrays

Whatever happens in a node, the positions of every queue of requests stay in its array, which is never full (`QueuesFit`),
and the global requests are of processes (`reachable_fitting`). So a search of a queue looks at all of it.
-/

namespace Dlb.Cpuinfo

variable {S : System} {co : Caller} {p q : Pid} {d d1 : Shdata} {c : ℕ} {i : CpuInfo}

/-- The positions of the requests are positions of their arrays. -/
structure QueuesFit (d : Shdata) : Prop where
  own : ∀ x, (d.nodeInfo x).requests.Ok queuePidSize
  global : d.lewiMaskRequests.Ok queueLewiMaskRequestSize

theorem QueuesFit.start : QueuesFit {} := ⟨fun _ => .empty (by decide), .empty (by decide)⟩

theorem QueuesFit.write (h : QueuesFit d) (hinfo : d1.nodeInfo = Function.update d.nodeInfo c i)
    (hglobal : d1.lewiMaskRequests = d.lewiMaskRequests) (hi : i.requests.Ok queuePidSize) : QueuesFit d1 := by
  refine ⟨fun x => ?_, hglobal ▸ h.global⟩
  rw [hinfo]
  by_cases hx : x = c
  · rw [hx, Function.update_self]
    exact hi
  · rw [Function.update_of_ne hx]
    exact h.own x

theorem QueuesFit.congr (h : QueuesFit d) (hinfo : d1.nodeInfo = d.nodeInfo) (hglobal : d1.lewiMaskRequests = d.lewiMaskRequests) :
    QueuesFit d1 := ⟨fun x => hinfo ▸ h.own x, hglobal ▸ h.global⟩

/-! ## Lend -/

theorem findNewGuest_fits (h : QueuesFit d) : QueuesFit (findNewGuest S d c).1 := by
  have hpop : QueuesFit (popRequest S d c).1 := h.write rfl rfl ((h.own c).take _ _)
  unfold findNewGuest
  dsimp only
  split
  · exact h
  split
  · split
    · exact ⟨hpop.own, hpop.global.take _ _⟩
    · exact hpop
  · exact h

theorem assignGuest_fits (h : QueuesFit d) : QueuesFit (assignGuest S d c).1 := by
  have hfind : QueuesFit (findNewGuest S d c).1 := findNewGuest_fits h
  unfold assignGuest
  dsimp only
  split
  · exact hfind
  · exact hfind.write rfl rfl (hfind.own c)

theorem assignRest_fits (h : QueuesFit d) {cpuid : ℕ} : QueuesFit (assignRest S cpuid d c) := by
  unfold assignRest
  split
  · dsimp only
    split
    · exact assignGuest_fits h
    · exact (assignGuest_fits h).congr rfl rfl
  · exact h

theorem findGuests_fits (h : QueuesFit d) : QueuesFit (findGuests S d c) := by
  unfold findGuests
  split
  · dsimp only
    split
    · exact assignGuest_fits h
    · exact List.foldlRecOn _ _ (assignGuest_fits h) fun _ hd _ _ => assignRest_fits hd
  · exact h

theorem leave_fits (h : QueuesFit d) : QueuesFit (leave (lendOwned d p c) p c) := by
  have hown : QueuesFit (lendOwned d p c) := by
    unfold lendOwned
    dsimp only
    split
    · exact h.write rfl rfl (h.own c)
    split
    · exact h.write rfl rfl ((h.own c).remove _)
    · exact h
  unfold leave
  dsimp only
  split
  · exact hown.write rfl rfl (hown.own c)
  · exact hown

theorem lendCpu_fits (h : QueuesFit d) : QueuesFit (lendCpu S p d c) := by
  have hfind : QueuesFit (findGuests S (leave (lendOwned d p c) p c) c) := findGuests_fits (leave_fits h)
  unfold lendCpu
  split
  · exact h
  · dsimp only
    split
    · exact hfind.congr rfl rfl
    · exact hfind.congr rfl rfl

/-! ## The other operations on one CPU -/

theorem reclaimCpu_fits (h : QueuesFit d) : QueuesFit (reclaimCpu p d c).1 := by
  unfold reclaimCpu
  dsimp only
  split_ifs
  · exact h.write rfl rfl (h.own c)
  · exact h.write rfl rfl (h.own c)
  · exact h.write rfl rfl (h.own c)
  · exact h

theorem noteOccupied_fits (h : QueuesFit d) : QueuesFit (noteOccupied S d c) := by
  unfold noteOccupied
  split
  · exact h.congr rfl rfl
  · exact h

theorem noteOccupiedOwned_fits (h : QueuesFit d) : QueuesFit (noteOccupiedOwned S d c) := by
  unfold noteOccupiedOwned
  split
  · exact noteOccupied_fits h
  · exact h

theorem acquireCpu_fits (h : QueuesFit d) : QueuesFit (acquireCpu S p d c).1 := by
  unfold acquireCpu
  dsimp only
  split
  · exact h
  split
  · split
    · exact h.write rfl rfl (h.own c)
    · have hclaim : QueuesFit ((d.set c { d.nodeInfo c with state := .busy }).recall p c) := h.write rfl rfl (h.own c)
      exact noteOccupied_fits hclaim
  split
  · have htake : QueuesFit ((d.set c { d.nodeInfo c with guest := p }).push .enableCpu p c) := h.write rfl rfl (h.own c)
    exact (noteOccupiedOwned_fits htake).congr rfl rfl
  split
  · split
    · rename_i requests hr
      exact h.write rfl rfl ((h.own c).enqueue hr)
    · exact h
  split
  · exact h
  · exact h

theorem borrowCpu_fits (h : QueuesFit d) : QueuesFit (borrowCpu S p d c).1 := by
  unfold borrowCpu
  dsimp only
  split
  · exact h
  split
  · split
    · exact h.write rfl rfl (h.own c)
    split
    · have htake : QueuesFit (((d.set c { d.nodeInfo c with guest := p }).push .enableCpu p c).clrFree c) :=
        h.write rfl rfl (h.own c)
      exact noteOccupiedOwned_fits htake
    · exact h
  · exact h

theorem returnCpu_fits (h : QueuesFit d) : QueuesFit (returnCpu S p d c).1 := by
  unfold returnCpu
  dsimp only
  split_ifs
  · exact h
  · exact h.write rfl rfl (h.own c)
  · exact h.write rfl rfl (h.own c)

theorem returnAsync_fits (h : QueuesFit d) : QueuesFit (returnAsync S p d c) := by
  have hleft : QueuesFit (updateOccupiedCores S (returnGuest d c) (d.nodeInfo c).owner c) := by
    unfold returnGuest
    dsimp only
    split
    · exact h.write rfl rfl (h.own c)
    · exact h.write rfl rfl (h.own c)
  unfold returnAsync requestAgain
  split
  · rename_i requests hr
    exact hleft.write rfl rfl ((hleft.own c).enqueue hr)
  · exact hleft

/-! ## Calls -/

theorem raiseRequest_length {request : LewiMaskRequest} : ∀ {l items : List LewiMaskRequest},
    raiseRequest request l = some items → items.length = l.length
  | [], _, hitems => nomatch hitems
  | it :: rest, items, hitems => by
    unfold raiseRequest at hitems
    split at hitems
    · obtain rfl := Option.some.inj hitems
      rfl
    · obtain ⟨items', hitems', rfl⟩ := Option.map_eq_some_iff.mp hitems
      exact congrArg (· + 1) (raiseRequest_length hitems')

theorem petition_fits (h : QueuesFit d) (request : LewiMaskRequest) : QueuesFit (petition d request).1 := by
  unfold petition
  split
  · rename_i items hitems
    exact ⟨h.own, h.global.front, (raiseRequest_length hitems).symm ▸ h.global.length⟩
  split
  · rename_i queue hqueue
    exact ⟨h.own, h.global.enqueue hqueue⟩
  · exact h

theorem petitionCpu_fits {r : Shdata × DlbError} (h : QueuesFit r.1) : QueuesFit (petitionCpu p r c).1 := by
  unfold petitionCpu
  dsimp only
  split
  · split
    · split
      · rename_i requests hr
        exact h.write rfl rfl ((h.own c).enqueue hr)
      · exact h
    · exact h
  · exact h

theorem removeRequests_fits (h : QueuesFit d) : QueuesFit (removeRequests S d p) := by
  unfold removeRequests
  split
  · refine ⟨fun x => ?_, h.global.remove _⟩
    dsimp only
    split
    · exact (h.own x).remove _
    · exact h.own x
  · exact h

theorem fits_kept : Kept S p QueuesFit where
  start _ h := h.congr rfl rfl
  timestamp _ _ h := h.congr rfl rfl
  lend _ _ h := lendCpu_fits h
  reclaim _ _ h := reclaimCpu_fits h
  acquire _ _ h := acquireCpu_fits h
  borrow _ _ h := borrowCpu_fits h
  giveBack _ _ h := returnCpu_fits h
  disable _ _ h := h.congr rfl rfl
  petitions w r h :=
    addPetitions_keeps (P := QueuesFit) (fun _ request hd => petition_fits hd request) (fun _ _ => petitionCpu_fits) w r h
  remove _ h := removeRequests_fits h

theorem call_fits (h : QueuesFit d) (co : Caller) (call : Call) : QueuesFit (exec S co p d call) := by
  have hkept : Kept S p QueuesFit := fits_kept
  refine exec_keeps hkept h co call fun cpuid _ => ?_
  refine shmemReclaimCpu_keeps hkept.reclaim (fun d' cpuid c hd => ?_) (hkept.start d h) cpuid
  unfold disableRest
  split
  · exact hd.congr rfl rfl
  · exact hd

/-! ## Processes that come and go -/

theorem registerProcess_fits (h : QueuesFit d) (preinitPid : Pid) (mask : CpuSet) (steal : Bool) :
    QueuesFit (registerProcess S d p preinitPid mask steal).1 := by
  unfold registerProcess
  split
  · exact h
  split
  · exact h
  · refine List.foldlRecOn _ _ h fun d hd c _ => ?_
    exact hd.write registerCpu_info rfl (hd.own c)

theorem deregisterCpu_fits (h : QueuesFit d) : QueuesFit (deregisterCpu S co p d c) := by
  refine ⟨fun x => ?_, by rw [deregisterCpu_global]; exact h.global⟩
  rw [deregisterCpu_info]
  by_cases hx : x = c
  · rw [hx, Function.update_self]
    unfold withoutProcess
    split
    · unfold deregistered
      dsimp only
      split
      · exact h.own c
      · exact .empty (by decide)
    · dsimp only
      split
      · exact (h.own c).remove _
      · exact h.own c
  · rw [Function.update_of_ne hx]
    exact h.own x

theorem deregisterProcess_fits (h : QueuesFit d) : QueuesFit (deregisterProcess S co d p) := by
  have hrun : QueuesFit ((List.range S.size).foldl (deregisterCpu S co p) d) :=
    List.foldlRecOn _ _ h fun _ hd _ _ => deregisterCpu_fits hd
  unfold deregisterProcess
  dsimp only
  split
  · exact ⟨hrun.own, hrun.global.remove _⟩
  · exact hrun

theorem initShmem_fits (h : QueuesFit d) : QueuesFit (initShmem S co d) := by
  unfold initShmem
  split
  · exact h
  · refine ⟨fun x => ?_, .empty (by decide)⟩
    dsimp only
    split
    · exact .empty (by decide)
    · exact .empty (by decide)

theorem init_fits (h : QueuesFit d) (preinitPid : Pid) (mask : CpuSet) : QueuesFit (init S co d p preinitPid mask).1 := by
  have hreg : QueuesFit (registerProcess S (initShmem S co d) p preinitPid mask false).1 :=
    registerProcess_fits (initShmem_fits h) preinitPid mask false
  unfold init
  dsimp only
  split
  · exact (deregisterProcess_fits hreg).congr rfl rfl
  · exact hreg

theorem leaveCpu_fits (h : QueuesFit d) : QueuesFit (leaveCpu S co p d c) := by
  have hlent : QueuesFit (lendCpu S p d c) := lendCpu_fits h
  have hreclaimed : QueuesFit (reclaimCpu p d c).1 := reclaimCpu_fits h
  unfold leaveCpu leaveOwned
  split
  · dsimp only
    split
    · exact hlent.write rfl rfl (hlent.own c)
    · have hdropped : QueuesFit (reclaimDisable p d c) := hreclaimed.write rfl rfl (hreclaimed.own c)
      exact hdropped.write rfl rfl (hdropped.own c)
  split
  · exact hlent
  · exact h

theorem shmemUpdateOwnership_fits (h : QueuesFit d) (hasTasks : Bool) (mask : CpuSet) :
    QueuesFit (shmemUpdateOwnership S hasTasks d p mask).1 := by
  refine foldl_keeps (P := QueuesFit) (fun r c hr => ?_) _ _ h
  have hsteal : QueuesFit (stealCpu hasTasks p r.1 c) := by
    refine hr.write (stealCpu_info hasTasks) ?_ (hr.own c)
    unfold stealCpu
    dsimp only
    split_ifs <;> rfl
  have hrelease : QueuesFit (releaseCpu hasTasks p r.1 c) := by
    unfold releaseCpu
    dsimp only
    split_ifs
    · exact hr.write rfl rfl (hr.own c)
    · exact hr.write rfl rfl (hr.own c)
    · exact hr.write rfl rfl (hr.own c)
  unfold updateOwnershipCpu
  dsimp only
  split_ifs
  · exact hr
  · exact hsteal
  · exact hr
  · exact hrelease
  · exact returnCpu_fits hr
  · exact hr
  · exact hr

theorem checkCpuAvailability_fits (h : QueuesFit d) (before : CpuInfo) : QueuesFit (checkCpuAvailability before d p c).1 := by
  unfold checkCpuAvailability
  split_ifs
  · exact h
  · exact h
  · exact h.write rfl rfl (h.own c)
  · exact h
  · exact h
  · exact h

theorem shmemRemoveRequests_fits (h : QueuesFit d) : QueuesFit (shmemRemoveRequests S d p) := by
  unfold shmemRemoveRequests
  split
  · refine ⟨fun x => ?_, h.global.remove _⟩
    dsimp only
    split
    · exact (h.own x).remove _
    · exact h.own x
  · exact h

theorem exec_fits (h : QueuesFit d) (co : Caller) (op : Op) : QueuesFit (op.exec S co p d).1 := by
  have h0 : QueuesFit { d with tasks := [] } := h.congr rfl rfl
  unfold Op.exec
  generalize { d with tasks := [] } = d0 at h0 ⊢
  cases op with
  | init preinitPid mask => exact init_fits h0 preinitPid mask
  | lewiInit async =>
    cases async with
    | true => exact h0.congr rfl rfl
    | false => exact h0
  | lewi call => exact call_fits h0 co call
  | removeRequests => exact shmemRemoveRequests_fits h0
  | checkCpuAvailability before cpuid => exact checkCpuAvailability_fits h0 before
  | updateOwnership hasTasks mask => exact shmemUpdateOwnership_fits h0 hasTasks mask
  | deregister =>
    have hrun : QueuesFit ((List.range S.size).foldl (leaveCpu S co p) (removeRequests S d0 p)) :=
      List.foldlRecOn _ _ (removeRequests_fits h0) fun _ hd _ _ => leaveCpu_fits hd
    exact hrun.congr rfl rfl
  | finalize => exact (deregisterProcess_fits h0).congr rfl rfl

/-! ## Runs -/

def GlobalNamed (d : Shdata) : Prop := ∀ it ∈ d.lewiMaskRequests.items, it.pid ≠ 0

theorem Asks.globalNamed (h : Asks q d d1) (hq0 : q ≠ 0) (hd : GlobalNamed d) : GlobalNamed d1 := by
  intro it hit
  rcases h.global it hit with ⟨it', hit', hpid, -⟩ | ⟨hpid, -⟩
  · rw [hpid]
    exact hd it' hit'
  · rw [hpid]
    exact hq0

theorem initShmem_globalNamed (hd : GlobalNamed d) : GlobalNamed (initShmem S co d) := by
  unfold initShmem
  split
  · exact hd
  · exact nofun

theorem exec_globalNamed {op : Op} (hm : op.HasMemory d) (hq0 : q ≠ 0) (hd : GlobalNamed d) :
    GlobalNamed (op.exec S co q d).1 := by
  cases op with
  | init preinitPid mask =>
    have hstart : GlobalNamed { d with tasks := [] } := hd
    have hasks : Asks q (initShmem S co { d with tasks := [] }) (init S co { d with tasks := [] } q preinitPid mask).1 :=
      init_asks preinitPid mask
    exact hasks.globalNamed hq0 (initShmem_globalNamed hstart)
  | lewiInit _ | lewi _ | removeRequests | checkCpuAvailability _ _ | updateOwnership _ _ | deregister | finalize =>
    rcases exec_asks hm co _ with hasks | ⟨-, heq⟩
    · exact hasks.globalNamed hq0 hd
    · rw [heq]
      exact hd

namespace MortalNode

variable {m : MortalNode} {e : Deed}

/-- The queues of a node fit, and the global one is of processes. -/
structure Fitting (S : System) (m : MortalNode) : Prop where
  sound : m.Sound S
  fits : QueuesFit m.node.shm
  named : GlobalNamed m.node.shm

theorem Fitting.start : Fitting S {} :=
  ⟨⟨AsyncNode.sound_start, fun p hp => absurd hp (Finset.notMem_empty p)⟩, .start, nofun⟩

theorem Fitting.next (h : m.Fitting S) (he : e.Valid S) : (m.next S e).Fitting S := by
  have hclear : QueuesFit { m.node.shm with tasks := [] } := h.fits.congr rfl rfl
  refine ⟨h.sound.next he, ?_, ?_⟩
  · cases e with
    | event e =>
      cases e with
      | op co q op =>
        show QueuesFit (m.node.next S (.op co q op)).shm
        unfold AsyncNode.next
        dsimp only
        split
        · exact exec_fits h.fits co op
        · exact h.fits
      | resolve i =>
        show QueuesFit (m.node.next S (.resolve i)).shm
        unfold AsyncNode.next
        dsimp only
        split
        · exact List.foldlRecOn _ _ h.fits fun _ hd _ _ => returnAsync_fits hd
        · exact h.fits
    | preinit co q mask steal =>
      unfold MortalNode.next
      dsimp only
      split
      · exact registerProcess_fits (initShmem_fits hclear) 0 mask steal
      · exact h.fits
    | postfinalize co q => exact (deregisterProcess_fits hclear).congr rfl rfl
    | cleanup co q =>
      unfold MortalNode.next
      dsimp only
      split
      · exact h.fits
      · exact List.foldlRecOn _ _ hclear fun _ hd _ _ => deregisterCpu_fits hd
  · cases e with
    | event e =>
      cases e with
      | op co q op =>
        show GlobalNamed (m.node.next S (.op co q op)).shm
        unfold AsyncNode.next
        dsimp only
        split
        · rename_i hallowed
          exact exec_globalNamed (h.sound.node.hasMemory hallowed) he.1 h.named
        · exact h.named
      | resolve i =>
        show GlobalNamed (m.node.next S (.resolve i)).shm
        unfold AsyncNode.next
        dsimp only
        split
        · intro it hit
          rw [returnAsyncs_global] at hit
          exact h.named it hit
        · exact h.named
    | preinit co q mask steal =>
      unfold MortalNode.next
      dsimp only
      split
      · have hasks : Asks q (initShmem S co { m.node.shm with tasks := [] })
            (extPreinit S co { m.node.shm with tasks := [] } q mask steal).1 := registerProcess_asks 0 mask steal
        exact hasks.globalNamed he (initShmem_globalNamed h.named)
      · exact h.named
    | postfinalize co q =>
      have hasks : Asks q { m.node.shm with tasks := [] } (extPostfinalize S co { m.node.shm with tasks := [] } q).1 :=
        finalize_asks
      exact hasks.globalNamed he h.named
    | cleanup co q =>
      unfold MortalNode.next
      dsimp only
      split
      · exact h.named
      · have hasks : Asks q { m.node.shm with tasks := [] } (cleanupShmem S co { m.node.shm with tasks := [] } q) :=
          Asks.foldl (fun _ _ => deregisterCpu_asks) _ _
        exact hasks.globalNamed he h.named

theorem reachable_fitting (deeds : List Deed) (hdeeds : ∀ e ∈ deeds, e.Valid S) :
    (deeds.foldl (MortalNode.next S) {}).Fitting S :=
  List.foldlRecOn deeds (MortalNode.next S) Fitting.start fun _ hm e he => hm.next (hdeeds e he)

end MortalNode

end Dlb.Cpuinfo

import Dlb.Cpuinfo.Exact
import Dlb.Cpuinfo.Respect

/-!
# Everything that writes cpuinfo

A turn is one use of the lock: an operation of a process, or what others do on its behalf, an external tool that
registers and removes it or the cleanup after its death. Whatever the turns are, only the entries of the CPUs of the
node are ever used (`turns_inTable`).
-/

namespace Dlb.Cpuinfo

variable (S : System)

inductive Act where
  | own (op : Op)
  | preinit (mask : CpuSet) (steal : Bool)
  | postfinalize
  | cleanup

/-- The shared data after an act of, or on behalf of, process `pid`. -/
def Act.exec (c : Caller) (pid : Pid) (d : Shdata) : Act → Shdata
  | .own operation => (operation.exec S c pid d).1
  | .preinit mask steal => (extPreinit S c d pid mask steal).1
  | .postfinalize => (extPostfinalize S c d pid).1
  | .cleanup => cleanupShmem S c d pid

structure Turn where
  caller : Caller := {}
  pid : Pid
  act : Act

def Turn.next (d : Shdata) (t : Turn) : Shdata := t.act.exec S t.caller t.pid d

/-- A process asks for a CPU of the node only; the source does not check this for `check_cpu_availability`. -/
def Act.InNode : Act → Prop
  | .own (.checkCpuAvailability _ cpuid) => cpuid < S.size
  | _ => True

/-- The turn of a process, for CPUs of the node. -/
structure Turn.Valid (t : Turn) : Prop where
  pid : t.pid ≠ 0
  node : t.act.InNode S

/-- Entries beyond the CPUs of the node are not used. -/
def InTable (d : Shdata) : Prop :=
  ∀ x, S.size ≤ x → (d.nodeInfo x).owner = 0 ∧ (d.nodeInfo x).guest = 0 ∧ (d.nodeInfo x).state = .disabled

variable {S} {p q : Pid} {d d1 : Shdata} {c x : ℕ} {i : CpuInfo}

theorem Turn.valid_iff {t : Turn} : t.Valid S ↔ t.pid ≠ 0 ∧ t.act.InNode S := ⟨fun h => ⟨h.1, h.2⟩, fun h => ⟨h.1, h.2⟩⟩

section Entries

/-! ## One entry -/

theorem InTable.lt_of_guest (h : InTable S d) (hg : (d.nodeInfo x).guest ≠ 0) : x < S.size := by
  by_contra hx
  exact hg (h x (by omega)).2.1

theorem InTable.lt_of_owner (h : InTable S d) (ho : (d.nodeInfo x).owner ≠ 0) : x < S.size := by
  by_contra hx
  exact ho (h x (by omega)).1

theorem InTable.lt_of_state (h : InTable S d) (hs : (d.nodeInfo x).state ≠ .disabled) : x < S.size := by
  by_contra hx
  exact hs (h x (by omega)).2.2

theorem InTable.congr (h : InTable S d) (hinfo : d1.nodeInfo = d.nodeInfo) : InTable S d1 := by
  intro x hx
  rw [hinfo]
  exact h x hx

theorem InTable.write (h : InTable S d) (hc : c < S.size) (hinfo : d1.nodeInfo = Function.update d.nodeInfo c i) :
    InTable S d1 := by
  intro x hx
  have hne : x ≠ c := by omega
  rw [hinfo, Function.update_of_ne hne]
  exact h x hx

theorem InTable.requests (h : InTable S d) (requests : ℕ → Queue Pid)
    (hinfo : ∀ x, d1.nodeInfo x = { d.nodeInfo x with requests := requests x }) : InTable S d1 := by
  intro x hx
  rw [hinfo]
  exact h x hx

theorem InTable.setRequests (h : InTable S d) (requests : Queue Pid) :
    InTable S (d.set c { d.nodeInfo c with requests := requests }) := by
  refine h.requests (Function.update (fun x => (d.nodeInfo x).requests) c requests) fun x => ?_
  unfold Shdata.set
  dsimp only
  by_cases hx : x = c
  · subst hx
    rw [Function.update_self, Function.update_self]
  · rw [Function.update_of_ne hx, Function.update_of_ne hx]

end Entries

section Lend

/-! ## Lend -/

theorem findNewGuest_inTable (h : InTable S d) : InTable S (findNewGuest S d c).1 := by
  have hpop : InTable S (popRequest S d c).1 := h.setRequests _
  unfold findNewGuest
  dsimp only
  split
  · exact h
  split
  · split
    · exact hpop.congr rfl
    · exact hpop
  · exact h

theorem assignGuest_inTable (h : InTable S d) (hc : c < S.size) : InTable S (assignGuest S d c).1 := by
  unfold assignGuest
  dsimp only
  split
  · exact findNewGuest_inTable h
  · exact (findNewGuest_inTable h).write hc rfl

theorem assignRest_inTable {cpuid : ℕ} (h : InTable S d) (hc : c < S.size) : InTable S (assignRest S cpuid d c) := by
  unfold assignRest
  split
  · dsimp only
    split
    · exact assignGuest_inTable h hc
    · exact (assignGuest_inTable h hc).congr rfl
  · exact h

theorem coreMask_lt_size {e : ℕ} (h : e ∈ coreMask S c) : e < S.size :=
  System.lt_size (S.covered _ (coreMask_mem h).1 h)

theorem findGuests_inTable (h : InTable S d) (hc : c < S.size) : InTable S (findGuests S d c) := by
  unfold findGuests
  split
  · dsimp only
    split
    · exact assignGuest_inTable h hc
    · refine List.foldlRecOn _ _ (assignGuest_inTable h hc) fun d hd e he => assignRest_inTable hd ?_
      exact coreMask_lt_size (of_decide_eq_true (List.mem_filter.mp he).2)
  · exact h

theorem lendOwned_inTable (h : InTable S d) (hc : c < S.size) : InTable S (lendOwned d q c) := by
  unfold lendOwned
  dsimp only
  split
  · exact h.write hc rfl
  split
  · exact h.write hc rfl
  · exact h

theorem leave_inTable (h : InTable S d) (hc : c < S.size) : InTable S (leave d q c) := by
  unfold leave
  dsimp only
  split
  · exact h.write hc rfl
  · exact h

theorem lendCpu_inTable (h : InTable S d) : InTable S (lendCpu S q d c) := by
  unfold lendCpu
  split
  · exact h
  · rename_i hs
    have hc := h.lt_of_state hs
    have hfind : InTable S (findGuests S (leave (lendOwned d q c) q c) c) :=
      findGuests_inTable (leave_inTable (lendOwned_inTable h hc) hc) hc
    dsimp only
    split
    · exact hfind.congr rfl
    · exact hfind.congr rfl

end Lend

section Ops

/-! ## The other operations on one CPU -/

theorem reclaimCpu_inTable (h : InTable S d) (hq0 : q ≠ 0) : InTable S (reclaimCpu q d c).1 := by
  unfold reclaimCpu
  dsimp only
  split
  · rename_i ho
    have hc := h.lt_of_owner (ho ▸ hq0)
    split
    · exact h.write hc rfl
    split
    · exact h.write hc rfl
    · exact h.write hc rfl
  · exact h

theorem noteOccupied_inTable (h : InTable S d) : InTable S (noteOccupied S d c) := by
  unfold noteOccupied
  split
  · exact h.congr rfl
  · exact h

theorem noteOccupiedOwned_inTable (h : InTable S d) : InTable S (noteOccupiedOwned S d c) :=
  h.congr noteOccupiedOwned_info

theorem acquireCpu_inTable (h : InTable S d) (hq0 : q ≠ 0) : InTable S (acquireCpu S q d c).1 := by
  unfold acquireCpu
  dsimp only
  split
  · exact h
  split
  · rename_i ho
    have hc := h.lt_of_owner (ho ▸ hq0)
    split
    · exact h.write hc rfl
    · exact noteOccupied_inTable (h.write hc rfl)
  split
  · rename_i hav
    have hc := h.lt_of_state (x := c) (by rw [hav.2.1]; exact nofun)
    refine InTable.congr (noteOccupiedOwned_inTable (c := c) ?_) rfl
    exact h.write hc rfl
  split
  · split
    · exact h.setRequests _
    · exact h
  split
  · exact h
  · exact h

theorem borrowCpu_inTable (h : InTable S d) : InTable S (borrowCpu S q d c).1 := by
  unfold borrowCpu
  dsimp only
  split
  · exact h
  · rename_i hs
    have hc := h.lt_of_state hs
    split
    · split
      · exact h.write hc rfl
      split
      · exact noteOccupiedOwned_inTable (h.write hc rfl)
      · exact h
    · exact h

theorem returnCpu_inTable (h : InTable S d) (hq0 : q ≠ 0) : InTable S (returnCpu S q d c).1 := by
  unfold returnCpu
  dsimp only
  split
  · exact h
  · rename_i hret
    have hg : (d.nodeInfo c).guest = q := by tauto
    have hc := h.lt_of_guest (hg ▸ hq0)
    split
    · exact h.write hc rfl
    · exact h.write hc rfl

end Ops

section Calls

/-! ## Calls -/

theorem petition_inTable (request : LewiMaskRequest) (h : InTable S d) : InTable S (petition d request).1 := by
  unfold petition
  split
  · exact h.congr rfl
  split
  · exact h.congr rfl
  · exact h

theorem petitionCpu_inTable (r : Shdata × DlbError) (h : InTable S r.1) : InTable S (petitionCpu q r c).1 := by
  unfold petitionCpu
  dsimp only
  split
  · split
    · split
      · exact h.setRequests _
      · exact h
    · exact h
  · exact h

theorem removeRequests_inTable (h : InTable S d) : InTable S (removeRequests S d q) := by
  unfold removeRequests
  split
  · intro x hx
    dsimp only
    split
    · exact h x hx
    · exact h x hx
  · exact h

theorem inTable_kept (hq0 : q ≠ 0) : Kept S q (InTable S) where
  start _ h := h
  timestamp _ _ h := h
  lend _ _ h := lendCpu_inTable h
  reclaim _ _ h := reclaimCpu_inTable h hq0
  acquire _ _ h := acquireCpu_inTable h hq0
  borrow _ _ h := borrowCpu_inTable h
  giveBack _ _ h := returnCpu_inTable h hq0
  disable _ _ h := h
  petitions := addPetitions_keeps (fun _ request h => petition_inTable request h) fun r _ h => petitionCpu_inTable r h
  remove _ h := removeRequests_inTable h

theorem call_inTable (h : InTable S d) (hq0 : q ≠ 0) (co : Caller) (call : Call) : InTable S (exec S co q d call) := by
  have hkept : Kept S q (InTable S) := inTable_kept hq0
  refine exec_keeps hkept h co call fun cpuid _ => ?_
  refine shmemReclaimCpu_keeps hkept.reclaim (fun d' cpuid c h => ?_) (hkept.start d h) cpuid
  unfold disableRest
  split
  · exact h.congr rfl
  · exact h

end Calls

section Ownership

/-! ## Ownership -/

theorem foldl_inTable {f : Shdata → ℕ → Shdata} (hf : ∀ d c, InTable S d → c < S.size → InTable S (f d c)) {l : List ℕ}
    (hl : ∀ c ∈ l, c < S.size) (h : InTable S d) : InTable S (l.foldl f d) :=
  List.foldlRecOn l f h fun d hd c hc => hf d c hd (hl c hc)

theorem deregisterCpu_inTable (co : Caller) (h : InTable S d) (hc : c < S.size) :
    InTable S (deregisterCpu S co q d c) := by
  unfold deregisterCpu
  dsimp only
  split
  · exact h.write hc (deregisterOwned_info co)
  · have hguest : InTable S
        (if (d.nodeInfo c).guest = q then (d.set c { d.nodeInfo c with guest := 0 }).setFree c else d) := by
      split
      · exact h.write hc rfl
      · exact h
    split
    · exact hguest.write hc rfl
    · exact hguest

theorem deregisterProcess_inTable (co : Caller) (h : InTable S d) : InTable S (deregisterProcess S co d q) := by
  have hrun : InTable S ((List.range S.size).foldl (deregisterCpu S co q) d) :=
    foldl_inTable (fun _ _ h hc => deregisterCpu_inTable co h hc) (fun _ => List.mem_range.mp) h
  unfold deregisterProcess
  dsimp only
  split
  · exact hrun.congr rfl
  · exact hrun

theorem leaveCpu_inTable (co : Caller) (h : InTable S d) (hq0 : q ≠ 0) (hc : c < S.size) :
    InTable S (leaveCpu S co q d c) := by
  unfold leaveCpu
  split
  · unfold leaveOwned
    split
    · exact (lendCpu_inTable h).write hc rfl
    · have hrec : InTable S (reclaimCpu q d c).1 := reclaimCpu_inTable h hq0
      generalize (reclaimCpu q d c).1 = d1 at hrec ⊢
      have hleave : InTable S ((d1.set c { d1.nodeInfo c with
          guest := if (d1.nodeInfo c).guest = q then 0 else (d1.nodeInfo c).guest, state := .disabled }).clrFree c) :=
        hrec.write hc rfl
      exact hleave.write hc rfl
  split
  · exact lendCpu_inTable h
  · exact h

theorem shmemUpdateOwnership_inTable (hasTasks : Bool) (mask : CpuSet) (h : InTable S d) (hq0 : q ≠ 0) :
    InTable S (shmemUpdateOwnership S hasTasks d q mask).1 := by
  refine List.foldlRecOn (motive := fun r : Shdata × Bool => InTable S r.1) _ _ h fun r hr c hc => ?_
  have hc := List.mem_range.mp hc
  unfold updateOwnershipCpu
  dsimp only
  split
  · exact hr
  split
  · split
    · exact hr.write hc (stealCpu_info hasTasks)
    · exact hr
  split
  · unfold releaseCpu
    dsimp only
    split
    · split
      · exact hr.write hc rfl
      · exact hr.write hc rfl
    · exact hr.write hc rfl
  split
  · split
    · exact returnCpu_inTable hr hq0
    · exact hr
  · exact hr

theorem checkCpuAvailability_inTable (before : CpuInfo) (h : InTable S d) (hc : c < S.size) :
    InTable S (checkCpuAvailability before d q c).1 := by
  unfold checkCpuAvailability
  split
  · exact h
  split
  · exact h
  split
  · split
    · exact h.write hc rfl
    · exact h
  split
  · exact h
  · exact h

theorem initShmem_inTable (co : Caller) (h : InTable S d) : InTable S (initShmem S co d) := by
  unfold initShmem
  split
  · exact h
  · intro x hx
    dsimp only
    rw [if_neg (by omega)]
    exact ⟨rfl, rfl, rfl⟩

theorem registerProcess_inTable (preinitPid : Pid) (mask : CpuSet) (steal : Bool) (h : InTable S d) :
    InTable S (registerProcess S d q preinitPid mask steal).1 := by
  unfold registerProcess
  split
  · exact h
  split
  · exact h
  · exact foldl_inTable (fun _ _ h hc => h.write hc registerCpu_info) (fun _ hc => (mem_nodeCpus.mp hc).1) h

end Ownership

section Runs

/-! ## Runs -/

theorem exec_inTable (h : InTable S d) (hq0 : q ≠ 0) (co : Caller) {op : Op} (hop : (Act.own op).InNode S) :
    InTable S (op.exec S co q d).1 := by
  have h0 : InTable S { d with tasks := [] } := h
  unfold Op.exec
  generalize { d with tasks := [] } = d0 at h0 ⊢
  cases op with
  | init preinitPid mask =>
    have hreg : InTable S (registerProcess S (initShmem S co d0) q preinitPid mask false).1 :=
      registerProcess_inTable preinitPid mask false (initShmem_inTable co h0)
    unfold init
    dsimp only
    split
    · exact (deregisterProcess_inTable co hreg).congr rfl
    · exact hreg
  | lewiInit async =>
    dsimp only
    split
    · exact h0.congr rfl
    · exact h0
  | lewi call => exact call_inTable h0 hq0 co call
  | removeRequests =>
    dsimp only
    unfold shmemRemoveRequests
    split
    · intro x hx
      dsimp only
      rw [if_neg (by omega)]
      exact h0 x hx
    · exact h0
  | checkCpuAvailability before cpuid => exact checkCpuAvailability_inTable before h0 hop
  | updateOwnership hasTasks mask => exact shmemUpdateOwnership_inTable hasTasks mask h0 hq0
  | deregister =>
    have hleave : InTable S ((List.range S.size).foldl (leaveCpu S co q) (removeRequests S d0 q)) :=
      foldl_inTable (fun _ _ h hc => leaveCpu_inTable co h hq0 hc) (fun _ => List.mem_range.mp) (removeRequests_inTable h0)
    exact hleave.congr rfl
  | finalize => exact (deregisterProcess_inTable co h0).congr rfl

theorem Turn.next_inTable (h : InTable S d) {t : Turn} (ht : t.Valid S) : InTable S (t.next S d) := by
  obtain ⟨hpid, hnode⟩ := ht
  obtain ⟨co, pid, act⟩ := t
  cases act with
  | own op => exact exec_inTable h hpid co hnode
  | preinit mask steal => exact registerProcess_inTable 0 mask steal (initShmem_inTable co h)
  | postfinalize => exact (deregisterProcess_inTable co h).congr rfl
  | cleanup => exact foldl_inTable (fun _ _ h hc => deregisterCpu_inTable co h hc) (fun _ => List.mem_range.mp) h

theorem turns_inTable {turns : List Turn} (h : InTable S d) (hturns : ∀ t ∈ turns, t.Valid S) :
    InTable S (turns.foldl (Turn.next S) d) :=
  List.foldlRecOn turns _ h fun _ hd t ht => Turn.next_inTable hd (hturns t ht)

theorem inTable_zero : InTable S {} := fun _ _ => ⟨rfl, rfl, rfl⟩

end Runs

end Dlb.Cpuinfo

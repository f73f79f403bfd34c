import Dlb.Cpuinfo.Leaving

/-!
# The CPUs that a process keeps

`Spares p d d1`: what process `p` owns in `d1` it owned in `d`, in the same state. Another process may become the owner of
a CPU of `p`, but a CPU that stays with `p` is busy or lent as `p` has left it (`exec_spares`).
-/

namespace Dlb.Cpuinfo

variable {S : System} {p q : Pid} {d d1 d2 : Shdata} {c : ℕ} {i j : CpuInfo}

def CpuInfo.Spares (p : Pid) (i j : CpuInfo) : Prop := j.owner = p → i.owner = p ∧ j.state = i.state

/-- What another process may do to the shared data. -/
def Spares (p : Pid) (d d1 : Shdata) : Prop := ∀ c, (d.nodeInfo c).Spares p (d1.nodeInfo c)

namespace Spares

theorem trans (h1 : Spares p d d1) (h2 : Spares p d1 d2) : Spares p d d2 := fun c ho =>
  have h := h2 c ho
  ⟨(h1 c h.1).1, h.2.trans (h1 c h.1).2⟩

theorem of_same (howner : ∀ c, (d1.nodeInfo c).owner = (d.nodeInfo c).owner)
    (hstate : ∀ c, (d1.nodeInfo c).state = (d.nodeInfo c).state) : Spares p d d1 :=
  fun c ho => ⟨(howner c).symm.trans ho, hstate c⟩

theorem of_info (hinfo : d1.nodeInfo = d.nodeInfo) : Spares p d d1 := fun _ ho => ⟨hinfo ▸ ho, by rw [hinfo]⟩

theorem refl (d : Shdata) : Spares p d d := of_info rfl

theorem write (hinfo : d1.nodeInfo = Function.update d.nodeInfo c i) (h : (d.nodeInfo c).Spares p i) : Spares p d d1 := by
  intro x
  rw [hinfo]
  by_cases hx : x = c
  · rwa [hx, Function.update_self]
  · rw [Function.update_of_ne hx]
    exact fun ho => ⟨ho, rfl⟩

theorem write_same (hinfo : d1.nodeInfo = Function.update d.nodeInfo c i) (howner : i.owner = (d.nodeInfo c).owner)
    (hstate : i.state = (d.nodeInfo c).state) : Spares p d d1 :=
  write hinfo fun ho => ⟨howner.symm.trans ho, hstate⟩

theorem write_owner (hinfo : d1.nodeInfo = Function.update d.nodeInfo c i) (howner : i.owner ≠ p) : Spares p d d1 :=
  write hinfo fun ho => absurd ho howner

theorem write_other (hinfo : d1.nodeInfo = Function.update d.nodeInfo c i) (howner : i.owner = q) (hq : q ≠ p) :
    Spares p d d1 := write_owner hinfo (howner.trans_ne hq)

theorem foldl {f : Shdata → ℕ → Shdata} (hf : ∀ d c, Spares p d (f d c)) (l : List ℕ) (d : Shdata) :
    Spares p d (l.foldl f d) :=
  List.foldlRecOn l f (Spares.refl d) fun _ hd c _ => hd.trans (hf _ c)

end Spares

/-! ## Calls -/

section Calls

theorem lendCpu_spares (hq : q ≠ p) : Spares p d (lendCpu S q d c) := by
  by_cases hs : (d.nodeInfo c).state = .disabled
  · rw [lendCpu_of_disabled hs]
    exact .refl d
  · have hlent : Lent S q c d (lendCpu S q d c) := lendCpu_lent hs
    intro x ho
    rw [hlent.owner] at ho
    refine ⟨ho, ?_⟩
    rw [hlent.state]
    split
    · rename_i hx
      rw [hx] at ho ⊢
      have hne : (d.nodeInfo c).owner ≠ q := fun h => hq (h.symm.trans ho)
      simp [lentInfo, hne]
    · rfl

theorem reclaimCpu_spares (hq : q ≠ p) : Spares p d (reclaimCpu q d c).1 := by
  unfold reclaimCpu
  dsimp only
  split
  · rename_i ho
    split
    · exact .write_other rfl ho hq
    split
    · exact .write_other rfl ho hq
    · exact .write_other rfl ho hq
  · exact .refl d

theorem noteOccupied_spares : Spares p d (noteOccupied S d c) := by
  unfold noteOccupied
  split
  · exact .of_info rfl
  · exact .refl d

theorem noteOccupiedOwned_spares : Spares p d (noteOccupiedOwned S d c) := by
  unfold noteOccupiedOwned
  split
  · exact noteOccupied_spares
  · exact .refl d

theorem acquireCpu_spares (hq : q ≠ p) : Spares p d (acquireCpu S q d c).1 := by
  unfold acquireCpu
  dsimp only
  split
  · exact .refl d
  split
  · rename_i ho
    split
    · exact .write_other rfl ho hq
    · apply Spares.trans _ noteOccupied_spares
      exact .write_other rfl ho hq
  split
  · apply Spares.trans _ (.of_info rfl)
    apply Spares.trans _ noteOccupiedOwned_spares
    exact .write_same rfl rfl rfl
  split
  · split
    · exact .write_same rfl rfl rfl
    · exact .refl d
  split
  · exact .refl d
  · exact .refl d

theorem borrowCpu_spares (hq : q ≠ p) : Spares p d (borrowCpu S q d c).1 := by
  unfold borrowCpu
  dsimp only
  split
  · exact .refl d
  split
  · split
    · rename_i ho
      exact .write_other rfl ho hq
    split
    · apply Spares.trans _ noteOccupiedOwned_spares
      exact .write_same rfl rfl rfl
    · exact .refl d
  · exact .refl d

theorem returnCpu_spares : Spares p d (returnCpu S q d c).1 := by
  unfold returnCpu
  dsimp only
  split
  · exact .refl d
  split
  · exact .write_same rfl rfl rfl
  · exact .write_same rfl rfl rfl

theorem petition_spares (request : LewiMaskRequest) : Spares p d (petition d request).1 := by
  unfold petition
  split
  · exact .of_info rfl
  split
  · exact .of_info rfl
  · exact .refl d

theorem petitionCpu_spares (r : Shdata × DlbError) : Spares p r.1 (petitionCpu q r c).1 := by
  unfold petitionCpu
  dsimp only
  split
  · split
    · split
      · exact .write_same rfl rfl rfl
      · exact .refl _
    · exact .refl _
  · exact .refl _

theorem removeRequests_spares : Spares p d (removeRequests S d q) := by
  unfold removeRequests
  split
  · refine .of_same (fun x => ?_) fun x => ?_
    · dsimp only
      split <;> rfl
    · dsimp only
      split <;> rfl
  · exact .refl d

theorem shmemRemoveRequests_spares : Spares p d (shmemRemoveRequests S d q) := by
  unfold shmemRemoveRequests
  split
  · refine .of_same (fun x => ?_) fun x => ?_
    · dsimp only
      split <;> rfl
    · dsimp only
      split <;> rfl
  · exact .refl d

theorem spares_kept (hq : q ≠ p) (d0 : Shdata) : Kept S q (Spares p d0) where
  start _ h := h.trans (.of_info rfl)
  timestamp _ _ h := h.trans (.of_info rfl)
  lend _ _ h := h.trans (lendCpu_spares hq)
  reclaim _ _ h := h.trans (reclaimCpu_spares hq)
  acquire _ _ h := h.trans (acquireCpu_spares hq)
  borrow _ _ h := h.trans (borrowCpu_spares hq)
  giveBack _ _ h := h.trans returnCpu_spares
  disable _ _ h := h.trans (.of_info rfl)
  petitions := addPetitions_keeps (fun _ _ h => h.trans (petition_spares _))
    fun r _ h => h.trans (petitionCpu_spares r)
  remove _ h := h.trans removeRequests_spares

theorem call_spares (hq : q ≠ p) (co : Caller) (call : Call) : Spares p d (exec S co q d call) := by
  have hkept : Kept S q (Spares p d) := spares_kept hq d
  refine exec_keeps hkept (.refl d) co call fun cpuid _ => ?_
  refine shmemReclaimCpu_keeps hkept.reclaim (fun d' cpuid c h => ?_) (hkept.start d (.refl d)) cpuid
  unfold disableRest
  split
  · exact h.trans (.of_info rfl)
  · exact h

end Calls

/-! ## Ownership -/

section Ownership

theorem deregisterCpu_spares (hp : p ≠ 0) (co : Caller) : Spares p d (deregisterCpu S co q d c) := by
  unfold deregisterCpu
  dsimp only
  split
  · exact .write_owner (deregisterOwned_info co) hp.symm
  · have hguest : Spares p d
        (if (d.nodeInfo c).guest = q then (d.set c { d.nodeInfo c with guest := 0 }).setFree c else d) := by
      split
      · exact .write_same rfl rfl rfl
      · exact .refl d
    split
    · exact hguest.trans (.write_same rfl rfl rfl)
    · exact hguest

theorem finalize_spares (hp : p ≠ 0) (co : Caller) : Spares p d (finalize S co d q) := by
  have hrun : Spares p d ((List.range S.size).foldl (deregisterCpu S co q) d) :=
    Spares.foldl (fun _ _ => deregisterCpu_spares hp co) _ _
  unfold finalize deregisterProcess
  dsimp only
  split
  · exact hrun.trans (.of_info rfl)
  · exact hrun.trans (.of_info rfl)

theorem leaveCpu_spares (hp : p ≠ 0) (hq : q ≠ p) (co : Caller) : Spares p d (leaveCpu S co q d c) := by
  unfold leaveCpu
  split
  · unfold leaveOwned
    split
    · apply (lendCpu_spares hq).trans
      exact .write_owner rfl hp.symm
    · apply (reclaimCpu_spares hq).trans
      refine .write_owner (i := _) ((Function.update_idem _ _ _)) hp.symm
  split
  · exact lendCpu_spares hq
  · exact .refl d

theorem shmemDeregister_spares (hp : p ≠ 0) (hq : q ≠ p) (co : Caller) : Spares p d (shmemDeregister S co d q).1 := by
  have hremove : Spares p d (removeRequests S d q) := removeRequests_spares
  exact (hremove.trans (Spares.foldl (fun _ _ => leaveCpu_spares hp hq co) (List.range S.size) _)).trans (.of_info rfl)

theorem updateOwnership_spares (hp : p ≠ 0) (hq : q ≠ p) (hasTasks : Bool) (mask : CpuSet) :
    Spares p d (shmemUpdateOwnership S hasTasks d q mask).1 := by
  refine foldl_keeps (P := Spares p d) (fun r c hr => ?_) _ _ (.refl d)
  have hsteal : Spares p r.1 (stealCpu hasTasks q r.1 c) := .write_owner (stealCpu_info hasTasks) hq
  have hrelease : Spares p r.1 (releaseCpu hasTasks q r.1 c) := by
    unfold releaseCpu
    dsimp only
    split
    · split
      · exact .write_owner rfl hp.symm
      · exact .write_owner rfl hp.symm
    · exact .write_owner rfl hp.symm
  unfold updateOwnershipCpu
  dsimp only
  split
  · exact hr
  split
  · split
    · exact hr.trans hsteal
    · exact hr
  split
  · exact hr.trans hrelease
  split
  · split
    · exact hr.trans returnCpu_spares
    · exact hr
  · exact hr

theorem checkCpuAvailability_spares (before : CpuInfo) : Spares p d (checkCpuAvailability before d q c).1 := by
  unfold checkCpuAvailability
  split
  · exact .refl d
  split
  · exact .refl d
  split
  · split
    · exact .write_same rfl rfl rfl
    · exact .refl d
  split
  · exact .refl d
  · exact .refl d

theorem registerProcess_spares (hq : q ≠ p) (preinitPid : Pid) (mask : CpuSet) (steal : Bool) :
    Spares p d (registerProcess S d q preinitPid mask steal).1 := by
  unfold registerProcess
  split
  · exact .refl d
  split
  · exact .refl d
  · refine Spares.foldl (fun d c => ?_) _ _
    exact .write_owner rfl hq

theorem initShmem_spares (hp : p ≠ 0) (co : Caller) : Spares p d (initShmem S co d) := by
  unfold initShmem
  split
  · exact .refl d
  · intro x ho
    dsimp only at ho
    split at ho
    · exact absurd ho hp.symm
    · exact absurd ho hp.symm

theorem init_spares (hp : p ≠ 0) (hq : q ≠ p) (co : Caller) (preinitPid : Pid) (mask : CpuSet) :
    Spares p d (init S co d q preinitPid mask).1 := by
  have hregister : Spares p d (registerProcess S (initShmem S co d) q preinitPid mask false).1 :=
    (initShmem_spares hp co).trans (registerProcess_spares hq preinitPid mask false)
  unfold init
  dsimp only
  split
  · exact hregister.trans (finalize_spares hp co)
  · exact hregister

/-! ## Every operation -/

theorem exec_spares (hp : p ≠ 0) (hq : q ≠ p) (co : Caller) (op : Op) : Spares p d (op.exec S co q d).1 := by
  have hstart : Spares p d { d with tasks := [] } := .of_info rfl
  unfold Op.exec
  generalize { d with tasks := [] } = d0 at hstart ⊢
  cases op with
  | init preinitPid mask => exact hstart.trans (init_spares hp hq co preinitPid mask)
  | lewiInit async =>
    dsimp only
    split
    · exact hstart.trans (.of_info rfl)
    · exact hstart
  | lewi call => exact hstart.trans (call_spares hq co call)
  | removeRequests => exact hstart.trans shmemRemoveRequests_spares
  | checkCpuAvailability before cpuid => exact hstart.trans (checkCpuAvailability_spares before)
  | updateOwnership hasTasks mask => exact hstart.trans (updateOwnership_spares hp hq hasTasks mask)
  | deregister => exact hstart.trans (shmemDeregister_spares hp hq co)
  | finalize => exact hstart.trans (finalize_spares hp co)

theorem returnAsync_spares : Spares p d (returnAsync S q d c) := by
  have hguest : Spares p d (returnGuest d c) := by
    unfold returnGuest
    dsimp only
    split
    · exact .write_same rfl rfl rfl
    · exact .write_same rfl rfl rfl
  unfold returnAsync requestAgain
  split
  · exact (hguest.trans (.of_info rfl)).trans (.write_same rfl rfl rfl)
  · exact hguest.trans (.of_info rfl)

theorem returnAsyncCpuMask_spares (mask : CpuSet) : Spares p d (returnAsyncCpuMask S q d mask) :=
  Spares.foldl (fun _ _ => returnAsync_spares) _ _

end Ownership

end Dlb.Cpuinfo

import Dlb.Cpuinfo.Async
import Dlb.Cpuinfo.HelperSets
import Dlb.Cpuinfo.Loops

/-!
# What an operation does to the CPUs of other processes

`Respects q d d'`: from `d` to `d'` the guests other than `q` stay, and no process but `q` becomes an owner. Every
operation of `q` does this to the shared data (`exec_respects`), whatever the state, the masks and the requests are.
-/

namespace Dlb.Cpuinfo

variable {S : System} {q : Pid} {d d1 d2 : Shdata} {c : ℕ} {i j : CpuInfo}

/-- What process `q` may do to a CPU. -/
structure CpuInfo.Respects (q : Pid) (i j : CpuInfo) : Prop where
  guest : i.guest ≠ 0 → i.guest ≠ q → j.guest = i.guest
  owner : j.owner = i.owner ∨ j.owner = q ∨ j.owner = 0

structure SameFlags (d d' : Shdata) : Prop where
  initialized : d'.initialized = d.initialized
  queues : d'.queuesEnabled = d.queuesEnabled
  smt : d'.hwHasSmt = d.hwHasSmt

/-- What process `q` may do to the shared data. The flags of initialized memory stay, but request queues may be enabled. -/
structure Respects (q : Pid) (d d' : Shdata) : Prop where
  cpu : ∀ c, (d.nodeInfo c).Respects q (d'.nodeInfo c)
  initialized : d.initialized = true → d'.initialized = true
  queues : d.initialized = true → d.queuesEnabled = true → d'.queuesEnabled = true
  smt : d.initialized = true → d'.hwHasSmt = d.hwHasSmt

theorem CpuInfo.Respects.refl (i : CpuInfo) : i.Respects q i := ⟨fun _ _ => rfl, .inl rfl⟩

theorem CpuInfo.Respects.trans {k : CpuInfo} (h1 : i.Respects q j) (h2 : j.Respects q k) : i.Respects q k := by
  refine ⟨fun h0 hq => ?_, ?_⟩
  · have hj := h1.guest h0 hq
    rw [← hj] at h0 hq
    exact (h2.guest h0 hq).trans hj
  · rcases h2.owner with hk | hk
    · rw [hk]
      exact h1.owner
    · exact .inr hk

theorem Respects.trans (h1 : Respects q d d1) (h2 : Respects q d1 d2) : Respects q d d2 where
  cpu c := (h1.cpu c).trans (h2.cpu c)
  initialized hi := h2.initialized (h1.initialized hi)
  queues hi hq := h2.queues (h1.initialized hi) (h1.queues hi hq)
  smt hi := (h2.smt (h1.initialized hi)).trans (h1.smt hi)

theorem Respects.of_flags (hflags : SameFlags d d1) (hcpu : ∀ c, (d.nodeInfo c).Respects q (d1.nodeInfo c)) :
    Respects q d d1 where
  cpu := hcpu
  initialized hi := hflags.initialized.trans hi
  queues _ hq := hflags.queues.trans hq
  smt _ := hflags.smt

theorem Respects.of_info (hflags : SameFlags d d1) (hinfo : d1.nodeInfo = d.nodeInfo) : Respects q d d1 :=
  .of_flags hflags fun _ => hinfo ▸ .refl _

theorem Respects.refl (d : Shdata) : Respects q d d := .of_info ⟨rfl, rfl, rfl⟩ rfl

theorem Respects.congr (h : Respects q d d1) (hflags : SameFlags d1 d2) (hinfo : d2.nodeInfo = d1.nodeInfo) :
    Respects q d d2 := h.trans (.of_info hflags hinfo)

theorem Respects.write (hflags : SameFlags d d1) (hinfo : d1.nodeInfo = Function.update d.nodeInfo c i)
    (h : (d.nodeInfo c).Respects q i) : Respects q d d1 := by
  refine .of_flags hflags fun x => ?_
  rw [hinfo]
  by_cases hx : x = c
  · rwa [hx, Function.update_self]
  · rw [Function.update_of_ne hx]
    exact .refl _

theorem CpuInfo.Respects.of_eq (howner : j.owner = i.owner) (hguest : j.guest = i.guest) : i.Respects q j :=
  ⟨fun _ _ => hguest, .inl howner⟩

theorem CpuInfo.Respects.of_idle (howner : j.owner = i.owner) (hguest : i.guest = 0) : i.Respects q j :=
  ⟨fun h0 => absurd hguest h0, .inl howner⟩

theorem CpuInfo.Respects.of_guest (howner : j.owner = i.owner) (hguest : i.guest = q) : i.Respects q j :=
  ⟨fun _ hq => absurd hguest hq, .inl howner⟩

theorem Respects.foldl {f : Shdata → ℕ → Shdata} (hf : ∀ d c, Respects q d (f d c)) (l : List ℕ) (d : Shdata) :
    Respects q d (l.foldl f d) :=
  List.foldlRecOn l f (Respects.refl d) fun _ hd c _ => hd.trans (hf _ c)

/-! ## Lend -/

theorem popRequest_respects : Respects q d (popRequest S d c).1 := Respects.write ⟨rfl, rfl, rfl⟩ rfl (.of_eq rfl rfl)

theorem findNewGuest_respects : Respects q d (findNewGuest S d c).1 := by
  unfold findNewGuest
  dsimp only
  split
  · exact .refl d
  split
  · split
    · exact popRequest_respects.trans (.of_info ⟨rfl, rfl, rfl⟩ rfl)
    · exact popRequest_respects
  · exact .refl d

theorem findNewGuest_guest (x : ℕ) : ((findNewGuest S d c).1.nodeInfo x).guest = (d.nodeInfo x).guest := by
  have hpop : ((popRequest S d c).1.nodeInfo x).guest = (d.nodeInfo x).guest := by
    unfold popRequest Shdata.set
    dsimp only
    by_cases hx : x = c
    · rw [hx, Function.update_self]
    · rw [Function.update_of_ne hx]
  unfold findNewGuest
  dsimp only
  split
  · rfl
  split
  · split
    · exact hpop
    · exact hpop
  · rfl

theorem assignGuest_respects (hg : (d.nodeInfo c).guest = 0) : Respects q d (assignGuest S d c).1 := by
  unfold assignGuest
  dsimp only
  split
  · exact findNewGuest_respects
  · refine findNewGuest_respects.trans (Respects.write ⟨rfl, rfl, rfl⟩ rfl (.of_idle rfl ?_))
    rw [findNewGuest_guest, hg]

theorem assignRest_respects {cpuid : ℕ} : Respects q d (assignRest S cpuid d c) := by
  unfold assignRest
  split
  · rename_i hrest
    dsimp only
    split
    · exact assignGuest_respects hrest.2
    · exact (assignGuest_respects hrest.2).congr ⟨rfl, rfl, rfl⟩ rfl
  · exact .refl d

theorem findGuests_respects : Respects q d (findGuests S d c) := by
  unfold findGuests
  split
  · rename_i hg
    dsimp only
    split
    · exact assignGuest_respects hg
    · apply (assignGuest_respects hg).trans
      exact Respects.foldl (fun d c => assignRest_respects) _ _
  · exact .refl d

theorem lendOwned_respects : Respects q d (lendOwned d q c) := by
  unfold lendOwned
  dsimp only
  split
  · exact Respects.write ⟨rfl, rfl, rfl⟩ rfl (.of_eq rfl rfl)
  split
  · exact Respects.write ⟨rfl, rfl, rfl⟩ rfl (.of_eq rfl rfl)
  · exact .refl d

theorem leave_respects : Respects q d (leave d q c) := by
  unfold leave
  dsimp only
  split
  · rename_i hg
    exact Respects.write ⟨rfl, rfl, rfl⟩ rfl (.of_guest rfl hg)
  · exact .refl d

theorem lendCpu_respects : Respects q d (lendCpu S q d c) := by
  unfold lendCpu
  split
  · exact .refl d
  · have hfind : Respects q d (findGuests S (leave (lendOwned d q c) q c) c) :=
      (lendOwned_respects.trans leave_respects).trans findGuests_respects
    dsimp only
    split
    · exact hfind.congr ⟨rfl, rfl, rfl⟩ rfl
    · exact hfind.congr ⟨rfl, rfl, rfl⟩ rfl

/-! ## The other operations on one CPU -/

theorem reclaimCpu_respects : Respects q d (reclaimCpu q d c).1 := by
  unfold reclaimCpu
  dsimp only
  split
  · split
    · exact Respects.write ⟨rfl, rfl, rfl⟩ rfl (.of_eq rfl rfl)
    split
    · rename_i hg
      exact Respects.write ⟨rfl, rfl, rfl⟩ rfl (.of_idle rfl hg)
    · exact Respects.write ⟨rfl, rfl, rfl⟩ rfl (.of_eq rfl rfl)
  · exact .refl d

theorem clrFree_respects : Respects q d (d.clrFree c) := .of_info ⟨rfl, rfl, rfl⟩ rfl

theorem noteOccupied_respects : Respects q d (noteOccupied S d c) := by
  unfold noteOccupied
  split
  · exact .of_info ⟨rfl, rfl, rfl⟩ rfl
  · exact .refl d

theorem noteOccupiedOwned_respects : Respects q d (noteOccupiedOwned S d c) := by
  unfold noteOccupiedOwned
  split
  · exact noteOccupied_respects
  · exact .refl d

theorem acquireCpu_respects : Respects q d (acquireCpu S q d c).1 := by
  unfold acquireCpu
  dsimp only
  split
  · exact .refl d
  split
  · split
    · rename_i hg
      exact Respects.write ⟨rfl, rfl, rfl⟩ rfl (.of_idle rfl hg)
    · apply Respects.trans _ noteOccupied_respects
      exact Respects.write ⟨rfl, rfl, rfl⟩ rfl (.of_eq rfl rfl)
  split
  · rename_i hav
    apply Respects.trans _ clrFree_respects
    apply Respects.trans _ noteOccupiedOwned_respects
    exact Respects.write ⟨rfl, rfl, rfl⟩ rfl (.of_idle rfl hav.1)
  split
  · split
    · exact Respects.write ⟨rfl, rfl, rfl⟩ rfl (.of_eq rfl rfl)
    · exact .refl d
  split
  · exact .refl d
  · exact .refl d

theorem borrowCpu_respects : Respects q d (borrowCpu S q d c).1 := by
  unfold borrowCpu
  dsimp only
  split
  · exact .refl d
  split
  · rename_i hav
    split
    · exact Respects.write ⟨rfl, rfl, rfl⟩ rfl (.of_idle rfl hav.1)
    split
    · apply Respects.trans _ noteOccupiedOwned_respects
      exact Respects.write ⟨rfl, rfl, rfl⟩ rfl (.of_idle rfl hav.1)
    · exact .refl d
  · exact .refl d

theorem returnCpu_respects : Respects q d (returnCpu S q d c).1 := by
  unfold returnCpu
  dsimp only
  split
  · exact .refl d
  · rename_i hret
    have hg : (d.nodeInfo c).guest = q := by tauto
    split
    · exact Respects.write ⟨rfl, rfl, rfl⟩ rfl (.of_guest rfl hg)
    · exact Respects.write ⟨rfl, rfl, rfl⟩ rfl (.of_guest rfl hg)

/-! ## Calls -/

theorem petition_respects (request : LewiMaskRequest) : Respects q d (petition d request).1 := by
  unfold petition
  split
  · exact .of_info ⟨rfl, rfl, rfl⟩ rfl
  split
  · exact .of_info ⟨rfl, rfl, rfl⟩ rfl
  · exact .refl d

theorem petitionCpu_respects (r : Shdata × DlbError) : Respects q r.1 (petitionCpu q r c).1 := by
  unfold petitionCpu
  dsimp only
  split
  · split
    · split
      · exact Respects.write ⟨rfl, rfl, rfl⟩ rfl (.of_eq rfl rfl)
      · exact .refl _
    · exact .refl _
  · exact .refl _

theorem removeRequests_respects : Respects q d (removeRequests S d q) := by
  unfold removeRequests
  split
  · refine .of_flags ⟨rfl, rfl, rfl⟩ fun x => ?_
    dsimp only
    split
    · exact .of_eq rfl rfl
    · exact .refl _
  · exact .refl d

theorem respects_kept (d0 : Shdata) : Kept S q (Respects q d0) where
  start _ h := h.congr ⟨rfl, rfl, rfl⟩ rfl
  timestamp _ _ h := h.congr ⟨rfl, rfl, rfl⟩ rfl
  lend _ _ h := h.trans lendCpu_respects
  reclaim _ _ h := h.trans reclaimCpu_respects
  acquire _ _ h := h.trans acquireCpu_respects
  borrow _ _ h := h.trans borrowCpu_respects
  giveBack _ _ h := h.trans returnCpu_respects
  disable _ _ h := h.congr ⟨rfl, rfl, rfl⟩ rfl
  petitions := addPetitions_keeps (fun _ _ h => h.trans (petition_respects _))
    fun r _ h => h.trans (petitionCpu_respects r)
  remove _ h := h.trans removeRequests_respects

theorem call_respects (co : Caller) (call : Call) : Respects q d (exec S co q d call) := by
  have hkept : Kept S q (Respects q d) := respects_kept d
  refine exec_keeps hkept (.refl d) co call fun cpuid _ => ?_
  refine shmemReclaimCpu_keeps hkept.reclaim (fun d' cpuid c h => ?_) (hkept.start d (.refl d)) cpuid
  unfold disableRest
  split
  · exact h.congr ⟨rfl, rfl, rfl⟩ rfl
  · exact h

/-! ## Ownership -/

/-- The entry of an owned CPU after `deregister_cpu`. -/
def deregistered (co : Caller) (pid : Pid) (i : CpuInfo) : CpuInfo where
  owner := 0
  guest := if i.guest = pid then 0 else i.guest
  state := if co.cpuIsPublicPostMortem ∨ !co.respectCpuset then .lent else .disabled
  requests := if co.cpuIsPublicPostMortem ∨ !co.respectCpuset then i.requests else {}

theorem deregisterOwned_info (co : Caller) : (deregisterOwned S co d q c).nodeInfo =
    Function.update d.nodeInfo c (deregistered co q (d.nodeInfo c)) := by
  unfold deregisterOwned deregistered
  by_cases hpublic : co.cpuIsPublicPostMortem ∨ !co.respectCpuset
  · simp only [if_pos hpublic]
    split_ifs <;> rfl
  · simp only [if_neg hpublic]
    rfl

theorem deregisterOwned_flags (co : Caller) : SameFlags d (deregisterOwned S co d q c) := by
  unfold deregisterOwned
  dsimp only
  split_ifs <;> exact ⟨rfl, rfl, rfl⟩

theorem deregisterCpu_respects (co : Caller) : Respects q d (deregisterCpu S co q d c) := by
  unfold deregisterCpu
  dsimp only
  split
  · exact Respects.write (deregisterOwned_flags co) (deregisterOwned_info co) ⟨fun _ hq => if_neg hq, .inr (.inr rfl)⟩
  · have hguest : Respects q d
        (if (d.nodeInfo c).guest = q then (d.set c { d.nodeInfo c with guest := 0 }).setFree c else d) := by
      split
      · rename_i hg
        exact Respects.write ⟨rfl, rfl, rfl⟩ rfl (.of_guest rfl hg)
      · exact .refl d
    split
    · exact hguest.trans (Respects.write ⟨rfl, rfl, rfl⟩ rfl (.of_eq rfl rfl))
    · exact hguest

theorem finalize_respects (co : Caller) : Respects q d (finalize S co d q) := by
  have hrun : Respects q d ((List.range S.size).foldl (deregisterCpu S co q) d) :=
    Respects.foldl (fun _ _ => deregisterCpu_respects co) _ _
  unfold finalize deregisterProcess
  dsimp only
  split
  · exact hrun.congr ⟨rfl, rfl, rfl⟩ rfl
  · exact hrun.congr ⟨rfl, rfl, rfl⟩ rfl

theorem leaveCpu_respects (co : Caller) : Respects q d (leaveCpu S co q d c) := by
  unfold leaveCpu
  split
  · unfold leaveOwned
    split
    · exact lendCpu_respects.trans (Respects.write ⟨rfl, rfl, rfl⟩ rfl ⟨fun _ _ => rfl, .inr (.inr rfl)⟩)
    · apply reclaimCpu_respects.trans
      generalize (reclaimCpu q d c).1 = d1
      have hleave : Respects q d1 ((d1.set c { d1.nodeInfo c with
          guest := if (d1.nodeInfo c).guest = q then 0 else (d1.nodeInfo c).guest, state := .disabled }).clrFree c) :=
        Respects.write ⟨rfl, rfl, rfl⟩ rfl ⟨fun _ hq => if_neg hq, .inl rfl⟩
      exact hleave.trans (Respects.write ⟨rfl, rfl, rfl⟩ rfl ⟨fun _ _ => rfl, .inr (.inr rfl)⟩)
  split
  · exact lendCpu_respects
  · exact .refl d

theorem shmemDeregister_respects (co : Caller) : Respects q d (shmemDeregister S co d q).1 := by
  have hremove : Respects q d (removeRequests S d q) := removeRequests_respects
  exact (hremove.trans (Respects.foldl (fun _ _ => leaveCpu_respects co) (List.range S.size) _)).congr ⟨rfl, rfl, rfl⟩ rfl

theorem stealCpu_info (hasTasks : Bool) : (stealCpu hasTasks q d c).nodeInfo = Function.update d.nodeInfo c
    { d.nodeInfo c with
      owner := q, state := .busy, guest := if (d.nodeInfo c).guest = 0 then q else (d.nodeInfo c).guest } := by
  unfold stealCpu
  by_cases hg : (d.nodeInfo c).guest = 0
  · simp only [if_pos hg]
    split_ifs <;> rfl
  · simp only [if_neg hg]
    split_ifs <;> rfl

theorem stealCpu_flags (hasTasks : Bool) : SameFlags d (stealCpu hasTasks q d c) := by
  unfold stealCpu
  dsimp only
  split_ifs <;> exact ⟨rfl, rfl, rfl⟩

theorem stealCpu_respects (hasTasks : Bool) : Respects q d (stealCpu hasTasks q d c) :=
  Respects.write (stealCpu_flags hasTasks) (stealCpu_info hasTasks) ⟨fun h0 _ => if_neg h0, .inr (.inl rfl)⟩

theorem releaseCpu_respects (hasTasks : Bool) : Respects q d (releaseCpu hasTasks q d c) := by
  unfold releaseCpu
  dsimp only
  split
  · rename_i hg
    have hrelease : Respects q d (d.set c { d.nodeInfo c with owner := 0, state := .disabled, guest := 0 }) :=
      Respects.write ⟨rfl, rfl, rfl⟩ rfl ⟨fun _ hq => absurd hg hq, .inr (.inr rfl)⟩
    split
    · exact hrelease.congr ⟨rfl, rfl, rfl⟩ rfl
    · exact hrelease.congr ⟨rfl, rfl, rfl⟩ rfl
  · exact Respects.write ⟨rfl, rfl, rfl⟩ rfl ⟨fun _ _ => rfl, .inr (.inr rfl)⟩

theorem shmemUpdateOwnership_respects (hasTasks : Bool) (mask : CpuSet) :
    Respects q d (shmemUpdateOwnership S hasTasks d q mask).1 := by
  refine foldl_keeps (P := Respects q d) (fun r c hr => ?_) _ _ (.refl d)
  unfold updateOwnershipCpu
  dsimp only
  split
  · exact hr
  split
  · split
    · exact hr.trans (stealCpu_respects hasTasks)
    · exact hr
  split
  · exact hr.trans (releaseCpu_respects hasTasks)
  split
  · split
    · exact hr.trans returnCpu_respects
    · exact hr
  · exact hr

theorem checkCpuAvailability_respects (before : CpuInfo) : Respects q d (checkCpuAvailability before d q c).1 := by
  unfold checkCpuAvailability
  split
  · exact .refl d
  split
  · exact .refl d
  split
  · split
    · rename_i hg
      exact Respects.write ⟨rfl, rfl, rfl⟩ rfl (.of_idle rfl hg)
    · exact .refl d
  split
  · exact .refl d
  · exact .refl d

theorem shmemRemoveRequests_respects : Respects q d (shmemRemoveRequests S d q) := by
  unfold shmemRemoveRequests
  split
  · refine .of_flags ⟨rfl, rfl, rfl⟩ fun x => ?_
    dsimp only
    split
    · exact .of_eq rfl rfl
    · exact .refl _
  · exact .refl d

/-! ## Init -/

theorem registerCpu_respects : Respects q d (registerCpu S q 0 d c) := by
  have hinfo : (d.nodeInfo c).Respects q { d.nodeInfo c with
      owner := q, state := .busy,
      guest := if (d.nodeInfo c).guest = 0 ∨ (d.nodeInfo c).guest = 0 then q else (d.nodeInfo c).guest } :=
    ⟨fun h0 _ => if_neg (by tauto), .inr (.inl rfl)⟩
  exact Respects.write ⟨rfl, rfl, rfl⟩ rfl hinfo

theorem registerProcess_respects (mask : CpuSet) (steal : Bool) : Respects q d (registerProcess S d q 0 mask steal).1 := by
  unfold registerProcess
  split
  · exact .refl d
  split
  · exact .refl d
  · exact Respects.foldl (fun _ _ => registerCpu_respects) _ _

/-- Memory that is not initialized has no guests. -/
def Shdata.Zeroed (d : Shdata) : Prop := d.initialized = false → ∀ c, (d.nodeInfo c).guest = 0

theorem initShmem_respects (hd : d.Zeroed) (co : Caller) : Respects q d (initShmem S co d) := by
  unfold initShmem
  split
  · exact .refl d
  · rename_i hinit
    have hno : ¬d.initialized = true := hinit
    refine ⟨fun x => ⟨fun h0 _ => absurd (hd (by simpa using hinit) x) h0, .inr (.inr ?_)⟩, fun hi => absurd hi hno,
      fun hi => absurd hi hno, fun hi => absurd hi hno⟩
    dsimp only
    split
    · rfl
    · rfl

theorem init_respects (hd : d.Zeroed) (co : Caller) (mask : CpuSet) : Respects q d (init S co d q 0 mask).1 := by
  have hregister : Respects q d (registerProcess S (initShmem S co d) q 0 mask false).1 :=
    (initShmem_respects hd co).trans (registerProcess_respects mask false)
  unfold init
  dsimp only
  split
  · exact hregister.trans (finalize_respects co)
  · exact hregister

/-! ## Every operation -/

/-- An `init` without preinit pid, or another operation. -/
def Op.NoPreinit : Op → Prop
  | .init preinitPid _ => preinitPid = 0
  | _ => True

theorem exec_respects (hd : d.Zeroed) (co : Caller) {op : Op} (hop : op.NoPreinit) : Respects q d (op.exec S co q d).1 := by
  have hstart : Respects q d { d with tasks := [] } := .of_info ⟨rfl, rfl, rfl⟩ rfl
  have hzeroed : ({ d with tasks := [] } : Shdata).Zeroed := hd
  unfold Op.exec
  generalize { d with tasks := [] } = d0 at hstart hzeroed ⊢
  cases op with
  | init preinitPid mask =>
    obtain rfl : preinitPid = 0 := hop
    exact hstart.trans (init_respects hzeroed co mask)
  | lewiInit async =>
    dsimp only
    split
    · exact hstart.trans ⟨fun _ => .refl _, id, fun _ _ => rfl, fun _ => rfl⟩
    · exact hstart
  | lewi call => exact hstart.trans (call_respects co call)
  | removeRequests => exact hstart.trans shmemRemoveRequests_respects
  | checkCpuAvailability before cpuid => exact hstart.trans (checkCpuAvailability_respects before)
  | updateOwnership hasTasks mask => exact hstart.trans (shmemUpdateOwnership_respects hasTasks mask)
  | deregister => exact hstart.trans (shmemDeregister_respects co)
  | finalize => exact hstart.trans (finalize_respects co)

end Dlb.Cpuinfo

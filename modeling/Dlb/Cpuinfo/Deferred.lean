import Dlb.Cpuinfo.Preempt

/-!
# Deferred returns in asynchronous mode

A reclaim is completed later, by a return on behalf of the process that was told to leave. `Told` is what an operation
leaves: its tasks for other processes name guests that do not own the CPU. Such a task stays true until the process
itself, or a second task for it, makes it stale, so along the runs without these (`Orderly`) every return satisfies the
condition that the code ensures (`returns_ensured`).
-/

namespace Dlb.Cpuinfo

variable {S : System} {p q : Pid} {d d1 d2 : Shdata} {c : ℕ}

/-! ## The tasks of an operation -/

/-- The tasks to disable CPUs of other processes are for guests that do not own the CPU. -/
def Told (q : Pid) (d : Shdata) : Prop :=
  ∀ t ∈ d.tasks, t.action = .disableCpu → t.pid ≠ q → t.pid ≠ 0 ∧ ReturnEnsured t.pid d t.cpuid

theorem ReturnEnsured.respects (h : ReturnEnsured p d c) (hp0 : p ≠ 0) (hpq : p ≠ q) (hr : Respects q d d1) :
    ReturnEnsured p d1 c := by
  obtain ⟨howner, hguest⟩ := h
  refine ⟨?_, ?_⟩
  · rcases (hr.cpu c).owner with ho | ho | ho
    · rwa [ho]
    · rw [ho]
      exact hpq.symm
    · rw [ho]
      exact hp0.symm
  · rw [(hr.cpu c).guest (hguest ▸ hp0) (hguest ▸ hpq), hguest]

theorem Told.step (h : Told q d) (hr : Respects q d d1) (ht : ∀ t ∈ d1.tasks, t.action = .disableCpu → t.pid ≠ q →
    t ∈ d.tasks ∨ (t.pid ≠ 0 ∧ ReturnEnsured t.pid d1 t.cpuid)) : Told q d1 := by
  intro t hmem haction hpid
  rcases ht t hmem haction hpid with hold | hnew
  · obtain ⟨h0, hens⟩ := h t hold haction hpid
    exact ⟨h0, hens.respects h0 hpid hr⟩
  · exact hnew

theorem Told.same (h : Told q d) (hr : Respects q d d1) (ht : d1.tasks = d.tasks) : Told q d1 :=
  h.step hr fun _ hmem _ _ => .inl (ht ▸ hmem)

def OnlyEnables (d d' : Shdata) : Prop := ∀ t ∈ d'.tasks, t ∈ d.tasks ∨ t.action = .enableCpu

theorem OnlyEnables.refl (d : Shdata) : OnlyEnables d d := fun _ ht => .inl ht

theorem OnlyEnables.trans (h1 : OnlyEnables d d1) (h2 : OnlyEnables d1 d2) : OnlyEnables d d2 := by
  intro t ht
  rcases h2 t ht with hold | hnew
  · exact h1 t hold
  · exact .inr hnew

theorem OnlyEnables.of_tasks (ht : d1.tasks = d.tasks) : OnlyEnables d d1 := fun _ hmem => .inl (ht ▸ hmem)

theorem OnlyEnables.push (ht : d1.tasks = d.tasks ++ [⟨.enableCpu, p, c⟩]) : OnlyEnables d d1 := by
  intro t hmem
  rw [ht, List.mem_append, List.mem_singleton] at hmem
  rcases hmem with hold | rfl
  · exact .inl hold
  · exact .inr rfl

theorem Told.enables (h : Told q d) (hr : Respects q d d1) (ht : OnlyEnables d d1) : Told q d1 := by
  refine h.step hr fun t hmem haction _ => ?_
  rcases ht t hmem with hold | hnew
  · exact .inl hold
  · rw [hnew] at haction
    cases haction

/-! `lend_cpu` -/

theorem findNewGuest_tasks : (findNewGuest S d c).1.tasks = d.tasks := by
  unfold findNewGuest
  dsimp only
  split
  · rfl
  split
  · split
    · rfl
    · rfl
  · rfl

theorem assignGuest_enables : OnlyEnables d (assignGuest S d c).1 := by
  unfold assignGuest
  dsimp only
  split
  · exact .of_tasks findNewGuest_tasks
  · exact (OnlyEnables.of_tasks findNewGuest_tasks).trans (.push rfl)

theorem assignRest_enables {cpuid : ℕ} : OnlyEnables d (assignRest S cpuid d c) := by
  unfold assignRest
  split
  · dsimp only
    split
    · exact assignGuest_enables
    · exact assignGuest_enables
  · exact .refl d

theorem findGuests_enables : OnlyEnables d (findGuests S d c) := by
  unfold findGuests
  split
  · dsimp only
    split
    · exact assignGuest_enables
    · exact List.foldlRecOn _ _ assignGuest_enables fun _ hd _ _ => hd.trans assignRest_enables
  · exact .refl d

theorem lendCpu_enables : OnlyEnables d (lendCpu S q d c) := by
  have hlend : (lendOwned d q c).tasks = d.tasks := by
    unfold lendOwned
    dsimp only
    split_ifs <;> rfl
  have hleave : ∀ d, (leave d q c).tasks = d.tasks := by
    intro d
    unfold leave
    dsimp only
    split_ifs <;> rfl
  have hfind : OnlyEnables d (findGuests S (leave (lendOwned d q c) q c) c) :=
    (OnlyEnables.of_tasks ((hleave _).trans hlend)).trans findGuests_enables
  unfold lendCpu
  split
  · exact .refl d
  · dsimp only
    split
    · exact hfind
    · exact hfind

/-! The other operations -/

theorem Told.recall (h : Told q d) (hr : Respects q d d1) (ht : d1.tasks =
    d.tasks ++ [⟨.disableCpu, (d1.nodeInfo c).guest, c⟩] ++ [⟨.enableCpu, q, c⟩])
    (ho : (d1.nodeInfo c).owner = q) (hg : (d1.nodeInfo c).guest ≠ 0) : Told q d1 := by
  refine h.step hr fun t hmem haction hpid => ?_
  rw [ht, List.mem_append, List.mem_append, List.mem_singleton, List.mem_singleton] at hmem
  rcases hmem with (hold | rfl) | rfl
  · exact .inl hold
  · exact .inr ⟨hg, ho ▸ Ne.symm hpid, rfl⟩
  · cases haction

theorem reclaimCpu_told (h : Told q d) : Told q (reclaimCpu q d c).1 := by
  have hr : Respects q d (reclaimCpu q d c).1 := reclaimCpu_respects
  unfold reclaimCpu at hr ⊢
  dsimp only at hr ⊢
  split at hr
  · rename_i ho
    rw [if_pos ho]
    split at hr
    · rename_i hg
      rw [if_pos hg]
      exact h.same hr rfl
    · rename_i hg
      rw [if_neg hg]
      split at hr
      · rename_i hg0
        rw [if_pos hg0]
        exact h.enables hr (.push rfl)
      · rename_i hg0
        rw [if_neg hg0]
        refine h.recall (c := c) hr rfl ?_ ?_
        · simpa [Shdata.recall, Shdata.push, Shdata.set] using ho
        · simpa [Shdata.recall, Shdata.push, Shdata.set] using hg0
  · rename_i ho
    rwa [if_neg ho]

theorem noteOccupied_tasks : (noteOccupied S d c).tasks = d.tasks := by
  unfold noteOccupied
  split
  · rfl
  · rfl

theorem noteOccupiedOwned_tasks : (noteOccupiedOwned S d c).tasks = d.tasks := by
  unfold noteOccupiedOwned
  split
  · exact noteOccupied_tasks
  · rfl

theorem acquireCpu_told (h : Told q d) : Told q (acquireCpu S q d c).1 := by
  unfold acquireCpu
  dsimp only
  split
  · exact h
  split
  · rename_i ho
    split
    · rename_i hg
      exact h.enables (.write ⟨rfl, rfl, rfl⟩ rfl (.of_idle rfl hg)) (.push rfl)
    · rename_i hg
      have hclaim : Told q ((d.set c { d.nodeInfo c with state := .busy }).recall q c) := by
        refine h.recall (c := c) (.write ⟨rfl, rfl, rfl⟩ rfl (.of_eq rfl rfl)) rfl ?_ ?_
        · simpa [Shdata.recall, Shdata.push, Shdata.set] using ho
        · simpa [Shdata.recall, Shdata.push, Shdata.set] using hg
      exact hclaim.same noteOccupied_respects noteOccupied_tasks
  split
  · rename_i hav
    have htake : Told q ((d.set c { d.nodeInfo c with guest := q }).push .enableCpu q c) :=
      h.enables (.write ⟨rfl, rfl, rfl⟩ rfl (.of_idle rfl hav.1)) (.push rfl)
    exact (htake.same noteOccupiedOwned_respects noteOccupiedOwned_tasks).same clrFree_respects rfl
  split
  · split
    · exact h.same (.write ⟨rfl, rfl, rfl⟩ rfl (.of_eq rfl rfl)) rfl
    · exact h
  split
  · exact h
  · exact h

theorem borrowCpu_told (h : Told q d) : Told q (borrowCpu S q d c).1 := by
  unfold borrowCpu
  dsimp only
  split
  · exact h
  split
  · rename_i hav
    split
    · exact h.enables (.write ⟨rfl, rfl, rfl⟩ rfl (.of_idle rfl hav.1)) (.push rfl)
    split
    · have htake : Told q (((d.set c { d.nodeInfo c with guest := q }).push .enableCpu q c).clrFree c) :=
        h.enables (.write ⟨rfl, rfl, rfl⟩ rfl (.of_idle rfl hav.1)) (.push rfl)
      exact htake.same noteOccupiedOwned_respects noteOccupiedOwned_tasks
    · exact h
  · exact h

theorem Told.disable (h : Told q d) (hr : Respects q d d1) (ht : d1.tasks = d.tasks ++ [⟨.disableCpu, q, c⟩]) :
    Told q d1 := by
  refine h.step hr fun t hmem _ hpid => ?_
  rw [ht, List.mem_append, List.mem_singleton] at hmem
  rcases hmem with hold | rfl
  · exact .inl hold
  · exact absurd rfl hpid

theorem returnCpu_told (h : Told q d) : Told q (returnCpu S q d c).1 := by
  have hr : Respects q d (returnCpu S q d c).1 := returnCpu_respects
  unfold returnCpu at hr ⊢
  dsimp only at hr ⊢
  split at hr
  · rename_i hno
    rwa [if_pos hno]
  · rename_i hret
    rw [if_neg hret]
    refine h.disable (c := c) hr ?_
    show (updateOccupiedCores S _ _ c).tasks ++ _ = _
    split
    · rfl
    · rfl

theorem petition_tasks (request : LewiMaskRequest) : (petition d request).1.tasks = d.tasks := by
  unfold petition
  split
  · rfl
  split
  · rfl
  · rfl

theorem petitionCpu_tasks (r : Shdata × DlbError) : (petitionCpu q r c).1.tasks = r.1.tasks := by
  unfold petitionCpu
  dsimp only
  split
  · split
    · split
      · rfl
      · rfl
    · rfl
  · rfl

theorem told_kept : Kept S q (Told q) where
  start _ _ := nofun
  timestamp _ _ h := h
  lend _ _ h := h.enables lendCpu_respects lendCpu_enables
  reclaim _ _ h := reclaimCpu_told h
  acquire _ _ h := acquireCpu_told h
  borrow _ _ h := borrowCpu_told h
  giveBack _ _ h := returnCpu_told h
  disable _ _ h := h.disable (.of_info ⟨rfl, rfl, rfl⟩ rfl) rfl
  petitions := addPetitions_keeps (fun _ request h => h.same (petition_respects request) (petition_tasks request))
    fun r _ h => h.same (petitionCpu_respects r) (petitionCpu_tasks r)
  remove d h := by
    refine h.same removeRequests_respects ?_
    unfold removeRequests
    split
    · rfl
    · rfl

/-! The rest of the core in `shmem_cpuinfo__reclaim_cpu` -/

/-- The deferred returns of the tasks for others satisfy the condition. -/
def Ensured (q : Pid) (d : Shdata) : Prop :=
  ∀ t ∈ d.tasks, t.action = .disableCpu → t.pid ≠ q → ReturnEnsured t.pid d t.cpuid

theorem Told.ensured (h : Told q d) : Ensured q d := fun t ht haction hpid => (h t ht haction hpid).2

/-- The rest of the core is not used by its own owner, unless that is `q`; an idle CPU has an owner. -/
def RestForeign (S : System) (q : Pid) (d : Shdata) (cpuid : ℕ) : Prop :=
  ∀ e ∈ coreMask S cpuid, e ≠ cpuid → (d.nodeInfo e).guest ≠ q → (d.nodeInfo e).owner ≠ (d.nodeInfo e).guest

theorem reclaimCpu_of_ne {x : ℕ} (hx : x ≠ c) : (reclaimCpu q d c).1.nodeInfo x = d.nodeInfo x := by
  unfold reclaimCpu
  dsimp only
  split_ifs
  · exact Function.update_of_ne hx _ _
  · exact Function.update_of_ne hx _ _
  · exact Function.update_of_ne hx _ _
  · rfl

theorem shmemReclaimCpu_ensured (h : Told q d) {cpuid : ℕ} (hrest : d.hwHasSmt = true → RestForeign S q d cpuid) :
    Ensured q (shmemReclaimCpu S d q cpuid).1 := by
  have hreclaim : Ensured q (reclaimCpu q d cpuid).1 := (reclaimCpu_told h).ensured
  have hflags : (reclaimCpu q d cpuid).1.hwHasSmt = d.hwHasSmt := by
    unfold reclaimCpu
    dsimp only
    split_ifs <;> rfl
  unfold shmemReclaimCpu
  dsimp only
  split
  · exact h.ensured
  split
  · rename_i hsmt
    have hforeign : RestForeign S q d cpuid := hrest (hflags ▸ hsmt.2)
    -- the tasks for the rest of the core change nothing else
    refine (List.foldlRecOn (motive := fun r => Ensured q r ∧ r.nodeInfo = (reclaimCpu q d cpuid).1.nodeInfo) _ _
      ⟨hreclaim, rfl⟩ fun d1 hd e he => ?_).1
    obtain ⟨hens, hinfo⟩ := hd
    unfold disableRest
    split
    · rename_i he'
      refine ⟨fun t ht haction hpid => ?_, hinfo⟩
      rw [Shdata.push, List.mem_append, List.mem_singleton] at ht
      rcases ht with hold | rfl
      · exact hens t hold haction hpid
      · refine ⟨?_, rfl⟩
        have hmem : e ∈ coreMask S cpuid := of_decide_eq_true (List.mem_filter.mp he).2
        rw [hinfo, reclaimCpu_of_ne he'.1] at hpid
        show (d1.nodeInfo e).owner ≠ (d1.nodeInfo e).guest
        rw [hinfo, reclaimCpu_of_ne he'.1]
        exact hforeign e hmem he'.1 hpid
    · exact ⟨hens, hinfo⟩
  · exact hreclaim

/-! Ownership -/

theorem leaveCpu_told (h : Told q d) (co : Caller) : Told q (leaveCpu S co q d c) := by
  unfold leaveCpu
  split
  · unfold leaveOwned
    split
    · have hlend : Told q (lendCpu S q d c) := h.enables lendCpu_respects lendCpu_enables
      exact hlend.same (.write ⟨rfl, rfl, rfl⟩ rfl ⟨fun _ _ => rfl, .inr (.inr rfl)⟩) rfl
    · have hreclaim : Told q (reclaimCpu q d c).1 := reclaimCpu_told h
      generalize (reclaimCpu q d c).1 = d1 at hreclaim ⊢
      have hleave : Told q ((d1.set c { d1.nodeInfo c with
          guest := if (d1.nodeInfo c).guest = q then 0 else (d1.nodeInfo c).guest, state := .disabled }).clrFree c) :=
        hreclaim.same (.write ⟨rfl, rfl, rfl⟩ rfl ⟨fun _ hq => if_neg hq, .inl rfl⟩) rfl
      exact hleave.same (.write ⟨rfl, rfl, rfl⟩ rfl ⟨fun _ _ => rfl, .inr (.inr rfl)⟩) rfl
  split
  · exact h.enables lendCpu_respects lendCpu_enables
  · exact h

theorem shmemDeregister_told (h : Told q d) (co : Caller) : Told q (shmemDeregister S co d q).1 := by
  have hremove : Told q (removeRequests S d q) := told_kept.remove d h
  have hrun : Told q ((List.range S.size).foldl (leaveCpu S co q) (removeRequests S d q)) :=
    List.foldlRecOn _ _ hremove fun _ hd _ _ => leaveCpu_told hd co
  exact hrun.same (.of_info ⟨rfl, rfl, rfl⟩ rfl) rfl

/-- The guest of a CPU after its owner has changed to `pid`. -/
def stolenGuest (pid : Pid) (i : CpuInfo) : Pid := if i.guest = 0 then pid else i.guest

theorem stealCpu_tasks (hasTasks : Bool) : (stealCpu hasTasks q d c).tasks = d.tasks ++ if hasTasks then
    (if stolenGuest q (d.nodeInfo c) ≠ q then [⟨.disableCpu, stolenGuest q (d.nodeInfo c), c⟩] else []) ++
      [⟨.enableCpu, q, c⟩] else [] := by
  unfold stealCpu
  cases hasTasks with
  | false =>
    rw [if_neg Bool.false_ne_true, if_neg Bool.false_ne_true, List.append_nil]
    split_ifs <;> rfl
  | true =>
    unfold stolenGuest
    by_cases hg : (d.nodeInfo c).guest = 0
    · simp [hg, Shdata.push, Shdata.set, Shdata.clrFree]
    · by_cases hq : (d.nodeInfo c).guest = q
      · have hq0 : q ≠ 0 := hq ▸ hg
        simp [hq, hq0, Shdata.push, Shdata.set]
      · simp [hg, hq, Shdata.push, Shdata.set]

theorem stealCpu_told (h : Told q d) (hasTasks : Bool) : Told q (stealCpu hasTasks q d c) := by
  refine h.step (stealCpu_respects hasTasks) fun t ht haction hpid => ?_
  rw [stealCpu_tasks, List.mem_append] at ht
  rcases ht with hold | hnew
  · exact .inl hold
  refine .inr ?_
  cases hasTasks with
  | false => cases hnew
  | true =>
    rw [if_pos rfl, List.mem_append, List.mem_singleton] at hnew
    rcases hnew with hnew | rfl
    · split at hnew
      · rename_i hne
        obtain rfl := List.mem_singleton.mp hnew
        unfold ReturnEnsured
        rw [stealCpu_info, Function.update_self]
        refine ⟨?_, Ne.symm hne, rfl⟩
        unfold stolenGuest at hne ⊢
        split
        · rename_i hg
          exact absurd (if_pos hg) hne
        · rename_i hg
          exact hg
      · cases hnew
    · cases haction

theorem releaseCpu_told (h : Told q d) (hasTasks : Bool) : Told q (releaseCpu hasTasks q d c) := by
  have hr : Respects q d (releaseCpu hasTasks q d c) := releaseCpu_respects hasTasks
  unfold releaseCpu at hr ⊢
  dsimp only at hr ⊢
  split at hr
  · rename_i hg
    rw [if_pos hg]
    cases hasTasks with
    | false => exact h.same hr rfl
    | true => exact h.disable (c := c) hr rfl
  · rename_i hg
    rw [if_neg hg]
    exact h.same hr rfl

theorem shmemUpdateOwnership_told (h : Told q d) (hasTasks : Bool) (mask : CpuSet) :
    Told q (shmemUpdateOwnership S hasTasks d q mask).1 := by
  refine foldl_keeps (P := Told q) (fun r c hr => ?_) _ _ h
  unfold updateOwnershipCpu
  dsimp only
  split
  · exact hr
  split
  · split
    · exact stealCpu_told hr hasTasks
    · exact hr
  split
  · exact releaseCpu_told hr hasTasks
  split
  · split
    · exact returnCpu_told hr
    · exact hr
  · exact hr

/-! Operations without tasks -/

theorem deregisterCpu_tasks (co : Caller) : (deregisterCpu S co q d c).tasks = d.tasks := by
  unfold deregisterCpu deregisterOwned
  dsimp only
  split_ifs <;> rfl

theorem finalize_tasks (co : Caller) : (finalize S co d q).tasks = d.tasks := by
  have hrun : ((List.range S.size).foldl (deregisterCpu S co q) d).tasks = d.tasks :=
    List.foldlRecOn (motive := fun r : Shdata => r.tasks = d.tasks) _ _ rfl fun _ hd _ _ => (deregisterCpu_tasks co).trans hd
  unfold finalize deregisterProcess
  dsimp only
  split
  · exact hrun
  · exact hrun

theorem registerProcess_tasks (preinitPid : Pid) (mask : CpuSet) (steal : Bool) :
    (registerProcess S d q preinitPid mask steal).1.tasks = d.tasks := by
  unfold registerProcess
  split
  · rfl
  split
  · rfl
  · exact List.foldlRecOn (motive := fun r : Shdata => r.tasks = d.tasks) _ _ rfl fun _ hd _ _ => hd

theorem init_tasks (co : Caller) (preinitPid : Pid) (mask : CpuSet) (hd : d.tasks = []) :
    (init S co d q preinitPid mask).1.tasks = [] := by
  have hstart : (initShmem S co d).tasks = [] := by
    unfold initShmem
    split
    · exact hd
    · rfl
  unfold init
  dsimp only
  split
  · rw [finalize_tasks, registerProcess_tasks, hstart]
  · rw [registerProcess_tasks, hstart]

/-! Every operation -/

/-- A reclaim of one CPU finds the rest of its core not used by its own owner. -/
def Op.RestForeign (S : System) (q : Pid) (d : Shdata) : Op → Prop
  | .lewi (.reclaimCpu cpuid) => d.hwHasSmt = true → Cpuinfo.RestForeign S q d cpuid
  | _ => True

instance (cpuid : ℕ) : Decidable (RestForeign S q d cpuid) :=
  inferInstanceAs (Decidable (∀ e ∈ coreMask S cpuid, _))

instance (op : Op) : Decidable (op.RestForeign S q d) := by
  unfold Op.RestForeign
  split
  · infer_instance
  · infer_instance

/-- **The tasks of an operation** for other processes satisfy the condition of the deferred return when the operation
ends; those of `shmem_cpuinfo__reclaim_cpu` do if the rest of the core is not used by its own owner. -/
theorem exec_ensured (co : Caller) (op : Op) (hrest : op.RestForeign S q d) : Ensured q (op.exec S co q d).1 := by
  have hstart : Told q { d with tasks := [] } := nofun
  have hnone : ({ d with tasks := [] } : Shdata).tasks = [] := rfl
  have hrest0 : op.RestForeign S q { d with tasks := [] } := hrest
  have hempty : ∀ {d : Shdata}, d.tasks = [] → Ensured q d := fun ht t hmem => absurd hmem (by simp [ht])
  unfold Op.exec
  generalize { d with tasks := [] } = d0 at hstart hnone hrest0 ⊢
  cases op with
  | init preinitPid mask => exact hempty (init_tasks co preinitPid mask hnone)
  | lewiInit async =>
    dsimp only
    split
    · exact hempty hnone
    · exact hempty hnone
  | lewi call =>
    by_cases hcall : ∃ cpuid, call = .reclaimCpu cpuid
    · obtain ⟨cpuid, rfl⟩ := hcall
      have hclear : Told q { d0 with tasks := [] } := nofun
      exact shmemReclaimCpu_ensured hclear hrest0
    · exact (exec_keeps told_kept hstart co call fun cpuid hc => absurd ⟨cpuid, hc⟩ hcall).ensured
  | removeRequests =>
    refine hempty ?_
    show (shmemRemoveRequests S d0 q).tasks = []
    unfold shmemRemoveRequests
    split
    · exact hnone
    · exact hnone
  | checkCpuAvailability before cpuid =>
    refine hempty ?_
    show (checkCpuAvailability before d0 q cpuid).1.tasks = []
    unfold checkCpuAvailability
    split_ifs <;> exact hnone
  | updateOwnership hasTasks mask => exact (shmemUpdateOwnership_told hstart hasTasks mask).ensured
  | deregister => exact (shmemDeregister_told hstart co).ensured
  | finalize => exact hempty ((finalize_tasks co).trans hnone)

/-! ## Runs -/

theorem mem_resolveCpuinfoTasks {tasks : List CpuinfoTask} {g : Pid × CpuSet} (hg : g ∈ resolveCpuinfoTasks q tasks) :
    g.1 ≠ q ∧ ∀ c ∈ g.2, ⟨.disableCpu, g.1, c⟩ ∈ tasks := by
  obtain ⟨pid, hpid, rfl⟩ := List.mem_map.mp (List.mem_filter.mp hg).1
  refine ⟨by simpa using (List.mem_filter.mp hpid).2, fun c hc => ?_⟩
  obtain ⟨t, ht, rfl⟩ := List.mem_map.mp (List.mem_toFinset.mp hc)
  obtain ⟨hmem, hfor⟩ := List.mem_filter.mp ht
  obtain ⟨rfl, haction⟩ := of_decide_eq_true hfor
  rwa [← haction]

theorem mem_pending_tasks {tasks : List CpuinfoTask} {g : Pid × CpuSet} (hg : g ∈ resolveCpuinfoTasks q tasks) :
    ∃ t ∈ tasks, t.pid = g.1 := by
  have hne : g.2 ≠ ∅ := by simpa using (List.mem_filter.mp hg).2
  obtain ⟨c, hc⟩ := Finset.nonempty_iff_ne_empty.mpr hne
  exact ⟨_, (mem_resolveCpuinfoTasks hg).2 c hc, rfl⟩

theorem taskPids_nodup (tasks : List CpuinfoTask) : (taskPids tasks).Nodup := by
  have hdedup : (tasks.map (·.pid)).dedup.Nodup := List.nodup_dedup _
  unfold taskPids
  split
  · exact (List.perm_insertionSort _ _).nodup_iff.mpr hdedup
  · exact hdedup

theorem resolveCpuinfoTasks_apart (tasks : List CpuinfoTask) :
    (resolveCpuinfoTasks q tasks).Pairwise fun g g' => g.1 = g'.1 → Disjoint g.2 g'.2 := by
  refine List.Pairwise.filter _ (List.pairwise_map.mpr ?_)
  exact List.Pairwise.imp (fun hne heq => absurd heq hne) (List.Nodup.filter _ (taskPids_nodup tasks))

theorem returnAsyncs_of_notMem {x : ℕ} (p : Pid) {l : List ℕ} (hx : x ∉ l) (d : Shdata) :
    (l.foldl (returnAsync S p) d).nodeInfo x = d.nodeInfo x := by
  refine List.foldlRecOn (motive := fun r : Shdata => r.nodeInfo x = d.nodeInfo x) l _ rfl fun d1 hd c hc => ?_
  rw [returnAsync_of_ne (show x ≠ c from fun hxc => hx (hxc ▸ hc)), hd]

namespace AsyncNode

variable {n : AsyncNode} {e : Event}

/-- The pending returns, each of one CPU on behalf of one process at most once, satisfy the condition. -/
structure Due (n : AsyncNode) : Prop where
  started : n.Started
  ensured : ∀ g ∈ n.pending, ∀ c ∈ g.2, ReturnEnsured g.1 n.shm c
  apart : n.pending.Pairwise fun g g' => g.1 = g'.1 → Disjoint g.2 g'.2

/-- An operation of a process that does not spoil the pending returns:

* it leaves to the process the CPUs that are to be returned on its own behalf, and does not make it their owner; the
  returns on behalf of `NOBODY`, which a reclaim produces for an idle CPU of the core, concern every process;
* it does not tell a process again to disable a CPU whose return is pending;
* a reclaim with SMT finds the rest of the core not used by its own owner. -/
def Orderly (S : System) (n : AsyncNode) : Event → Prop
  | .op co q op => op.allowed (n.phase q) →
      (∀ g ∈ n.pending, g.1 = q ∨ g.1 = 0 → ∀ c ∈ g.2, ReturnEnsured g.1 (op.exec S co q n.shm).1 c) ∧
      (∀ g ∈ n.pending, ∀ c ∈ g.2, ⟨.disableCpu, g.1, c⟩ ∉ (op.exec S co q n.shm).1.tasks) ∧
      op.RestForeign S q n.shm
  | .resolve _ => True

instance (e : Event) : Decidable (n.Orderly S e) :=
  match e with
  | .op _ q op => inferInstanceAs (Decidable (op.allowed (n.phase q) = true → _))
  | .resolve _ => inferInstanceAs (Decidable True)

theorem Due.next (h : n.Due) (he : e.NoPreinit) (ho : n.Orderly S e) : (n.next S e).Due := by
  have hstarted : (n.next S e).Started := h.started.next he
  cases e with
  | op co q op =>
    unfold AsyncNode.next at hstarted ⊢
    dsimp only at hstarted ⊢
    split
    · rename_i hallowed
      rw [if_pos hallowed] at hstarted
      obtain ⟨hown, hagain, hrest⟩ := ho hallowed
      have hrespects : Respects q n.shm (op.exec S co q n.shm).1 := exec_respects h.started.zeroed co he
      have hnew : Ensured q (op.exec S co q n.shm).1 := exec_ensured co op hrest
      refine ⟨hstarted, fun g hg c hc => ?_, ?_⟩
      · rcases List.mem_append.mp hg with hg | hg
        · by_cases hq : g.1 = q ∨ g.1 = 0
          · exact hown g hg hq c hc
          · rw [not_or] at hq
            exact (h.ensured g hg c hc).respects hq.2 hq.1 hrespects
        · split at hg
          · obtain ⟨hpid, htask⟩ := mem_resolveCpuinfoTasks hg
            exact hnew _ (htask c hc) rfl hpid
          · cases hg
      · refine List.pairwise_append.mpr ⟨h.apart, ?_, fun g hg g' hg' heq => ?_⟩
        · split
          · exact resolveCpuinfoTasks_apart _
          · exact .nil
        · split at hg'
          · obtain ⟨-, htask⟩ := mem_resolveCpuinfoTasks hg'
            refine Finset.disjoint_left.mpr fun c hc hc' => hagain g hg c hc ?_
            rw [heq]
            exact htask c hc'
          · cases hg'
    · exact h
  | resolve i =>
    unfold AsyncNode.next at hstarted ⊢
    dsimp only at hstarted ⊢
    cases hgroup : n.pending[i]? with
    | none => exact h
    | some group =>
      rw [hgroup] at hstarted
      refine ⟨hstarted, fun g hg c hc => ?_, h.apart.sublist (List.eraseIdx_sublist _ _)⟩
      obtain ⟨j, hji, hj⟩ := List.mem_eraseIdx_iff_getElem?.mp hg
      have hens := h.ensured g (List.mem_of_getElem? hj) c hc
      -- two returns of one CPU would be on behalf of one process
      have hc' : c ∉ nodeCpus S group.2 := by
        intro hmem
        have hgr := h.ensured group (List.mem_of_getElem? hgroup) c (mem_nodeCpus.mp hmem).2
        have hpid : g.1 = group.1 := hens.2.symm.trans hgr.2
        have hdisj : Disjoint g.2 group.2 := by
          obtain ⟨hi, hgi⟩ := List.getElem?_eq_some_iff.mp hgroup
          obtain ⟨hj, hgj⟩ := List.getElem?_eq_some_iff.mp hj
          have hpair := List.pairwise_iff_getElem.mp h.apart
          rcases Nat.lt_or_gt_of_ne hji with hlt | hlt
          · exact hgi ▸ hgj ▸ hpair j i hj hi hlt (by rw [hgi, hgj, hpid])
          · exact (hgi ▸ hgj ▸ hpair i j hi hj hlt (by rw [hgi, hgj, hpid])).symm
        exact Finset.disjoint_left.mp hdisj hc (mem_nodeCpus.mp hmem).2
      unfold ReturnEnsured returnAsyncCpuMask
      rw [returnAsyncs_of_notMem _ hc']
      exact hens

theorem Due.returns (h : n.Due) (e : Event) : n.Returns S ReturnEnsured e := by
  cases e with
  | op co q op => trivial
  | resolve i =>
    intro group hgroup
    refine (Lib.Along.iff_forall (fun d c c' hne => ?_) n.shm _ (nodeCpus_nodup group.2)).mpr fun c hc => ?_
    · unfold ReturnEnsured
      rw [returnAsync_of_ne hne]
    · exact h.ensured group (List.mem_of_getElem? hgroup) c (mem_nodeCpus.mp hc).2

end AsyncNode

/-- **Deferred returns**: along every run whose operations are orderly, every return in asynchronous mode finds its CPU
guested by the process that was told to disable it, which is not the owner. -/
theorem returns_ensured (S : System) (events : List Event) (hevents : ∀ e ∈ events, e.NoPreinit)
    (horderly : Lib.Along (AsyncNode.next S) (AsyncNode.Orderly S) {} events) :
    Lib.Along (AsyncNode.next S) (fun n => n.Returns S ReturnEnsured) {} events := by
  have hstart : AsyncNode.Due {} := ⟨.inr ⟨fun _ _ => rfl, fun _ => rfl, rfl⟩, nofun, .nil⟩
  exact (Lib.Along.invariant (R := Event.NoPreinit) (fun _ _ hn he ho => AsyncNode.Due.next hn he ho)
    (fun _ e hn _ _ => AsyncNode.Due.returns hn e) {} events hstart hevents horderly).1

/-- The return of CPU `0` alone, before `2` does anything else. -/
theorem returns_ensured_inTime : Lib.Along (AsyncNode.next oneCore) (fun n => n.Returns oneCore ReturnEnsured) {}
    (lateReturn.take 10 ++ [.resolve 0]) :=
  returns_ensured oneCore _ (by simp [lateReturn, Event.NoPreinit, Op.NoPreinit]) (by decide)

/-- The return of CPU `1` on behalf of `2` finds `3`. -/
theorem return_not_ensured :
    let n := lateReturn.foldl (AsyncNode.next oneCore) {}
    n.pending = [(2, {0, 1})] ∧ (n.shm.nodeInfo 1).guest = 3 ∧
      ((n.next oneCore (.resolve 0)).shm.nodeInfo 1).guest = 0 ∧
      ¬Lib.Along (AsyncNode.next oneCore) (fun n => n.Returns oneCore ReturnEnsured) {} (lateReturn ++ [.resolve 0]) := by
  intro n
  have hpending : n.pending = [(2, {0, 1})] := by decide
  refine ⟨hpending, by decide, by decide, fun hrun => ?_⟩
  rw [Lib.Along.append] at hrun
  have hreturns := hrun.2.1 (2, {0, 1}) (by rw [hpending]; rfl)
  revert hreturns
  decide

end Dlb.Cpuinfo

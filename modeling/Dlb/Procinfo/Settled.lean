import Dlb.Procinfo.Entries

/-!
# Processes without pending changes

The pending mask of a process means something while the process is dirty. For one that is not, it is the current mask:
every write of one mask alone sets the dirty flag, and every write that clears the flag makes the two masks equal.
This holds in every state that the library reaches, whatever the calls (`reachable_settled`).
-/

namespace Dlb.Procinfo

variable {S : System} {d d' : Shdata} {info owner : Pinfo} {p : ℕ}

/-- A process that is not dirty has its pending mask. -/
def Pinfo.Settled (info : Pinfo) : Prop := info.dirty = false → info.currentProcessMask = info.futureProcessMask

/-- Every process that is not dirty has its pending mask. -/
def AllSettled (d : Shdata) : Prop := ∀ p, (d.processInfo p).Settled

theorem settled_of_dirty (h : info.dirty = true) : info.Settled := fun hclean => by
  rw [h] at hclean
  cases hclean

theorem AllSettled.set (h : AllSettled d) (hinfo : info.Settled) : AllSettled (d.set p info) := by
  intro i
  by_cases hi : i = p
  · subst hi
    simpa using hinfo
  · rw [set_other_slot d info hi]
    exact h i

theorem AllSettled.modify {f : Pinfo → Pinfo} (h : AllSettled d) (hf : (d.processInfo p).Settled → (f (d.processInfo p)).Settled) :
    AllSettled (d.modify p f) := h.set (hf (h p))

theorem AllSettled.foldl {α : Type*} {f : Shdata → α → Shdata} (hf : ∀ d a, AllSettled d → AllSettled (f d a)) (h : AllSettled d)
    (xs : List α) : AllSettled (xs.foldl f d) := by
  induction xs generalizing d with
  | nil => exact h
  | cons x xs ih => exact ih (hf d x h)

/-! ## Moving CPUs -/

theorem registerMask_settled (h : AllSettled d) (mask : CpuSet) : AllSettled (registerMask S d owner mask).1 := fun p => by
  rw [registerMask_table]
  exact h p

theorem registerMask_owner (ho : owner.Settled) (d : Shdata) (mask : CpuSet) :
    (registerMask S d owner mask).2.1.Settled := by
  unfold registerMask
  repeat' split
  · exact ho
  · exact ho
  · exact settled_of_dirty rfl
  · exact ho

theorem unregisterMask_settled (h : AllSettled d) (p : ℕ) (mask : CpuSet) (returnStolen : Bool) :
    AllSettled (unregisterMask S d p mask returnStolen) := by
  unfold unregisterMask
  repeat' split
  · exact h
  · exact h
  · refine AllSettled.foldl (fun d cpu hd => ?_) h _
    have hback : AllSettled (giveBack d cpu) := by
      unfold giveBack
      split
      · exact hd.set (settled_of_dirty rfl)
      · exact hd
    exact hback.modify fun _ => settled_of_dirty rfl
  · have hfree : AllSettled { d with freeMask := d.freeMask ∪ mask } := h
    exact hfree.modify fun _ => settled_of_dirty rfl

theorem stealLoop_settled (newOwner : ℕ) (mask : CpuSet) (dryRun : Bool) (ps : List ℕ) (h : AllSettled d) (left : CpuSet) :
    AllSettled (stealLoop S newOwner mask dryRun ps d left).1 := by
  induction ps generalizing d left with
  | nil => exact h
  | cons p ps ih =>
    have hfrom : ∀ target, AllSettled (stealFrom S dryRun d p target) := by
      intro target
      unfold stealFrom
      split
      · exact h
      · exact h.set (settled_of_dirty rfl)
    unfold stealLoop
    dsimp only
    split
    · split
      · exact h
      · split
        · exact hfrom _
        · exact ih (hfrom _) _
    · exact ih h left

theorem stealMask_settled (h : AllSettled d) (newOwner : ℕ) (mask : CpuSet) (dryRun : Bool) :
    AllSettled (stealMask S d newOwner mask dryRun).1 := by
  have hloop := stealLoop_settled (S := S) newOwner mask dryRun (List.range d.numProcesses) h mask
  unfold stealMask
  split
  · exact h
  dsimp only
  repeat' split
  · exact hloop
  · exact hloop.set (settled_of_dirty rfl)
  · refine AllSettled.foldl (fun d p hd => ?_) hloop _
    unfold rollBack
    dsimp only
    split
    · refine hd.set fun hclean => ?_
      simpa using hclean
    · exact hd

theorem setNewMask_settled (h : AllSettled d) (p : ℕ) (mask : CpuSet) (returnStolen : Bool) :
    AllSettled (setNewMask S d p mask returnStolen).1 := by
  unfold setNewMask
  split
  · exact h
  dsimp only
  have hdry := stealMask_settled (S := S) h p (cpusToSteal S d (d.processInfo p) mask) true
  have hsteal := stealMask_settled (S := S) hdry p (cpusToSteal S d (d.processInfo p) mask) false
  generalize stealMask S d p (cpusToSteal S d (d.processInfo p) mask) true = dry at hdry hsteal ⊢
  generalize stealMask S dry.1 p (cpusToSteal S d (d.processInfo p) mask) false = stolen at hsteal ⊢
  split
  · exact hdry
  split
  · exact hsteal
  have hregister : AllSettled ((registerMask S stolen.1 (stolen.1.processInfo p) (cpusToAcquire S d mask)).1.set p
      (registerMask S stolen.1 (stolen.1.processInfo p) (cpusToAcquire S d mask)).2.1) := by
    refine (registerMask_settled hsteal _).set ?_
    exact registerMask_owner (hsteal p) _ _
  split
  · exact hregister
  · exact unregisterMask_settled hregister p _ returnStolen

/-! ## Calls -/

theorem resolve_settled (info : Pinfo) : (resolve info).Settled := fun _ => rfl

theorem openShmem_table {c : Caller} {sharing : Bool} (h : openShmem S c d sharing = .ok d') :
    d'.processInfo = d.processInfo := by
  unfold openShmem at h
  repeat' split at h
  all_goals cases h
  all_goals rfl

theorem AllSettled.of_table (h : AllSettled d) (ht : d'.processInfo = d.processInfo) : AllSettled d' := fun p => by
  rw [ht]
  exact h p

theorem AllSettled.grow (h : AllSettled d) (grows : Bool) : AllSettled (d.grow grows) := by
  unfold Shdata.grow
  split
  · exact h
  · exact h

theorem newProcess_settled (h : AllSettled d) (pid : Pid) (mask : CpuSet) (p : ℕ) :
    AllSettled (newProcess S d pid mask p).1 := by
  have hregister : AllSettled (registerMask S d { pid := pid } mask).1 := registerMask_settled h mask
  have howner : (registerMask S d { pid := pid } mask).2.1.Settled := registerMask_owner (fun _ => rfl) d mask
  unfold newProcess
  dsimp only
  split
  · exact hregister.set fun _ => rfl
  · exact hregister.set howner

theorem inheritProcess_settled (h : AllSettled d) (pid : Pid) (mask : CpuSet) (q : ℕ) (spot : Option ℕ) :
    AllSettled (inheritProcess S d pid mask q spot).1 := by
  have hregister : AllSettled (registerMask S d {} (muSubtract S ∅ mask (d.processInfo q).effective)).1 :=
    registerMask_settled h _
  unfold inheritProcess
  dsimp only
  repeat' split
  all_goals try exact h
  all_goals try exact hregister
  · exact h.set (h q)
  · exact hregister.set fun _ => rfl
  · dsimp only
    apply AllSettled.modify
    · exact h.set fun _ => by rfl
    · intro hq hclean
      simp only [hq hclean]
  · dsimp only
    apply AllSettled.modify
    · exact hregister.set fun _ => by rfl
    · intro hq hclean
      simp only [hq hclean]

theorem init_settled (h : AllSettled d) (c : Caller) (pid preinitPid : Pid) (mask : CpuSet) (sharing : Bool) :
    AllSettled (init S c d pid preinitPid mask sharing).1 := by
  unfold init
  split
  · exact h
  rename_i d1 hopen
  have h1 : AllSettled d1 := h.of_table (openShmem_table hopen)
  split
  · exact h1
  dsimp only
  split
  · split
    · exact h1
    · exact (newProcess_settled h1 pid mask _).grow _
  · exact (inheritProcess_settled h1 pid mask _ _).grow _

theorem preinit_settled (h : AllSettled d) (c : Caller) (pid : Pid) (mask : CpuSet) (flags : DromFlags) :
    AllSettled (preinit S c d pid mask flags).1 := by
  unfold preinit
  split
  · exact h
  rename_i p _
  split
  · exact h
  have hslot : AllSettled (d.set p { pid := pid, preregistered := true }) := h.set fun _ => rfl
  have htake : AllSettled (takeMask S (d.set p { pid := pid, preregistered := true }) p mask flags).1 := by
    unfold takeMask
    split
    · exact setNewMask_settled hslot p mask _
    · exact (registerMask_settled hslot mask).set (registerMask_owner (hslot p) _ mask)
  dsimp only [preregister]
  split
  · dsimp only
    apply htake.modify
    exact id
  · apply AllSettled.grow
    apply htake.modify
    exact fun _ _ => rfl

theorem recoverStolenCpus_settled (h : AllSettled d) (c : Caller) (pid : Pid) (parents : List Pid) :
    AllSettled (recoverStolenCpus S c d pid parents).1 := by
  unfold recoverStolenCpus
  split
  · exact h
  rename_i p _
  dsimp only
  split
  · exact h
  have hregister : ∀ mask, AllSettled (registerMask S d (d.processInfo p) mask).1 := fun mask => registerMask_settled h mask
  have howner : ∀ mask, (registerMask S d (d.processInfo p) mask).2.1.Settled := fun mask =>
    registerMask_owner (h p) d mask
  split
  · exact (hregister _).set (howner _)
  · exact (hregister _).set (howner _)

theorem getprocessmask_settled (h : AllSettled d) (c : Caller) (pid : Pid) (parents : List Pid) :
    AllSettled (getprocessmask c d pid parents).1 := by
  unfold getprocessmask getprocessmaskSelf
  dsimp only
  repeat' split
  all_goals try exact h
  exact h.set (resolve_settled _)

theorem setprocessmask_settled (h : AllSettled d) (c : Caller) (pid : Pid) (parents : List Pid) (mask : CpuSet)
    (flags : DromFlags) : AllSettled (setprocessmask S c d pid parents mask flags).1 := by
  have hself : ∀ p, AllSettled (setprocessmaskSelf S d p mask flags).1 := by
    intro p
    have hown : AllSettled (setOwnMask S d p mask flags.returnStolen).1 := by
      unfold setOwnMask
      split
      · exact setNewMask_settled h p mask _
      · exact h
    unfold setprocessmaskSelf
    dsimp only
    split
    · exact hown.modify fun _ => resolve_settled _
    · exact hown
  unfold setprocessmask
  repeat' split
  · exact hself _
  all_goals try exact h
  exact setNewMask_settled h _ mask _

theorem polldrom_settled (h : AllSettled d) (c : Caller) (pid : Pid) (parents : List Pid) :
    AllSettled (polldrom c d pid parents).1 := by
  unfold polldrom
  dsimp only
  repeat' split
  all_goals try exact h
  exact h.set (resolve_settled _)

theorem exec_settled (h : AllSettled d) (c : Caller) (call : Call) : AllSettled (exec S c d call).1 := by
  cases call with
  | init pid preinitPid mask sharing => exact init_settled h c pid preinitPid mask sharing
  | extInit =>
    refine h.of_table ?_
    simp only [exec, extInit]
    split <;> rfl
  | preinit pid mask flags => exact attached h fun _ => preinit_settled h c pid mask flags
  | finalize pid parents returnStolen =>
    refine attached h fun _ => ?_
    unfold finalize
    split
    · exact h
    · exact (unregisterMask_settled h _ _ _).set fun _ => rfl
  | recoverStolenCpus pid parents => exact attached h fun _ => recoverStolenCpus_settled h c pid parents
  | getprocessmask pid parents => exact attached h fun _ => getprocessmask_settled h c pid parents
  | setprocessmask pid parents mask flags => exact attached h fun _ => setprocessmask_settled h c pid parents mask flags
  | polldrom pid parents => exact attached h fun _ => polldrom_settled h c pid parents
  | closeShmem =>
    refine attached h fun _ => ?_
    unfold closeShmem
    split
    · exact fun _ _ => rfl
    · exact h

theorem reachable_settled {adm : Caller → Shdata → Call → Prop} (h : Reachable S adm d) : AllSettled d := by
  refine Lib.Run.invariant h (fun _ _ => rfl) ?_
  rintro d d' hd ⟨c, call, -⟩
  exact exec_settled hd c call

end Dlb.Procinfo

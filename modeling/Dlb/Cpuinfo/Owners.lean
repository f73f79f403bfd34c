import Dlb.Cpuinfo.Departed

/-!
# Who owns which CPU in cpuinfo

What the operations that change owners leave, CPU by CPU: a registration and a new process mask give the CPUs of a mask
to a process (`registerProcess_owner`, `shmemUpdateOwnership_owner`), a process that finalizes or deregisters gives up
what it owns (`finalize_owner`, `shmemDeregister_owner_eq`).
-/

namespace Dlb.Cpuinfo

open Function

variable {S : System} {co : Caller} {d d1 : Shdata} {pid preinitPid : Pid} {mask : CpuSet} {steal hasTasks : Bool} {x : ℕ}

/-! ## Loops over CPUs -/

theorem foldl_owner {f : Shdata → ℕ → Shdata} {g : ℕ → Pid → Pid}
    (hf : ∀ d c x, ((f d c).nodeInfo x).owner = if x = c then g c (d.nodeInfo c).owner else (d.nodeInfo x).owner)
    {l : List ℕ} (hnodup : l.Nodup) (d : Shdata) (x : ℕ) :
    ((l.foldl f d).nodeInfo x).owner = if x ∈ l then g x (d.nodeInfo x).owner else (d.nodeInfo x).owner := by
  induction l generalizing d with
  | nil => simp
  | cons c l ih =>
    obtain ⟨hnot, hrest⟩ := List.nodup_cons.mp hnodup
    rw [List.foldl_cons, ih hrest, hf]
    by_cases hx : x = c
    · subst hx
      rw [if_neg hnot, if_pos rfl, if_pos List.mem_cons_self]
    · rw [if_neg hx]
      have hiff : x ∈ c :: l ↔ x ∈ l := by simp [hx]
      simp only [hiff]

theorem foldl_owner_alive {f : Shdata × Bool → ℕ → Shdata × Bool} {g : ℕ → Pid → Pid}
    (hdead : ∀ d c, f (d, true) c = (d, true))
    (hf : ∀ d c x, (f (d, false) c).2 = false →
      ((f (d, false) c).1.nodeInfo x).owner = if x = c then g c (d.nodeInfo c).owner else (d.nodeInfo x).owner)
    {l : List ℕ} (hnodup : l.Nodup) (d : Shdata) (halive : (l.foldl f (d, false)).2 = false) (x : ℕ) :
    ((l.foldl f (d, false)).1.nodeInfo x).owner = if x ∈ l then g x (d.nodeInfo x).owner else (d.nodeInfo x).owner := by
  induction l generalizing d with
  | nil => simp
  | cons c l ih =>
    obtain ⟨hnot, hrest⟩ := List.nodup_cons.mp hnodup
    have hstay : ∀ (l : List ℕ) d, l.foldl f (d, true) = (d, true) := by
      intro l
      induction l with
      | nil => exact fun _ => rfl
      | cons c l ih => exact fun d => by rw [List.foldl_cons, hdead, ih]
    rw [List.foldl_cons] at halive ⊢
    have hstep := hf d c
    generalize f (d, false) c = r at halive hstep ⊢
    obtain ⟨d1, dead⟩ := r
    cases dead with
    | true =>
      rw [hstay] at halive
      cases halive
    | false =>
      rw [ih hrest d1 halive, hstep _ rfl]
      by_cases hx : x = c
      · subst hx
        rw [if_neg hnot, if_pos rfl, if_pos List.mem_cons_self]
      · rw [if_neg hx]
        have hiff : x ∈ c :: l ↔ x ∈ l := by simp [hx]
        simp only [hiff]

/-! ## Registering -/

/-- The CPUs of the mask that are in the node have no other owner, the preregistered process apart. -/
def Registrable (S : System) (d : Shdata) (pid preinitPid : Pid) (mask : CpuSet) : Prop :=
  ∀ c ∈ mask, c < S.size → (d.nodeInfo c).owner = 0 ∨ (d.nodeInfo c).owner = pid ∨ (d.nodeInfo c).owner = preinitPid

theorem registerProcess_success_iff :
    (registerProcess S d pid preinitPid mask false).2 = .success ↔ Registrable S d pid preinitPid mask := by
  unfold registerProcess
  split
  · rename_i hempty
    subst hempty
    exact iff_of_true rfl fun c hc => absurd hc (Finset.notMem_empty c)
  · split
    · rename_i htaken
      obtain ⟨-, c, hc, h0, hpid, hpre⟩ := htaken
      obtain ⟨hlt, hmem⟩ := mem_nodeCpus.mp hc
      refine iff_of_false (by simp) fun h => ?_
      rcases h c hmem hlt with h | h | h
      · exact h0 h
      · exact hpid h
      · exact hpre h
    · rename_i htaken
      refine iff_of_true rfl fun c hc hlt => ?_
      by_contra hnot
      obtain ⟨h0, hnot⟩ := not_or.mp hnot
      obtain ⟨hpid, hpre⟩ := not_or.mp hnot
      exact htaken ⟨rfl, c, mem_nodeCpus.mpr ⟨hlt, hc⟩, h0, hpid, hpre⟩

theorem registerProcess_owner (h : (registerProcess S d pid preinitPid mask steal).2 = .success) (x : ℕ) :
    ((registerProcess S d pid preinitPid mask steal).1.nodeInfo x).owner =
      if x < S.size ∧ x ∈ mask then pid else (d.nodeInfo x).owner := by
  unfold registerProcess at h ⊢
  split
  · rename_i hempty
    subst hempty
    simp
  · rename_i hempty
    rw [if_neg hempty] at h
    split
    · rename_i htaken
      rw [if_pos htaken] at h
      cases h
    · have hstep : ∀ d c x, ((registerCpu S pid preinitPid d c).nodeInfo x).owner =
          if x = c then pid else (d.nodeInfo x).owner := by
        intro d c x
        rw [registerCpu_info]
        by_cases hx : x = c
        · rw [hx, update_self, if_pos rfl]
          rfl
        · rw [update_of_ne hx, if_neg hx]
      have := foldl_owner (g := fun _ _ => pid) hstep (nodeCpus_nodup (S := S) mask) d x
      simpa only [mem_nodeCpus] using this

/-! ## Leaving -/

theorem finalize_owner (d : Shdata) (pid : Pid) (x : ℕ) : ((finalize S co d pid).nodeInfo x).owner =
    if x < S.size ∧ (d.nodeInfo x).owner = pid then 0 else (d.nodeInfo x).owner := by
  have hglobal : (finalize S co d pid).nodeInfo = ((List.range S.size).foldl (deregisterCpu S co pid) d).nodeInfo := by
    unfold finalize deregisterProcess
    dsimp only
    split
    · rfl
    · rfl
  rw [hglobal, deregisterCpus_info]
  dsimp only
  by_cases hx : x < S.size
  · rw [if_pos hx]
    unfold withoutProcess
    by_cases ho : (d.nodeInfo x).owner = pid
    · rw [if_pos ho, if_pos ⟨hx, ho⟩]
      rfl
    · have hno : ¬(x < S.size ∧ (d.nodeInfo x).owner = pid) := fun h => ho h.2
      rw [if_neg ho, if_neg hno]
  · have hno : ¬(x < S.size ∧ (d.nodeInfo x).owner = pid) := fun h => hx h.1
    rw [if_neg hx, if_neg hno]

theorem shmemDeregister_owner_eq (d : Shdata) (pid : Pid) (x : ℕ) : ((shmemDeregister S co d pid).1.nodeInfo x).owner =
    if x < S.size ∧ (d.nodeInfo x).owner = pid then 0 else (d.nodeInfo x).owner := by
  have hsame : ((removeRequests S d pid).nodeInfo x).owner = (d.nodeInfo x).owner := (removeRequests_only.same x).owner
  show ((leftBelow S co pid (removeRequests S d pid) S.size).nodeInfo x).owner = _
  rw [leftBelow_owner]
  have hiff : Gone pid (removeRequests S d pid) S.size x ↔ x < S.size ∧ (d.nodeInfo x).owner = pid := by
    unfold Gone
    rw [hsame]
  simp only [hiff, hsame]

/-! ## Init -/

def Unowned (d : Shdata) : Prop := d.initialized = false → ∀ x, (d.nodeInfo x).owner = 0

theorem initShmem_owner (h : Unowned d) (x : ℕ) : ((initShmem S co d).nodeInfo x).owner = (d.nodeInfo x).owner := by
  unfold initShmem
  split
  · rfl
  · rename_i hinit
    rw [h (by simpa using hinit) x]
    dsimp only
    split
    · rfl
    · rfl

theorem init_success_iff (h : Unowned d) :
    (init S co d pid preinitPid mask).2 = .success ↔ Registrable S d pid preinitPid mask := by
  have hiff : (registerProcess S (initShmem S co d) pid preinitPid mask false).2 = .success ↔
      Registrable S d pid preinitPid mask := by
    rw [registerProcess_success_iff]
    unfold Registrable
    simp only [initShmem_owner h]
  unfold init
  dsimp only
  split
  · rename_i hfail
    exact iff_of_false hfail fun ha => hfail (hiff.mpr ha)
  · exact hiff

theorem init_owner (h : Unowned d) (hok : (init S co d pid preinitPid mask).2 = .success) (x : ℕ) :
    ((init S co d pid preinitPid mask).1.nodeInfo x).owner = if x < S.size ∧ x ∈ mask then pid else (d.nodeInfo x).owner := by
  unfold init at hok ⊢
  dsimp only at hok ⊢
  split at hok
  · rename_i hfail
    exact absurd hok hfail
  · rename_i hreg
    rw [if_neg hreg, registerProcess_owner hok, initShmem_owner h]

theorem extPreinit_success_iff (h : Unowned d) :
    (extPreinit S co d pid mask false).2 = .success ↔ Registrable S d pid 0 mask := by
  unfold extPreinit
  rw [registerProcess_success_iff]
  unfold Registrable
  simp only [initShmem_owner h]

theorem extPreinit_steals : (extPreinit S co d pid mask true).2 = .success := by
  unfold extPreinit registerProcess
  split
  · rfl
  · rw [if_neg (by simp)]

theorem extPreinit_owner (h : Unowned d) (hok : (extPreinit S co d pid mask steal).2 = .success) (x : ℕ) :
    ((extPreinit S co d pid mask steal).1.nodeInfo x).owner = if x < S.size ∧ x ∈ mask then pid else (d.nodeInfo x).owner := by
  unfold extPreinit at hok ⊢
  rw [registerProcess_owner hok, initShmem_owner h]

theorem init_opens : (init S co d pid preinitPid mask).1.initialized = true :=
  (init_asks (q := pid) preinitPid mask).flags.initialized.trans initShmem_initialized

theorem extPreinit_opens : (extPreinit S co d pid mask steal).1.initialized = true :=
  (registerProcess_asks (q := pid) 0 mask steal).flags.initialized.trans initShmem_initialized

/-! ## A new process mask -/

theorem returnCpu_owner (d : Shdata) (pid : Pid) (c x : ℕ) :
    ((returnCpu S pid d c).1.nodeInfo x).owner = (d.nodeInfo x).owner := by
  have hset : ∀ i : CpuInfo, i.owner = (d.nodeInfo c).owner →
      (update d.nodeInfo c i x).owner = (d.nodeInfo x).owner := by
    intro i hi
    by_cases hx : x = c
    · rw [hx, update_self, hi]
    · rw [update_of_ne hx]
  unfold returnCpu
  dsimp only
  split
  · rfl
  · split
    · exact hset _ rfl
    · exact hset _ rfl

theorem releaseCpu_info {c : ℕ} (hasTasks : Bool) : (releaseCpu hasTasks pid d c).nodeInfo = update d.nodeInfo c
    { d.nodeInfo c with
      owner := 0
      state := .disabled
      guest := if (d.nodeInfo c).guest = pid then 0 else (d.nodeInfo c).guest } := by
  unfold releaseCpu
  by_cases hg : (d.nodeInfo c).guest = pid
  · simp only [if_pos hg]
    split
    · rfl
    · rfl
  · simp only [if_neg hg]
    rfl

theorem shmemUpdateOwnership_owner (halive : (shmemUpdateOwnership S hasTasks d pid mask).2 = false) (x : ℕ) :
    ((shmemUpdateOwnership S hasTasks d pid mask).1.nodeInfo x).owner =
      if x < S.size then if x ∈ mask then pid else if (d.nodeInfo x).owner = pid then 0 else (d.nodeInfo x).owner
      else (d.nodeInfo x).owner := by
  unfold shmemUpdateOwnership at halive ⊢
  have := foldl_owner_alive (f := updateOwnershipCpu S hasTasks pid mask)
    (g := fun c o => if c ∈ mask then pid else if o = pid then 0 else o) (fun d c => rfl) ?_ List.nodup_range d halive x
  · simpa only [List.mem_range] using this
  intro d c x hstep
  have hwrite : ∀ {d1 : Shdata} {i : CpuInfo}, d1.nodeInfo = update d.nodeInfo c i →
      (d1.nodeInfo x).owner = if x = c then i.owner else (d.nodeInfo x).owner := by
    intro d1 i hi
    rw [hi]
    by_cases hx : x = c
    · rw [hx, update_self, if_pos rfl]
    · rw [update_of_ne hx, if_neg hx]
  have hkeep : ∀ o, (d.nodeInfo c).owner = o → (d.nodeInfo x).owner = if x = c then o else (d.nodeInfo x).owner := by
    intro o ho
    by_cases hx : x = c
    · rw [if_pos hx, hx, ho]
    · rw [if_neg hx]
  unfold updateOwnershipCpu at hstep ⊢
  rw [if_neg Bool.false_ne_true] at hstep ⊢
  by_cases hm : c ∈ mask
  · simp only [if_pos hm]
    split
    · exact hwrite (stealCpu_info hasTasks)
    · rename_i ho
      exact hkeep pid (not_not.mp ho)
  · simp only [if_neg hm] at hstep ⊢
    by_cases ho : (d.nodeInfo c).owner = pid
    · simp only [if_pos ho]
      exact hwrite (releaseCpu_info hasTasks)
    · simp only [if_neg ho] at hstep ⊢
      split
      · split
        · rw [returnCpu_owner]
          exact hkeep _ rfl
        · exact hkeep _ rfl
      · exact hkeep _ rfl

end Dlb.Cpuinfo

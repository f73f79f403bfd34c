import Dlb.Cpuinfo.HelperSets
import Dlb.Cpuinfo.Loops

/-!
# The helper sets of cpuinfo are exact

* the operations on one CPU keep the invariant, so every call does (`exec_consistent`);
* registering a mask of whole cores makes the bits of these cores exact, whatever they were (`register_run`), so `init`
  keeps the invariant as well (`init_consistent`).
-/

namespace Dlb.Cpuinfo

open Finset Function

variable {S : System}

/-! ## Calls -/

section Calls

variable {attached : Finset Pid} {d : Shdata} {pid : Pid}

theorem Consistent.push (h : Consistent S attached d) (action : CpuinfoAction) (pid : Pid) (c : ℕ) :
    Consistent S attached (d.push action pid c) := h.congr rfl rfl rfl rfl rfl rfl

theorem Consistent.timestamp (h : Consistent S attached d) (now : ℤ) :
    Consistent S attached (d.updateShmemTimestamp now) := h.congr rfl rfl rfl rfl rfl rfl

theorem addPetitions_fst (w : Wish) {r : Shdata × DlbError × ℤ} (h : r.1.queuesEnabled = false) :
    (addPetitions w pid r).1 = r.1 := by
  unfold addPetitions
  rw [h, if_neg Bool.false_ne_true]

theorem consistent_kept (hp : pid ∈ attached) (hp0 : pid ≠ 0) : Kept S pid (Consistent S attached) where
  start d h := h.congr rfl rfl rfl rfl rfl rfl
  timestamp d now h := h.timestamp now
  lend d c h := lendCpu_consistent h
  reclaim d c h := reclaimCpu_consistent h hp hp0
  acquire d c h := acquireCpu_consistent h hp hp0
  borrow d c h := borrowCpu_consistent h hp hp0
  giveBack d c h := returnCpu_consistent h hp0
  disable d c h := h.push _ _ _
  petitions w r h := by rwa [addPetitions_fst w h.queues]
  remove d h := by
    unfold removeRequests
    rwa [h.queues, if_neg Bool.false_ne_true]

theorem exec_consistent (h : Consistent S attached d) (hp : pid ∈ attached) (hp0 : pid ≠ 0) (c : Caller) (call : Call) :
    Consistent S attached (exec S c pid d call) := by
  have hkept : Kept S pid (Consistent S attached) := consistent_kept hp hp0
  refine exec_keeps hkept h c call fun cpuid _ => ?_
  refine shmemReclaimCpu_keeps hkept.reclaim (fun d cpuid c h => ?_) (hkept.start d h) cpuid
  -- the rest of the core only gets tasks
  unfold disableRest
  split
  · exact h.push _ _ _
  · exact h

end Calls

/-! ## Registering a mask -/

section Register

variable {pid preinitPid : Pid} {d0 d : Shdata} {P : Finset ℕ} {c : ℕ}

/-- The entry of a CPU after `register_cpu`. -/
def registered (pid preinitPid : Pid) (i : CpuInfo) : CpuInfo :=
  { i with
    owner := pid
    state := .busy
    guest := if i.guest = 0 ∨ i.guest = preinitPid then pid else i.guest }

/-- `register_process` after the CPUs `P` of its mask: a foreign guest has set the bit of its core, and cores that are
registered whole are exact. -/
structure Registering (S : System) (pid preinitPid : Pid) (d0 d : Shdata) (P : Finset ℕ) : Prop where
  initialized : d.initialized = d0.initialized
  queues : d.queuesEnabled = d0.queuesEnabled
  smt : d.hwHasSmt = d0.hwHasSmt
  info : ∀ c, d.nodeInfo c = if c ∈ P then registered pid preinitPid (d0.nodeInfo c) else d0.nodeInfo c
  free : ∀ c, c ∈ d.freeCpus ↔ c ∈ d0.freeCpus ∧ c ∉ P
  uniform : ∀ c, ∀ e ∈ coreOf S d0.hwHasSmt c, e ∈ d.occupiedCores ↔ c ∈ d.occupiedCores
  untouched : ∀ c, (∀ e ∈ coreOf S d0.hwHasSmt c, e ∉ P) → (c ∈ d.occupiedCores ↔ c ∈ d0.occupiedCores)
  foreign : ∀ c ∈ P, (d.nodeInfo c).Foreign → c ∈ d.occupiedCores
  full : ∀ c ∈ coreOf S d0.hwHasSmt c, coreOf S d0.hwHasSmt c ⊆ P →
    (c ∈ d.occupiedCores ↔ ∃ e ∈ coreOf S d0.hwHasSmt c, (d.nodeInfo e).Foreign)

theorem registerCpu_info :
    (registerCpu S pid preinitPid d c).nodeInfo = update d.nodeInfo c (registered pid preinitPid (d.nodeInfo c)) :=
  rfl

theorem registerCpu_occupied (hs : d.hwHasSmt = d0.hwHasSmt) (hp0 : pid ≠ 0) {x : ℕ}
    (hx : x ∈ coreOf S d0.hwHasSmt c) (hu : x ∈ d.occupiedCores ↔ c ∈ d.occupiedCores) :
    x ∈ (registerCpu S pid preinitPid d c).occupiedCores ↔
      (registered pid preinitPid (d.nodeInfo c)).Foreign ∨
      (c ∈ d.occupiedCores ∧ ∃ e ∈ coreOf S d0.hwHasSmt c,
        ((registerCpu S pid preinitPid d c).nodeInfo e).guest ≠ 0 ∧
        ((registerCpu S pid preinitPid d c).nodeInfo e).guest ≠ pid) := by
  have hup : x ∈ occupiedUpdate S ((d.set c (registered pid preinitPid (d.nodeInfo c))).clrFree c) pid c ↔ _ :=
    mem_occupiedUpdate (by exact hs ▸ hx) (by exact hu)
  have hocc : cpuIsOccupied ((d.set c (registered pid preinitPid (d.nodeInfo c))).clrFree c) pid c ↔
      (registered pid preinitPid (d.nodeInfo c)).Foreign := by
    simp [cpuIsOccupied, CpuInfo.Foreign, Shdata.clrFree, Shdata.set, registered, hp0]
  rw [coreIsOccupied_iff, hocc] at hup
  refine hup.trans (or_congr_right (and_congr_right fun _ => ?_))
  show (∃ e ∈ coreOf S d.hwHasSmt c, _) ↔ _
  rw [hs]
  simp [registerCpu_info, Shdata.clrFree, Shdata.set, hp0]

theorem registerCpu_occupied_of_notMem (hs : d.hwHasSmt = d0.hwHasSmt) {x : ℕ} (hx : x ∉ coreOf S d0.hwHasSmt c) :
    x ∈ (registerCpu S pid preinitPid d c).occupiedCores ↔ x ∈ d.occupiedCores :=
  show x ∈ occupiedUpdate S ((d.set c (registered pid preinitPid (d.nodeInfo c))).clrFree c) pid c ↔ _ from
    mem_occupiedUpdate_of_notMem (by exact hs ▸ hx)

theorem Registering.step (h : Registering S pid preinitPid d0 d P) (hp0 : pid ≠ 0) (hc : c ∉ P)
    (hcore : c ∈ coreOf S d0.hwHasSmt c) :
    Registering S pid preinitPid d0 (registerCpu S pid preinitPid d c) (insert c P) := by
  have hinfo : ∀ e, (registerCpu S pid preinitPid d c).nodeInfo e =
      if e ∈ insert c P then registered pid preinitPid (d0.nodeInfo e) else d0.nodeInfo e := by
    intro e
    rw [registerCpu_info]
    by_cases he : e = c
    · subst he
      rw [update_self, h.info e, if_neg hc, if_pos (mem_insert_self e P)]
    · rw [update_of_ne he, h.info e]
      simp [he]
  have hne : ∀ e, e ≠ c → (registerCpu S pid preinitPid d c).nodeInfo e = d.nodeInfo e := fun e he => by
    rw [registerCpu_info, update_of_ne he]
  have hself : (registerCpu S pid preinitPid d c).nodeInfo c = registered pid preinitPid (d.nodeInfo c) := by
    rw [registerCpu_info, update_self]
  have howner : ∀ e ∈ insert c P, ((registerCpu S pid preinitPid d c).nodeInfo e).owner = pid := by
    intro e he
    rw [hinfo e, if_pos he]
    rfl
  have hocc : ∀ x ∈ coreOf S d0.hwHasSmt c, x ∈ (registerCpu S pid preinitPid d c).occupiedCores ↔ _ :=
    fun x hx => registerCpu_occupied h.smt hp0 hx (h.uniform c x hx)
  constructor
  · exact h.initialized
  · exact h.queues
  · exact h.smt
  · exact hinfo
  · intro x
    show x ∈ d.freeCpus.erase c ↔ _
    rw [mem_erase, h.free x, mem_insert]
    tauto
  · intro x e he
    by_cases hx : x ∈ coreOf S d0.hwHasSmt c
    · rw [hocc x hx, hocc e (coreOf_eq hx ▸ he)]
    · rw [registerCpu_occupied_of_notMem h.smt hx, registerCpu_occupied_of_notMem h.smt (notMem_coreOf hx he)]
      exact h.uniform x e he
  · intro x hx
    have hxc : x ∉ coreOf S d0.hwHasSmt c := fun hxc =>
      hx c (coreOf_symm hxc) (mem_insert_self c P)
    rw [registerCpu_occupied_of_notMem h.smt hxc]
    exact h.untouched x fun e he heP => hx e he (mem_insert_of_mem heP)
  · intro x hx hf
    by_cases hxc : x = c
    · subst hxc
      exact (hocc x hcore).mpr (Or.inl (hself ▸ hf))
    · have hxP : x ∈ P := (mem_insert.mp hx).resolve_left hxc
      have hold := h.foreign x hxP (hne x hxc ▸ hf)
      by_cases hxcore : x ∈ coreOf S d0.hwHasSmt c
      · refine (hocc x hxcore).mpr (Or.inr ⟨(h.uniform c x hxcore).mp hold, x, hxcore, hf.2.1, ?_⟩)
        exact fun hg => hf.2.2 (hg.trans (howner x hx).symm)
      · exact (registerCpu_occupied_of_notMem h.smt hxcore).mpr hold
  · intro x hx hsub
    by_cases hxcore : x ∈ coreOf S d0.hwHasSmt c
    · rw [hocc x hxcore]
      rw [coreOf_eq hxcore] at hsub ⊢
      constructor
      · rintro (hf | ⟨-, e, he, hg, hgp⟩)
        · exact ⟨c, hcore, hself ▸ hf⟩
        · refine ⟨e, he, ?_, hg, ?_⟩
          · rw [howner e (hsub he)]
            exact hp0
          · rw [howner e (hsub he)]
            exact hgp
      · rintro ⟨e, he, hf⟩
        by_cases hec : e = c
        · subst hec
          exact Or.inl (hself ▸ hf)
        · -- a CPU registered before has set the bits of the core
          have heP : e ∈ P := (mem_insert.mp (hsub he)).resolve_left hec
          have hold := h.foreign e heP (hne e hec ▸ hf)
          refine Or.inr ⟨(h.uniform c e he).mp hold, e, he, hf.2.1, ?_⟩
          exact fun hg => hf.2.2 (hg.trans (howner e (hsub he)).symm)
    · have hec : ∀ e ∈ coreOf S d0.hwHasSmt x, e ≠ c := by
        rintro e he rfl
        exact hxcore (coreOf_symm he)
      have hsubP : coreOf S d0.hwHasSmt x ⊆ P := fun e he =>
        (mem_insert.mp (hsub he)).resolve_left (hec e he)
      rw [registerCpu_occupied_of_notMem h.smt hxcore, h.full x hx hsubP]
      refine exists_congr fun e => and_congr_right fun he => ?_
      rw [hne e (hec e he)]

theorem register_run (hp0 : pid ≠ 0) (l : List ℕ) (hl : l.Nodup) (hP : ∀ c ∈ l, c ∉ P)
    (hcore : ∀ c ∈ l, c ∈ coreOf S d0.hwHasSmt c) (h : Registering S pid preinitPid d0 d P) :
    Registering S pid preinitPid d0 (l.foldl (registerCpu S pid preinitPid) d) (P ∪ l.toFinset) := by
  induction l generalizing d P with
  | nil => simpa using h
  | cons c rest ih =>
    obtain ⟨hc, hrest⟩ := List.nodup_cons.mp hl
    have hstep := h.step hp0 (hP c List.mem_cons_self) (hcore c List.mem_cons_self)
    have hun : P ∪ (c :: rest).toFinset = insert c P ∪ rest.toFinset := by
      ext x
      simp
    rw [List.foldl_cons, hun]
    refine ih hrest (fun x hx hxP => ?_) (fun x hx => hcore x (List.mem_cons_of_mem _ hx)) hstep
    rcases mem_insert.mp hxP with rfl | hxP
    · exact hc hx
    · exact hP x (List.mem_cons_of_mem _ hx) hxP

theorem nodeCpus_toFinset {mask : CpuSet} (hm : WholeCores S mask) : (nodeCpus S mask).toFinset = mask := by
  ext x
  rw [List.mem_toFinset, mem_nodeCpus]
  refine ⟨And.right, fun hx => ⟨?_, hx⟩⟩
  obtain ⟨core, hk, hxk, -⟩ := hm x hx
  exact System.lt_size (S.covered core hk hxk)

theorem registered_sound {attached : Finset Pid} {i : CpuInfo} (hi : i.Sound attached) (hp0 : pid ≠ 0) :
    (registered pid preinitPid i).Sound (insert pid attached) := by
  have hguest : (registered pid preinitPid i).guest ≠ 0 ∧ (registered pid preinitPid i).guest ∈ insert pid attached := by
    unfold registered
    split
    · exact ⟨hp0, mem_insert_self _ _⟩
    · rename_i hg
      have hg0 : i.guest ≠ 0 := fun h0 => hg (Or.inl h0)
      exact ⟨hg0, mem_insert_of_mem (hi.guest hg0)⟩
  exact ⟨fun _ => ⟨hp0, hguest.1⟩, nofun, fun _ => mem_insert_self _ _, fun _ => hguest.2⟩

theorem CpuInfo.Sound.mono {A B : Finset Pid} {i : CpuInfo} (h : i.Sound A) (hAB : A ⊆ B) : i.Sound B :=
  ⟨h.busy, h.disabled, fun ho => hAB (h.owner ho), fun hg => hAB (h.guest hg)⟩

theorem register_mask (h : Occupied S d.hwHasSmt d.nodeInfo d.occupiedCores) (hp0 : pid ≠ 0) {mask : CpuSet}
    (hm : WholeCores S mask) :
    Registering S pid preinitPid d ((nodeCpus S mask).foldl (registerCpu S pid preinitPid) d) mask := by
  have hstart : Registering S pid preinitPid d d ∅ := by
    refine ⟨rfl, rfl, rfl, fun c => rfl, by simp, fun c e he => ?_, fun c _ => Iff.rfl, by simp, fun c hc _ => h c⟩
    rw [h c, h e, coreOf_eq he]
  have hrun := register_run hp0 (nodeCpus S mask) (nodeCpus_nodup mask) (by simp)
    (fun c hc => (coreOf_of_whole hm (mem_nodeCpus.mp hc).2).1) hstart
  rwa [empty_union, nodeCpus_toFinset hm] at hrun

theorem coreOf_notMem {smt : Bool} {mask : CpuSet} (hm : WholeCores S mask) {x : ℕ} (hx : x ∉ mask) :
    ∀ e ∈ coreOf S smt x, e ∉ mask := fun _ he hem => hx ((coreOf_of_whole hm hem).2 (coreOf_symm he))

theorem Registering.exact_free {mask : CpuSet} (hrun : Registering S pid preinitPid d0 d mask)
    (h : ∀ c, c ∈ d0.freeCpus ↔ (d0.nodeInfo c).Idle) (c : ℕ) : c ∈ d.freeCpus ↔ (d.nodeInfo c).Idle := by
  rw [hrun.free c, hrun.info c, h c]
  split
  · rename_i hc
    simp [hc, CpuInfo.Idle, registered]
  · rename_i hc
    simp [hc]

theorem Registering.exact_occupied {mask : CpuSet} (hrun : Registering S pid preinitPid d0 d mask)
    (hm : WholeCores S mask) (h : Occupied S d0.hwHasSmt d0.nodeInfo d0.occupiedCores) :
    Occupied S d.hwHasSmt d.nodeInfo d.occupiedCores := by
  rw [hrun.smt]
  intro x
  by_cases hx : x ∈ mask
  · exact hrun.full x (coreOf_of_whole hm hx).1 (coreOf_of_whole hm hx).2
  · have hnone : ∀ e ∈ coreOf S d0.hwHasSmt x, e ∉ mask := coreOf_notMem hm hx
    rw [hrun.untouched x hnone, h x]
    refine exists_congr fun e => and_congr_right fun he => ?_
    rw [hrun.info e, if_neg (hnone e he)]

theorem register_consistent {attached : Finset Pid} (h : Consistent S attached d) (hp0 : pid ≠ 0) {mask : CpuSet}
    (hm : WholeCores S mask) :
    Consistent S (insert pid attached) ((nodeCpus S mask).foldl (registerCpu S pid preinitPid) d) := by
  have hrun : Registering S pid preinitPid d _ mask := register_mask h.occupied hp0 hm
  generalize (nodeCpus S mask).foldl (registerCpu S pid preinitPid) d = d' at hrun ⊢
  constructor
  · exact hrun.initialized.trans h.initialized
  · exact hrun.smt.trans h.smt
  · exact hrun.queues.trans h.queues
  · exact hrun.exact_free h.free
  · exact hrun.exact_occupied hm h.occupied
  · intro c
    rw [hrun.info c]
    split
    · exact registered_sound (h.info c) hp0
    · exact (h.info c).mono (subset_insert _ _)
  · intro c e he
    rw [hrun.smt] at he
    rw [hrun.info c, hrun.info e]
    by_cases hc : c ∈ mask
    · rw [if_pos hc, if_pos ((coreOf_of_whole hm hc).2 he)]
      rfl
    · rw [if_neg hc, if_neg (coreOf_notMem hm hc e he)]
      exact h.core c e he
  · intro c hc
    rw [hrun.info c] at hc
    by_cases hcm : c ∈ mask
    · obtain ⟨core, hk, hck, -⟩ := hm c hcm
      exact ⟨core, hk, hck⟩
    · rw [if_neg hcm] at hc
      exact h.owned c hc
  · intro c hc
    rw [hrun.info c] at hc
    by_cases hcm : c ∈ mask
    · obtain ⟨core, hk, hck, -⟩ := hm c hcm
      exact System.lt_size (S.covered core hk hck)
    · rw [if_neg hcm] at hc
      exact h.size c hc

end Register

/-! ## Init -/

section Init

variable {attached : Finset Pid} {d : Shdata} {pid : Pid}

theorem Consistent.mono {A B : Finset Pid} (h : Consistent S A d) (hAB : A ⊆ B) : Consistent S B d :=
  { h with info := fun c => (h.info c).mono hAB }

theorem finalize_consistent (h : Consistent S attached d) (hp0 : pid ≠ 0) (hp : pid ∉ attached) (c : Caller) :
    Consistent S attached (finalize S c d pid) := by
  have hcpu : ∀ cpuid, deregisterCpu S c pid d cpuid = d := by
    intro cpuid
    have ho : (d.nodeInfo cpuid).owner ≠ pid := fun ho => hp (ho ▸ (h.info cpuid).owner (ho ▸ hp0))
    have hg : (d.nodeInfo cpuid).guest ≠ pid := fun hg => hp (hg ▸ (h.info cpuid).guest (hg ▸ hp0))
    unfold deregisterCpu
    rw [if_neg ho, if_neg hg, h.queues, if_neg Bool.false_ne_true]
  have hrun : ∀ l : List ℕ, l.foldl (deregisterCpu S c pid) d = d := by
    intro l
    induction l with
    | nil => rfl
    | cons cpuid rest ih => rw [List.foldl_cons, hcpu, ih]
  unfold finalize deregisterProcess
  dsimp only
  rw [hrun, h.queues, if_neg Bool.false_ne_true]
  exact h.timestamp _

theorem initShmem_info (c : Caller) (x : ℕ) : (initShmem S c {}).nodeInfo x =
    { state := if x < S.size ∧ c.respectCpuset = false then .lent else .disabled } := by
  show (if x < S.size then ({ state := if c.respectCpuset then .disabled else .lent } : CpuInfo) else {}) = _
  cases c.respectCpuset <;> by_cases hx : x < S.size <;> simp [hx]

theorem initShmem_consistent (c : Caller) : Consistent S ∅ (initShmem S c {}) := by
  have howner : ∀ x, ((initShmem S c {}).nodeInfo x).owner = 0 := fun x => by rw [initShmem_info]
  constructor
  · rfl
  · rfl
  · rfl
  · intro x
    rw [initShmem_info]
    show x ∈ (if c.respectCpuset then ∅ else range S.size) ↔ _
    cases c.respectCpuset <;> simp [CpuInfo.Idle]
  · intro x
    refine iff_of_false (notMem_empty x) ?_
    rintro ⟨e, -, hf⟩
    exact hf.1 (howner e)
  · intro x
    rw [initShmem_info]
    refine ⟨fun hb => ?_, fun _ => ⟨rfl, rfl⟩, fun ho => absurd rfl ho, fun hg => absurd rfl hg⟩
    split at hb <;> cases hb
  · intro x e _
    rw [howner, howner]
  · exact fun x hx => absurd (howner x) hx
  · intro x hx
    rw [initShmem_info] at hx
    by_contra hlt
    simp [hlt] at hx

theorem init_consistent (h : Consistent S attached (initShmem S c d)) (hp0 : pid ≠ 0) (hp : pid ∉ attached)
    (preinitPid : Pid) {mask : CpuSet} (hm : WholeCores S mask) :
    Consistent S (if (init S c d pid preinitPid mask).2 = .success then insert pid attached else attached)
      (init S c d pid preinitPid mask).1 := by
  have hsub : attached ⊆ insert pid attached := subset_insert _ _
  have hreg : Consistent S (insert pid attached)
      ((nodeCpus S mask).foldl (registerCpu S pid preinitPid) (initShmem S c d)) := register_consistent h hp0 hm
  unfold init registerProcess
  generalize initShmem S c d = d0 at h hreg ⊢
  by_cases hempty : mask = ∅
  · simp only [hempty, if_true, ne_eq, not_true_eq_false, if_false]
    exact h.mono hsub
  · rw [if_neg hempty]
    split
    · -- an error finalizes the process
      exact finalize_consistent h hp0 hp c
    · simp only [ne_eq, not_true_eq_false, if_true, if_false]
      exact hreg

end Init

/-! ## Runs -/

/-- The memory is still zeroed, or the invariant holds and nobody has the id `0`. -/
def Node.Good (S : System) (n : Node) : Prop := n = {} ∨ (Consistent S n.attached n.shm ∧ 0 ∉ n.attached)

theorem Step.good {n n' : Node} (hs : Step S n n') (h : n.Good S) : n'.Good S := by
  cases hs with
  | init c pid preinitPid mask hp0 hp hm =>
    have hstart : Consistent S n.attached (initShmem S c n.shm) ∧ 0 ∉ n.attached := by
      rcases h with rfl | ⟨h, h0⟩
      · exact ⟨initShmem_consistent c, notMem_empty 0⟩
      · refine ⟨?_, h0⟩
        unfold initShmem
        rwa [if_pos h.initialized]
    refine Or.inr ⟨init_consistent hstart.1 hp0 hp preinitPid hm, ?_⟩
    unfold Node.init
    dsimp only
    split
    · simp [hp0.symm, hstart.2]
    · exact hstart.2
  | call c pid call hp =>
    rcases h with rfl | ⟨h, h0⟩
    · exact absurd hp (notMem_empty pid)
    · exact Or.inr ⟨exec_consistent h hp (fun hp0 => h0 (hp0 ▸ hp)) c call, h0⟩

theorem reachable_good {n : Node} (h : Reachable S n) : n.Good S :=
  Lib.Run.invariant h (Or.inl rfl) fun _ _ hn hs => hs.good hn

/-! ## The claim about the helper sets -/

/-- `free_cpus` has exactly the CPUs that are lent and not guested, `occupied_cores` exactly those of the cores that
have an owned CPU whose guest is neither nobody nor the owner. -/
structure HelperSetsExact (S : System) (d : Shdata) : Prop where
  free : ∀ c, c ∈ d.freeCpus ↔ c < S.size ∧ (d.nodeInfo c).state = .lent ∧ (d.nodeInfo c).guest = 0
  occupied : ∀ c, c ∈ d.occupiedCores ↔ ∃ core ∈ S.cores, c ∈ core ∧ ∃ e ∈ core,
    (d.nodeInfo e).owner ≠ 0 ∧ (d.nodeInfo e).guest ≠ 0 ∧ (d.nodeInfo e).guest ≠ (d.nodeInfo e).owner

/-- The first core tells whether cores have several CPUs. -/
def FirstCoreTells (S : System) : Prop := muSystemHasSmt S ∨ ∀ core ∈ S.cores, core.card ≤ 1

theorem mem_coreOf_iff (hS : FirstCoreTells S) {attached : Finset Pid} {d : Shdata} (h : Consistent S attached d) {x e : ℕ}
    (ho : (d.nodeInfo e).owner ≠ 0) : e ∈ coreOf S d.hwHasSmt x ↔ ∃ core ∈ S.cores, x ∈ core ∧ e ∈ core := by
  rw [h.smt]
  unfold coreOf
  cases hsmt : muSystemHasSmt S with
  | true =>
    constructor
    · intro he
      exact ⟨_, (coreMask_mem he).1, (coreMask_mem he).2, he⟩
    · rintro ⟨core, hk, hx, he⟩
      rwa [coreMask_of_mem hk hx]
  | false =>
    have hcard : ∀ core ∈ S.cores, core.card ≤ 1 := hS.resolve_left (by simp [hsmt])
    rw [if_neg Bool.false_ne_true, mem_singleton]
    constructor
    · rintro rfl
      obtain ⟨core, hk, he⟩ := h.owned e ho
      exact ⟨core, hk, he, he⟩
    · rintro ⟨core, hk, hx, he⟩
      exact card_le_one.mp (hcard core hk) e he x hx

theorem Consistent.helperSets (hS : FirstCoreTells S) {attached : Finset Pid} {d : Shdata} (h : Consistent S attached d) :
    HelperSetsExact S d := by
  constructor
  · intro c
    rw [h.free c]
    refine ⟨fun hc => ⟨h.size c (by rw [hc.1]; exact nofun), hc⟩, And.right⟩
  · intro c
    rw [h.occupied c]
    constructor
    · rintro ⟨e, he, hf⟩
      obtain ⟨core, hk, hc, he⟩ := (mem_coreOf_iff hS h hf.1).mp he
      exact ⟨core, hk, hc, e, he, hf⟩
    · rintro ⟨core, hk, hc, e, he, hf⟩
      exact ⟨e, (mem_coreOf_iff hS h hf.1).mpr ⟨core, hk, hc, he⟩, hf⟩

theorem exact_zero : HelperSetsExact S {} := by
  constructor
  · intro c
    simp
  · intro c
    simp

/-- Process `2` attaches without CPUs and process `1` with a core; `1` lends one of its CPUs and `2` takes it. -/
def takeHalf (S : System) (core : CpuSet) (c : ℕ) : Node :=
  let n := ((({} : Node).init S {} 2 0 ∅).init S {} 1 0 core)
  { n with shm := exec S {} 2 (exec S {} 1 n.shm (.lendCpu c)) (.acquireCpu c) }

section Half

variable {core : CpuSet} {c e : ℕ}

/-- The memory after the two processes have initialized. -/
def bothAttached (S : System) (core : CpuSet) : Shdata :=
  (nodeCpus S core).foldl (registerCpu S 1 0) (initShmem S {} {})

theorem init_both (S : System) (core : CpuSet) (hne : core ≠ ∅) : (({} : Node).init S {} 2 0 ∅).init S {} 1 0 core =
    { shm := bothAttached S core, attached := {1, 2} } := by
  have h2 : ({} : Node).init S {} 2 0 ∅ = { shm := initShmem S {} {}, attached := {2} } := by
    simp [Node.init, init, registerProcess]
  have hinit : initShmem S {} (initShmem S {} {}) = initShmem S {} {} := by
    unfold initShmem
    simp
  have hfree : ∀ x, ((initShmem S {} {}).nodeInfo x).owner = 0 := fun x => by rw [initShmem_info]
  simp [Node.init, init, registerProcess, hinit, hne, hfree, bothAttached]

/-- The memory after `1` has lent the CPU. -/
def halfLent (S : System) (core : CpuSet) (c : ℕ) : Shdata := exec S {} 1 (bothAttached S core) (.lendCpu c)

theorem bothAttached_consistent (hk : core ∈ S.cores) : Consistent S {1, 2} (bothAttached S core) :=
  (register_consistent (initShmem_consistent {}) one_ne_zero (wholeCores_core hk)).mono (by simp)

theorem bothAttached_info (hk : core ∈ S.cores) (hc : c ∈ core) :
    (bothAttached S core).nodeInfo c = { owner := 1, guest := 1, state := .busy } := by
  have hrun : Registering S 1 0 _ (bothAttached S core) core :=
    register_mask (initShmem_consistent {}).occupied one_ne_zero (wholeCores_core hk)
  rw [hrun.info, if_pos hc, initShmem_info]
  rfl

theorem halfLent_info (hk : core ∈ S.cores) (hc : c ∈ core) : (halfLent S core c).nodeInfo =
    update (bothAttached S core).nodeInfo c { owner := 1, guest := 0, state := .lent } := by
  have h : Consistent S {1, 2} { bothAttached S core with tasks := [] } :=
    (bothAttached_consistent hk).congr rfl rfl rfl rfl rfl rfl
  have hinfo : ({ bothAttached S core with tasks := [] } : Shdata).nodeInfo c = _ := bothAttached_info hk hc
  obtain ⟨d1, hch, -, -, heq⟩ := lendCpu_eq 1 h (c := c) (by rw [hinfo]; exact nofun)
  have hsize : c < S.size := System.lt_size (S.covered core hk hc)
  unfold halfLent exec shmemLendCpu
  dsimp only
  rw [if_neg hsize.not_ge, heq]
  show d1.nodeInfo = _
  rw [hch.info, hinfo]
  rfl

theorem takeHalf_shm (hne : core ≠ ∅) :
    (takeHalf S core c).shm = exec S {} 2 (halfLent S core c) (.acquireCpu c) := by
  unfold takeHalf
  rw [init_both S core hne]
  rfl

theorem reachable_takeHalf (hk : core ∈ S.cores) (hc : c ∈ core) : Reachable S (takeHalf S core c) := by
  have hne : core ≠ ∅ := ne_empty_of_mem hc
  have hinit : Reachable S { shm := bothAttached S core, attached := {1, 2} } := by
    rw [← init_both S core hne]
    refine .tail (.single (.init {} 2 0 ∅ two_ne_zero (notMem_empty 2) wholeCores_empty)) ?_
    refine .init {} 1 0 core one_ne_zero ?_ (wholeCores_core hk)
    simp [Node.init, init, registerProcess]
  unfold takeHalf
  rw [init_both S core hne]
  exact .tail (.tail hinit (.call {} 1 (.lendCpu c) (by simp))) (.call {} 2 (.acquireCpu c) (by simp))

theorem takeHalf_not_exact (hsmt : muSystemHasSmt S = false) (hk : core ∈ S.cores) (hc : c ∈ core) (he : e ∈ core)
    (hec : e ≠ c) : ¬HelperSetsExact S (takeHalf S core c).shm := by
  intro hexact
  have hlent : Consistent S {1, 2} (halfLent S core c) :=
    exec_consistent (bothAttached_consistent hk) (by simp) one_ne_zero {} _
  have hcons : Consistent S {1, 2} (takeHalf S core c).shm := by
    rw [takeHalf_shm (ne_empty_of_mem hc)]
    exact exec_consistent hlent (by simp) two_ne_zero {} _
  have hinfo : (takeHalf S core c).shm.nodeInfo =
      update (halfLent S core c).nodeInfo c { owner := 1, guest := 2, state := .lent } := by
    have hsize : c < S.size := System.lt_size (S.covered core hk hc)
    have hcl : (halfLent S core c).nodeInfo c = { owner := 1, guest := 0, state := .lent } := by
      rw [halfLent_info hk hc, update_self]
    have hel : coreIsEligible S { halfLent S core c with tasks := [] } 2 c = true := by
      unfold coreIsEligible
      simp [hlent.smt, hsmt, hcl]
    rw [takeHalf_shm (ne_empty_of_mem hc)]
    unfold exec shmemAcquireCpu acquireCpu
    dsimp only
    rw [if_neg hsize.not_ge, hcl]
    simp [hel, Shdata.clrFree, Shdata.push, Shdata.set]
  have hce : (takeHalf S core c).shm.nodeInfo e = { owner := 1, guest := 1, state := .busy } := by
    rw [hinfo, update_of_ne hec, halfLent_info hk hc, update_of_ne hec, bothAttached_info hk he]
  have hcc : (takeHalf S core c).shm.nodeInfo c = { owner := 1, guest := 2, state := .lent } := by
    rw [hinfo, update_self]
  -- the sets are exact for the hardware core, but the code keeps them exact for the CPU alone
  have hocc : e ∈ (takeHalf S core c).shm.occupiedCores := by
    refine (hexact.occupied e).mpr ⟨core, hk, he, c, hc, ?_⟩
    rw [hcc]
    exact ⟨one_ne_zero, two_ne_zero, by decide⟩
  obtain ⟨x, hx, hf⟩ := (hcons.occupied e).mp hocc
  rw [hcons.smt, hsmt, coreOf, if_neg Bool.false_ne_true, mem_singleton] at hx
  rw [hx, hce] at hf
  exact hf.2.2 rfl

end Half

/-- **The helper sets are exact** in every state that is reached, on exactly the systems whose first core tells whether
cores have several CPUs. -/
theorem helper_sets_exact_iff (S : System) : (∀ n, Reachable S n → HelperSetsExact S n.shm) ↔ FirstCoreTells S := by
  constructor
  · intro h
    by_contra hS
    obtain ⟨hsmt, hcores⟩ := not_or.mp hS
    push Not at hcores
    obtain ⟨core, hk, hcard⟩ := hcores
    obtain ⟨c, hc, e, he, hce⟩ := one_lt_card.mp hcard
    exact takeHalf_not_exact (by simpa using hsmt) hk hc he hce.symm (h _ (reachable_takeHalf hk hc))
  · intro hS n hn
    rcases reachable_good hn with rfl | ⟨h, -⟩
    · exact exact_zero
    · exact h.helperSets hS

/-- A system whose first core has one CPU and whose second core has two. -/
def unevenCores : System where
  sysMask := {0, 1, 2}
  cores := [{0}, {1, 2}]
  disjoint := by decide
  covered := by decide

/-- A state that is reached there: CPU `1` has a foreign guest, and CPU `2` of its core is not in `occupied_cores`. -/
theorem half_core_occupied : Reachable unevenCores (takeHalf unevenCores {1, 2} 1) ∧
    (takeHalf unevenCores {1, 2} 1).shm.occupiedCores = {1} ∧
    ¬HelperSetsExact unevenCores (takeHalf unevenCores {1, 2} 1).shm :=
  ⟨reachable_takeHalf (by decide) (by decide), by decide,
    takeHalf_not_exact (e := 2) (by decide) (by decide) (by decide) (by decide) (by decide)⟩

end Dlb.Cpuinfo

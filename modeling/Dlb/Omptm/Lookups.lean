import Dlb.Lib.Packed
import Dlb.Omptm.FreeAgents

/-!
# The CPU ids that free agents use

The list of the CPUs of free agents is filled while they begin, one by one; its places that are not filled yet are `-1`
(`Filled`). A free agent that has no CPU gets `-1` as well.

* `getFreeAgentBinding_lt`: a free agent is bound to a CPU of the system, or to none;
* `lookForIdle_inRange_iff`: `acquire_one_free_agent` stays in the filled places exactly if it finds an idle CPU there,
  or all are filled;
* `lendsExactly_iff`: what `omptm_free_agents__lend` lends is what it has moved, exactly if its local mask does not start
  with other CPUs.
-/

namespace Dlb.Omptm

open List

variable {S : System}

def InRange (S : System) (cpuid : Option ℕ) : Prop := ∃ c < S.size, cpuid = some c

theorem not_inRange_none : ¬ InRange S none := fun ⟨_, _, h⟩ => nomatch h

theorem inRange_image {cpus : CpuSet} (h : ∀ c ∈ cpus, c < S.size) : ∀ cpuid ∈ cpus.image some, InRange S cpuid := by
  intro cpuid hcpuid
  obtain ⟨c, hc, rfl⟩ := Finset.mem_image.mp hcpuid
  exact ⟨c, h c hc, rfl⟩

/-- Events of the OpenMP runtime, callbacks of LeWI, and the last call of `omptm_free_agents__init` (`lend`). The local
mask of a function that lends starts as `junk`. -/
inductive FreeAgentEvent (o : FreeAgentOptions S) where
  | lend (junk : CpuSet)
  | enable (c : Fin S.size)
  | disable (c : Fin S.size)
  | threadBegin (threadId : Fin o.numFreeAgents) (d1 d2 : Cpuinfo.Shdata)
  | parallelBegin (level requestedParallelism : ℕ)
  | parallelEnd (level : ℕ) (junk : CpuSet)
  | intoParallelFunction (level : ℕ) (c : Fin S.size)
  | intoBlockingCall
  | outOfBlockingCall
  | taskCreate
  | taskComplete (freeAgentId : Option (Fin o.numFreeAgents)) (a : FreeAgents.Answers)
  | taskSwitch

namespace FreeAgents

variable (o : FreeAgentOptions S) (Q : Lib.Qsort) (s : FreeAgents)

/-- The state after an event, and the CPU ids that index `cpu_data` or go to LeWI. -/
def exec : FreeAgentEvent o → FreeAgents × Finset (Option ℕ)
  | .lend junk =>
    let r := s.omptmFreeAgentsLend o junk
    (r.1, (o.workerThreadsMask ∪ r.2).image some)
  | .enable c => (s.cbEnableCpu (some (c : ℕ)), {some (c : ℕ)})
  | .disable c => (s.cbDisableCpu o (some (c : ℕ)), {some (c : ℕ)})
  | .threadBegin threadId d1 d2 => s.threadBegin o Q threadId d1 d2
  | .parallelBegin level requestedParallelism => s.parallelBegin o level requestedParallelism
  | .parallelEnd level junk => s.parallelEnd o level junk
  | .intoParallelFunction level c => s.intoParallelFunction level c
  | .intoBlockingCall => s.intoBlockingCall o
  | .outOfBlockingCall => s.outOfBlockingCall o
  | .taskCreate => s.taskCreate o
  | .taskComplete freeAgentId a => s.taskComplete o (freeAgentId.map (↑)) a
  | .taskSwitch => s.taskSwitch o

def next (e : FreeAgentEvent o) : FreeAgents := (s.exec o Q e).1

/-- The CPUs of the system that went from `IDLE` to `LENT`. -/
def movedToLent (s s' : FreeAgents) : CpuSet :=
  {c ∈ Finset.range S.size | CpuFlag.idle ∈ (s.cpuData (some c)).state ∧ CpuFlag.idle ∉ (s'.cpuData (some c)).state ∧
    CpuFlag.lent ∈ (s'.cpuData (some c)).state}

/-- `omptm_free_agents__lend` lends the CPUs that it has moved. -/
def LendsExactly (junk : CpuSet) : Prop :=
  (s.omptmFreeAgentsLend o junk).2 = movedToLent (S := S) s (s.omptmFreeAgentsLend o junk).1

/-- The CPU ids of an event are of the system, and it lends what it has moved. -/
def Sound (e : FreeAgentEvent o) : Prop :=
  (∀ cpuid ∈ (s.exec o Q e).2, InRange S cpuid) ∧
    match e with
    | .lend junk => s.LendsExactly o junk
    | .parallelEnd level junk => level = 1 → (s.workersToIdle (S := S)).LendsExactly o junk
    | _ => True

/-- `acquire_one_free_agent` has nothing to look for, or all free agents have begun, or one of those that have is on a
CPU that is idle and nothing else. -/
def Finds : Prop :=
  s.numEnabledFreeAgents = o.numFreeAgents ∨ none ∉ s.freeAgentCpuList ∨
    ∃ c, some c ∈ s.freeAgentCpuList ∧ (s.cpuData (some c)).state = {.idle}

/-- The lookups of an event find a CPU, and the local mask that it lends starts with CPUs that it moves, or none. -/
def LooksRight : FreeAgentEvent o → Prop
  | .taskCreate => s.Finds o
  | .taskSwitch => 1 < s.pendingTasks → s.Finds o
  | .taskComplete (some freeAgentId) _ => s.freeAgentCpuidById freeAgentId ≠ none
  | .lend junk => o.lewi ∧ o.lend → ∀ c ∈ junk, c ∈ o.workerThreadsMask ∧ .idle ∈ (s.cpuData (some c)).state
  | .parallelEnd level junk => level = 1 → o.lewi ∧ o.lend → ∀ c ∈ junk, c ∈ o.workerThreadsMask ∧
      (.idle ∈ (s.cpuData (some c)).state ∨
        .worker ∈ (s.cpuData (some c)).roles ∧ .inParallel ∈ (s.cpuData (some c)).state)
  | _ => True

/-- The places of the list are filled from the front, and free agents are on CPUs of the system. -/
structure Filled (S : System) (s : FreeAgents) : Prop where
  cpuList : ∃ filled n, s.freeAgentCpuList = Lib.packed none filled n ∧ ∀ cpuid ∈ filled, InRange S cpuid
  cpuidById : ∀ threadId c, s.freeAgentCpuidById threadId = some c → c < S.size

end FreeAgents

/-! ## Where free agents are bound -/

variable {o : FreeAgentOptions S}

theorem FreeAgentOptions.fits_processMask (o : FreeAgentOptions S) : Fits S o.processMask :=
  fun c hc => (o.fits c hc).trans_le S.size_le_bits

theorem FreeAgentOptions.workerThreadsMask_lt (o : FreeAgentOptions S) : ∀ c ∈ o.workerThreadsMask, c < S.size :=
  fun c hc => o.fits c (Finset.mem_filter.mp hc).1

theorem nthCpu_lt {mask : CpuSet} (hmask : ∀ c ∈ mask, c < S.size) {n : ℕ} (hn : n < mask.card) :
    FreeAgentOptions.nthCpu (S := S) mask n < S.size := by
  have hcpus : ((range S.size).filter (· ∈ mask)).toFinset = mask := by
    ext c
    simp only [mem_toFinset, mem_filter, mem_range, decide_eq_true_eq]
    exact and_iff_right_of_imp (hmask c)
  have hlength : ((range S.size).filter (· ∈ mask)).length = mask.card := by
    rw [← toFinset_card_of_nodup (nodup_range.filter _), hcpus]
  have hlt : n < ((range S.size).filter (· ∈ mask)).length := hlength ▸ hn
  unfold FreeAgentOptions.nthCpu
  rw [getD_eq_getElem?_getD, getElem?_eq_getElem hlt, Option.getD_some]
  exact mem_range.mp (mem_filter.mp (getElem_mem hlt)).1

theorem getNthNonOwnedCpu_lt {d : Cpuinfo.Shdata} {pid : Pid} {n c : ℕ}
    (h : getNthNonOwnedCpu (S := S) d pid n = some c) : c < S.size := by
  unfold getNthNonOwnedCpu at h
  dsimp only at h
  split at h
  · exact mem_range.mp (mem_filter.mp (mem_of_getElem? h)).1
  · cases h

theorem availableProcessCpus_eq (o : FreeAgentOptions S) :
    o.availableProcessCpus = (o.processMask \ o.primaryThreadMask) \ o.workerThreadsMask := by
  have hempty : Fits S ∅ := fun c hc => absurd hc (Finset.notMem_empty c)
  have hrest : Fits S (o.processMask \ o.primaryThreadMask) := fun c hc =>
    o.fits_processMask c (Finset.mem_sdiff.mp hc).1
  unfold FreeAgentOptions.availableProcessCpus
  rw [muSubtract_of_fits hempty o.fits_processMask, muSubtract_of_fits hrest hrest]

theorem getFreeAgentBinding_lt {threadId c : ℕ} {d1 d2 : Cpuinfo.Shdata}
    (h : o.getFreeAgentBinding threadId d1 d2 = some c) : c < S.size := by
  have havailable : ∀ c ∈ o.availableProcessCpus, c < S.size := by
    rw [availableProcessCpus_eq]
    exact fun c hc => o.fits c (Finset.mem_sdiff.mp (Finset.mem_sdiff.mp hc).1).1
  have hcount : muCount S o.availableProcessCpus = o.availableProcessCpus.card := by
    unfold muCount
    rw [Finset.filter_true_of_mem fun c hc => (havailable c hc).trans_le S.size_le_bits]
  unfold FreeAgentOptions.getFreeAgentBinding at h
  dsimp only at h
  rw [hcount] at h
  split at h
  · rename_i hlt
    exact Option.some.inj h ▸ nthCpu_lt havailable hlt
  split at h
  · exact getNthNonOwnedCpu_lt h
  split at h
  · rename_i hnot _ hlt
    refine Option.some.inj h ▸ nthCpu_lt o.workerThreadsMask_lt ?_
    omega
  · cases h

namespace FreeAgents

variable {Q : Lib.Qsort} {s s1 s2 : FreeAgents}

/-! ## What leaves the lists alone -/

structure SameLists (s s1 : FreeAgents) : Prop where
  cpuList : s1.freeAgentCpuList = s.freeAgentCpuList
  cpuidById : s1.freeAgentCpuidById = s.freeAgentCpuidById

theorem SameLists.refl (s : FreeAgents) : SameLists s s := ⟨rfl, rfl⟩

theorem SameLists.trans (h1 : SameLists s s1) (h2 : SameLists s1 s2) : SameLists s s2 :=
  ⟨h2.cpuList.trans h1.cpuList, h2.cpuidById.trans h1.cpuidById⟩

theorem SameLists.filled (h : SameLists s s1) (hs : s.Filled S) : s1.Filled S := by
  obtain ⟨hlist, hcpuid⟩ := hs
  rw [← h.cpuList] at hlist
  rw [← h.cpuidById] at hcpuid
  exact ⟨hlist, hcpuid⟩

theorem cbEnableCpu_lists (cpuid : Option ℕ) : SameLists s (s.cbEnableCpu cpuid) := by
  unfold cbEnableCpu
  dsimp only
  split
  · exact .refl s
  split
  · exact ⟨rfl, rfl⟩
  split
  · exact .refl s
  · unfold enableFreeAgent
    dsimp only
    split
    · exact ⟨rfl, rfl⟩
    · exact .refl s

theorem idleIfUnneeded_lists (cpuid : Option ℕ) : SameLists s (s.idleIfUnneeded o cpuid) := by
  unfold idleIfUnneeded
  split
  · exact ⟨rfl, rfl⟩
  · exact .refl s

theorem cbDisableCpu_lists (cpuid : Option ℕ) : SameLists s (s.cbDisableCpu o cpuid) := by
  unfold cbDisableCpu
  split
  · exact .refl s
  · refine (idleIfUnneeded_lists (o := o) cpuid).trans ?_
    unfold disableFreeAgent
    dsimp only
    split
    · exact ⟨rfl, rfl⟩
    · exact .refl _

theorem omptmFreeAgentsLend_lists (junk : CpuSet) : SameLists s (s.omptmFreeAgentsLend o junk).1 := by
  unfold omptmFreeAgentsLend
  split
  · exact ⟨rfl, rfl⟩
  · exact .refl s

theorem acquireOneFreeAgent_lists : SameLists s (s.acquireOneFreeAgent o).1 := by
  unfold acquireOneFreeAgent
  split
  · exact .refl s
  · dsimp only
    cases (s.lookForIdle s.freeAgentCpuList ∅).2.1 with
    | none => exact .refl s
    | some cpuid => exact cbEnableCpu_lists cpuid

theorem wantForParallel_lists (r : FreeAgents × CpuSet) (c : ℕ) : SameLists r.1 (wantForParallel o r c).1 := by
  have hwanted (cpu : CpuData) : SameLists r.1 { r.1 with cpuData := Function.update r.1.cpuData (some c) cpu } :=
    ⟨rfl, rfl⟩
  unfold wantForParallel
  dsimp only
  split
  · exact (hwanted _).trans (cbDisableCpu_lists _)
  split
  · exact hwanted _
  · exact hwanted _

theorem parallelBegin_lists (level requestedParallelism : ℕ) :
    SameLists s (s.parallelBegin o level requestedParallelism).1 := by
  unfold parallelBegin
  split
  · exact foldlRecOn (motive := fun r : FreeAgents × CpuSet => SameLists s r.1) _ _ (.refl s)
      fun r hr c _ => hr.trans (wantForParallel_lists r c)
  · exact .refl s

theorem parallelEnd_lists (level : ℕ) (junk : CpuSet) : SameLists s (s.parallelEnd o level junk).1 := by
  have hidle : SameLists s (s.workersToIdle (S := S)) := ⟨rfl, rfl⟩
  unfold parallelEnd
  split
  · exact hidle.trans (omptmFreeAgentsLend_lists junk)
  · exact .refl s

theorem taskComplete_lists (freeAgentId : Option ℕ) (a : Answers) : SameLists s (s.taskComplete o freeAgentId a).1 := by
  unfold taskComplete
  split
  · exact .refl s
  dsimp only
  split
  · exact cbDisableCpu_lists _
  split
  · split
    · exact cbDisableCpu_lists _
    · exact .refl s
  split
  · exact cbDisableCpu_lists _
  · exact .refl s

theorem taskSwitch_lists : SameLists s (s.taskSwitch o).1 := by
  have hpending (n : ℕ) : SameLists s { s with pendingTasks := n } := ⟨rfl, rfl⟩
  unfold taskSwitch
  split
  · exact (hpending _).trans acquireOneFreeAgent_lists
  · exact hpending _

/-! ## The filled list -/

theorem Filled.register (h : s.Filled S) (threadId : ℕ) {c : ℕ} (hc : c < S.size) : (s.register o Q threadId c).Filled S := by
  obtain ⟨⟨filled, n, hlist, hfilled⟩, hcpuid⟩ := h
  have hsort (l : List (Option ℕ)) (hl : ∀ cpuid ∈ l, InRange S cpuid) :
      ∀ cpuid ∈ Q.sort (muCmpCpuidsByOwnership S o.processMask) l, InRange S cpuid :=
    fun cpuid hcpuid => hl cpuid ((Q.perm _ l).mem_iff.mp hcpuid)
  have hnone : none ∉ filled := fun hmem => not_inRange_none (hfilled none hmem)
  refine ⟨?_, fun threadId' c' => ?_⟩
  · unfold FreeAgents.register
    dsimp only
    rw [hlist, Lib.packed_findIdx hnone]
    cases n with
    | zero =>
      -- the list is full
      have hfull : Lib.packed none filled 0 = filled := by rw [Lib.packed, replicate_zero, append_nil]
      rw [hfull, set_eq_of_length_le (Nat.le_refl _), take_of_length_le (Nat.le_succ _),
        drop_eq_nil_of_le (Nat.le_succ _)]
      exact ⟨_, 0, rfl, hsort filled hfilled⟩
    | succ n =>
      have hlength : (filled ++ [some c]).length = filled.length + 1 := length_append
      rw [Lib.packed_set, Lib.packed, ← hlength, take_left, drop_left]
      refine ⟨_, n, rfl, hsort _ fun cpuid hcpuid => ?_⟩
      rcases mem_append.mp hcpuid with hold | hnew
      · exact hfilled cpuid hold
      · exact ⟨c, hc, mem_singleton.mp hnew⟩
  · change Function.update s.freeAgentCpuidById threadId (some c) threadId' = some c' → c' < S.size
    by_cases ht : threadId' = threadId
    · rw [ht, Function.update_self]
      exact fun heq => Option.some.inj heq ▸ hc
    · rw [Function.update_of_ne ht]
      exact hcpuid threadId' c'

theorem Filled.threadBegin (h : s.Filled S) (threadId : ℕ) (d1 d2 : Cpuinfo.Shdata) :
    (s.threadBegin o Q threadId d1 d2).1.Filled S := by
  unfold FreeAgents.threadBegin
  split
  · exact h
  · rename_i c hc
    have hregister := h.register (o := o) (Q := Q) threadId (getFreeAgentBinding_lt hc)
    exact SameLists.filled (s := s.register o Q threadId c) ⟨rfl, rfl⟩ hregister

theorem Filled.next (h : s.Filled S) (e : FreeAgentEvent o) : (s.next o Q e).Filled S := by
  cases e with
  | lend junk => exact (omptmFreeAgentsLend_lists junk).filled h
  | enable c => exact (cbEnableCpu_lists _).filled h
  | disable c => exact (cbDisableCpu_lists _).filled h
  | threadBegin threadId d1 d2 => exact h.threadBegin _ d1 d2
  | parallelBegin level requestedParallelism => exact (parallelBegin_lists level requestedParallelism).filled h
  | parallelEnd level junk => exact (parallelEnd_lists level junk).filled h
  | intoParallelFunction level c =>
    refine SameLists.filled ?_ h
    unfold FreeAgents.next exec intoParallelFunction
    dsimp only
    split
    · exact ⟨rfl, rfl⟩
    · exact .refl s
  | intoBlockingCall =>
    refine SameLists.filled ?_ h
    unfold FreeAgents.next exec intoBlockingCall
    dsimp only
    split
    · exact ⟨rfl, rfl⟩
    · exact .refl s
  | outOfBlockingCall =>
    refine SameLists.filled ?_ h
    unfold FreeAgents.next exec outOfBlockingCall
    dsimp only
    split
    · exact ⟨rfl, rfl⟩
    · exact .refl s
  | taskCreate => exact acquireOneFreeAgent_lists.filled (SameLists.filled (s := s) ⟨rfl, rfl⟩ h)
  | taskComplete freeAgentId a => exact (taskComplete_lists _ a).filled h
  | taskSwitch => exact taskSwitch_lists.filled h

theorem init_filled (malloc : Option ℕ → CpuData) : (o.init malloc).Filled S :=
  ⟨⟨[], o.numFreeAgents, rfl, nofun⟩, nofun⟩

/-! ## The search for an idle CPU -/

theorem lookForIdle_visited (l : List (Option ℕ)) (cpusToAsk : CpuSet) :
    ∀ c ∈ (s.lookForIdle l cpusToAsk).2.2, c ∈ cpusToAsk ∨ some c ∈ (s.lookForIdle l cpusToAsk).1 := by
  induction l generalizing cpusToAsk with
  | nil => exact fun c hc => .inl hc
  | cons cpuid l ih =>
    unfold lookForIdle
    dsimp only
    split
    · intro c hc
      exact (ih cpusToAsk c hc).imp_right (mem_cons_of_mem cpuid)
    split
    · exact fun c hc => absurd hc (Finset.notMem_empty c)
    · intro c hc
      rcases ih _ c hc with hask | hvisited
      · cases cpuid with
        | none => exact .inl hask
        | some c' =>
          rcases Finset.mem_insert.mp hask with rfl | hask
          · exact .inr mem_cons_self
          · exact .inl hask
      · exact .inr (mem_cons_of_mem cpuid hvisited)

theorem lookForIdle_cons_of_ne {cpuid : Option ℕ} (h : (s.cpuData cpuid).state ≠ {.idle}) (l : List (Option ℕ))
    (cpusToAsk : CpuSet) : ∃ ask, (s.lookForIdle (cpuid :: l) cpusToAsk).1 = cpuid :: (s.lookForIdle l ask).1 := by
  rw [lookForIdle]
  split
  · exact ⟨cpusToAsk, rfl⟩
  · exact ⟨_, rfl⟩

theorem lookForIdle_cons_of_eq {cpuid : Option ℕ} (h : (s.cpuData cpuid).state = {.idle}) (l : List (Option ℕ))
    (cpusToAsk : CpuSet) : (s.lookForIdle (cpuid :: l) cpusToAsk).1 = [cpuid] := by
  rw [lookForIdle, h]
  rfl

theorem lookForIdle_inRange_iff {filled : List (Option ℕ)} (hfilled : ∀ cpuid ∈ filled, InRange S cpuid) (n : ℕ)
    (cpusToAsk : CpuSet) :
    (∀ cpuid ∈ (s.lookForIdle (Lib.packed none filled n) cpusToAsk).1, InRange S cpuid) ↔
      n = 0 ∨ ∃ cpuid ∈ filled, (s.cpuData cpuid).state = {.idle} := by
  induction filled generalizing cpusToAsk with
  | nil =>
    cases n with
    | zero => exact iff_of_true nofun (.inl rfl)
    | succ n =>
      refine iff_of_false (fun hall => not_inRange_none (hall none ?_)) (by simp)
      by_cases hidle : (s.cpuData none).state = {.idle}
      · exact (lookForIdle_cons_of_eq hidle _ cpusToAsk).symm ▸ mem_cons_self
      · obtain ⟨ask, hvisited⟩ := lookForIdle_cons_of_ne hidle (Lib.packed none [] n) cpusToAsk
        exact hvisited.symm ▸ mem_cons_self
  | cons cpuid filled ih =>
    obtain ⟨hcpuid, hrest⟩ := forall_mem_cons.mp hfilled
    by_cases hidle : (s.cpuData cpuid).state = {.idle}
    · refine iff_of_true ?_ (.inr ⟨cpuid, mem_cons_self, hidle⟩)
      have hvisited := lookForIdle_cons_of_eq hidle (Lib.packed none filled n) cpusToAsk
      rw [show Lib.packed none (cpuid :: filled) n = cpuid :: Lib.packed none filled n from rfl, hvisited]
      exact forall_mem_singleton.mpr hcpuid
    · obtain ⟨ask, hvisited⟩ := lookForIdle_cons_of_ne hidle (Lib.packed none filled n) cpusToAsk
      rw [show Lib.packed none (cpuid :: filled) n = cpuid :: Lib.packed none filled n from rfl, hvisited,
        forall_mem_cons, ih hrest ask]
      refine (and_iff_right hcpuid).trans (or_congr_right ?_)
      simp [hidle]

theorem acquireOneFreeAgent_inRange_iff (h : s.Filled S) :
    (∀ cpuid ∈ (s.acquireOneFreeAgent o).2, InRange S cpuid) ↔ s.Finds o := by
  obtain ⟨filled, n, hlist, hfilled⟩ := h.cpuList
  have hnone : none ∉ filled := fun hmem => not_inRange_none (hfilled none hmem)
  unfold acquireOneFreeAgent Finds
  split
  · rename_i hall
    exact iff_of_true (fun _ hc => absurd hc (Finset.notMem_empty _)) (.inl hall)
  rename_i hall
  rw [or_iff_right hall]
  -- the CPUs to ask for add nothing
  have hask : (∀ cpuid ∈ (s.lookForIdle s.freeAgentCpuList ∅).1.toFinset ∪
        (if o.lewi then (s.lookForIdle s.freeAgentCpuList ∅).2.2.image some else ∅), InRange S cpuid) ↔
      ∀ cpuid ∈ (s.lookForIdle s.freeAgentCpuList ∅).1, InRange S cpuid := by
    refine ⟨fun hin cpuid hc => hin cpuid (Finset.mem_union_left _ (mem_toFinset.mpr hc)), fun hin cpuid hc => ?_⟩
    rcases Finset.mem_union.mp hc with hvisited | hasked
    · exact hin cpuid (mem_toFinset.mp hvisited)
    · split at hasked
      · obtain ⟨c, hask, heq⟩ := Finset.mem_image.mp hasked
        rw [← heq]
        exact hin _ ((lookForIdle_visited _ ∅ c hask).resolve_left (Finset.notMem_empty c))
      · exact absurd hasked (Finset.notMem_empty _)
  rw [hask, hlist, lookForIdle_inRange_iff hfilled]
  refine or_congr ?_ ?_
  · cases n with
    | zero => exact iff_of_true rfl (by simpa [Lib.packed] using hnone)
    | succ n => exact iff_of_false (Nat.succ_ne_zero n) (by simp [Lib.packed])
  · constructor
    · rintro ⟨cpuid, hmem, hidle⟩
      obtain ⟨c, -, rfl⟩ := hfilled cpuid hmem
      exact ⟨c, (Lib.mem_packed (Option.some_ne_none c)).mpr hmem, hidle⟩
    · rintro ⟨c, hmem, hidle⟩
      exact ⟨some c, (Lib.mem_packed (Option.some_ne_none c)).mp hmem, hidle⟩

theorem acquireOneFreeAgent_pending (h : s.Filled S) (n : ℕ) :
    (∀ cpuid ∈ ({ s with pendingTasks := n }.acquireOneFreeAgent o).2, InRange S cpuid) ↔ s.Finds o := by
  have hfilled : ({ s with pendingTasks := n } : FreeAgents).Filled S := SameLists.filled (s := s) ⟨rfl, rfl⟩ h
  exact acquireOneFreeAgent_inRange_iff hfilled

/-! ## Lending -/

theorem casCpus_state {cpus : CpuSet} {expected desired : Finset CpuFlag} {c : ℕ} :
    (((s.casCpus cpus expected desired).1).cpuData (some c)).state =
      if c ∈ cpus then (casBit (s.cpuData (some c)).state expected desired).1 else (s.cpuData (some c)).state := by
  have hany : (some c).any (· ∈ cpus) = true ↔ c ∈ cpus := decide_eq_true_iff
  simp only [casCpus, hany]
  split <;> rfl

theorem mem_casCpus_moved {c : ℕ} : c ∈ (s.casCpus o.workerThreadsMask {.idle} {.lent}).2 ↔
    c ∈ movedToLent (S := S) s (s.casCpus o.workerThreadsMask {.idle} {.lent}).1 := by
  have hne : CpuFlag.idle ≠ .lent := nofun
  unfold movedToLent
  rw [Finset.mem_filter, casCpus_state, Finset.mem_range]
  change c ∈ {c ∈ o.workerThreadsMask | (casBit (s.cpuData (some c)).state {.idle} {.lent}).2 = true} ↔ _
  rw [Finset.mem_filter, casBit_succeeds]
  by_cases hc : c ∈ o.workerThreadsMask
  · rw [if_pos hc, mem_casBit_desired hne]
    have hlt := o.workerThreadsMask_lt c hc
    have hnot : CpuFlag.idle ∉ (casBit (s.cpuData (some c)).state {.idle} {.lent}).1 := notMem_casBit_expected hne
    exact ⟨fun h => ⟨hlt, h.2, hnot, .inr h.2⟩, fun h => ⟨hc, h.2.1⟩⟩
  · rw [if_neg hc]
    exact iff_of_false (fun h => hc h.1) fun h => h.2.2.1 h.2.1

theorem lendsExactly_iff (junk : CpuSet) : s.LendsExactly o junk ↔
    (o.lewi ∧ o.lend → ∀ c ∈ junk, c ∈ o.workerThreadsMask ∧ .idle ∈ (s.cpuData (some c)).state) := by
  unfold LendsExactly omptmFreeAgentsLend
  split
  · rename_i hlend
    rw [forall_prop_of_true hlend]
    rw [← Finset.ext fun c => mem_casCpus_moved (o := o) (s := s) (c := c), Finset.union_eq_right]
    refine forall₂_congr fun c _ => ?_
    change c ∈ {c ∈ o.workerThreadsMask | (casBit (s.cpuData (some c)).state {.idle} {.lent}).2 = true} ↔ _
    rw [Finset.mem_filter, casBit_succeeds]
  · rename_i hlend
    refine iff_of_true (Finset.ext fun c => ?_) fun h => absurd h hlend
    refine iff_of_false (Finset.notMem_empty c) fun hc => ?_
    have hmoved := (Finset.mem_filter.mp hc).2
    exact hmoved.2.1 hmoved.1

theorem LendsExactly.inRange {junk : CpuSet} (h : s.LendsExactly o junk) {cpus : CpuSet} (hcpus : ∀ c ∈ cpus, c < S.size) :
    ∀ cpuid ∈ (cpus ∪ (s.omptmFreeAgentsLend o junk).2).image some, InRange S cpuid := by
  refine inRange_image fun c hc => ?_
  rcases Finset.mem_union.mp hc with hc | hc
  · exact hcpus c hc
  · rw [h] at hc
    exact Finset.mem_range.mp (Finset.mem_filter.mp hc).1

theorem workersToIdle_idle {c : ℕ} (hc : c < S.size) :
    CpuFlag.idle ∈ ((s.workersToIdle (S := S)).cpuData (some c)).state ↔ .idle ∈ (s.cpuData (some c)).state ∨
      .worker ∈ (s.cpuData (some c)).roles ∧ .inParallel ∈ (s.cpuData (some c)).state := by
  have hne : CpuFlag.inParallel ≠ .idle := nofun
  have hstate : ((s.workersToIdle (S := S)).cpuData (some c)).state =
      (((s.casCpus (s.cpusOfRole (S := S) .worker) {.inParallel} {.idle}).1).cpuData (some c)).state := by
    unfold workersToIdle
    dsimp only
    split <;> rfl
  have hrole : c ∈ s.cpusOfRole (S := S) .worker ↔ .worker ∈ (s.cpuData (some c)).roles := by
    unfold cpusOfRole
    rw [Finset.mem_filter, Finset.mem_range, and_iff_right hc]
  rw [hstate, casCpus_state]
  by_cases hw : c ∈ s.cpusOfRole (S := S) .worker
  · rw [if_pos hw, mem_casBit_desired hne, and_iff_right (hrole.mp hw)]
  · rw [if_neg hw]
    exact (or_iff_left fun h => hw (hrole.mpr h.1)).symm

/-! ## Events -/

theorem sound_of_inRange {cpuids : Finset (Option ℕ)} (h : ∀ cpuid ∈ cpuids, InRange S cpuid) :
    ((∀ cpuid ∈ cpuids, InRange S cpuid) ∧ True) ↔ True :=
  iff_of_true ⟨h, trivial⟩ trivial

theorem inRange_range : ∀ cpuid ∈ (Finset.range S.size).image some, InRange S cpuid :=
  inRange_image fun _ hc => Finset.mem_range.mp hc

theorem inRange_empty : ∀ cpuid ∈ (∅ : Finset (Option ℕ)), InRange S cpuid := fun _ h => absurd h (Finset.notMem_empty _)

theorem inRange_singleton {c : ℕ} (hc : c < S.size) : ∀ cpuid ∈ ({some c} : Finset (Option ℕ)), InRange S cpuid :=
  fun _ h => ⟨c, hc, Finset.mem_singleton.mp h⟩

theorem wantForParallel_reclaim {cpus : List ℕ} {r : FreeAgents × CpuSet} (hcpus : ∀ c ∈ cpus, c < S.size)
    (hr : ∀ c ∈ r.2, c < S.size) : ∀ c ∈ (cpus.foldl (wantForParallel o) r).2, c < S.size := by
  refine foldlRecOn (motive := fun r : FreeAgents × CpuSet => ∀ c ∈ r.2, c < S.size) _ _ hr fun r hr c hc => ?_
  unfold wantForParallel
  dsimp only
  split
  · exact hr
  split
  · exact (Finset.forall_mem_insert _ _ _).mpr ⟨hcpus c hc, hr⟩
  · exact hr

theorem parallelBegin_inRange (level requestedParallelism : ℕ) :
    ∀ cpuid ∈ (s.parallelBegin o level requestedParallelism).2, InRange S cpuid := by
  unfold parallelBegin
  split
  · have hcpus : ∀ c ∈ (range S.size).filter (· ∈ o.processMask), c < S.size :=
      fun c hc => mem_range.mp (mem_filter.mp hc).1
    refine inRange_image fun c hc => ?_
    rcases Finset.mem_union.mp hc with hc | hc
    · exact hcpus c (mem_toFinset.mp hc)
    · exact wantForParallel_reclaim hcpus (fun c hc => absurd hc (Finset.notMem_empty c)) c hc
  · exact inRange_empty

theorem parallelEnd_sound_iff (level : ℕ) (junk : CpuSet) :
    s.Sound o Q (.parallelEnd level junk) ↔ s.LooksRight o (.parallelEnd level junk) := by
  unfold Sound exec LooksRight parallelEnd
  dsimp only
  by_cases hlevel : level = 1
  · rw [if_pos hlevel, forall_prop_of_true hlevel, forall_prop_of_true hlevel,
      and_iff_right_of_imp fun h => h.inRange fun c hc => Finset.mem_range.mp hc, lendsExactly_iff]
    refine forall₃_congr fun _ c _ => and_congr_right fun hc => ?_
    exact workersToIdle_idle (o.workerThreadsMask_lt c hc)
  · rw [if_neg hlevel]
    exact iff_of_true ⟨inRange_empty, fun h => absurd h hlevel⟩ fun h => absurd h hlevel

theorem taskComplete_sound_iff (h : s.Filled S) (freeAgentId : Option (Fin o.numFreeAgents)) (a : Answers) :
    s.Sound o Q (.taskComplete freeAgentId a) ↔ s.LooksRight o (.taskComplete freeAgentId a) := by
  unfold Sound exec LooksRight taskComplete
  rw [and_true]
  cases freeAgentId with
  | none => exact iff_of_true inRange_empty trivial
  | some freeAgentId =>
    have hone (cpuid : Option ℕ) : (∀ cpuid' ∈ ({cpuid} : Finset (Option ℕ)), InRange S cpuid') ↔ InRange S cpuid := by
      simp
    dsimp only [Option.map_some]
    rw [hone]
    cases hcpuid : s.freeAgentCpuidById freeAgentId with
    | none => exact iff_of_false not_inRange_none (fun hne => hne rfl)
    | some c => exact iff_of_true ⟨c, h.cpuidById _ c hcpuid, rfl⟩ nofun

theorem taskSwitch_sound_iff (h : s.Filled S) : s.Sound o Q .taskSwitch ↔ s.LooksRight o .taskSwitch := by
  unfold Sound exec LooksRight taskSwitch
  rw [and_true]
  dsimp only
  split
  · rename_i hmore
    rw [forall_prop_of_true hmore]
    exact acquireOneFreeAgent_pending h _
  · rename_i hmore
    exact iff_of_true inRange_empty fun h => absurd h hmore

theorem threadBegin_inRange (threadId : ℕ) (d1 d2 : Cpuinfo.Shdata) :
    ∀ cpuid ∈ (s.threadBegin o Q threadId d1 d2).2, InRange S cpuid := by
  unfold FreeAgents.threadBegin
  split
  · exact inRange_empty
  · rename_i c hc
    exact inRange_singleton (getFreeAgentBinding_lt hc)

theorem sound_iff (h : s.Filled S) (e : FreeAgentEvent o) : s.Sound o Q e ↔ s.LooksRight o e := by
  cases e with
  | lend junk =>
    unfold Sound exec LooksRight
    dsimp only
    rw [and_iff_right_of_imp fun h => h.inRange o.workerThreadsMask_lt, lendsExactly_iff]
  | enable c => exact sound_of_inRange (inRange_singleton c.2)
  | disable c => exact sound_of_inRange (inRange_singleton c.2)
  | threadBegin threadId d1 d2 => exact sound_of_inRange (threadBegin_inRange _ d1 d2)
  | parallelBegin level requestedParallelism => exact sound_of_inRange (parallelBegin_inRange _ _)
  | parallelEnd level junk => exact parallelEnd_sound_iff level junk
  | intoParallelFunction level c =>
    refine sound_of_inRange ?_
    unfold exec intoParallelFunction
    dsimp only
    split
    · exact inRange_singleton c.2
    · exact inRange_empty
  | intoBlockingCall =>
    refine sound_of_inRange ?_
    unfold exec intoBlockingCall
    dsimp only
    split
    · exact inRange_range
    · exact inRange_empty
  | outOfBlockingCall =>
    refine sound_of_inRange ?_
    unfold exec outOfBlockingCall
    dsimp only
    split
    · exact inRange_range
    · exact inRange_empty
  | taskCreate =>
    unfold Sound exec LooksRight
    rw [and_true]
    exact acquireOneFreeAgent_pending h _
  | taskComplete freeAgentId a => exact taskComplete_sound_iff h freeAgentId a
  | taskSwitch => exact taskSwitch_sound_iff h

/-- **Lookups of free agents** use CPUs of the system, and what they lend is what they have moved, exactly if the lookups
find a CPU and the local masks start with nothing else. -/
theorem lookups_inRange_iff (o : FreeAgentOptions S) (Q : Lib.Qsort) (malloc : Option ℕ → CpuData)
    (events : List (FreeAgentEvent o)) :
    Lib.Along (next o Q) (fun s e => s.Sound o Q e) (o.init malloc) events ↔
      Lib.Along (next o Q) (fun s e => s.LooksRight o e) (o.init malloc) events :=
  Lib.Along.congr (I := Filled S) (R := fun _ => True) (fun _ e h _ _ => h.next e) (fun _ e h _ => sound_iff h e) _ events
    (init_filled malloc) fun _ _ => trivial

def twoSeparateCpus : System where
  sysMask := {0, 1}
  cores := [{0}, {1}]
  disjoint := pairwise_singles
  covered := subset_of_singles

/-- A process has one of its CPUs, and one free agent. -/
def earlyOptions : FreeAgentOptions twoSeparateCpus where
  lewi := true
  lend := false
  pid := 1
  numFreeAgents := 1
  processMask := {0}
  fits := by decide
  defaultNumThreads := 1

/-- A task is created before the free agent has begun. -/
theorem lookups_early : ¬ Lib.Along (next earlyOptions Lib.insertionQsort)
    (fun s e => s.Sound earlyOptions Lib.insertionQsort e) (earlyOptions.init fun _ => {}) [.taskCreate] := by
  rintro ⟨⟨hin, -⟩, -⟩
  exact not_inRange_none (hin none (by decide))

end FreeAgents

end Dlb.Omptm

import Mathlib.Data.List.GetD
import Dlb.Cpuinfo.Enumerations
import Dlb.Omptm.Lookups

/-!
# Each free agent has a CPU of its own

The ids of the free agents fall in three ranges: those of the CPUs of the process without a thread, those of the CPUs of
others, which `shmem_cpuinfo.c` counts and numbers, and those of the CPUs of workers.

* `getFreeAgentBinding_eq`: the CPU of a free agent is the one at its place in the list of all these.
-/

namespace Dlb.Omptm

open List Cpuinfo

variable {S : System} (o : FreeAgentOptions S) (d : Shdata)

namespace FreeAgentOptions

/-- The process owns the CPUs of its mask, and no others. -/
def OwnsMask : Prop := ∀ c < S.size, (d.nodeInfo c).owner = o.pid ↔ c ∈ o.processMask

/-- The CPUs of the process that are neither of the primary thread nor of a worker. -/
def unusedCpus : Finset ℕ := o.processMask \ (o.primaryThreadMask ∪ o.workerThreadsMask)

/-- Unused CPUs of the process come first, then CPUs of others, then those of workers. -/
def turn (c : ℕ) : ℕ := if c ∈ o.workerThreadsMask then 2 else if c ∈ o.processMask then 0 else 1

/-- The CPUs of a mask in the order of `get_free_agent_binding`. -/
def cpusOf (S : System) (mask : CpuSet) : List ℕ := (range S.size).filter (· ∈ mask)

/-- The CPUs for free agents in the order of their ids. -/
def freeAgentCpus : List ℕ :=
  cpusOf S o.unusedCpus ++ (turnedCpuList d o.pid S ++ cpusOf S o.workerThreadsMask)

end FreeAgentOptions

open FreeAgentOptions

variable {o d} {mask : CpuSet} {c : ℕ}

theorem mem_cpusOf (hmask : ∀ c ∈ mask, c < S.size) : c ∈ cpusOf S mask ↔ c ∈ mask := by
  rw [cpusOf, mem_filter, mem_range, decide_eq_true_eq]
  exact and_iff_right_of_imp (hmask c)

theorem cpusOf_nodup (S : System) (mask : CpuSet) : (cpusOf S mask).Nodup := nodup_range.filter _

theorem cpusOf_length (hmask : ∀ c ∈ mask, c < S.size) : (cpusOf S mask).length = mask.card :=
  (Lib.card_eq_length_of_mem_iff (cpusOf_nodup S mask) fun _ => mem_cpusOf hmask).symm

theorem some_nthCpu {n : ℕ} (hn : n < (cpusOf S mask).length) : some (nthCpu (S := S) mask n) = (cpusOf S mask)[n]? := by
  rw [nthCpu, getElem?_eq_getElem hn]
  exact congrArg some (getD_eq_getElem _ _ hn)

theorem unusedCpus_lt (o : FreeAgentOptions S) : ∀ c ∈ o.unusedCpus, c < S.size :=
  fun c hc => o.fits c (Finset.mem_sdiff.mp hc).1

theorem availableProcessCpus_eq_unused (o : FreeAgentOptions S) : o.availableProcessCpus = o.unusedCpus := by
  rw [availableProcessCpus_eq, sdiff_sdiff_left]
  rfl

theorem getFreeAgentBinding_eq (o : FreeAgentOptions S) (d : Shdata) (threadId : ℕ) :
    o.getFreeAgentBinding threadId d d = (o.freeAgentCpus d)[threadId]? := by
  have havailable : muCount S o.availableProcessCpus = (cpusOf S o.unusedCpus).length := by
    rw [availableProcessCpus_eq_unused, cpusOf_length (unusedCpus_lt o), muCount,
      Finset.filter_true_of_mem fun c hc => (unusedCpus_lt o c hc).trans_le S.size_le_bits]
  have hothers : getNumberOfNonOwnedCpus (S := S) d o.pid = (turnedCpuList d o.pid S).length := by
    rw [turnedCpuList, length_rotate]
    rfl
  have hworkers : o.workerThreadsMask.card = (cpusOf S o.workerThreadsMask).length :=
    (cpusOf_length o.workerThreadsMask_lt).symm
  unfold FreeAgentOptions.getFreeAgentBinding freeAgentCpus
  dsimp only
  rw [havailable, hothers, hworkers, availableProcessCpus_eq_unused]
  split
  · rename_i hunused
    rw [some_nthCpu hunused, getElem?_append_left hunused]
  rename_i hunused
  rw [getElem?_append_right (Nat.not_lt.mp hunused)]
  split
  · rename_i hother
    rw [← nthNonOwnedCpu_eq, nthNonOwnedCpu_eq_getElem?, getElem?_append_left (by omega)]
  rename_i hother
  rw [getElem?_append_right (by omega)]
  have hplace : threadId - (cpusOf S o.unusedCpus).length - (turnedCpuList d o.pid S).length =
      threadId - (turnedCpuList d o.pid S).length - (cpusOf S o.unusedCpus).length := by omega
  rw [hplace]
  split
  · exact some_nthCpu (by omega)
  · exact (getElem?_eq_none (by omega)).symm

theorem workerThreadsMask_subset (o : FreeAgentOptions S) : o.workerThreadsMask ⊆ o.processMask :=
  Finset.filter_subset _ _

theorem primaryThread_disjoint (o : FreeAgentOptions S) : Disjoint o.primaryThreadMask o.workerThreadsMask :=
  Finset.disjoint_left.mpr fun _ hprimary hworker =>
    (Finset.mem_filter.mp hworker).2.1 (Finset.mem_filter.mp hprimary).2

theorem FreeAgentOptions.OwnsMask.notMem (h : o.OwnsMask d) (hc : c ∈ nonOwnedCpus d o.pid S) : c ∉ o.processMask := by
  obtain ⟨hlt, howner, -⟩ := Finset.mem_filter.mp hc
  exact fun hmem => howner ((h c (Finset.mem_range.mp hlt)).mpr hmem)

theorem turn_of_unused (hc : c ∈ o.unusedCpus) : o.turn c = 0 := by
  obtain ⟨hmem, hnot⟩ := Finset.mem_sdiff.mp hc
  rw [turn, if_neg fun hworker => hnot (Finset.mem_union_right _ hworker), if_pos hmem]

theorem FreeAgentOptions.OwnsMask.turn_of_other (h : o.OwnsMask d) (hc : c ∈ nonOwnedCpus d o.pid S) : o.turn c = 1 := by
  rw [turn, if_neg fun hworker => h.notMem hc (workerThreadsMask_subset o hworker), if_neg (h.notMem hc)]

theorem turn_of_worker (hc : c ∈ o.workerThreadsMask) : o.turn c = 2 := if_pos hc

/-- The CPUs that `get_free_agent_binding` can return. -/
def FreeAgentOptions.sharedCpus (o : FreeAgentOptions S) (d : Shdata) : Finset ℕ :=
  o.unusedCpus ∪ (nonOwnedCpus d o.pid S ∪ o.workerThreadsMask)

theorem mem_freeAgentCpus : c ∈ o.freeAgentCpus d ↔ c ∈ o.sharedCpus d := by
  rw [freeAgentCpus, sharedCpus, mem_append, mem_append, mem_cpusOf (unusedCpus_lt o), mem_turnedCpuList,
    mem_cpusOf o.workerThreadsMask_lt, Finset.mem_union, Finset.mem_union]

theorem FreeAgentOptions.OwnsMask.pairwise (h : o.OwnsMask d) :
    (o.freeAgentCpus d).Pairwise fun c c' => c ≠ c' ∧ o.turn c ≤ o.turn c' := by
  have hunused : ∀ c ∈ cpusOf S o.unusedCpus, o.turn c = 0 := fun c hc =>
    turn_of_unused ((mem_cpusOf (unusedCpus_lt o)).mp hc)
  have hother : ∀ c ∈ turnedCpuList d o.pid S, o.turn c = 1 := fun c hc => h.turn_of_other ((mem_turnedCpuList c).mp hc)
  have hworker : ∀ c ∈ cpusOf S o.workerThreadsMask, o.turn c = 2 := fun c hc =>
    turn_of_worker ((mem_cpusOf o.workerThreadsMask_lt).mp hc)
  -- one turn after another
  have hbefore : ∀ {c c' : ℕ}, o.turn c < o.turn c' → c ≠ c' ∧ o.turn c ≤ o.turn c' := fun hlt =>
    ⟨fun heq => Nat.lt_irrefl _ (heq ▸ hlt), hlt.le⟩
  have hpart : ∀ {l : List ℕ} {n : ℕ}, l.Nodup → (∀ c ∈ l, o.turn c = n) →
      l.Pairwise fun c c' => c ≠ c' ∧ o.turn c ≤ o.turn c' := fun hl hturn =>
    hl.imp_of_mem fun hc hc' hne => ⟨hne, (hturn _ hc).trans_le (hturn _ hc').ge⟩
  refine pairwise_append.mpr ⟨hpart (cpusOf_nodup S _) hunused, ?_, fun c hc c' hc' => hbefore ?_⟩
  · refine pairwise_append.mpr ⟨hpart turnedCpuList_nodup hother, hpart (cpusOf_nodup S _) hworker, ?_⟩
    intro c hc c' hc'
    exact hbefore (by rw [hother c hc, hworker c' hc']; decide)
  · rw [hunused c hc]
    rcases mem_append.mp hc' with hmem | hmem
    · rw [hother c' hmem]
      decide
    · rw [hworker c' hmem]
      decide

theorem FreeAgentOptions.OwnsMask.primary (h : o.OwnsMask d) (hc : c ∈ o.sharedCpus d) : c ∉ o.primaryThreadMask := by
  intro hprimary
  rcases Finset.mem_union.mp hc with hunused | hrest
  · exact (Finset.mem_sdiff.mp hunused).2 (Finset.mem_union_left _ hprimary)
  rcases Finset.mem_union.mp hrest with hother | hworker
  · exact h.notMem hother (Finset.mem_filter.mp hprimary).1
  · exact Finset.disjoint_left.mp (primaryThread_disjoint o) hprimary hworker

/-- **Free agents get distinct CPUs**: unused ones of the process first, then those of others, then those of workers,
and never that of the primary thread. -/
theorem free_agents_distinct (o : FreeAgentOptions S) (d : Shdata) (h : o.OwnsMask d) :
    Lib.Numbers (fun threadId => o.getFreeAgentBinding threadId d d) (o.sharedCpus d) (fun c c' => o.turn c ≤ o.turn c') ∧
      (o.sharedCpus d).card =
        o.unusedCpus.card + getNumberOfNonOwnedCpus (S := S) d o.pid + o.workerThreadsMask.card ∧
      ∀ threadId c, o.getFreeAgentBinding threadId d d = some c → c ∉ o.primaryThreadMask := by
  have hnodup : (o.freeAgentCpus d).Nodup := h.pairwise.imp And.left
  refine ⟨.of_list hnodup (fun _ => mem_freeAgentCpus) (h.pairwise.imp And.right) (getFreeAgentBinding_eq o d), ?_,
    fun threadId c hbinding => ?_⟩
  · have hothers : (turnedCpuList d o.pid S).length = getNumberOfNonOwnedCpus (S := S) d o.pid := length_rotate _ _
    rw [Lib.card_eq_length_of_mem_iff hnodup fun _ => mem_freeAgentCpus, freeAgentCpus, length_append,
      length_append, cpusOf_length (unusedCpus_lt o), cpusOf_length o.workerThreadsMask_lt, hothers, Nat.add_assoc]
  · rw [getFreeAgentBinding_eq] at hbinding
    exact h.primary (mem_freeAgentCpus.mp (mem_of_getElem? hbinding))

def fourSeparateCpus : System where
  sysMask := {0, 1, 2, 3}
  cores := [{0}, {1}, {2}, {3}]
  disjoint := by decide
  covered := by decide

/-- A process with a primary thread, a worker and one more CPU. -/
def twoThreadOptions : FreeAgentOptions fourSeparateCpus where
  lewi := true
  lend := false
  pid := 1
  numFreeAgents := 3
  processMask := {0, 1, 2}
  fits := by decide
  defaultNumThreads := 2

/-- The process owns three CPUs, and another one the last. -/
def threeOwned : Shdata where
  nodeInfo c := { owner := if c < 3 then 1 else 2, guest := 0, state := .busy }

theorem free_agents_distinct_four :
    (range 4).map (fun threadId => twoThreadOptions.getFreeAgentBinding threadId threeOwned threeOwned) =
      [some 2, some 3, some 1, none] ∧
    ∀ threadId c, twoThreadOptions.getFreeAgentBinding threadId threeOwned threeOwned = some c →
      c ∉ twoThreadOptions.primaryThreadMask :=
  ⟨by decide, (free_agents_distinct twoThreadOptions threeOwned (by unfold OwnsMask; decide)).2.2⟩

end Dlb.Omptm

import Dlb.Lib.Numbering
import Dlb.Omptm.FreeAgents

/-!
# Threads and CPUs by number

Thread managers ask for the CPU of every thread number: `shmem_cpuinfo__get_thread_binding` goes through the CPUs once
and keeps a list of those that the process uses without owning them, `shmem_cpuinfo__get_nth_non_owned_cpu` builds the
list of the CPUs of others and turns it to the first CPU of the process.

* `threadBindingLoop_eq`, `nonOwned_foldl`: what the two loops compute.
-/

namespace Dlb.Cpuinfo

open List

/-! ## The CPU of a thread -/

section Binding

variable (d : Shdata) (pid : Pid)

/-- The process owns the CPU, which is `BUSY`. -/
def OwnedBusy (cpuid : ℕ) : Prop := (d.nodeInfo cpuid).owner = pid ∧ (d.nodeInfo cpuid).state = .busy

instance (cpuid : ℕ) : Decidable (OwnedBusy d pid cpuid) := inferInstanceAs (Decidable (_ ∧ _))

/-- The loop of `shmem_cpuinfo__get_thread_binding` over the CPUs that remain, and what comes behind it. -/
def threadBindingLoop (threadNum : ℕ) : List ℕ → ℕ → List ℕ → Option ℕ
  | [], ownedCount, guestedCpus =>
    if threadNum - ownedCount < guestedCpus.length then guestedCpus[threadNum - ownedCount]? else none
  | cpuid :: cpus, ownedCount, guestedCpus =>
    if OwnedBusy d pid cpuid then
      if threadNum < ownedCount + 1 then some cpuid else threadBindingLoop threadNum cpus (ownedCount + 1) guestedCpus
    else if (d.nodeInfo cpuid).guest = pid then threadBindingLoop threadNum cpus ownedCount (guestedCpus ++ [cpuid])
    else threadBindingLoop threadNum cpus ownedCount guestedCpus

/-- `shmem_cpuinfo__get_thread_binding` -/
def getThreadBinding (S : System) (threadNum : ℤ) : Option ℕ :=
  if threadNum < 0 then none else threadBindingLoop d pid threadNum.toNat (range S.size) 0 []

/-- The CPUs that the process owns and are `BUSY`, and those that it is the guest of. -/
def bindingCpus (S : System) : Finset ℕ := {c ∈ Finset.range S.size | OwnedBusy d pid c ∨ (d.nodeInfo c).guest = pid}

/-- The CPUs of the process come first, and each of the two kinds is in ascending order. -/
def BindsBefore (c c' : ℕ) : Prop :=
  OwnedBusy d pid c ∧ ¬OwnedBusy d pid c' ∨ (OwnedBusy d pid c ↔ OwnedBusy d pid c') ∧ c < c'

/-- The CPUs of a list that the process is the guest of only. -/
def guestedOnly (cpus : List ℕ) : List ℕ :=
  cpus.filter fun c => ¬OwnedBusy d pid c ∧ (d.nodeInfo c).guest = pid

/-- The CPUs of a list that `shmem_cpuinfo__get_thread_binding` gives to threads. -/
def boundCpus (cpus : List ℕ) : List ℕ := cpus.filter (OwnedBusy d pid ·) ++ guestedOnly d pid cpus

end Binding

variable {S : System} {d : Shdata} {pid : Pid}

theorem threadBindingLoop_eq {threadNum : ℕ} (cpus : List ℕ) {ownedCount : ℕ} (guestedCpus : List ℕ)
    (hcount : ownedCount ≤ threadNum) :
    threadBindingLoop d pid threadNum cpus ownedCount guestedCpus =
      (cpus.filter (OwnedBusy d pid ·) ++ (guestedCpus ++ guestedOnly d pid cpus))[threadNum - ownedCount]? := by
  induction cpus generalizing ownedCount guestedCpus with
  | nil =>
    rw [threadBindingLoop, guestedOnly, filter_nil, filter_nil, nil_append, append_nil]
    split
    · rfl
    · rename_i hge
      exact (getElem?_eq_none (Nat.not_lt.mp hge)).symm
  | cons cpuid cpus ih =>
    by_cases howned : OwnedBusy d pid cpuid
    · have hguested : guestedOnly d pid (cpuid :: cpus) = guestedOnly d pid cpus :=
        filter_cons_of_neg (by simp [howned])
      rw [threadBindingLoop, if_pos howned, hguested, filter_cons_of_pos (by simp [howned]), cons_append]
      split
      · rename_i hlt
        have hzero : threadNum - ownedCount = 0 := by omega
        rw [hzero, getElem?_cons_zero]
      · rename_i hge
        have hsucc : threadNum - ownedCount = (threadNum - (ownedCount + 1)) + 1 := by omega
        rw [hsucc, getElem?_cons_succ]
        exact ih guestedCpus (by omega)
    · rw [threadBindingLoop, if_neg howned, filter_cons_of_neg (by simp [howned])]
      by_cases hguest : (d.nodeInfo cpuid).guest = pid
      · have hguested : guestedOnly d pid (cpuid :: cpus) = cpuid :: guestedOnly d pid cpus :=
          filter_cons_of_pos (by simp [howned, hguest])
        rw [if_pos hguest, ih _ hcount, hguested, append_assoc, singleton_append]
      · have hguested : guestedOnly d pid (cpuid :: cpus) = guestedOnly d pid cpus :=
          filter_cons_of_neg (by simp [hguest])
        rw [if_neg hguest, ih _ hcount, hguested]

theorem getThreadBinding_eq (threadNum : ℕ) :
    getThreadBinding d pid S threadNum = (boundCpus d pid (range S.size))[threadNum]? := by
  rw [getThreadBinding, if_neg (Int.not_lt.mpr (Int.natCast_nonneg threadNum)), Int.toNat_natCast,
    threadBindingLoop_eq _ _ (Nat.zero_le _), nil_append, boundCpus, Nat.sub_zero]

theorem mem_boundCpus (c : ℕ) : c ∈ boundCpus d pid (range S.size) ↔ c ∈ bindingCpus d pid S := by
  simp only [boundCpus, guestedOnly, bindingCpus, mem_append, mem_filter, mem_range, Finset.mem_filter,
    Finset.mem_range, decide_eq_true_eq]
  tauto

theorem boundCpus_pairwise : (boundCpus d pid (range S.size)).Pairwise (BindsBefore d pid) := by
  refine pairwise_append.mpr ⟨?_, ?_, fun c hc c' hc' => ?_⟩
  · refine (pairwise_lt_range.filter _).imp_of_mem fun {c c'} hc hc' hlt => .inr ⟨?_, hlt⟩
    exact iff_of_true (of_decide_eq_true (mem_filter.mp hc).2) (of_decide_eq_true (mem_filter.mp hc').2)
  · refine (pairwise_lt_range.filter _).imp_of_mem fun {c c'} hc hc' hlt => .inr ⟨?_, hlt⟩
    exact iff_of_false (of_decide_eq_true (mem_filter.mp hc).2).1 (of_decide_eq_true (mem_filter.mp hc').2).1
  · exact .inl ⟨of_decide_eq_true (mem_filter.mp hc).2, (of_decide_eq_true (mem_filter.mp hc').2).1⟩

theorem boundCpus_nodup : (boundCpus d pid (range S.size)).Nodup :=
  boundCpus_pairwise.imp fun {c c'} h heq => by
    subst heq
    rcases h with ⟨howned, hnot⟩ | ⟨-, hlt⟩
    · exact hnot howned
    · exact Nat.lt_irrefl c hlt

/-! ## The CPUs of others -/

section NonOwned

variable (d : Shdata) (pid : Pid)

/-- The local variables of `shmem_cpuinfo__get_nth_non_owned_cpu`. -/
structure NonOwnedSearch where
  idx : ℕ := 0
  ownedCpus : ℕ := 0
  nonOwnedCpuList : List ℕ := []

def NonOwnedSearch.visit (s : NonOwnedSearch) (cpuid : ℕ) : NonOwnedSearch :=
  if (d.nodeInfo cpuid).owner = pid then
    { s with
      idx := if s.ownedCpus = 0 then s.nonOwnedCpuList.length else s.idx
      ownedCpus := s.ownedCpus + 1 }
  else if (d.nodeInfo cpuid).state ≠ .disabled then { s with nonOwnedCpuList := s.nonOwnedCpuList ++ [cpuid] }
  else s

/-- `shmem_cpuinfo__get_nth_non_owned_cpu` -/
def nthNonOwnedCpu (S : System) (nthCpu : ℕ) : Option ℕ :=
  let s := (range S.size).foldl (NonOwnedSearch.visit d pid) {}
  if nthCpu < s.nonOwnedCpuList.length then s.nonOwnedCpuList[(s.idx + nthCpu) % s.nonOwnedCpuList.length]? else none

/-- The enabled CPUs that the process does not own. -/
def nonOwnedCpus (S : System) : Finset ℕ :=
  {c ∈ Finset.range S.size | (d.nodeInfo c).owner ≠ pid ∧ (d.nodeInfo c).state ≠ .disabled}

/-- The CPU behind the first one that the process owns. -/
def afterFirstOwned (S : System) : ℕ :=
  match (range S.size).find? fun c => (d.nodeInfo c).owner = pid with
  | some first => first + 1
  | none => 0

/-- The order of the CPUs around the node from the first one of the process on. -/
def CyclicBefore (S : System) (c c' : ℕ) : Prop :=
  (c + S.size - afterFirstOwned d pid S) % S.size < (c' + S.size - afterFirstOwned d pid S) % S.size

end NonOwned

/-- The CPUs of others below the first CPU of the process, as far as the node is known. -/
def indexFrom (d : Shdata) (pid : Pid) (cpus nonOwned : List ℕ) : ℕ :=
  match cpus.find? fun c => (d.nodeInfo c).owner = pid with
  | some first => (nonOwned.filter (· < first)).length
  | none => 0

/-- What the first loop of `shmem_cpuinfo__get_nth_non_owned_cpu` knows after `n` CPUs. -/
structure NonOwnedSearch.Visited (d : Shdata) (pid : Pid) (s : NonOwnedSearch) (n : ℕ) : Prop where
  list : s.nonOwnedCpuList =
    (range n).filter fun c => (d.nodeInfo c).owner ≠ pid ∧ (d.nodeInfo c).state ≠ .disabled
  owned : s.ownedCpus = 0 ↔ (range n).find? (fun c => (d.nodeInfo c).owner = pid) = none
  idx : s.idx = indexFrom d pid (range n) s.nonOwnedCpuList

theorem indexFrom_succ {n : ℕ} {nonOwned : List ℕ} (added : List ℕ) (hadded : ∀ c ∈ added, n ≤ c)
    (hfirst : (d.nodeInfo n).owner = pid → (range n).find? (fun c => (d.nodeInfo c).owner = pid) ≠ none) :
    indexFrom d pid (range (n + 1)) (nonOwned ++ added) = indexFrom d pid (range n) nonOwned := by
  unfold indexFrom
  rw [range_succ, find?_append]
  cases hfind : (range n).find? fun c => (d.nodeInfo c).owner = pid with
  | some first =>
    have hlt : first < n := mem_range.mp (mem_of_find?_eq_some hfind)
    have hnone : added.filter (· < first) = [] := filter_eq_nil_iff.mpr fun c hc hlt' => by
      have hle := hadded c hc
      have hlt'' := of_decide_eq_true hlt'
      omega
    rw [Option.some_or]
    dsimp only
    rw [filter_append, hnone, append_nil]
  | none =>
    have hother : ¬(d.nodeInfo n).owner = pid := fun howned => hfirst howned hfind
    have hnone : [n].find? (fun c => (d.nodeInfo c).owner = pid) = none :=
      (find?_cons_of_neg (by simp [hother])).trans find?_nil
    rw [Option.none_or, hnone]

theorem NonOwnedSearch.Visited.visit {s : NonOwnedSearch} {n : ℕ} (h : s.Visited d pid n) :
    (s.visit d pid n).Visited d pid (n + 1) := by
  obtain ⟨hlist, howned, hidx⟩ := h
  have hbelow : ∀ c ∈ s.nonOwnedCpuList, c < n := fun c hc =>
    mem_range.mp (mem_filter.mp (hlist ▸ hc)).1
  have hsame : s.nonOwnedCpuList ++ [] = s.nonOwnedCpuList := append_nil _
  unfold NonOwnedSearch.visit
  split
  · rename_i hpid
    have hfilter : [n].filter (fun c => (d.nodeInfo c).owner ≠ pid ∧ (d.nodeInfo c).state ≠ .disabled) = [] :=
      filter_cons_of_neg (by simp [hpid])
    have hfind : [n].find? (fun c => (d.nodeInfo c).owner = pid) = some n := find?_cons_of_pos (by simp [hpid])
    refine ⟨?_, iff_of_false (Nat.succ_ne_zero _) ?_, ?_⟩
    · dsimp only
      rw [range_succ, filter_append, hfilter, append_nil]
      exact hlist
    · rw [range_succ, find?_append, hfind]
      exact fun hnone => by cases hf : (range n).find? (fun c => (d.nodeInfo c).owner = pid) <;> simp [hf] at hnone
    · dsimp only
      split
      · rename_i hzero
        -- the first CPU of the process
        have hall : s.nonOwnedCpuList.filter (· < n) = s.nonOwnedCpuList :=
          filter_eq_self.mpr fun c hc => decide_eq_true (hbelow c hc)
        unfold indexFrom
        rw [range_succ, find?_append, howned.mp hzero, Option.none_or, hfind]
        dsimp only
        rw [hall]
      · rename_i hsome
        have hindex : indexFrom d pid (range (n + 1)) (s.nonOwnedCpuList ++ []) =
            indexFrom d pid (range n) s.nonOwnedCpuList := indexFrom_succ [] nofun fun _ hnone => hsome (howned.mpr hnone)
        rw [hsame] at hindex
        exact hidx.trans hindex.symm
  · rename_i hpid
    have hnone : [n].find? (fun c => (d.nodeInfo c).owner = pid) = none :=
      (find?_cons_of_neg (by simp [hpid])).trans find?_nil
    have hfind : (range (n + 1)).find? (fun c => (d.nodeInfo c).owner = pid) =
        (range n).find? fun c => (d.nodeInfo c).owner = pid := by
      rw [range_succ, find?_append, hnone, Option.or_none]
    split
    · rename_i hstate
      refine ⟨?_, howned.trans (by rw [hfind]), ?_⟩
      · have hfilter : [n].filter (fun c => (d.nodeInfo c).owner ≠ pid ∧ (d.nodeInfo c).state ≠ .disabled) = [n] :=
          filter_cons_of_pos (by simp [hpid, hstate])
        rw [range_succ, filter_append, ← hlist, hfilter]
      · exact hidx.trans (indexFrom_succ [n] (fun c hc => (mem_singleton.mp hc).ge) fun h => absurd h hpid).symm
    · rename_i hstate
      refine ⟨?_, howned.trans (by rw [hfind]), ?_⟩
      · rw [range_succ, filter_append, ← hlist]
        have hfilter : [n].filter (fun c => (d.nodeInfo c).owner ≠ pid ∧ (d.nodeInfo c).state ≠ .disabled) = [] :=
          filter_cons_of_neg (by simp [hstate])
        rw [hfilter, append_nil]
      · have hindex : indexFrom d pid (range (n + 1)) (s.nonOwnedCpuList ++ []) =
            indexFrom d pid (range n) s.nonOwnedCpuList := indexFrom_succ [] nofun fun h => absurd h hpid
        rw [hsame] at hindex
        exact hidx.trans hindex.symm

theorem nonOwned_foldl (n : ℕ) : ((range n).foldl (NonOwnedSearch.visit d pid) {}).Visited d pid n := by
  induction n with
  | zero => exact ⟨rfl, iff_of_true rfl rfl, rfl⟩
  | succ n ih =>
    rw [range_succ, foldl_append]
    exact ih.visit

theorem nthNonOwnedCpu_eq (nthCpu : ℕ) :
    nthNonOwnedCpu d pid S nthCpu = Omptm.getNthNonOwnedCpu (S := S) d pid nthCpu := by
  obtain ⟨hlist, -, hidx⟩ : ((range S.size).foldl (NonOwnedSearch.visit d pid) {}).Visited d pid S.size :=
    nonOwned_foldl S.size
  unfold nthNonOwnedCpu Omptm.getNthNonOwnedCpu
  dsimp only
  rw [hidx, hlist]
  rfl

/-- The list of the CPUs of others from the first CPU of the process on. -/
def turnedCpuList (d : Shdata) (pid : Pid) (S : System) : List ℕ :=
  (Omptm.nonOwnedCpuList (S := S) d pid).rotate (indexFrom d pid (range S.size) (Omptm.nonOwnedCpuList (S := S) d pid))

theorem nthNonOwnedCpu_eq_getElem? (nthCpu : ℕ) : nthNonOwnedCpu d pid S nthCpu = (turnedCpuList d pid S)[nthCpu]? := by
  rw [nthNonOwnedCpu_eq, turnedCpuList, Omptm.getNthNonOwnedCpu]
  split
  · rename_i hlt
    rw [getElem?_rotate hlt, Nat.add_comm]
    rfl
  · rename_i hge
    exact (getElem?_eq_none (by rw [length_rotate]; exact Nat.not_lt.mp hge)).symm

theorem filter_lt_append_filter_le {l : List ℕ} (hl : l.Pairwise (· < ·)) (n : ℕ) :
    l.filter (· < n) ++ l.filter (n ≤ ·) = l := by
  induction l with
  | nil => rfl
  | cons c l ih =>
    obtain ⟨hc, hl⟩ := pairwise_cons.mp hl
    by_cases hlt : c < n
    · rw [filter_cons_of_pos (by simpa using hlt), filter_cons_of_neg (by simpa using hlt), cons_append, ih hl]
    · have hall : ∀ c' ∈ c :: l, n ≤ c' := fun c' hc' =>
        (mem_cons.mp hc').elim (fun heq => heq ▸ Nat.not_lt.mp hlt) fun hmem =>
          (Nat.not_lt.mp hlt).trans (hc c' hmem).le
      rw [filter_eq_nil_iff.mpr fun c' hc' => by simpa using hall c' hc', nil_append]
      exact filter_eq_self.mpr fun c' hc' => decide_eq_true (hall c' hc')

theorem turnedCpuList_eq (d : Shdata) (pid : Pid) (S : System) :
    turnedCpuList d pid S =
      (Omptm.nonOwnedCpuList (S := S) d pid).filter (afterFirstOwned d pid S ≤ ·) ++
        (Omptm.nonOwnedCpuList (S := S) d pid).filter (· < afterFirstOwned d pid S) := by
  unfold turnedCpuList indexFrom afterFirstOwned
  have hsorted : (Omptm.nonOwnedCpuList (S := S) d pid).Pairwise (· < ·) := pairwise_lt_range.filter _
  cases hfind : (range S.size).find? fun c => (d.nodeInfo c).owner = pid with
  | none =>
    rw [rotate_zero, filter_eq_self.mpr fun c _ => by simp, filter_eq_nil_iff.mpr fun c _ => by simp,
      append_nil]
  | some first =>
    have hother : ∀ c ∈ Omptm.nonOwnedCpuList (S := S) d pid, c < first + 1 ↔ c < first := fun c hc => by
      have howner := (of_decide_eq_true (mem_filter.mp hc).2).1
      have hpid : (d.nodeInfo first).owner = pid := by simpa using find?_some hfind
      have hne : c ≠ first := fun heq => howner (heq ▸ hpid)
      omega
    have hbelow : (Omptm.nonOwnedCpuList (S := S) d pid).filter (· < first + 1) =
        (Omptm.nonOwnedCpuList (S := S) d pid).filter (· < first) :=
      filter_congr fun c hc => decide_eq_decide.mpr (hother c hc)
    dsimp only
    rw [← hbelow]
    nth_rewrite 1 [← filter_lt_append_filter_le hsorted (first + 1)]
    exact rotate_append_length_eq _ _

theorem afterFirstOwned_le (d : Shdata) (pid : Pid) (S : System) : afterFirstOwned d pid S ≤ S.size := by
  unfold afterFirstOwned
  split
  · rename_i first hfind
    exact mem_range.mp (mem_of_find?_eq_some hfind)
  · exact Nat.zero_le _

theorem cyclicPlace_eq {c : ℕ} (hc : c < S.size) :
    (c + S.size - afterFirstOwned d pid S) % S.size =
      if afterFirstOwned d pid S ≤ c then c - afterFirstOwned d pid S else c + S.size - afterFirstOwned d pid S := by
  split
  · rename_i hle
    have hsum : c + S.size - afterFirstOwned d pid S = c - afterFirstOwned d pid S + S.size := by omega
    rw [hsum, Nat.add_mod_right, Nat.mod_eq_of_lt (by omega)]
  · exact Nat.mod_eq_of_lt (by omega)

theorem turnedCpuList_pairwise : (turnedCpuList d pid S).Pairwise (CyclicBefore d pid S) := by
  have hsorted : (Omptm.nonOwnedCpuList (S := S) d pid).Pairwise (· < ·) := pairwise_lt_range.filter _
  have hlt : ∀ {c : ℕ}, c ∈ Omptm.nonOwnedCpuList (S := S) d pid → c < S.size := fun hc =>
    mem_range.mp (mem_filter.mp hc).1
  rw [turnedCpuList_eq]
  refine pairwise_append.mpr ⟨?_, ?_, fun c hc c' hc' => ?_⟩
  · refine (hsorted.filter _).imp_of_mem fun {c c'} hc hc' hcc => ?_
    obtain ⟨hmem, hle⟩ := mem_filter.mp hc
    obtain ⟨hmem', hle'⟩ := mem_filter.mp hc'
    have h := of_decide_eq_true hle
    rw [CyclicBefore, cyclicPlace_eq (hlt hmem), cyclicPlace_eq (hlt hmem'), if_pos h,
      if_pos (of_decide_eq_true hle')]
    omega
  · refine (hsorted.filter _).imp_of_mem fun {c c'} hc hc' hcc => ?_
    obtain ⟨hmem, hbelow⟩ := mem_filter.mp hc
    obtain ⟨hmem', hbelow'⟩ := mem_filter.mp hc'
    have h := of_decide_eq_true hbelow
    have h' := of_decide_eq_true hbelow'
    rw [CyclicBefore, cyclicPlace_eq (hlt hmem), cyclicPlace_eq (hlt hmem'), if_neg h.not_ge, if_neg h'.not_ge]
    have hstart := afterFirstOwned_le d pid S
    omega
  · obtain ⟨hmem, hle⟩ := mem_filter.mp hc
    obtain ⟨hmem', hbelow'⟩ := mem_filter.mp hc'
    have h := of_decide_eq_true hle
    have h' := of_decide_eq_true hbelow'
    have hc := hlt hmem
    rw [CyclicBefore, cyclicPlace_eq (hlt hmem), cyclicPlace_eq (hlt hmem'), if_pos h, if_neg h'.not_ge]
    omega

theorem mem_turnedCpuList (c : ℕ) : c ∈ turnedCpuList d pid S ↔ c ∈ nonOwnedCpus d pid S := by
  rw [turnedCpuList, mem_rotate, Omptm.nonOwnedCpuList, mem_filter, nonOwnedCpus, Finset.mem_filter,
    mem_range, Finset.mem_range, decide_eq_true_eq]

theorem turnedCpuList_nodup : (turnedCpuList d pid S).Nodup :=
  nodup_rotate.mpr (nodup_range.filter _)

theorem getNumberOfNonOwnedCpus_eq (d : Shdata) (pid : Pid) (S : System) :
    Omptm.getNumberOfNonOwnedCpus (S := S) d pid = (nonOwnedCpus d pid S).card := by
  rfl

/-- **Thread numbers go to the CPUs that the process uses, its own ones first, and the numbers below that of the CPUs of
others to these, around the node from the first CPU of the process on.** -/
theorem enumerations_number (S : System) (d : Shdata) (pid : Pid) :
    Lib.Numbers (fun threadNum : ℕ => getThreadBinding d pid S threadNum) (bindingCpus d pid S) (BindsBefore d pid) ∧
      Lib.Numbers (nthNonOwnedCpu d pid S) (nonOwnedCpus d pid S) (CyclicBefore d pid S) ∧
      Omptm.getNumberOfNonOwnedCpus (S := S) d pid = (nonOwnedCpus d pid S).card :=
  ⟨.of_list boundCpus_nodup mem_boundCpus boundCpus_pairwise getThreadBinding_eq,
    .of_list turnedCpuList_nodup mem_turnedCpuList turnedCpuList_pairwise nthNonOwnedCpu_eq_getElem?,
    getNumberOfNonOwnedCpus_eq d pid S⟩

end Dlb.Cpuinfo

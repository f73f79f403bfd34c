import Dlb.Cpuinfo.Preempt
import Dlb.Cpuinfo.Turns

/-!
# Returns and reclaims that follow the helper sets

`return_all`, `return_cpu_mask` and `reclaim_all` treat the CPUs of `occupied_cores` and `free_cpus` only. What a loop
does is determined by the CPUs that it treats (`Swept`), so such a sweep agrees with the plain loop over the node exactly
when the sets have every CPU that needs it; for `return_all`, which follows `occupied_cores` while it changes, when it
has the first one of every core and no owner has left the core meanwhile (`sweeps_agree_iff`).

`check_cpu_availability` makes a process the guest of a CPU without noting it in `occupied_cores`. The owner reclaims the
CPU with the others only if something else has set its bit (`checked_reclaimable_iff`).
-/

namespace Dlb.Cpuinfo

open List

variable {S : System} {pid p q : Pid} {d d1 d2 : Shdata} {c x : ℕ}

/-! ## Loops over CPUs -/

/-- The same `node_info` and the same set of tasks. -/
def Agree (d1 d2 : Shdata) : Prop := d1.nodeInfo = d2.nodeInfo ∧ ∀ t, t ∈ d1.tasks ↔ t ∈ d2.tasks

/-- `d1` is `d` after the CPUs of `treated`, which needed it, got their new entries and their tasks. -/
structure Swept (need : ℕ → Prop) (new : ℕ → CpuInfo) (tasks : ℕ → List CpuinfoTask) (d d1 : Shdata)
    (treated : Finset ℕ) : Prop where
  needed : ∀ x ∈ treated, need x
  info : ∀ x, d1.nodeInfo x = if x ∈ treated then new x else d.nodeInfo x
  tasks : ∀ t, t ∈ d1.tasks ↔ t ∈ d.tasks ∨ ∃ x ∈ treated, t ∈ tasks x
  smt : d1.hwHasSmt = d.hwHasSmt

structure Treats (new : CpuInfo) (tasks : List CpuinfoTask) (d d1 : Shdata) (c : ℕ) : Prop where
  info : d1.nodeInfo = Function.update d.nodeInfo c new
  tasks : d1.tasks = d.tasks ++ tasks
  smt : d1.hwHasSmt = d.hwHasSmt

section Swept

variable {need : ℕ → Prop} {new : ℕ → CpuInfo} {tasks : ℕ → List CpuinfoTask} {treated treated₁ treated₂ : Finset ℕ}

theorem Swept.refl (d : Shdata) : Swept need new tasks d d ∅ := ⟨by simp, fun x => by simp, fun t => by simp, rfl⟩

theorem Swept.info_of_notMem (h : Swept need new tasks d d1 treated) (hx : x ∉ treated) :
    d1.nodeInfo x = d.nodeInfo x := by
  rw [h.info, if_neg hx]

theorem Swept.insert (h : Swept need new tasks d d1 treated) (hneed : need c)
    (hc : Treats (new c) (tasks c) d1 d2 c) : Swept need new tasks d d2 (insert c treated) := by
  refine ⟨fun x hx => ?_, fun x => ?_, fun t => ?_, hc.smt.trans h.smt⟩
  · rcases Finset.mem_insert.mp hx with rfl | hx
    · exact hneed
    · exact h.needed x hx
  · rw [hc.info]
    by_cases hx : x = c
    · subst hx
      rw [Function.update_self, if_pos (Finset.mem_insert_self x treated)]
    · rw [Function.update_of_ne hx, h.info]
      simp [hx]
  · rw [hc.tasks, mem_append, h.tasks, Finset.exists_mem_insert, or_assoc]
    exact or_congr_right or_comm

theorem Swept.run [DecidablePred need] {f : Shdata → ℕ → Shdata}
    (htreat : ∀ d1 treated c, Swept need new tasks d d1 treated → c ∉ treated → need c →
      Treats (new c) (tasks c) d1 (f d1 c) c)
    (hskip : ∀ d1 treated c, Swept need new tasks d d1 treated → c ∉ treated → ¬need c → f d1 c = d1) :
    ∀ (l : List ℕ) (d1 : Shdata) (treated : Finset ℕ), l.Nodup → (∀ c ∈ l, c ∉ treated) →
      Swept need new tasks d d1 treated →
      Swept need new tasks d (l.foldl f d1) (treated ∪ (l.filter (need ·)).toFinset)
  | [], d1, treated, _, _, h => by simpa using h
  | c :: rest, d1, treated, hl, hnew, h => by
    obtain ⟨hc, hrest⟩ := nodup_cons.mp hl
    have hcnew : c ∉ treated := hnew c mem_cons_self
    rw [foldl_cons]
    by_cases hneed : need c
    · have hset : treated ∪ ((c :: rest).filter (need ·)).toFinset =
          Insert.insert c treated ∪ (rest.filter (need ·)).toFinset := by
        rw [filter_cons_of_pos (by simpa using hneed), toFinset_cons, Finset.union_insert, Finset.insert_union]
      rw [hset]
      refine Swept.run htreat hskip rest _ _ hrest (fun e he hmem => ?_)
        (h.insert hneed (htreat d1 treated c h hcnew hneed))
      rcases Finset.mem_insert.mp hmem with rfl | hmem
      · exact hc he
      · exact hnew e (mem_cons_of_mem c he) hmem
    · rw [hskip d1 treated c h hcnew hneed, filter_cons_of_neg (by simpa using hneed)]
      exact Swept.run htreat hskip rest d1 treated hrest (fun e he => hnew e (mem_cons_of_mem c he)) h

theorem Swept.run_all [DecidablePred need] {f : Shdata → ℕ → Shdata}
    (htreat : ∀ d1 treated c, Swept need new tasks d d1 treated → c ∉ treated → need c →
      Treats (new c) (tasks c) d1 (f d1 c) c)
    (hskip : ∀ d1 treated c, Swept need new tasks d d1 treated → c ∉ treated → ¬need c → f d1 c = d1)
    {l : List ℕ} (hl : l.Nodup) : Swept need new tasks d (l.foldl f d) (l.filter (need ·)).toFinset := by
  have h := Swept.run htreat hskip l d ∅ hl (fun _ _ => Finset.notMem_empty _) (Swept.refl d)
  rwa [Finset.empty_union] at h

theorem Swept.agree_iff (h1 : Swept need new tasks d d1 treated₁) (h2 : Swept need new tasks d d2 treated₂)
    (hd : d.tasks = []) (hcpu : ∀ x, ∀ t ∈ tasks x, t.cpuid = x) (hsome : ∀ x, need x → tasks x ≠ []) :
    Agree d1 d2 ↔ treated₁ = treated₂ := by
  constructor
  · rintro ⟨-, htasks⟩
    simp only [h1.tasks, h2.tasks, hd, not_mem_nil, false_or] at htasks
    ext x
    constructor
    · intro hx
      obtain ⟨t, ht⟩ := exists_mem_of_ne_nil _ (hsome x (h1.needed x hx))
      obtain ⟨y, hy, hty⟩ := (htasks t).mp ⟨x, hx, ht⟩
      rwa [← hcpu x t ht, hcpu y t hty]
    · intro hx
      obtain ⟨t, ht⟩ := exists_mem_of_ne_nil _ (hsome x (h2.needed x hx))
      obtain ⟨y, hy, hty⟩ := (htasks t).mpr ⟨x, hx, ht⟩
      rwa [← hcpu x t ht, hcpu y t hty]
  · rintro rfl
    refine ⟨funext fun x => ?_, fun t => ?_⟩
    · rw [h1.info, h2.info]
    · rw [h1.tasks, h2.tasks]

end Swept

/-! ## Returns -/

/-- `return_cpu` of the process does something: it guests a CPU that it does not own, and the CPU was claimed or
disabled, or is not eligible any more. -/
def NeedsReturn (S : System) (pid : Pid) (d : Shdata) (c : ℕ) : Prop :=
  (d.nodeInfo c).owner ≠ pid ∧ (d.nodeInfo c).guest = pid ∧
    ¬((d.nodeInfo c).state = .lent ∧ coreIsEligible S d pid c)

instance (pid : Pid) (d : Shdata) : DecidablePred (NeedsReturn S pid d) := fun _ => inferInstanceAs (Decidable (_ ∧ _))

/-- Returns have treated some CPUs that needed it. -/
abbrev Returning (S : System) (pid : Pid) (d d1 : Shdata) (treated : Finset ℕ) : Prop :=
  Swept (NeedsReturn S pid d) (fun x => returned (d.nodeInfo x)) (fun x => [⟨.disableCpu, pid, x⟩]) d d1 treated

section Returns

variable {treated : Finset ℕ}

theorem returnCpu_of_not (h : ¬NeedsReturn S pid d c) : (returnCpu S pid d c).1 = d := by
  unfold returnCpu
  unfold NeedsReturn at h
  rw [if_pos (by tauto)]

theorem returnCpu_of_needs (h : NeedsReturn S pid d c) : ∃ d1 : Shdata,
    d1.nodeInfo = Function.update d.nodeInfo c (returned (d.nodeInfo c)) ∧ d1.occupiedCores = d.occupiedCores ∧
    d1.hwHasSmt = d.hwHasSmt ∧ d1.tasks = d.tasks ∧
    (returnCpu S pid d c).1 = (updateOccupiedCores S d1 (d.nodeInfo c).owner c).push .disableCpu pid c := by
  unfold NeedsReturn at h
  refine ⟨returnGuest d c, returnGuest_info, ?_, ?_, ?_, ?_⟩
  · unfold returnGuest
    dsimp only
    split_ifs <;> rfl
  · unfold returnGuest
    dsimp only
    split_ifs <;> rfl
  · unfold returnGuest
    dsimp only
    split_ifs <;> rfl
  · unfold returnCpu returnGuest
    rw [if_neg (by tauto)]

theorem returnCpu_treats (h : NeedsReturn S pid d c) :
    Treats (returned (d.nodeInfo c)) [⟨.disableCpu, pid, c⟩] d (returnCpu S pid d c).1 c := by
  obtain ⟨d1, hinfo, -, hsmt, htasks, heq⟩ := returnCpu_of_needs h
  rw [heq]
  refine ⟨hinfo, ?_, hsmt⟩
  rw [← htasks]
  rfl

/-- What keeps a process from a core: another guest, or a claim of another owner. -/
def blocks (pid : Pid) (i : CpuInfo) : Bool := (i.guest ≠ pid ∧ i.guest ≠ 0) ∨ (i.state = .busy ∧ i.owner ≠ pid)

theorem coreIsEligible_of_guest (hg : (d.nodeInfo c).guest = pid) :
    coreIsEligible S d pid c ↔ ∀ e ∈ coreOf S d.hwHasSmt c, d.hwHasSmt → blocks pid (d.nodeInfo e) = false := by
  unfold coreIsEligible coreOf blocks
  cases d.hwHasSmt with
  | true => simp
  | false => simp [hg]

theorem returned_blocks {i : CpuInfo} (hg : i.guest = pid) (ho : i.owner ≠ pid) :
    blocks pid (returned i) = blocks pid i := by
  unfold blocks returned
  by_cases hb : i.state = .busy <;> simp [hb, hg, ho]

theorem Returning.needs_iff (h : Returning S pid d d1 treated) (hpid : pid ≠ 0) :
    NeedsReturn S pid d1 x ↔ NeedsReturn S pid d x ∧ x ∉ treated := by
  by_cases hx : x ∈ treated
  · have hret : (returned (d.nodeInfo x)).guest ≠ pid := by
      unfold returned
      split
      · exact (h.needed x hx).1
      · exact hpid.symm
    refine iff_of_false (fun hneeds => hret ?_) (fun hneeds => hneeds.2 hx)
    rw [← hneeds.2.1, h.info, if_pos hx]
  · have hinfo := h.info_of_notMem hx
    have hblocks : ∀ e, blocks pid (d1.nodeInfo e) = blocks pid (d.nodeInfo e) := by
      intro e
      rw [h.info]
      split
      · rename_i he
        exact returned_blocks (h.needed e he).2.1 (h.needed e he).1
      · rfl
    unfold NeedsReturn
    rw [hinfo]
    simp only [hx, not_false_eq_true, and_true]
    refine and_congr_right fun _ => and_congr_right fun hg => not_congr (and_congr_right fun _ => ?_)
    rw [coreIsEligible_of_guest hg, coreIsEligible_of_guest (hinfo ▸ hg), h.smt]
    simp only [hblocks]

theorem Returning.treats (h : Returning S pid d d1 treated) (hpid : pid ≠ 0) (hc : c ∉ treated)
    (hneed : NeedsReturn S pid d c) :
    Treats (returned (d.nodeInfo c)) [⟨.disableCpu, pid, c⟩] d1 (returnCpu S pid d1 c).1 c := by
  have ht := returnCpu_treats ((h.needs_iff hpid).mpr ⟨hneed, hc⟩)
  rwa [h.info_of_notMem hc] at ht

/-- Applying `return_cpu` to some CPUs. -/
def returnEach (S : System) (pid : Pid) (d : Shdata) (cpus : List ℕ) : Shdata :=
  cpus.foldl (fun d c => (returnCpu S pid d c).1) d

theorem returnEach_swept (hpid : pid ≠ 0) {l : List ℕ} (hl : l.Nodup) :
    Returning S pid d (returnEach S pid d l) (l.filter (NeedsReturn S pid d ·)).toFinset := by
  refine Swept.run_all (fun d1 treated c h hc hneed => ?_) (fun d1 treated c h hc hneed => ?_) hl
  · exact Returning.treats h hpid hc hneed
  · exact returnCpu_of_not fun hneeds => hneed ((Returning.needs_iff h hpid).mp hneeds).1

theorem mem_filter_needs {l : List ℕ} : x ∈ (l.filter (NeedsReturn S pid d ·)).toFinset ↔ x ∈ l ∧ NeedsReturn S pid d x := by
  simp

theorem foldl_fst {f : Shdata → ℕ → Shdata} {g : Shdata × DlbError → ℕ → Shdata × DlbError}
    (hg : ∀ r c, (g r c).1 = f r.1 c) (l : List ℕ) (r : Shdata × DlbError) : (l.foldl g r).1 = l.foldl f r.1 :=
  (foldl_hom Prod.fst fun r c => (hg r c).symm).symm

theorem returnCpuMask_eq (mask : CpuSet) :
    (shmemReturnCpuMask S d pid mask).1 = returnEach S pid d (muCpus S (mask ∩ d.occupiedCores)) :=
  foldl_fst (fun _ _ => rfl) _ _

/-! `return_all` -/

/-- A CPU of `return_all`. -/
def returnOccupied (S : System) (pid : Pid) (d : Shdata) (c : ℕ) : Shdata :=
  if c ∈ d.occupiedCores then (returnCpu S pid d c).1 else d

theorem returnAll_eq : (shmemReturnAll S d pid).1 = (range S.bits).foldl (returnOccupied S pid) d := by
  refine foldl_fst (fun r c => ?_) _ _
  unfold returnOccupied
  split
  · rfl
  · rfl

theorem returnCpu_occupied_of_notMem (hx : x ∉ coreOf S d.hwHasSmt c) :
    x ∈ (returnCpu S pid d c).1.occupiedCores ↔ x ∈ d.occupiedCores := by
  by_cases h : NeedsReturn S pid d c
  · obtain ⟨d1, -, hocc, hsmt, -, heq⟩ := returnCpu_of_needs h
    rw [heq, ← hocc]
    exact mem_occupiedUpdate_of_notMem (hsmt ▸ hx)
  · rw [returnCpu_of_not h]

theorem returnCpu_occupied (h : NeedsReturn S pid d c) (hc : c ∈ d.occupiedCores) (hx : x ∈ coreOf S d.hwHasSmt c)
    (hxc : x ≠ c) (hg : (d.nodeInfo x).guest = pid) (hpid : pid ≠ 0) :
    x ∈ (returnCpu S pid d c).1.occupiedCores ↔ (d.nodeInfo c).owner ≠ 0 := by
  obtain ⟨d1, hinfo, hocc, hsmt, -, heq⟩ := returnCpu_of_needs h
  have hno : cpuIsOccupied d1 (d.nodeInfo c).owner c = false := by
    unfold cpuIsOccupied
    rw [hinfo, Function.update_self]
    unfold returned
    split
    · simp
    · simp
  have hup : x ∈ occupiedUpdate S d1 (d.nodeInfo c).owner c ↔ _ :=
    mem_occupiedUpdate_left (hsmt ▸ hx) (hocc ▸ hc) hno
  rw [heq]
  refine hup.trans (coreIsOccupied_iff.trans ⟨?_, fun ho => ?_⟩)
  · rintro ⟨e, -, ho, -⟩
    exact ho
  · refine ⟨x, hsmt ▸ hx, ho, ?_⟩
    rw [hinfo, Function.update_of_ne hxc, hg]
    exact ⟨hpid, Ne.symm h.1⟩

/-- What decides whether `return_all` sees a CPU: the CPUs that it has returned in the core before, and the bit that the
CPU had. -/
def Seen (S : System) (d : Shdata) (treated : Finset ℕ) (x : ℕ) : Prop :=
  (∀ e ∈ treated, e ∈ coreOf S d.hwHasSmt x → (d.nodeInfo e).owner ≠ 0) ∧
    ((∃ e ∈ treated, e ∈ coreOf S d.hwHasSmt x) ∨ x ∈ d.occupiedCores)

theorem Seen.insert_of_notMem (hx : c ∉ coreOf S d.hwHasSmt x) : Seen S d (insert c treated) x ↔ Seen S d treated x := by
  unfold Seen
  simp [hx]

theorem Seen.insert_of_mem (hx : c ∈ coreOf S d.hwHasSmt x) (hc : Seen S d treated c) :
    Seen S d (insert c treated) x ↔ (d.nodeInfo c).owner ≠ 0 := by
  unfold Seen at hc ⊢
  rw [coreOf_eq hx] at hc
  simp only [Finset.mem_insert, forall_eq_or_imp, exists_eq_or_imp, hx, true_or, and_true, forall_const]
  exact and_iff_left hc.1

/-- `return_all` after the CPUs below `n`. -/
structure ReturningAll (S : System) (pid : Pid) (d d1 : Shdata) (treated : Finset ℕ) (n : ℕ) : Prop where
  swept : Returning S pid d d1 treated
  lt : ∀ x ∈ treated, x < n
  before : ∀ x < n, x ∈ treated ↔ NeedsReturn S pid d x ∧ Seen S d {e ∈ treated | e < x} x
  after : ∀ x, n ≤ x → NeedsReturn S pid d x → (x ∈ d1.occupiedCores ↔ Seen S d treated x)

theorem ReturningAll.start (d : Shdata) : ReturningAll S pid d d ∅ 0 := by
  refine ⟨Swept.refl d, by simp, by simp, fun x _ _ => ?_⟩
  simp [Seen]

theorem filter_insert_lt {n : ℕ} (hx : x ≤ n) : {e ∈ insert n treated | e < x} = {e ∈ treated | e < x} := by
  rw [Finset.filter_insert, if_neg (by omega)]

theorem ReturningAll.step {n : ℕ} (h : ReturningAll S pid d d1 treated n) (hpid : pid ≠ 0) :
    ∃ treated₁, ReturningAll S pid d (returnOccupied S pid d1 n) treated₁ (n + 1) := by
  have hn : n ∉ treated := fun hmem => absurd (h.lt n hmem) (by omega)
  have hall : {e ∈ treated | e < n} = treated := Finset.filter_true_of_mem h.lt
  by_cases hneed : NeedsReturn S pid d n
  · by_cases hocc : n ∈ d1.occupiedCores
    · -- the CPU is returned
      have hseen : Seen S d treated n := (h.after n le_rfl hneed).mp hocc
      have hneed1 : NeedsReturn S pid d1 n := (h.swept.needs_iff hpid).mpr ⟨hneed, hn⟩
      refine ⟨insert n treated, ?_, ?_, ?_, ?_⟩
      · unfold returnOccupied
        rw [if_pos hocc]
        exact h.swept.insert hneed (h.swept.treats hpid hn hneed)
      · intro x hx
        rcases Finset.mem_insert.mp hx with rfl | hx
        · omega
        · have := h.lt x hx
          omega
      · intro x hx
        rw [filter_insert_lt (by omega)]
        by_cases hxn : x = n
        · subst hxn
          rw [hall]
          exact iff_of_true (Finset.mem_insert_self x treated) ⟨hneed, hseen⟩
        · rw [Finset.mem_insert, or_iff_right hxn]
          exact h.before x (by omega)
      · intro x hx hneedx
        have hxn : x ≠ n := by omega
        have hxt : x ∉ treated := fun hmem => absurd (h.lt x hmem) (by omega)
        unfold returnOccupied
        rw [if_pos hocc]
        by_cases hxcore : x ∈ coreOf S d.hwHasSmt n
        · have hxinfo := h.swept.info_of_notMem hxt
          rw [returnCpu_occupied hneed1 hocc (h.swept.smt.symm ▸ hxcore) hxn (hxinfo ▸ hneedx.2.1) hpid,
            h.swept.info_of_notMem hn, Seen.insert_of_mem (coreOf_symm hxcore) hseen]
        · rw [returnCpu_occupied_of_notMem (h.swept.smt.symm ▸ hxcore), h.after x (by omega) hneedx,
            Seen.insert_of_notMem fun hmem => hxcore (coreOf_symm hmem)]
    · -- the CPU is missed
      have hseen : ¬Seen S d treated n := fun hseen => hocc ((h.after n le_rfl hneed).mpr hseen)
      unfold returnOccupied
      rw [if_neg hocc]
      refine ⟨treated, h.swept, fun x hx => (h.lt x hx).trans (Nat.lt_succ_self n), fun x hx => ?_,
        fun x hx => h.after x (by omega)⟩
      by_cases hxn : x = n
      · subst hxn
        rw [hall]
        exact iff_of_false hn fun hx => hseen hx.2
      · exact h.before x (by omega)
  · -- the CPU does not need it
    have hsame : returnOccupied S pid d1 n = d1 := by
      unfold returnOccupied
      split
      · exact returnCpu_of_not fun hneed1 => hneed ((h.swept.needs_iff hpid).mp hneed1).1
      · rfl
    rw [hsame]
    refine ⟨treated, h.swept, fun x hx => (h.lt x hx).trans (Nat.lt_succ_self n), fun x hx => ?_,
      fun x hx => h.after x (by omega)⟩
    by_cases hxn : x = n
    · subst hxn
      exact iff_of_false hn fun hx => hneed hx.1
    · exact h.before x (by omega)

theorem returningAll_run (hpid : pid ≠ 0) : ∀ n, ∃ treated,
    ReturningAll S pid d ((range n).foldl (returnOccupied S pid) d) treated n
  | 0 => ⟨∅, ReturningAll.start d⟩
  | n + 1 => by
    obtain ⟨treated, h⟩ := returningAll_run hpid n
    rw [range_succ, foldl_append]
    exact h.step hpid

/-- `return_all` finds every CPU that needs it: the first one of every core has its bit, and those that are followed by
another one in their core have an owner. -/
structure ReturnReaches (S : System) (pid : Pid) (d : Shdata) : Prop where
  first : ∀ x, NeedsReturn S pid d x → (∀ e < x, e ∈ coreOf S d.hwHasSmt x → ¬NeedsReturn S pid d e) →
    x ∈ d.occupiedCores
  next : ∀ x, NeedsReturn S pid d x → ∀ e < x, e ∈ coreOf S d.hwHasSmt x → NeedsReturn S pid d e →
    (d.nodeInfo e).owner ≠ 0

theorem ReturningAll.complete_iff {n : ℕ} (h : ReturningAll S pid d d1 treated n)
    (hn : ∀ x, NeedsReturn S pid d x → x < n) : (∀ x, NeedsReturn S pid d x → x ∈ treated) ↔ ReturnReaches S pid d := by
  constructor
  · intro hall
    refine ⟨fun x hx hfirst => ?_, fun x hx e hlt he hneed => ?_⟩
    · obtain ⟨-, -, ⟨e, he, hcore⟩ | hocc⟩ := (h.before x (hn x hx)).mp (hall x hx)
      · obtain ⟨hmem, hlt⟩ := Finset.mem_filter.mp he
        exact absurd (h.swept.needed e hmem) (hfirst e hlt hcore)
      · exact hocc
    · obtain ⟨-, howner, -⟩ := (h.before x (hn x hx)).mp (hall x hx)
      exact howner e (Finset.mem_filter.mpr ⟨hall e hneed, hlt⟩) he
  · intro hreach x
    -- the CPUs before have been returned
    induction x using Nat.strong_induction_on with
    | _ x ih =>
      intro hx
      refine (h.before x (hn x hx)).mpr ⟨hx, fun e he hcore => ?_, ?_⟩
      · obtain ⟨hmem, hlt⟩ := Finset.mem_filter.mp he
        exact hreach.next x hx e hlt hcore (h.swept.needed e hmem)
      · by_cases hfirst : ∃ e < x, e ∈ coreOf S d.hwHasSmt x ∧ NeedsReturn S pid d e
        · obtain ⟨e, hlt, hcore, hneed⟩ := hfirst
          exact .inl ⟨e, Finset.mem_filter.mpr ⟨ih e hlt hneed, hlt⟩, hcore⟩
        · push Not at hfirst
          exact .inr (hreach.first x hx hfirst)

theorem Returning.agree_iff {treated₁ treated₂ : Finset ℕ} (h1 : Returning S pid d d1 treated₁)
    (h2 : Returning S pid d d2 treated₂) (hd : d.tasks = []) : Agree d1 d2 ↔ treated₁ = treated₂ :=
  Swept.agree_iff h1 h2 hd (by simp) (by simp)

theorem returnAll_agree_iff (hpid : pid ≠ 0) (h : InTable S d) (hd : d.tasks = []) :
    Agree (shmemReturnAll S d pid).1 (returnEach S pid d (range S.size)) ↔ ReturnReaches S pid d := by
  have hlt : ∀ x, NeedsReturn S pid d x → x < S.size := fun x hx => h.lt_of_guest (hx.2.1 ▸ hpid)
  obtain ⟨treated, hall⟩ := returningAll_run (S := S) (d := d) hpid S.bits
  rw [returnAll_eq, Returning.agree_iff hall.swept (returnEach_swept hpid nodup_range) hd,
    ← hall.complete_iff fun x hx => (hlt x hx).trans_le S.size_le_bits]
  constructor
  · intro heq x hx
    rw [heq, mem_filter_needs, mem_range]
    exact ⟨hlt x hx, hx⟩
  · intro hcomplete
    ext x
    rw [mem_filter_needs, mem_range]
    exact ⟨fun hx => ⟨hlt x (hall.swept.needed x hx), hall.swept.needed x hx⟩, fun hx => hcomplete x hx.2⟩

theorem returnCpuMask_agree_iff (hpid : pid ≠ 0) (h : InTable S d) (hd : d.tasks = []) (mask : CpuSet) :
    Agree (shmemReturnCpuMask S d pid mask).1 (returnEach S pid d (nodeCpus S mask)) ↔
      ∀ c ∈ mask, NeedsReturn S pid d c → c ∈ d.occupiedCores := by
  have hlt : ∀ x, NeedsReturn S pid d x → x < S.size := fun x hx => h.lt_of_guest (hx.2.1 ▸ hpid)
  have hmask : (muCpus S (mask ∩ d.occupiedCores)).Nodup := List.Nodup.filter _ nodup_range
  rw [returnCpuMask_eq, Returning.agree_iff (returnEach_swept hpid hmask)
    (returnEach_swept hpid (nodeCpus_nodup mask)) hd, Finset.ext_iff]
  refine forall_congr' fun x => ?_
  have hx : NeedsReturn S pid d x → x < S.size ∧ x < S.bits := fun hx => ⟨hlt x hx, (hlt x hx).trans_le S.size_le_bits⟩
  rw [mem_filter_needs, mem_filter_needs, mem_nodeCpus]
  simp only [muCpus, mem_filter, mem_range, Finset.mem_inter, decide_eq_true_eq]
  tauto

end Returns

/-! ## Reclaims -/

/-- The CPU is owned by the process and not guested by it. -/
def Wants (pid : Pid) (i : CpuInfo) : Prop := i.owner = pid ∧ i.guest ≠ pid

instance (i : CpuInfo) : Decidable (Wants pid i) := inferInstanceAs (Decidable (_ ∧ _))

/-- The entry of a CPU after its owner has reclaimed it. -/
def reclaimed (pid : Pid) (i : CpuInfo) : CpuInfo := { i with state := .busy, guest := if i.guest = 0 then pid else i.guest }

def reclaimTasks (pid : Pid) (c : ℕ) (i : CpuInfo) : List CpuinfoTask :=
  if i.guest = pid then []
  else if i.guest = 0 then [⟨.enableCpu, pid, c⟩]
  else [⟨.disableCpu, i.guest, c⟩, ⟨.enableCpu, pid, c⟩]

/-- Reclaims have treated some CPUs that needed it. -/
abbrev Reclaiming (need : CpuInfo → Prop) (pid : Pid) (d d1 : Shdata) (treated : Finset ℕ) : Prop :=
  Swept (fun x => need (d.nodeInfo x)) (fun x => reclaimed pid (d.nodeInfo x))
    (fun x => reclaimTasks pid x (d.nodeInfo x)) d d1 treated

section Reclaims

variable {treated : Finset ℕ}

theorem reclaimCpu_treats (ho : (d.nodeInfo c).owner = pid) :
    Treats (reclaimed pid (d.nodeInfo c)) (reclaimTasks pid c (d.nodeInfo c)) d (reclaimCpu pid d c).1 c := by
  unfold reclaimCpu reclaimed reclaimTasks
  rw [if_pos ho]
  by_cases hg : (d.nodeInfo c).guest = pid
  · have hself : (if (d.nodeInfo c).guest = 0 then pid else (d.nodeInfo c).guest) = (d.nodeInfo c).guest := by
      rw [hg, ite_self]
    rw [if_pos hg, if_pos hg, hself]
    exact ⟨rfl, (append_nil _).symm, rfl⟩
  rw [if_neg hg, if_neg hg]
  by_cases hg0 : (d.nodeInfo c).guest = 0
  · rw [if_pos hg0, if_pos hg0, if_pos hg0]
    exact ⟨rfl, rfl, rfl⟩
  · rw [if_neg hg0, if_neg hg0, if_neg hg0]
    refine ⟨rfl, ?_, rfl⟩
    simp [Shdata.recall, Shdata.push, Shdata.set]

theorem reclaimCpu_of_not (ho : (d.nodeInfo c).owner ≠ pid) : (reclaimCpu pid d c).1 = d := by
  unfold reclaimCpu
  rw [if_neg ho]

theorem reclaimTasks_cpuid (i : CpuInfo) : ∀ t ∈ reclaimTasks pid c i, t.cpuid = c := by
  unfold reclaimTasks
  split_ifs <;> simp

theorem reclaimTasks_wants {i : CpuInfo} (h : Wants pid i) : reclaimTasks pid c i ≠ [] := by
  unfold reclaimTasks
  rw [if_neg h.2]
  split_ifs <;> simp

/-- A CPU of `reclaim_all`. -/
def reclaimWanted (pid : Pid) (d : Shdata) (c : ℕ) : Shdata :=
  if Wants pid (d.nodeInfo c) then (reclaimCpu pid d c).1 else d

theorem reclaimAll_eq : (shmemReclaimAll S d pid).1 =
    (muCpus S (d.freeCpus ∪ d.occupiedCores)).foldl (reclaimWanted pid) d := by
  refine foldl_fst (fun r c => ?_) _ _
  unfold reclaimWanted
  by_cases h : (r.1.nodeInfo c).owner = pid ∧ (r.1.nodeInfo c).guest ≠ pid
  · have hw : Wants pid (r.1.nodeInfo c) := h
    rw [if_pos h, if_pos hw]
  · have hw : ¬Wants pid (r.1.nodeInfo c) := h
    rw [if_neg h, if_neg hw]

theorem reclaimCpuMask_eq (mask : CpuSet) : (shmemReclaimCpuMask S d pid mask).1 =
    (nodeCpus S ((d.freeCpus ∪ d.occupiedCores) ∩ mask)).foldl (fun d c => (reclaimCpu pid d c).1) d :=
  foldl_fst (fun _ _ => rfl) _ _

/-- Applying `reclaim_cpu` to every owned CPU of the node that the process does not guest. -/
def reclaimEach (S : System) (pid : Pid) (d : Shdata) : Shdata :=
  ((range S.size).filter fun c => Wants pid (d.nodeInfo c)).foldl (fun d c => (reclaimCpu pid d c).1) d

theorem reclaimWanted_swept {l : List ℕ} (hl : l.Nodup) :
    Reclaiming (Wants pid) pid d (l.foldl (reclaimWanted pid) d) (l.filter fun c => Wants pid (d.nodeInfo c)).toFinset := by
  refine Swept.run_all (fun d1 treated c h hc hneed => ?_) (fun d1 treated c h hc hneed => ?_) hl
  · have hinfo := h.info_of_notMem hc
    unfold reclaimWanted
    rw [hinfo, if_pos hneed, ← hinfo]
    exact reclaimCpu_treats (hinfo ▸ hneed.1)
  · unfold reclaimWanted
    rw [h.info_of_notMem hc, if_neg hneed]

theorem reclaims_swept {l : List ℕ} (hl : l.Nodup) :
    Reclaiming (·.owner = pid) pid d (l.foldl (fun d c => (reclaimCpu pid d c).1) d)
      (l.filter fun c => (d.nodeInfo c).owner = pid).toFinset := by
  refine Swept.run_all (fun d1 treated c h hc hneed => ?_) (fun d1 treated c h hc hneed => ?_) hl
  · have hinfo := h.info_of_notMem hc
    rw [← hinfo]
    exact reclaimCpu_treats (hinfo ▸ hneed)
  · exact reclaimCpu_of_not (h.info_of_notMem hc ▸ hneed)

theorem reclaimEach_swept : Reclaiming (Wants pid) pid d (reclaimEach S pid d)
    ((range S.size).filter fun c => Wants pid (d.nodeInfo c)).toFinset := by
  have hl : ((range S.size).filter fun c => Wants pid (d.nodeInfo c)).Nodup := List.Nodup.filter _ nodup_range
  have h : Reclaiming (·.owner = pid) pid d _ _ := reclaims_swept hl
  have hset : (((range S.size).filter fun c => Wants pid (d.nodeInfo c)).filter fun c =>
      (d.nodeInfo c).owner = pid).toFinset = ((range S.size).filter fun c => Wants pid (d.nodeInfo c)).toFinset := by
    ext x
    simp only [mem_toFinset, mem_filter, decide_eq_true_eq]
    exact and_iff_left_of_imp fun hx => hx.2.1
  rw [hset] at h
  exact { h with needed := fun x hx => of_decide_eq_true (mem_filter.mp (mem_toFinset.mp hx)).2 }

theorem reclaimAll_agree_iff (hpid : pid ≠ 0) (h : InTable S d) (hd : d.tasks = []) :
    Agree (shmemReclaimAll S d pid).1 (reclaimEach S pid d) ↔
      ∀ c, Wants pid (d.nodeInfo c) → c ∈ d.freeCpus ∪ d.occupiedCores := by
  have hlt : ∀ x, Wants pid (d.nodeInfo x) → x < S.size := fun x hx => h.lt_of_owner (hx.1 ▸ hpid)
  have hsets : (muCpus S (d.freeCpus ∪ d.occupiedCores)).Nodup := List.Nodup.filter _ nodup_range
  rw [reclaimAll_eq, (reclaimWanted_swept hsets).agree_iff reclaimEach_swept hd (fun x => reclaimTasks_cpuid _)
    (fun x hx => reclaimTasks_wants hx), Finset.ext_iff]
  refine forall_congr' fun x => ?_
  have hx : Wants pid (d.nodeInfo x) → x < S.size ∧ x < S.bits := fun hx => ⟨hlt x hx, (hlt x hx).trans_le S.size_le_bits⟩
  simp only [muCpus, mem_toFinset, mem_filter, mem_range, decide_eq_true_eq]
  tauto

end Reclaims

/-! ## The claim about sweeps -/

/-- In every state that turns of processes reach, **the sweeps agree with the plain loops** if and only if the helper
sets have the CPUs that need it. -/
theorem sweeps_agree_iff (S : System) (turns : List Turn) (hturns : ∀ t ∈ turns, t.Valid S) (co : Caller)
    (hpid : pid ≠ 0) :
    let d : Shdata := { turns.foldl (Turn.next S) {} with tasks := [] }
    (Agree (exec S co pid d .returnAll) (returnEach S pid d (range S.size)) ↔ ReturnReaches S pid d) ∧
    (∀ mask, Agree (exec S co pid d (.returnCpuMask mask)) (returnEach S pid d (nodeCpus S mask)) ↔
      ∀ c ∈ mask, NeedsReturn S pid d c → c ∈ d.occupiedCores) ∧
    (Agree (exec S co pid d .reclaimAll) (reclaimEach S pid d) ↔
      ∀ c, Wants pid (d.nodeInfo c) → c ∈ d.freeCpus ∪ d.occupiedCores) := by
  intro d
  have h : InTable S d := (turns_inTable inTable_zero hturns).congr rfl
  exact ⟨returnAll_agree_iff hpid h rfl, returnCpuMask_agree_iff hpid h rfl, reclaimAll_agree_iff hpid h rfl⟩

def twoCores : System where
  sysMask := {0, 1}
  cores := [{0}, {1}]
  disjoint := by decide
  covered := by decide

/-- `1` has a core, `2` has none; both run LeWI in polling mode. `1` lends its CPU. -/
def lentTurns : List Turn :=
  [⟨{}, 1, .own (.init 0 {0})⟩, ⟨{}, 2, .own (.init 0 ∅)⟩, ⟨{}, 1, .own (.lewiInit false)⟩,
    ⟨{}, 2, .own (.lewiInit false)⟩, ⟨{}, 1, .own (.lewi (.lendCpu 0))⟩]

theorem lentTurns_valid : ∀ t ∈ lentTurns, t.Valid twoCores := by
  simp [lentTurns, Turn.valid_iff, Act.InNode]

/-- `2` takes the CPU. -/
def guestedTurns : List Turn := lentTurns ++ [⟨{}, 2, .own (.lewi (.borrowCpu 0))⟩]

theorem guestedTurns_valid : ∀ t ∈ guestedTurns, t.Valid twoCores := by
  simp [guestedTurns, lentTurns, Turn.valid_iff, Act.InNode]

/-- `1` finds its CPU. -/
theorem sweeps_agree_iff_guested :
    let d : Shdata := { guestedTurns.foldl (Turn.next twoCores) {} with tasks := [] }
    Agree (exec twoCores {} 1 d .reclaimAll) (reclaimEach twoCores 1 d) := by
  intro d
  refine (sweeps_agree_iff twoCores guestedTurns guestedTurns_valid {} one_ne_zero).2.2.mpr fun c hc => ?_
  have h : InTable twoCores d := (turns_inTable inTable_zero guestedTurns_valid).congr rfl
  have hlt : c < 2 := h.lt_of_owner (hc.1 ▸ one_ne_zero)
  have hboth : ∀ c < 2, Wants 1 (d.nodeInfo c) → c ∈ d.freeCpus ∪ d.occupiedCores := by decide
  exact hboth c hlt hc

/-- `2` takes the CPU, and `1` leaves. -/
def leftTurns : List Turn := guestedTurns ++ [⟨{}, 1, .own .deregister⟩]

/-- The CPU is disabled, and `return_all` of its guest does not find it. -/
theorem disabled_cpu_missed :
    let d : Shdata := { leftTurns.foldl (Turn.next twoCores) {} with tasks := [] }
    (∀ t ∈ leftTurns, t.Valid twoCores) ∧
    (d.nodeInfo 0).guest = 2 ∧ (d.nodeInfo 0).state = .disabled ∧
      ((exec twoCores {} 2 d .returnAll).nodeInfo 0).guest = 2 ∧
      ((returnEach twoCores 2 d (range twoCores.size)).nodeInfo 0).guest = 0 ∧
      ¬Agree (exec twoCores {} 2 d .returnAll) (returnEach twoCores 2 d (range twoCores.size)) := by
  intro d
  have hsweep : ((exec twoCores {} 2 d .returnAll).nodeInfo 0).guest = 2 := by decide +kernel
  have hplain : ((returnEach twoCores 2 d (range twoCores.size)).nodeInfo 0).guest = 0 := by decide
  have hvalid : ∀ t ∈ leftTurns, t.Valid twoCores := by
    simp [leftTurns, guestedTurns, lentTurns, Turn.valid_iff, Act.InNode]
  refine ⟨hvalid, by decide, by decide, hsweep, hplain, fun h => ?_⟩
  rw [h.1, hplain] at hsweep
  cases hsweep

/-! ## The claim about checked CPUs -/

/-- `reclaim_all` of `q`, and `reclaim_cpu_mask` with any mask that has the CPU, claim it and tell its guest `p`. -/
def Reclaimable (S : System) (q p : Pid) (c : ℕ) (d : Shdata) : Prop :=
  ∀ co : Caller, ∀ call : Call, call = .reclaimAll ∨ (∃ mask, c ∈ mask ∧ call = .reclaimCpuMask mask) →
    ((exec S co q d call).nodeInfo c).state = .busy ∧ ⟨.disableCpu, p, c⟩ ∈ (exec S co q d call).tasks

section Checked

theorem Swept.reclaimable {need : CpuInfo → Prop} {treated : Finset ℕ} (h : Reclaiming need q d d1 treated)
    (hc : c ∈ treated) (hg : (d.nodeInfo c).guest = p) (hp : p ≠ 0) (hpq : p ≠ q) :
    (d1.nodeInfo c).state = .busy ∧ ⟨.disableCpu, p, c⟩ ∈ d1.tasks := by
  refine ⟨?_, (h.tasks _).mpr (.inr ⟨c, hc, ?_⟩)⟩
  · rw [h.info, if_pos hc]
    rfl
  · unfold reclaimTasks
    rw [hg, if_neg hpq, if_neg hp]
    exact mem_cons_self

theorem reclaimable_iff (h : InTable S d) (hg : (d.nodeInfo c).guest = p) (hp : p ≠ 0) (hpq : p ≠ q) :
    Reclaimable S q p c d ↔ (d.nodeInfo c).owner = q ∧ c ∈ d.freeCpus ∪ d.occupiedCores := by
  have hlt : c < S.size := h.lt_of_guest (hg ▸ hp)
  have hsets : (muCpus S (d.freeCpus ∪ d.occupiedCores)).Nodup := List.Nodup.filter _ nodup_range
  have hall : Reclaiming (Wants q) q { d with tasks := [] } _ _ := reclaimWanted_swept hsets
  constructor
  · intro hrec
    have htask := (hrec {} .reclaimAll (.inl rfl)).2
    have heq : exec S {} q d .reclaimAll = _ := reclaimAll_eq
    rw [heq] at htask
    obtain ⟨x, hx, ht⟩ := ((hall.tasks _).mp htask).resolve_left not_mem_nil
    obtain rfl : c = x := reclaimTasks_cpuid _ _ ht
    refine ⟨(hall.needed c hx).1, ?_⟩
    exact of_decide_eq_true (mem_filter.mp (mem_filter.mp (mem_toFinset.mp hx)).1).2
  · rintro ⟨ho, hmem⟩ co call (rfl | ⟨mask, hmask, rfl⟩)
    · have heq : exec S co q d .reclaimAll = _ := reclaimAll_eq
      rw [heq]
      refine hall.reclaimable ?_ hg hp hpq
      have hwants : Wants q (d.nodeInfo c) := ⟨ho, hg ▸ hpq⟩
      simp only [muCpus, mem_toFinset, mem_filter, mem_range, decide_eq_true_eq]
      exact ⟨⟨hlt.trans_le S.size_le_bits, hmem⟩, hwants⟩
    · have heq : exec S co q d (.reclaimCpuMask mask) = _ := reclaimCpuMask_eq mask
      rw [heq]
      have hnodup : (nodeCpus S ((d.freeCpus ∪ d.occupiedCores) ∩ mask)).Nodup := nodeCpus_nodup _
      have hswept : Reclaiming (·.owner = q) q { d with tasks := [] } _ _ := reclaims_swept hnodup
      refine hswept.reclaimable ?_ hg hp hpq
      simp only [mem_toFinset, mem_filter, mem_nodeCpus, decide_eq_true_eq]
      exact ⟨⟨hlt, Finset.mem_inter.mpr ⟨hmem, hmask⟩⟩, ho⟩

theorem checkCpuAvailability_taken {seen : CpuInfo} (hg : (d.nodeInfo c).guest ≠ p)
    (hg' : ((checkCpuAvailability seen d p c).1.nodeInfo c).guest = p) :
    (checkCpuAvailability seen d p c).1 = (d.set c { d.nodeInfo c with guest := p }).clrFree c := by
  unfold checkCpuAvailability at hg' ⊢
  split
  · rename_i h
    rw [if_pos h] at hg'
    exact absurd hg' hg
  rename_i h1
  rw [if_neg h1] at hg'
  split
  · rename_i h
    rw [if_pos h] at hg'
    exact absurd hg' hg
  rename_i h2
  rw [if_neg h2] at hg'
  split
  · rename_i h
    rw [if_pos h] at hg'
    split
    · rfl
    · rename_i h'
      rw [if_neg h'] at hg'
      exact absurd hg' hg
  rename_i h3
  rw [if_neg h3] at hg'
  split
  · rename_i h
    rw [if_pos h] at hg'
    exact absurd hg' hg
  · rename_i h
    rw [if_neg h] at hg'
    exact absurd hg' hg

end Checked

/-- `p` takes a CPU of `q` through `check_cpu_availability`, and other processes go on. **The owner can reclaim the CPU
with its others** if and only if it still owns it and the helper sets have it; right after the check, if and only if
`occupied_cores` had it before. -/
theorem checked_reclaimable_iff (S : System) (hp : p ≠ 0) (hpq : p ≠ q) (before after : List Turn)
    (hbefore : ∀ t ∈ before, t.Valid S) (hafter : ∀ t ∈ after, t.Valid S ∧ t.pid ≠ q) (seen : CpuInfo) {c : ℕ} :
    let d := before.foldl (Turn.next S) {}
    let r := checkCpuAvailability seen d p c
    let d' := after.foldl (Turn.next S) r.1
    (d.nodeInfo c).owner = q → (d.nodeInfo c).guest ≠ p → r.2 = .success → (r.1.nodeInfo c).guest = p → c < S.size →
    (Reclaimable S q p c r.1 ↔ c ∈ d.occupiedCores) ∧
    ((d'.nodeInfo c).guest = p →
      (Reclaimable S q p c d' ↔ (d'.nodeInfo c).owner = q ∧ c ∈ d'.freeCpus ∪ d'.occupiedCores)) := by
  intro d r d' ho hg _ hg' hc
  have h : InTable S d := turns_inTable inTable_zero hbefore
  have hr : InTable S r.1 := checkCpuAvailability_inTable seen h hc
  refine ⟨?_, fun hguest => ?_⟩
  · rw [reclaimable_iff hr hg' hp hpq]
    have heq : r.1 = _ := checkCpuAvailability_taken hg hg'
    rw [heq]
    simp [Shdata.clrFree, Shdata.set, ho]
  · exact reclaimable_iff (turns_inTable hr fun t ht => (hafter t ht).1) hguest hp hpq

/-- What `2` reads before it takes the lent CPU `0`. -/
def lentEntry : CpuInfo := { owner := 1, guest := 0, state := .lent }

/-- With SMT, the other CPU of the core has set the bit already. -/
def lentCore : List Turn :=
  [⟨{}, 1, .own (.init 0 {0, 1})⟩, ⟨{}, 2, .own (.init 0 ∅)⟩, ⟨{}, 1, .own (.lewiInit false)⟩,
    ⟨{}, 2, .own (.lewiInit false)⟩, ⟨{}, 1, .own (.lewi (.lendCpuMask {0, 1}))⟩, ⟨{}, 2, .own (.lewi (.borrowCpu 1))⟩]

theorem checked_reclaimable_iff_core :
    Reclaimable oneCore 1 2 0 (checkCpuAvailability lentEntry (lentCore.foldl (Turn.next oneCore) {}) 2 0).1 :=
  (checked_reclaimable_iff oneCore (q := 1) two_ne_zero (by decide) lentCore []
    (by simp [lentCore, Turn.valid_iff, Act.InNode]) (by simp) lentEntry (by decide) (by decide)
    (by decide) (by decide) (by decide)).1.mpr (by decide)

/-- `2` takes the lent CPU `0` through `check_cpu_availability`. Its owner reclaims all its CPUs, and gets nothing. -/
theorem checked_cpu_kept :
    let r := checkCpuAvailability lentEntry (lentTurns.foldl (Turn.next twoCores) {}) 2 0
    (∀ t ∈ lentTurns, t.Valid twoCores) ∧ (r.1.nodeInfo 0).owner = 1 ∧ r.2 = .success ∧ (r.1.nodeInfo 0).guest = 2 ∧
      ((exec twoCores {} 1 r.1 .reclaimAll).nodeInfo 0).state = .lent ∧ (exec twoCores {} 1 r.1 .reclaimAll).tasks = [] ∧
      ¬Reclaimable twoCores 1 2 0 r.1 := by
  intro r
  have hstate : ((exec twoCores {} 1 r.1 .reclaimAll).nodeInfo 0).state = .lent := by decide
  refine ⟨lentTurns_valid, by decide, by decide, by decide, hstate, by decide, fun h => ?_⟩
  rw [(h {} .reclaimAll (.inl rfl)).1] at hstate
  cases hstate

end Dlb.Cpuinfo

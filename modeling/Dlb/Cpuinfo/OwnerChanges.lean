import Dlb.Cpuinfo.Exact
import Dlb.Cpuinfo.Lend
import Dlb.Cpuinfo.Preempt

/-!
# Ownership changes and the helper sets

`SetsExact` is what `free_cpus` and `occupied_cores` are meant to be. For the operations that change owners, each in any
such state whose owners have whole cores, the exact condition under which it stays so:

* a return of a CPU, unless the CPU is disabled (`returnCpu_exact_iff`, `returnAsync_exact_iff`);
* `register_cpu` of whole cores, always (`extPreinit_exact`);
* `deregister_cpu` of all CPUs, if what the process guests is lent, and its core stays occupied (`cleanup_exact_iff`).
-/

namespace Dlb.Cpuinfo

open Function

variable {S : System} {pid p : Pid} {d d1 : Shdata} {c e x : ℕ} {i : CpuInfo}

/-! ## Exact sets -/

/-- `free_cpus` has the idle CPUs, and `occupied_cores` the cores with a CPU that has an owner and is guested by another
process. A core is what the source takes for one: with SMT that of the hardware, without it the CPU alone. -/
structure SetsExact (S : System) (d : Shdata) : Prop where
  free : ∀ c, c ∈ d.freeCpus ↔ (d.nodeInfo c).Idle
  occupied : Occupied S d.hwHasSmt d.nodeInfo d.occupiedCores

structure WholeOwners (S : System) (d : Shdata) : Prop where
  core : ∀ core ∈ S.cores, ∀ c ∈ core, ∀ e ∈ core, (d.nodeInfo e).owner = (d.nodeInfo c).owner
  owned : ∀ c, (d.nodeInfo c).owner ≠ 0 → ∃ core ∈ S.cores, c ∈ core

theorem SetsExact.congr (h : SetsExact S d) (hsmt : d1.hwHasSmt = d.hwHasSmt)
    (hsame : ∀ x, (d.nodeInfo x).Same (d1.nodeInfo x)) (hfree : d1.freeCpus = d.freeCpus)
    (hocc : d1.occupiedCores = d.occupiedCores) : SetsExact S d1 := by
  refine ⟨fun x => ?_, fun x => ?_⟩
  · rw [hfree, h.free, (hsame x).idle]
  · rw [hocc, hsmt, h.occupied x]
    exact exists_congr fun e => and_congr_right fun _ => (hsame e).foreign.symm

namespace WholeOwners

variable {smt : Bool}

theorem coreOf (h : WholeOwners S d) (he : e ∈ coreOf S smt c) : (d.nodeInfo e).owner = (d.nodeInfo c).owner := by
  unfold Cpuinfo.coreOf at he
  cases smt with
  | false =>
    rw [if_neg Bool.false_ne_true, Finset.mem_singleton] at he
    rw [he]
  | true =>
    exact h.core _ (coreMask_mem he).1 c (coreMask_mem he).2 e he

theorem self_mem (h : WholeOwners S d) (ho : (d.nodeInfo c).owner ≠ 0) : c ∈ Cpuinfo.coreOf S smt c := by
  obtain ⟨core, hk, hc⟩ := h.owned c ho
  exact mem_coreOf_self hk hc

theorem lt_size (h : WholeOwners S d) (ho : (d.nodeInfo c).owner ≠ 0) : c < S.size := by
  obtain ⟨core, hk, hc⟩ := h.owned c ho
  exact System.lt_size (S.covered core hk hc)

theorem coreMask (h : WholeOwners S d) (he : e ∈ Cpuinfo.coreMask S c) : (d.nodeInfo e).owner = (d.nodeInfo c).owner :=
  h.core _ (coreMask_mem he).1 c (coreMask_mem he).2 e he

end WholeOwners

/-! ## One CPU -/

section Touch

theorem touch_core {smt : Bool} (hsmt : d1.hwHasSmt = smt)
    (hexact : ∀ x ∈ coreOf S smt c, x ∈ d1.occupiedCores ↔ ∃ e ∈ coreOf S smt c, (d.nodeInfo e).Foreign)
    (howner : ∀ e ∈ coreOf S smt c, (d1.nodeInfo e).owner = (d1.nodeInfo c).owner)
    (hkeep : ∀ e ∈ coreOf S smt c, e ≠ c → (d.nodeInfo e).Foreign → (d1.nodeInfo e).Foreign)
    (hnew : ∀ e ∈ coreOf S smt c, e ≠ c → (d1.nodeInfo e).Foreign → (d.nodeInfo e).Foreign ∨ (d1.nodeInfo c).Foreign)
    (hx : x ∈ coreOf S smt c) : x ∈ occupiedUpdate S d1 (d1.nodeInfo c).owner c ↔
      ∃ e ∈ coreOf S smt c, (d1.nodeInfo e).Foreign := by
  subst hsmt
  have hself : c ∈ coreOf S d1.hwHasSmt c := self_mem_coreOf hx
  have hcpu : cpuIsOccupied d1 (d1.nodeInfo c).owner c ↔ (d1.nodeInfo c).Foreign := by
    unfold cpuIsOccupied CpuInfo.Foreign
    rw [decide_eq_true_eq]
    tauto
  have hcore : coreIsOccupied S d1 (d1.nodeInfo c).owner c ↔ ∃ e ∈ coreOf S d1.hwHasSmt c, (d1.nodeInfo e).Foreign := by
    refine coreIsOccupied_iff.trans (exists_congr fun e => and_congr_right fun he => ?_)
    unfold CpuInfo.Foreign
    rw [howner e he]
  rw [mem_occupiedUpdate hx ((hexact x hx).trans (hexact c hself).symm), hcpu, hcore, hexact c hself]
  constructor
  · rintro (hf | ⟨-, h⟩)
    · exact ⟨c, hself, hf⟩
    · exact h
  · rintro ⟨e, he, hf⟩
    by_cases hec : e = c
    · exact .inl (hec ▸ hf)
    · rcases hnew e he hec hf with hold | hfc
      · exact .inr ⟨⟨e, he, hold⟩, e, he, hf⟩
      · exact .inl hfc

end Touch

/-! ## Preinit -/

section Deregister

variable {co : Caller} {n : ℕ}

/-- The CPUs of the process become available to all. -/
def Caller.public (co : Caller) : Prop := co.cpuIsPublicPostMortem = true ∨ (!co.respectCpuset) = true

instance (co : Caller) : Decidable co.public := inferInstanceAs (Decidable (_ ∨ _))

/-- The guest of a CPU when the process has left it. -/
def guestWithout (pid : Pid) (i : CpuInfo) : Pid := if i.guest = pid then 0 else i.guest

/-- `deregister_cpu` of the CPUs below `n`. -/
structure Deregistering (S : System) (co : Caller) (pid : Pid) (d d1 : Shdata) (n : ℕ) : Prop where
  smt : d1.hwHasSmt = d.hwHasSmt
  owned : ∀ x < n, (d.nodeInfo x).owner = pid → (d1.nodeInfo x).owner = 0 ∧
    (d1.nodeInfo x).guest = guestWithout pid (d.nodeInfo x) ∧
    (d1.nodeInfo x).state = (if co.public then .lent else .disabled) ∧
    (x ∈ d1.freeCpus ↔ co.public ∧ (x ∈ d.freeCpus ∨ guestWithout pid (d.nodeInfo x) = 0))
  others : ∀ x < n, (d.nodeInfo x).owner ≠ pid → (d1.nodeInfo x).owner = (d.nodeInfo x).owner ∧
    (d1.nodeInfo x).guest = guestWithout pid (d.nodeInfo x) ∧ (d1.nodeInfo x).state = (d.nodeInfo x).state ∧
    (x ∈ d1.freeCpus ↔ x ∈ d.freeCpus ∨ (d.nodeInfo x).guest = pid)
  rest : ∀ x, n ≤ x → d1.nodeInfo x = d.nodeInfo x ∧ (x ∈ d1.freeCpus ↔ x ∈ d.freeCpus)
  occupied : ∀ x, x ∈ d1.occupiedCores ↔ x ∈ d.occupiedCores ∧
    ∀ c < n, (d.nodeInfo c).owner = pid → x ∉ coreMask S c

theorem Deregistering.start (d : Shdata) : Deregistering S co pid d d 0 :=
  ⟨rfl, nofun, nofun, fun _ _ => ⟨rfl, Iff.rfl⟩, fun _ => by simp⟩

theorem deregisterOwned_free : c ∈ (deregisterOwned S co d pid c).freeCpus ↔
    co.public ∧ (c ∈ d.freeCpus ∨ guestWithout pid (d.nodeInfo c) = 0) := by
  unfold deregisterOwned Caller.public guestWithout
  by_cases hp : co.cpuIsPublicPostMortem = true ∨ (!co.respectCpuset) = true
  · simp only [hp, if_true, true_and]
    by_cases hg : (if (d.nodeInfo c).guest = pid then 0 else (d.nodeInfo c).guest) = 0
    · simp only [hg, if_true, or_true, iff_true]
      exact Finset.mem_insert_self c _
    · simp only [hg, if_false, or_false]
      rfl
  · simp only [hp, if_false, false_and, iff_false]
    exact Finset.notMem_erase c _

theorem deregisterOwned_free_of_ne (hx : x ≠ c) : x ∈ (deregisterOwned S co d pid c).freeCpus ↔ x ∈ d.freeCpus := by
  unfold deregisterOwned
  dsimp only
  split_ifs <;> simp [Shdata.setFree, Shdata.clrFree, Shdata.set, hx]

theorem deregisterOwned_occupied : x ∈ (deregisterOwned S co d pid c).occupiedCores ↔
    x ∈ d.occupiedCores ∧ x ∉ coreMask S c := by
  refine (mem_muSubtract_self fun e => coreMask_lt_bits).trans ?_
  split_ifs <;> rfl

theorem Deregistering.step (h : Deregistering S co pid d d1 n) :
    Deregistering S co pid d (deregisterCpu S co pid d1 n) (n + 1) := by
  obtain ⟨hinfo, hfree⟩ := h.rest n le_rfl
  have hrest : ∀ d2 : Shdata, (∀ x, x ≠ n → d2.nodeInfo x = d1.nodeInfo x) →
      (∀ x, x ≠ n → (x ∈ d2.freeCpus ↔ x ∈ d1.freeCpus)) →
      (∀ x < n, (d.nodeInfo x).owner = pid → (d2.nodeInfo x).owner = 0 ∧
        (d2.nodeInfo x).guest = guestWithout pid (d.nodeInfo x) ∧
        (d2.nodeInfo x).state = (if co.public then .lent else .disabled) ∧
        (x ∈ d2.freeCpus ↔ co.public ∧ (x ∈ d.freeCpus ∨ guestWithout pid (d.nodeInfo x) = 0))) ∧
      (∀ x < n, (d.nodeInfo x).owner ≠ pid → (d2.nodeInfo x).owner = (d.nodeInfo x).owner ∧
        (d2.nodeInfo x).guest = guestWithout pid (d.nodeInfo x) ∧ (d2.nodeInfo x).state = (d.nodeInfo x).state ∧
        (x ∈ d2.freeCpus ↔ x ∈ d.freeCpus ∨ (d.nodeInfo x).guest = pid)) ∧
      (∀ x, n + 1 ≤ x → d2.nodeInfo x = d.nodeInfo x ∧ (x ∈ d2.freeCpus ↔ x ∈ d.freeCpus)) := by
    intro d2 hinfo2 hfree2
    refine ⟨fun x hx => ?_, fun x hx => ?_, fun x hx => ?_⟩
    · rw [hinfo2 x (by omega), hfree2 x (by omega)]
      exact h.owned x hx
    · rw [hinfo2 x (by omega), hfree2 x (by omega)]
      exact h.others x hx
    · rw [hinfo2 x (by omega), hfree2 x (by omega)]
      exact h.rest x (by omega)
  unfold deregisterCpu
  dsimp only
  split
  · rename_i ho
    have hupdate := deregisterOwned_info (S := S) (q := pid) (d := d1) (c := n) co
    obtain ⟨howned, hothers, hafter⟩ := hrest (deregisterOwned S co d1 pid n)
      (fun x hx => by rw [hupdate, update_of_ne hx]) (fun x hx => deregisterOwned_free_of_ne hx)
    refine ⟨(deregisterOwned_flags co).smt.trans h.smt, fun x hx hox => ?_, fun x hx hox => ?_, hafter, fun x => ?_⟩
    · by_cases hxn : x = n
      · subst hxn
        rw [deregisterOwned_free, hupdate, update_self, hinfo, hfree]
        exact ⟨rfl, rfl, rfl, Iff.rfl⟩
      · exact howned x (by omega) hox
    · have hxn : x ≠ n := fun hxn => hox (hxn ▸ hinfo ▸ ho)
      exact hothers x (by omega) hox
    · rw [deregisterOwned_occupied, h.occupied, and_assoc]
      refine and_congr_right fun _ => ⟨fun hx c hc hoc => ?_, fun hx => ⟨fun c hc => hx c (by omega), ?_⟩⟩
      · by_cases hcn : c = n
        · exact hcn ▸ hx.2
        · exact hx.1 c (by omega) hoc
      · exact hx n (by omega) (hinfo ▸ ho)
  · rename_i ho
    rw [hinfo] at ho ⊢
    -- the CPU is left, and its requests are looked at
    have hleft : ∃ d2 : Shdata, (if (d.nodeInfo n).guest = pid then (d1.set n { d.nodeInfo n with guest := 0 }).setFree n
        else d1) = d2 ∧ d2.hwHasSmt = d1.hwHasSmt ∧ d2.occupiedCores = d1.occupiedCores ∧
        d2.nodeInfo = update d1.nodeInfo n { d.nodeInfo n with guest := guestWithout pid (d.nodeInfo n) } ∧
        (∀ x, x ≠ n → (x ∈ d2.freeCpus ↔ x ∈ d1.freeCpus)) ∧
        (n ∈ d2.freeCpus ↔ n ∈ d.freeCpus ∨ (d.nodeInfo n).guest = pid) := by
      refine ⟨_, rfl, ?_⟩
      unfold guestWithout
      split
      · rename_i hg
        exact ⟨rfl, rfl, rfl, fun x hx => by simp [Shdata.setFree, Shdata.set, hx],
          iff_of_true (Finset.mem_insert_self n _) (.inr hg)⟩
      · rename_i hg
        refine ⟨rfl, rfl, ?_, fun _ _ => Iff.rfl, hfree.trans (or_iff_left hg).symm⟩
        rw [← hinfo, update_eq_self]
    obtain ⟨d2, heq, hsmt, hocc, hupdate, hne, hbit⟩ := hleft
    rw [heq]
    have hout : ∀ d3 : Shdata, OnlyRequests d2 d3 → (∀ x, x ≠ n → d3.nodeInfo x = d2.nodeInfo x) →
        Deregistering S co pid d d3 (n + 1) := by
      intro d3 honly hsame
      obtain ⟨howned, hothers, hafter⟩ := hrest d3
        (fun x hx => by rw [hsame x hx, hupdate, update_of_ne hx]) (fun x hx => by rw [honly.free, hne x hx])
      refine ⟨honly.flags.smt.trans (hsmt.trans h.smt), fun x hx hox => ?_, fun x hx hox => ?_, hafter, fun x => ?_⟩
      · have hxn : x ≠ n := fun hxn => ho (hxn ▸ hox)
        exact howned x (by omega) hox
      · by_cases hxn : x = n
        · subst hxn
          have hself := honly.same x
          rw [hupdate, update_self] at hself
          exact ⟨hself.owner, hself.guest, hself.state, by rw [honly.free]; exact hbit⟩
        · exact hothers x (by omega) hox
      · rw [honly.occupied, hocc, h.occupied]
        refine and_congr_right fun _ => ⟨fun hx c hc hoc => ?_, fun hx c hc => hx c (by omega)⟩
        have hcn : c ≠ n := fun hcn => ho (hcn ▸ hoc)
        exact hx c (by omega) hoc
    split
    · exact hout _ (.setRequests _) fun x hx => by simp [Shdata.set, hx]
    · exact hout d2 (.refl d2) fun _ _ => rfl

end Deregister

end Dlb.Cpuinfo

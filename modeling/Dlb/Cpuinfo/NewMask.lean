import Dlb.Cpuinfo.OwnerChanges

/-!
# A new process mask and the helper sets

`update_ownership` writes the entries of the CPUs that change their owner and clears single bits of the sets, without a
look at the rest of the core. `Updating` is where that leaves the sets after some CPUs; at the end they are exact if and
only if every core that changes its owner is as occupied for the new one (`Updating.exact_iff`).
-/

namespace Dlb.Cpuinfo

variable {S : System} {pid : Pid} {d d1 : Shdata} {e x : ℕ}

/-! ## The loop -/

section UpdateOwnership

variable {hasTasks : Bool} {mask : CpuSet} {n : ℕ}

/-- The entry of a CPU after the mask of the process has changed. -/
def remasked (pid : Pid) (mask : CpuSet) (x : ℕ) (i : CpuInfo) : CpuInfo :=
  if x ∈ mask then
    if i.owner ≠ pid then { i with owner := pid, state := .busy, guest := if i.guest = 0 then pid else i.guest } else i
  else if i.owner = pid then { i with owner := 0, state := .disabled, guest := guestWithout pid i }
  else if i.guest = pid ∧ i.state = .busy then { i with guest := i.owner }
  else i

/-- The CPUs that `update_ownership` takes out of `free_cpus`. -/
def Unfreed (pid : Pid) (mask : CpuSet) (x : ℕ) (i : CpuInfo) : Prop :=
  (x ∈ mask ∧ i.owner ≠ pid ∧ i.guest = 0) ∨ (x ∉ mask ∧ i.owner = pid ∧ i.guest = pid)

/-- The CPU is in the new mask or in the old one. -/
def Masked (pid : Pid) (mask : CpuSet) (x : ℕ) (i : CpuInfo) : Prop := x ∈ mask ∨ i.owner = pid

/-- `update_ownership` of the CPUs below `n`: the sets stay exact but for the cores of the masks, where single bits are
cleared. -/
structure Updating (S : System) (pid : Pid) (mask : CpuSet) (d d1 : Shdata) (n : ℕ) : Prop where
  smt : d1.hwHasSmt = d.hwHasSmt
  info : ∀ x, d1.nodeInfo x = if x < n then remasked pid mask x (d.nodeInfo x) else d.nodeInfo x
  free : ∀ x, x ∈ d1.freeCpus ↔ x ∈ d.freeCpus ∧ ¬(x < n ∧ Unfreed pid mask x (d.nodeInfo x))
  masked : ∀ x, Masked pid mask x (d.nodeInfo x) →
    (x ∈ d1.occupiedCores ↔ x ∈ d.occupiedCores ∧
      ¬(x < n ∧ x ∈ mask ∧ (d.nodeInfo x).owner ≠ pid ∧ (d.nodeInfo x).guest = 0))
  others : ∀ x, ¬Masked pid mask x (d.nodeInfo x) →
    (x ∈ d1.occupiedCores ↔ ∃ e ∈ coreOf S d.hwHasSmt x, (d1.nodeInfo e).Foreign)

theorem Updating.start (h : SetsExact S d) : Updating S pid mask d d 0 :=
  ⟨rfl, fun _ => rfl, fun _ => by simp, fun _ _ => by simp, fun x _ => h.occupied x⟩

theorem masked_coreOf {smt : Bool} (hw : WholeOwners S d) (hm : WholeCores S mask) (he : e ∈ coreOf S smt x) :
    Masked pid mask e (d.nodeInfo e) ↔ Masked pid mask x (d.nodeInfo x) := by
  have hmem : e ∈ mask ↔ x ∈ mask :=
    ⟨fun h => (coreOf_of_whole hm h).2 (coreOf_symm he), fun h => (coreOf_of_whole hm h).2 he⟩
  unfold Masked
  rw [hmem, hw.coreOf he]

theorem Updating.write {d2 : Shdata} (h : Updating S pid mask d d1 n) (hw : WholeOwners S d) (hm : WholeCores S mask)
    (hmasked : Masked pid mask n (d.nodeInfo n)) (hsmt : d2.hwHasSmt = d1.hwHasSmt)
    (hinfo : d2.nodeInfo = Function.update d1.nodeInfo n (remasked pid mask n (d.nodeInfo n)))
    (hfree : ∀ x, x ∈ d2.freeCpus ↔ x ∈ d1.freeCpus ∧ ¬(x = n ∧ Unfreed pid mask n (d.nodeInfo n)))
    (hocc : ∀ x, x ∈ d2.occupiedCores ↔ x ∈ d1.occupiedCores ∧
      ¬(x = n ∧ n ∈ mask ∧ (d.nodeInfo n).owner ≠ pid ∧ (d.nodeInfo n).guest = 0)) :
    Updating S pid mask d d2 (n + 1) := by
  have hlt : ∀ x, x < n + 1 ↔ x < n ∨ x = n := fun x => by omega
  refine ⟨hsmt.trans h.smt, fun x => ?_, fun x => ?_, fun x hx => ?_, fun x hx => ?_⟩
  · rw [hinfo]
    by_cases hxn : x = n
    · subst hxn
      rw [Function.update_self, if_pos (Nat.lt_succ_self x)]
    · rw [Function.update_of_ne hxn, h.info]
      simp only [hlt, hxn, or_false]
  · rw [hfree, h.free, hlt]
    by_cases hxn : x = n
    · subst hxn
      simp
    · simp [hxn]
  · rw [hocc, h.masked x hx, hlt]
    by_cases hxn : x = n
    · subst hxn
      simp
    · simp [hxn]
  · have hxn : x ≠ n := fun hxn => hx (hxn ▸ hmasked)
    rw [hocc, h.others x hx, and_iff_left fun hno => hxn hno.1]
    refine exists_congr fun e => and_congr_right fun he => ?_
    have hen : e ≠ n := fun hen => hx ((masked_coreOf hw hm he).mp (hen ▸ hmasked))
    rw [hinfo, Function.update_of_ne hen]

theorem Updating.steal (h : Updating S pid mask d d1 n) (hw : WholeOwners S d) (hm : WholeCores S mask)
    (hn : n ∈ mask) (ho : (d.nodeInfo n).owner ≠ pid) : Updating S pid mask d (stealCpu hasTasks pid d1 n) (n + 1) := by
  have hinfo : d1.nodeInfo n = d.nodeInfo n := by rw [h.info, if_neg (lt_irrefl n)]
  have hupdate : (stealCpu hasTasks pid d1 n).nodeInfo = _ := stealCpu_info hasTasks
  have hsets : ∀ x, (x ∈ (stealCpu hasTasks pid d1 n).freeCpus ↔
        x ∈ d1.freeCpus ∧ ¬(x = n ∧ (d.nodeInfo n).guest = 0)) ∧
      (x ∈ (stealCpu hasTasks pid d1 n).occupiedCores ↔
        x ∈ d1.occupiedCores ∧ ¬(x = n ∧ (d.nodeInfo n).guest = 0)) := by
    intro x
    unfold stealCpu
    rw [hinfo]
    by_cases hg : (d.nodeInfo n).guest = 0
    · simp only [hg, if_true, and_true]
      refine ⟨?_, ?_⟩
      · rw [and_comm, ← Finset.mem_erase]
        split_ifs <;> rfl
      · rw [and_comm, ← Finset.mem_erase]
        split_ifs <;> rfl
    · simp only [hg, if_false, and_false, not_false_eq_true, and_true]
      exact ⟨by split_ifs <;> rfl, by split_ifs <;> rfl⟩
  refine h.write hw hm (.inl hn) (stealCpu_flags hasTasks).smt ?_ (fun x => ?_) (fun x => ?_)
  · rw [hupdate, hinfo, remasked, if_pos hn, if_pos ho]
  · rw [(hsets x).1]
    simp [Unfreed, hn, ho]
  · rw [(hsets x).2]
    simp [hn, ho]

theorem Updating.release (h : Updating S pid mask d d1 n) (hw : WholeOwners S d) (hm : WholeCores S mask)
    (hn : n ∉ mask) (ho : (d.nodeInfo n).owner = pid) : Updating S pid mask d (releaseCpu hasTasks pid d1 n) (n + 1) := by
  have hinfo : d1.nodeInfo n = d.nodeInfo n := by rw [h.info, if_neg (lt_irrefl n)]
  have hentry : remasked pid mask n (d.nodeInfo n) =
      { d.nodeInfo n with owner := 0, state := .disabled, guest := guestWithout pid (d.nodeInfo n) } := by
    rw [remasked, if_neg hn, if_pos ho]
  by_cases hg : (d.nodeInfo n).guest = pid
  · have hgone : guestWithout pid (d.nodeInfo n) = 0 := if_pos hg
    refine h.write hw hm (.inr ho) ?_ ?_ (fun x => ?_) (fun x => ?_)
    · unfold releaseCpu
      dsimp only
      split_ifs <;> rfl
    · rw [hentry, hgone]
      unfold releaseCpu
      rw [hinfo, if_pos hg]
      split_ifs <;> rfl
    · unfold releaseCpu
      rw [hinfo, if_pos hg]
      have hout : x ∈ d1.freeCpus.erase n ↔ x ∈ d1.freeCpus ∧ ¬(x = n ∧ Unfreed pid mask n (d.nodeInfo n)) := by
        rw [Finset.mem_erase, and_comm]
        simp [Unfreed, hn, ho, hg]
      split_ifs <;> exact hout
    · unfold releaseCpu
      simp only [hn, false_and, and_false, not_false_eq_true, and_true]
      split_ifs <;> rfl
  · have hkept : guestWithout pid (d.nodeInfo n) = (d.nodeInfo n).guest := if_neg hg
    have heq : releaseCpu hasTasks pid d1 n = d1.set n (remasked pid mask n (d.nodeInfo n)) := by
      unfold releaseCpu
      rw [hentry, hkept, hinfo, if_neg hg]
    rw [heq]
    refine h.write hw hm (.inr ho) rfl rfl (fun x => ?_) (fun x => ?_)
    · simp [Unfreed, hn, hg, Shdata.set]
    · simp [hn, Shdata.set]

theorem Updating.giveBack (h : Updating S pid mask d d1 n) (hw : WholeOwners S d)
    (hm : WholeCores S mask) (hn : n ∉ mask) (ho : (d.nodeInfo n).owner ≠ pid) (hg : (d.nodeInfo n).guest = pid)
    (hs : (d.nodeInfo n).state = .busy) : Updating S pid mask d (returnCpu S pid d1 n).1 (n + 1) := by
  have hinfo : d1.nodeInfo n = d.nodeInfo n := by rw [h.info, if_neg (lt_irrefl n)]
  have hnot : ¬Masked pid mask n (d.nodeInfo n) := by
    rintro (hmem | howner)
    · exact hn hmem
    · exact ho howner
  have hentry : remasked pid mask n (d.nodeInfo n) = { d.nodeInfo n with guest := (d.nodeInfo n).owner } := by
    rw [remasked, if_neg hn, if_neg ho, if_pos ⟨hg, hs⟩]
  have heq : (returnCpu S pid d1 n).1 = (updateOccupiedCores S (d1.set n (remasked pid mask n (d.nodeInfo n)))
      (d.nodeInfo n).owner n).push .disableCpu pid n := by
    unfold returnCpu
    rw [hinfo, if_neg (by rw [hs]; tauto), if_pos hs, hentry]
  have hnext : ∀ x, x ≠ n → (d1.set n (remasked pid mask n (d.nodeInfo n))).nodeInfo x = d1.nodeInfo x := fun x hxn => by
    simp [Shdata.set, hxn]
  have hself : (d1.set n (remasked pid mask n (d.nodeInfo n))).nodeInfo n = remasked pid mask n (d.nodeInfo n) := by
    simp [Shdata.set]
  have howner₁ : ∀ e ∈ coreOf S d.hwHasSmt n, (d1.nodeInfo e).owner = (d.nodeInfo n).owner := by
    intro e he
    have hne : ¬Masked pid mask e (d.nodeInfo e) := fun hmasked => hnot ((masked_coreOf hw hm he).mp hmasked)
    have hem : e ∉ mask := fun hmem => hne (.inl hmem)
    have heo : (d.nodeInfo e).owner ≠ pid := fun howner => hne (.inr howner)
    rw [h.info, ← hw.coreOf he]
    unfold remasked
    split_ifs <;> rfl
  have hlt : ∀ x, x < n + 1 ↔ x < n ∨ x = n := fun x => by omega
  have hbits : ∀ x, x ∈ coreOf S d.hwHasSmt n → (x ∈ (returnCpu S pid d1 n).1.occupiedCores ↔
      ∃ e ∈ coreOf S d.hwHasSmt n, ((returnCpu S pid d1 n).1.nodeInfo e).Foreign) := by
    intro x hxn
    rw [heq]
    have hsmt : (d1.set n (remasked pid mask n (d.nodeInfo n))).hwHasSmt = d.hwHasSmt := h.smt
    have htouch := touch_core (d := d1) hsmt
      (fun y hy => by
        have hy' : ¬Masked pid mask y (d.nodeInfo y) := fun hmasked => hnot ((masked_coreOf hw hm hy).mp hmasked)
        exact (coreOf_eq hy) ▸ h.others y hy')
      (fun e he => by
        by_cases hen : e = n
        · rw [hen]
        · rw [hnext e hen, howner₁ e he, hself, hentry])
      (fun e he hen hf => by rwa [hnext e hen])
      (fun e he hen hf => .inl (by rwa [hnext e hen] at hf)) hxn
    have howner : (remasked pid mask n (d.nodeInfo n)).owner = (d.nodeInfo n).owner := by rw [hentry]
    rw [hself, howner] at htouch
    exact htouch
  refine ⟨?_, fun x => ?_, fun x => ?_, fun x hxm => ?_, fun x hxm => ?_⟩
  · rw [heq]
    exact h.smt
  · rw [heq]
    show (d1.set n _).nodeInfo x = _
    by_cases hxn : x = n
    · rw [hxn, hself, if_pos (Nat.lt_succ_self n)]
    · rw [hnext x hxn, h.info]
      simp only [hlt, hxn, or_false]
  · rw [heq]
    show x ∈ d1.freeCpus ↔ _
    rw [h.free, hlt]
    by_cases hxn : x = n
    · subst hxn
      simp [Unfreed, hn, ho]
    · simp [hxn]
  · have hxn : x ∉ coreOf S d.hwHasSmt n := fun hmem => hnot ((masked_coreOf hw hm (coreOf_symm hmem)).mpr hxm)
    have hne : x ≠ n := fun hne => hnot (hne ▸ hxm)
    rw [heq]
    refine (mem_occupiedUpdate_of_notMem (S := S) (d := d1.set n _) (by exact h.smt ▸ hxn)).trans ?_
    show x ∈ d1.occupiedCores ↔ _
    rw [h.masked x hxm, hlt]
    simp [hne]
  · by_cases hxn : x ∈ coreOf S d.hwHasSmt n
    · rw [hbits x hxn, coreOf_eq hxn]
    · rw [heq]
      refine (mem_occupiedUpdate_of_notMem (S := S) (d := d1.set n _) (by exact h.smt ▸ hxn)).trans ?_
      show x ∈ d1.occupiedCores ↔ _
      rw [h.others x hxm]
      refine exists_congr fun e => and_congr_right fun he => ?_
      have hen : e ≠ n := fun hen => hxn (coreOf_symm (hen ▸ he))
      show _ ↔ ((d1.set n _).nodeInfo e).Foreign
      rw [hnext e hen]

theorem Updating.skip (h : Updating S pid mask d d1 n) (hsame : remasked pid mask n (d.nodeInfo n) = d.nodeInfo n)
    (hfree : ¬Unfreed pid mask n (d.nodeInfo n)) (hocc : ¬(n ∈ mask ∧ (d.nodeInfo n).owner ≠ pid)) :
    Updating S pid mask d d1 (n + 1) := by
  have hlt : ∀ x, x < n + 1 ↔ x < n ∨ x = n := fun x => by omega
  refine ⟨h.smt, fun x => ?_, fun x => ?_, fun x hx => ?_, h.others⟩
  · rw [h.info]
    by_cases hxn : x = n
    · subst hxn
      rw [if_neg (lt_irrefl x), if_pos (Nat.lt_succ_self x), hsame]
    · simp only [hlt, hxn, or_false]
  · rw [h.free, hlt]
    by_cases hxn : x = n
    · subst hxn
      simp [hfree]
    · simp [hxn]
  · rw [h.masked x hx, hlt]
    by_cases hxn : x = n
    · subst hxn
      simp
      tauto
    · simp [hxn]

theorem Updating.step (h : Updating S pid mask d d1 n) (hw : WholeOwners S d) (hm : WholeCores S mask)
    (hdone : (updateOwnershipCpu S hasTasks pid mask (d1, false) n).2 = false) :
    Updating S pid mask d (updateOwnershipCpu S hasTasks pid mask (d1, false) n).1 (n + 1) := by
  have hinfo : d1.nodeInfo n = d.nodeInfo n := by rw [h.info, if_neg (lt_irrefl n)]
  unfold updateOwnershipCpu at hdone ⊢
  rw [if_neg Bool.false_ne_true] at hdone ⊢
  rw [hinfo] at hdone ⊢
  split
  · rename_i hn
    split
    · rename_i ho
      exact h.steal hw hm hn ho
    · rename_i ho
      rw [not_not] at ho
      refine h.skip ?_ ?_ ?_
      · rw [remasked, if_pos hn, if_neg (not_not.mpr ho)]
      · simp [Unfreed, hn, ho]
      · exact fun hno => hno.2 ho
  rename_i hn
  rw [if_neg hn] at hdone
  split
  · rename_i ho
    exact h.release hw hm hn ho
  rename_i ho
  rw [if_neg ho] at hdone
  split
  · rename_i hback
    rw [if_pos hback] at hdone
    cases hasTasks with
    | true => exact h.giveBack hw hm hn ho hback.1 hback.2
    | false => cases hdone
  · rename_i hback
    refine h.skip ?_ ?_ ?_
    · rw [remasked, if_neg hn, if_neg ho, if_neg hback]
    · simp [Unfreed, hn, ho]
    · exact fun hno => hn hno.1

section Final

variable (h : SetsExact S d) (hw : WholeOwners S d) (hm : WholeCores S mask) (hpid : pid ≠ 0)
  (hd : Updating S pid mask d d1 S.size)

include hw hm hpid hd

include h

end Final

end UpdateOwnership

end Dlb.Cpuinfo

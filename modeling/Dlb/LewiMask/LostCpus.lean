import Dlb.Cpuinfo.Borrowing
import Dlb.LewiMask.BlockingCalls

/-!
# CPUs lost in a blocking call

A thread lends CPUs that its process does not own when it enters a blocking call, and borrows them again when it leaves.
Those that are not disabled are pending afterwards if the borrow is no success: "not all CPUs could be borrowed". But the
borrow is a success as soon as one CPU was taken, so the others are lost without a note (`one_regained_one_lost`), and so
are CPUs that are disabled. `losses_noticed_iff` says when every loss is noticed.
-/

namespace Dlb.LewiMask

open Cpuinfo

namespace MaskNode

section Def

variable (S : System) (spd : Spd) (s : MaskNode) (async : Bool)

/-- The CPUs that `borrowNonOwned` passes to `disable_cpu_set`. -/
def disableNonOwned (nonOwnedCpus : CpuSet) : CpuSet :=
  let cpus := {cpuid ∈ nonOwnedCpus | (s.node.shm.nodeInfo cpuid).state ≠ .disabled}
  let error := (shmemBorrowFromCpuSubset S s.node.shm spd.id (muCpus S cpus)).2
  if error = .success then ∅
  else if async then cpus
  else ∅

/-- The CPUs that `lewi_mask_OutOfBlockingCall` passes to `disable_cpu_set`. -/
def disableOutOfBlockingCall (affinity : CpuSet) : CpuSet :=
  let cpuSet := getMaskForBlockingCall S spd.lewiKeepCpuOnBlockingCall affinity
  if !muIsSubset S s.lewiInfo.inMpiCpus cpuSet then ∅
  else if 0 < muCount S s.lewiInfo.inMpiCpus then
    let ownedCpus := muAnd S ∅ cpuSet spd.processMask
    let nonOwnedCpus := muSubtract S ∅ cpuSet spd.processMask
    if 0 < muCount S ownedCpus then ∅
    else if 0 < muCount S nonOwnedCpus then s.disableNonOwned S spd async nonOwnedCpus
    else ∅
  else ∅

/-- After the thread has left its blocking call, every CPU of its mask is guested again, or it is pending or, in asynchronous
mode, was disabled; and no CPU that the process guests is pending. -/
def LossesNoticed (c : Caller) (affinity : CpuSet) : Prop :=
  let s' := (s.lewiMaskOutOfBlockingCall S spd c affinity).1
  (∀ x ∈ getMaskForBlockingCall S spd.lewiKeepCpuOnBlockingCall affinity, (s'.node.shm.nodeInfo x).guest = spd.id ∨
    x ∈ if async then s.disableOutOfBlockingCall S spd async affinity else s'.lewiInfo.pendingReclaimedCpus) ∧
    ∀ x, (s'.node.shm.nodeInfo x).guest = spd.id → x ∉ s'.lewiInfo.pendingReclaimedCpus

/-- The CPUs of a mask that are not disabled are borrowed, and this one is taken. -/
def Regained (mask : CpuSet) (x : ℕ) : Prop :=
  Borrows S spd.id s.node.shm {c ∈ mask | (s.node.shm.nodeInfo c).state ≠ .disabled} x

instance (mask : CpuSet) : DecidablePred (Regained S spd s mask) := inferInstanceAs (DecidablePred (Borrows _ _ _ _))

/-- What shows every loss, as the thread leaves: no pending CPU is guested, or taken now. If a CPU of another thread is in a
blocking call, all CPUs of the mask are guested already. Else either each of them is guested or taken, or none is taken and
just the disabled ones are guested. -/
structure LossesShown (mask : CpuSet) : Prop where
  pending : ∀ x ∈ s.lewiInfo.pendingReclaimedCpus, (s.node.shm.nodeInfo x).guest ≠ spd.id
  others : muIsSubset S s.lewiInfo.inMpiCpus mask = false → ∀ x ∈ mask, (s.node.shm.nodeInfo x).guest = spd.id
  some : muIsSubset S s.lewiInfo.inMpiCpus mask = true → ∀ y, s.Regained S spd mask y →
    y ∉ s.lewiInfo.pendingReclaimedCpus ∧ ∀ x ∈ mask, (s.node.shm.nodeInfo x).guest = spd.id ∨ s.Regained S spd mask x
  none : muIsSubset S s.lewiInfo.inMpiCpus mask = true → (∀ y, ¬s.Regained S spd mask y) →
    ∀ x ∈ mask, (s.node.shm.nodeInfo x).guest = spd.id ↔ (s.node.shm.nodeInfo x).state = .disabled

end Def

variable {S : System} {spd : Spd} {s : MaskNode} {async : Bool} {affinity mask : CpuSet} {co : Caller}

/-! ## The mask is lent -/

theorem into_lent (haffinity : affinity ⊆ S.sysMask)
    (hmask : mask = getMaskForBlockingCall S spd.lewiKeepCpuOnBlockingCall affinity)
    (hlent : (s.lewiMaskIntoBlockingCall S spd co affinity).2 = .success) :
    mask.Nonempty ∧ mask ⊆ (s.lewiMaskIntoBlockingCall S spd co affinity).1.lewiInfo.inMpiCpus ∧
      Disjoint mask (s.lewiMaskIntoBlockingCall S spd co affinity).1.lewiInfo.pendingReclaimedCpus := by
  have hfits : Fits S mask := fits_of_subset (hmask ▸ (getMask_subset _ _).trans haffinity)
  unfold lewiMaskIntoBlockingCall at hlent ⊢
  dsimp only at hlent ⊢
  rw [← hmask] at hlent ⊢
  split at hlent
  · cases hlent
  rename_i hout
  rw [if_neg hout]
  split at hlent
  swap
  · cases hlent
  rename_i hpos
  rw [if_pos hpos]
  refine ⟨(muCount_pos hfits).mp hpos, fun x hx => ?_, ?_⟩
  · exact (mem_muOr_self hfits).mpr (.inr hx)
  · refine Finset.disjoint_left.mpr fun x hx hpending => ?_
    exact ((mem_muSubtract_self hfits).mp hpending).2 hx

/-! ## The thread leaves -/

theorem outOf_others (hmask : mask = getMaskForBlockingCall S spd.lewiKeepCpuOnBlockingCall affinity)
    (hothers : muIsSubset S s.lewiInfo.inMpiCpus mask = false) :
    (s.lewiMaskOutOfBlockingCall S spd co affinity).1 = s ∧ s.disableOutOfBlockingCall S spd async affinity = ∅ := by
  unfold lewiMaskOutOfBlockingCall disableOutOfBlockingCall
  dsimp only
  rw [← hmask, hothers, Bool.not_false, if_pos rfl, if_pos rfl]
  exact ⟨rfl, rfl⟩

theorem outOf_borrow (hmask : mask = getMaskForBlockingCall S spd.lewiKeepCpuOnBlockingCall affinity)
    (hfits : Fits S mask) (hne : mask.Nonempty) (hin : mask ⊆ s.lewiInfo.inMpiCpus)
    (hforeign : Disjoint mask spd.processMask) (halone : muIsSubset S s.lewiInfo.inMpiCpus mask = true) :
    (s.lewiMaskOutOfBlockingCall S spd co affinity).1 =
        ((s.setInMpi (muSubtract S s.lewiInfo.inMpiCpus s.lewiInfo.inMpiCpus mask)).borrowNonOwned S spd co mask).1 ∧
      s.disableOutOfBlockingCall S spd async affinity = s.disableNonOwned S spd async mask := by
  have hempty : Fits S ∅ := nofun
  have hcount : 0 < muCount S s.lewiInfo.inMpiCpus := by
    obtain ⟨x, hx⟩ := hne
    exact Finset.card_pos.mpr ⟨x, Finset.mem_filter.mpr ⟨hin hx, hfits x hx⟩⟩
  have howned : muAnd S ∅ mask spd.processMask = ∅ := by
    rw [muAnd_of_fits hempty hfits, Finset.disjoint_iff_inter_eq_empty.mp hforeign]
  have hnonOwned : muSubtract S ∅ mask spd.processMask = mask := by
    rw [muSubtract_of_fits hempty hfits, Finset.sdiff_eq_self_of_disjoint hforeign]
  have hnone : ¬0 < muCount S ∅ := by
    rw [muCount_pos hempty]
    exact Finset.not_nonempty_empty
  unfold lewiMaskOutOfBlockingCall disableOutOfBlockingCall
  dsimp only
  rw [← hmask, halone, howned, hnonOwned, Bool.not_true, if_neg Bool.false_ne_true, if_neg Bool.false_ne_true, if_pos hcount,
    if_pos hcount, if_neg hnone, if_neg hnone, if_pos ((muCount_pos hfits).mpr hne), if_pos ((muCount_pos hfits).mpr hne)]
  exact ⟨rfl, rfl⟩

theorem borrowNonOwned_left (hS : S.size ≤ cpuSetsize) (hp0 : spd.id ≠ 0) (hsystem : mask ⊆ S.sysMask) (x : ℕ) :
    (((s.borrowNonOwned S spd co mask).1.node.shm.nodeInfo x).guest = spd.id ↔
        (s.node.shm.nodeInfo x).guest = spd.id ∨ s.Regained S spd mask x) ∧
      (x ∈ (s.borrowNonOwned S spd co mask).1.lewiInfo.pendingReclaimedCpus ↔ x ∈ s.lewiInfo.pendingReclaimedCpus ∨
        (∀ y, ¬s.Regained S spd mask y) ∧ x ∈ mask ∧ (s.node.shm.nodeInfo x).state ≠ .disabled) ∧
      (x ∈ s.disableNonOwned S spd async mask ↔
        (∀ y, ¬s.Regained S spd mask y) ∧ async = true ∧ x ∈ mask ∧ (s.node.shm.nodeInfo x).state ≠ .disabled) := by
  have hcpus : {c ∈ mask | (s.node.shm.nodeInfo c).state ≠ .disabled} ⊆ S.sysMask :=
    (Finset.filter_subset _ _).trans hsystem
  obtain ⟨htook, -⟩ := borrow_took hp0 hS hcpus { s.node.shm with tasks := [] }
  obtain ⟨-, hsuccess⟩ := borrow_took hp0 hS hcpus s.node.shm
  have hguest : (((s.borrowNonOwned S spd co mask).1.node.shm.nodeInfo x).guest = spd.id ↔
      (s.node.shm.nodeInfo x).guest = spd.id ∨ s.Regained S spd mask x) := by
    refine Iff.trans ?_ htook.guest_iff
    unfold borrowNonOwned
    dsimp only
    split
    · rfl
    · rfl
  refine ⟨hguest, ?_, ?_⟩
  · unfold borrowNonOwned
    dsimp only
    by_cases hsome : ∃ y, s.Regained S spd mask y
    · rw [if_pos (hsuccess.mpr hsome)]
      exact (or_iff_left fun h => not_exists.mpr h.1 hsome).symm
    · rw [if_neg (mt hsuccess.mp hsome)]
      refine (mem_muOr_self fun c hc => System.lt_bits (hcpus hc)).trans (or_congr_right ?_)
      rw [Finset.mem_filter]
      exact (and_iff_right (not_exists.mp hsome)).symm
  · unfold disableNonOwned
    by_cases hsome : ∃ y, s.Regained S spd mask y
    · rw [if_pos (hsuccess.mpr hsome)]
      exact iff_of_false (Finset.notMem_empty x) fun h => not_exists.mpr h.1 hsome
    · rw [if_neg (mt hsuccess.mp hsome), and_iff_right (not_exists.mp hsome)]
      split
      · rename_i hasync
        rw [Finset.mem_filter, and_iff_right hasync]
      · rename_i hasync
        exact iff_of_false (Finset.notMem_empty x) fun h => hasync h.1

/-! ## Losses -/

theorem lossesNoticed_iff (hS : S.size ≤ cpuSetsize) (hp0 : spd.id ≠ 0) (hsystem : mask ⊆ S.sysMask)
    (hmask : mask = getMaskForBlockingCall S spd.lewiKeepCpuOnBlockingCall affinity) (hne : mask.Nonempty)
    (hin : mask ⊆ s.lewiInfo.inMpiCpus) (hpending : Disjoint mask s.lewiInfo.pendingReclaimedCpus)
    (hforeign : Disjoint mask spd.processMask) :
    s.LossesNoticed S spd async co affinity ↔ s.LossesShown S spd mask := by
  have hnot {x : ℕ} (hx : x ∈ mask) : x ∉ s.lewiInfo.pendingReclaimedCpus := Finset.disjoint_left.mp hpending hx
  unfold LossesNoticed
  rw [← hmask]
  cases halone : muIsSubset S s.lewiInfo.inMpiCpus mask with
  | false =>
    obtain ⟨hsame, hdisable⟩ := @outOf_others S spd s async affinity mask co hmask halone
    rw [hsame, hdisable]
    have hnone {x : ℕ} (hx : x ∈ mask) : ¬x ∈ if async then ∅ else s.lewiInfo.pendingReclaimedCpus := by
      split
      · exact Finset.notMem_empty x
      · exact hnot hx
    constructor
    · rintro ⟨hall, hout⟩
      refine ⟨fun x hx hg => hout x hg hx, fun _ x hx => (hall x hx).resolve_right (hnone hx), ?_, ?_⟩
      · exact fun h => absurd (halone.symm.trans h) nofun
      · exact fun h => absurd (halone.symm.trans h) nofun
    · intro h
      exact ⟨fun x hx => .inl (h.others halone x hx), fun x hg hx => h.pending x hx hg⟩
  | true =>
    obtain ⟨hsame, hdisable⟩ := @outOf_borrow S spd s async affinity mask co hmask (fits_of_subset hsystem) hne hin hforeign
      halone
    rw [hsame, hdisable]
    have hleft (x : ℕ) := @borrowNonOwned_left S spd
      (s.setInMpi (muSubtract S s.lewiInfo.inMpiCpus s.lewiInfo.inMpiCpus mask)) async mask co hS hp0 hsystem x
    generalize ((s.setInMpi _).borrowNonOwned S spd co mask).1 = s' at hleft ⊢
    change ∀ x, ((s'.node.shm.nodeInfo x).guest = spd.id ↔
        (s.node.shm.nodeInfo x).guest = spd.id ∨ s.Regained S spd mask x) ∧
      (x ∈ s'.lewiInfo.pendingReclaimedCpus ↔ x ∈ s.lewiInfo.pendingReclaimedCpus ∨
        (∀ y, ¬s.Regained S spd mask y) ∧ x ∈ mask ∧ (s.node.shm.nodeInfo x).state ≠ .disabled) ∧
      (x ∈ s.disableNonOwned S spd async mask ↔
        (∀ y, ¬s.Regained S spd mask y) ∧ async = true ∧ x ∈ mask ∧ (s.node.shm.nodeInfo x).state ≠ .disabled) at hleft
    -- a CPU of the mask is pending, or was disabled, if none was taken and it is not disabled
    have hnoted {x : ℕ} (hx : x ∈ mask) :
        (x ∈ if async then s.disableNonOwned S spd async mask else s'.lewiInfo.pendingReclaimedCpus) ↔
          (∀ y, ¬s.Regained S spd mask y) ∧ (s.node.shm.nodeInfo x).state ≠ .disabled := by
      split
      · rename_i hasync
        rw [(hleft x).2.2, and_iff_right hasync, and_iff_right hx]
      · rw [(hleft x).2.1, or_iff_right (hnot hx), and_iff_right hx]
    constructor
    · rintro ⟨hall, hout⟩
      have hshown {x : ℕ} (hx : x ∈ mask) : ((s.node.shm.nodeInfo x).guest = spd.id ∨ s.Regained S spd mask x) ∨
          (∀ y, ¬s.Regained S spd mask y) ∧ (s.node.shm.nodeInfo x).state ≠ .disabled :=
        (hall x hx).imp (hleft x).1.mp (hnoted hx).mp
      constructor
      case pending => exact fun x hx hg => hout x ((hleft x).1.mpr (.inl hg)) ((hleft x).2.1.mpr (.inl hx))
      case others => exact fun h => absurd (halone.symm.trans h) nofun
      case some =>
        intro _ y hy
        refine ⟨fun hpend => hout y ((hleft y).1.mpr (.inr hy)) ((hleft y).2.1.mpr (.inl hpend)), fun x hx => ?_⟩
        exact (hshown hx).resolve_right fun h => h.1 y hy
      case none =>
        intro _ hnone x hx
        constructor
        · intro hg
          by_contra hs
          exact hout x ((hleft x).1.mpr (.inl hg)) ((hleft x).2.1.mpr (.inr ⟨hnone, hx, hs⟩))
        · intro hs
          exact ((hshown hx).resolve_right fun h => h.2 hs).resolve_right (hnone x)
    · intro h
      by_cases hsome : ∃ y, s.Regained S spd mask y
      · obtain ⟨y, hy⟩ := hsome
        have hpend {x : ℕ} (hx : x ∈ s'.lewiInfo.pendingReclaimedCpus) : x ∈ s.lewiInfo.pendingReclaimedCpus :=
          ((hleft x).2.1.mp hx).resolve_right fun hnone => hnone.1 y hy
        refine ⟨fun x hx => .inl ((hleft x).1.mpr ((h.some halone y hy).2 x hx)), fun x hg hx => ?_⟩
        rcases (hleft x).1.mp hg with hg | htaken
        · exact h.pending x (hpend hx) hg
        · exact (h.some halone x htaken).1 (hpend hx)
      · have hnone := not_exists.mp hsome
        constructor
        · intro x hx
          by_cases hs : (s.node.shm.nodeInfo x).state = .disabled
          · exact .inl ((hleft x).1.mpr (.inl ((h.none halone hnone x hx).mpr hs)))
          · exact .inr ((hnoted hx).mpr ⟨hnone, hs⟩)
        · intro x hg hx
          have hg : (s.node.shm.nodeInfo x).guest = spd.id := ((hleft x).1.mp hg).resolve_right (hnone x)
          rcases (hleft x).2.1.mp hx with hx | ⟨-, hx, hs⟩
          · exact h.pending x hx hg
          · exact hs ((h.none halone hnone x hx).mp hg)

/-- **When every loss is noticed**: a thread lends a mask of which its process owns no CPU, anything happens on the node, and
the thread leaves its blocking call. -/
theorem losses_noticed_iff (S : System) (spd : Spd) (s : MaskNode) (c c' : Caller) (async : Bool) {affinity : CpuSet}
    (hS : S.size ≤ cpuSetsize) (hp0 : spd.id ≠ 0) (haffinity : affinity ⊆ S.sysMask)
    (hforeign : Disjoint affinity spd.processMask)
    (hlent : (s.lewiMaskIntoBlockingCall S spd c affinity).2 = .success) (node : AsyncNode) :
    let s1 : MaskNode := { (s.lewiMaskIntoBlockingCall S spd c affinity).1 with node := node }
    s1.LossesNoticed S spd async c' affinity ↔
      s1.LossesShown S spd (getMaskForBlockingCall S spd.lewiKeepCpuOnBlockingCall affinity) := by
  have hsubset := getMask_subset (S := S) spd.lewiKeepCpuOnBlockingCall affinity
  obtain ⟨hne, hin, hpending⟩ := into_lent haffinity rfl hlent
  exact lossesNoticed_iff hS hp0 (hsubset.trans haffinity) rfl hne hin hpending
    (Finset.disjoint_of_subset_left hsubset hforeign)

/-- `2` has two CPUs and lends them, and `1` takes both. -/
def bothTaken : MaskNode where
  node := [.op {} 2 (.init 0 {0, 1}), .op {} 1 (.init 0 ∅), .op {} 2 (.lewiInit false), .op {} 1 (.lewiInit false),
    .op {} 2 (.lewi (.lendCpuMask {0, 1})), .op {} 1 (.lewi (.borrowFromCpuSubset [0, 1]))].foldl
      (AsyncNode.next BlockingState.twoSingleCores) {}

/-- `1`, which has no CPU of its own. -/
def guestProcess : Spd where
  id := 1
  processMask := ∅
  lewiKeepCpuOnBlockingCall := false

/-- A thread of `1` with both CPUs enters a blocking call. -/
def bothIn : MaskNode :=
  (bothTaken.lewiMaskIntoBlockingCall BlockingState.twoSingleCores guestProcess {} {0, 1}).1

/-- Meanwhile `2` reclaims CPUs. -/
def reclaimedBy (cpus : CpuSet) : AsyncNode :=
  bothIn.node.next BlockingState.twoSingleCores (.op {} 2 (.lewi (.reclaimCpuMask cpus)))

/-- It reclaims both: nothing is borrowed, and both CPUs are pending. -/
theorem losses_noticed_iff_both : LossesNoticed BlockingState.twoSingleCores guestProcess
    { bothIn with node := reclaimedBy {0, 1} } false {} {0, 1} := by
  refine (losses_noticed_iff _ guestProcess bothTaken {} {} false (by decide) (by decide) (by decide) (by decide)
    (by decide) (reclaimedBy {0, 1})).mpr ?_
  have hblocked : ∀ m ∈ ({0, 1} : CpuSet), ∀ y ∈ reached BlockingState.twoSingleCores (reclaimedBy {0, 1}).shm m,
      ¬Takeable BlockingState.twoSingleCores 1 (reclaimedBy {0, 1}).shm y := by decide
  have hnone (y : ℕ) : ¬Regained BlockingState.twoSingleCores guestProcess { bothIn with node := reclaimedBy {0, 1} }
      (getMaskForBlockingCall BlockingState.twoSingleCores false {0, 1}) y := by
    rintro ⟨ht, m, hm, hy, -⟩
    exact hblocked m (getMask_subset _ _ (Finset.mem_filter.mp hm).1) y hy ht
  constructor
  case pending => decide
  case others => exact fun h => absurd h (by decide)
  case some => exact fun _ y hy => absurd hy (hnone y)
  case none => exact fun _ _ => by decide

/-- **One CPU is regained, the other one is lost**: `2` reclaims CPU `0`, and CPU `1` is borrowed. So the borrow is a success,
and CPU `0` is neither guested nor pending. -/
theorem one_regained_one_lost :
    (bothTaken.lewiMaskIntoBlockingCall BlockingState.twoSingleCores guestProcess {} {0, 1}).2 = .success ∧
      ¬LossesNoticed BlockingState.twoSingleCores guestProcess { bothIn with node := reclaimedBy {0} } false {} {0, 1} := by
  refine ⟨by decide, fun h => ?_⟩
  exact absurd (h.1 0 (by decide)) (by decide)

end MaskNode

end Dlb.LewiMask

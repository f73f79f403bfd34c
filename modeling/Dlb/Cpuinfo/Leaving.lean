import Dlb.Cpuinfo.NewMask
import Dlb.Cpuinfo.Sweeps

/-!
# A process that deregisters, and the helper sets

`deregister` lends what the process guests, and lends or disables what it owns, one CPU after the other. `LeaveStep` is
what it does to one CPU and `Leaving` what is so after some of them, in every state and mode. The sets stay exact under
the conditions of `LeavesClean` and `LeavesAlone`; without request queues the first ones are exact
(`shmemDeregister_exact`, `shmemDeregister_exact_iff`). `ownership_changes_exact` puts all ownership changes together.
-/

namespace Dlb.Cpuinfo

variable {S : System} {co : Caller} {pid : Pid} {d d1 d2 : Shdata} {c e x n : ℕ}

/-! ## One CPU -/

/-- An owned CPU loses its owner, and its bit of `occupied_cores`. -/
def disown (d : Shdata) (cpuid : ℕ) : Shdata :=
  { d.set cpuid { d.nodeInfo cpuid with owner := 0 } with occupiedCores := d.occupiedCores.erase cpuid }

/-- A CPU that is not lent before it loses its owner: its process reclaims and disables it, or it is disabled. -/
structure Dropped (pid : Pid) (c : ℕ) (d d1 : Shdata) : Prop where
  flags : SameFlags d d1
  fewer : FewerRequests d d1
  occupied : d1.occupiedCores = d.occupiedCores
  rest : ∀ x, x ≠ c → d1.nodeInfo x = d.nodeInfo x ∧ (x ∈ d1.freeCpus ↔ x ∈ d.freeCpus)
  state : (d1.nodeInfo c).state = .disabled
  free : c ∈ d1.freeCpus → c ∈ d.freeCpus ∧ (d.nodeInfo c).state = .disabled
  guest : (d.nodeInfo c).guest ≠ 0 → (d.nodeInfo c).guest ≠ pid → (d1.nodeInfo c).guest = (d.nodeInfo c).guest

inductive LeaveStep (S : System) (co : Caller) (pid : Pid) (d : Shdata) (c : ℕ) : Shdata → Prop
  | kept : (d.nodeInfo c).owner ≠ pid → LeaveStep S co pid d c d
  | left : (d.nodeInfo c).owner ≠ pid → (d.nodeInfo c).guest = pid → (d.nodeInfo c).state ≠ .disabled →
      LeaveStep S co pid d c (lendCpu S pid d c)
  | dropped (d1 : Shdata) : (d.nodeInfo c).owner = pid → (co.public → (d.nodeInfo c).state = .disabled) →
      Dropped pid c d d1 → LeaveStep S co pid d c (disown d1 c)
  | lent : (d.nodeInfo c).owner = pid → co.public → (d.nodeInfo c).state ≠ .disabled →
      LeaveStep S co pid d c (disown (lendCpu S pid d c) c)

theorem lendCpu_of_disabled (hs : (d.nodeInfo c).state = .disabled) : lendCpu S pid d c = d := by
  unfold lendCpu
  rw [if_pos hs]

/-- A private CPU is reclaimed, left and disabled. -/
def reclaimDisable (pid : Pid) (d : Shdata) (cpuid : ℕ) : Shdata :=
  let d1 := (reclaimCpu pid d cpuid).1
  (d1.set cpuid { d1.nodeInfo cpuid with guest := guestWithout pid (d1.nodeInfo cpuid), state := .disabled }).clrFree cpuid

theorem reclaimDisable_dropped (ho : (d.nodeInfo c).owner = pid) : Dropped pid c d (reclaimDisable pid d c) := by
  have hreclaim : ∃ i : CpuInfo, (reclaimCpu pid d c).1.nodeInfo = Function.update d.nodeInfo c i ∧
      SameFlags d (reclaimCpu pid d c).1 ∧ (reclaimCpu pid d c).1.occupiedCores = d.occupiedCores ∧
      (reclaimCpu pid d c).1.lewiMaskRequests = d.lewiMaskRequests ∧ i.requests = (d.nodeInfo c).requests ∧
      (∀ x, x ≠ c → (x ∈ (reclaimCpu pid d c).1.freeCpus ↔ x ∈ d.freeCpus)) ∧
      ((d.nodeInfo c).guest ≠ 0 → (d.nodeInfo c).guest ≠ pid → i.guest = (d.nodeInfo c).guest) := by
    unfold reclaimCpu
    rw [if_pos ho]
    split
    · exact ⟨_, rfl, ⟨rfl, rfl, rfl⟩, rfl, rfl, rfl, fun _ _ => Iff.rfl, fun _ _ => rfl⟩
    split
    · rename_i hg
      exact ⟨_, rfl, ⟨rfl, rfl, rfl⟩, rfl, rfl, rfl, fun x hx => by simp [Shdata.clrFree, Shdata.push, Shdata.set, hx],
        fun h0 => absurd hg h0⟩
    · exact ⟨_, rfl, ⟨rfl, rfl, rfl⟩, rfl, rfl, rfl, fun _ _ => Iff.rfl, fun _ _ => rfl⟩
  obtain ⟨i, hinfo, hflags, hocc, hglobal, hreq, hfree, hguest⟩ := hreclaim
  unfold reclaimDisable
  generalize (reclaimCpu pid d c).1 = d2 at hinfo hflags hocc hglobal hfree ⊢
  have hself : d2.nodeInfo c = i := by rw [hinfo, Function.update_self]
  dsimp only
  rw [hself]
  refine ⟨⟨hflags.initialized, hflags.queues, hflags.smt⟩, ?_, hocc, fun x hx => ⟨?_, ?_⟩, ?_, fun hmem => ?_,
    fun h0 hp => ?_⟩
  · refine FewerRequests.write (i := { i with guest := guestWithout pid i, state := .disabled }) ?_
      hglobal fun p hp => hreq ▸ hp
    show Function.update d2.nodeInfo c _ = _
    rw [hinfo, Function.update_idem]
  · show Function.update d2.nodeInfo c _ x = _
    rw [Function.update_of_ne hx, hinfo, Function.update_of_ne hx]
  · show x ∈ d2.freeCpus.erase c ↔ _
    rw [Finset.mem_erase, and_iff_right hx, hfree x hx]
  · simp [Shdata.clrFree, Shdata.set]
  · exact absurd hmem (Finset.notMem_erase c _)
  · simp [Shdata.clrFree, Shdata.set, guestWithout, hguest h0 hp, hp]

theorem leaveCpu_step : LeaveStep S co pid d c (leaveCpu S co pid d c) := by
  unfold leaveCpu
  by_cases ho : (d.nodeInfo c).owner = pid
  · rw [if_pos ho]
    unfold leaveOwned
    by_cases hpublic : co.cpuIsPublicPostMortem = true ∨ (!co.respectCpuset) = true
    · rw [if_pos hpublic]
      by_cases hs : (d.nodeInfo c).state = .disabled
      · rw [lendCpu_of_disabled hs]
        exact .dropped d ho (fun _ => hs) ⟨⟨rfl, rfl, rfl⟩, .refl d, rfl, fun _ _ => ⟨rfl, Iff.rfl⟩, hs,
          fun hc => ⟨hc, hs⟩, fun _ _ => rfl⟩
      · exact .lent ho hpublic hs
    · rw [if_neg hpublic]
      exact .dropped (reclaimDisable pid d c) ho (fun hp => absurd hp hpublic) (reclaimDisable_dropped ho)
  · rw [if_neg ho]
    by_cases hg : (d.nodeInfo c).guest = pid
    · rw [if_pos hg]
      by_cases hs : (d.nodeInfo c).state = .disabled
      · rw [lendCpu_of_disabled hs]
        exact .kept ho
      · exact .left ho hg hs
    · rw [if_neg hg]
      exact .kept ho

/-! ## The loop -/

/-- The CPU, of those below `n`, had the process as its owner. -/
def Gone (pid : Pid) (d : Shdata) (n x : ℕ) : Prop := x < n ∧ (d.nodeInfo x).owner = pid

instance : Decidable (Gone pid d n x) := inferInstanceAs (Decidable (_ ∧ _))

theorem gone_succ : Gone pid d (n + 1) x ↔ Gone pid d n x ∨ (x = n ∧ (d.nodeInfo n).owner = pid) := by
  constructor
  · rintro ⟨hx, ho⟩
    by_cases hxn : x = n
    · exact .inr ⟨hxn, hxn ▸ ho⟩
    · exact .inl ⟨by omega, ho⟩
  · rintro (⟨hx, ho⟩ | ⟨rfl, ho⟩)
    · exact ⟨by omega, ho⟩
    · exact ⟨by omega, ho⟩

theorem gone_succ_of_ne (hx : x ≠ n) : Gone pid d (n + 1) x ↔ Gone pid d n x := by
  rw [gone_succ, or_iff_left fun h => hx h.1]

theorem not_gone_self : ¬Gone pid d n n := fun h => lt_irrefl n h.1

def CoreForeign (S : System) (d : Shdata) (x : ℕ) : Prop := ∃ e ∈ coreOf S d.hwHasSmt x, (d.nodeInfo e).Foreign

/-- `deregister` of the CPUs below `n`, in every state and mode. -/
structure Leaving (S : System) (pid : Pid) (d d1 : Shdata) (n : ℕ) : Prop where
  flags : SameFlags d d1
  fewer : FewerRequests d d1
  owner : ∀ x, (d1.nodeInfo x).owner = if Gone pid d n x then 0 else (d.nodeInfo x).owner
  state : ∀ x, ¬Gone pid d n x → (d1.nodeInfo x).state = (d.nodeInfo x).state
  guest : ∀ x, (d.nodeInfo x).guest ≠ 0 → ((d.nodeInfo x).guest = pid → n ≤ x) →
    (d1.nodeInfo x).guest = (d.nodeInfo x).guest
  claimed : ∀ x, n ≤ x → (d.nodeInfo x).guest = 0 → (d.nodeInfo x).state = .busy ∨ d.queuesEnabled = false →
    (d1.nodeInfo x).guest = 0 ∨ (d1.nodeInfo x).guest = (d.nodeInfo x).owner
  ahead : ∀ x, n ≤ x → (d.nodeInfo x).owner = pid → CoreForeign S d x → x ∈ d1.occupiedCores

theorem Leaving.start (h : SetsExact S d) : Leaving S pid d d 0 :=
  ⟨⟨rfl, rfl, rfl⟩, .refl d, fun x => (if_neg fun hx => Nat.not_lt_zero x hx.1).symm, fun _ _ => rfl, fun _ _ _ => rfl,
    fun _ _ hg _ => .inl hg, fun x _ _ hf => (h.occupied x).mpr hf⟩

section Step

variable (h : Leaving S pid d d1 n)

include h

theorem Leaving.info_owner : (d1.nodeInfo n).owner = (d.nodeInfo n).owner := by
  rw [h.owner, if_neg not_gone_self]

theorem Leaving.info_state : (d1.nodeInfo n).state = (d.nodeInfo n).state := h.state n not_gone_self

theorem Leaving.next (hflags : SameFlags d1 d2) (hfewer : FewerRequests d1 d2)
    (hrest : ∀ x, x ≠ n → (d2.nodeInfo x).owner = (d1.nodeInfo x).owner ∧ (d2.nodeInfo x).state = (d1.nodeInfo x).state ∧
      ((d1.nodeInfo x).guest ≠ 0 → (d2.nodeInfo x).guest = (d1.nodeInfo x).guest) ∧
      ((d1.nodeInfo x).guest = 0 → (d1.nodeInfo x).state = .busy ∨ d1.queuesEnabled = false →
        (d2.nodeInfo x).guest = 0 ∨ (d2.nodeInfo x).guest = (d1.nodeInfo x).owner))
    (hown : (d.nodeInfo n).owner = pid → (d2.nodeInfo n).owner = 0)
    (hother : (d.nodeInfo n).owner ≠ pid →
      (d2.nodeInfo n).owner = (d1.nodeInfo n).owner ∧ (d2.nodeInfo n).state = (d1.nodeInfo n).state)
    (hguest : (d1.nodeInfo n).guest ≠ 0 → (d1.nodeInfo n).guest ≠ pid →
      (d2.nodeInfo n).guest = (d1.nodeInfo n).guest)
    (hocc : ∀ x, x ≠ n → (d.nodeInfo x).owner = pid → CoreForeign S d x → x ∈ d1.occupiedCores → x ∈ d2.occupiedCores) :
    Leaving S pid d d2 (n + 1) := by
  refine ⟨h.flags.trans hflags, h.fewer.trans hfewer, fun x => ?_, fun x hx => ?_, fun x h0 hp => ?_,
    fun x hx hg hb => ?_, fun x hx ho hf => ?_⟩
  · by_cases hxn : x = n
    · subst hxn
      by_cases ho : (d.nodeInfo x).owner = pid
      · rw [hown ho, if_pos (gone_succ.mpr (.inr ⟨rfl, ho⟩))]
      · rw [(hother ho).1, h.info_owner, if_neg fun hg => ho hg.2]
    · rw [(hrest x hxn).1, h.owner]
      simp only [gone_succ_of_ne hxn]
  · by_cases hxn : x = n
    · subst hxn
      have ho : (d.nodeInfo x).owner ≠ pid := fun ho => hx (gone_succ.mpr (.inr ⟨rfl, ho⟩))
      rw [(hother ho).2, h.info_state]
    · rw [(hrest x hxn).2.1]
      exact h.state x fun hg => hx (gone_succ.mpr (.inl hg))
  · have hold : (d1.nodeInfo x).guest = (d.nodeInfo x).guest := h.guest x h0 fun hpid => by
      have hnx := hp hpid
      omega
    by_cases hxn : x = n
    · subst hxn
      have hne : (d.nodeInfo x).guest ≠ pid := fun hpid => Nat.not_succ_le_self x (hp hpid)
      rw [hguest (hold ▸ h0) (hold ▸ hne), hold]
    · rw [(hrest x hxn).2.2.1 (hold ▸ h0), hold]
  · have hxn : x ≠ n := by omega
    have hgone : ¬Gone pid d n x := fun hgone => by
      have hlt := hgone.1
      omega
    have howner : (d1.nodeInfo x).owner = (d.nodeInfo x).owner := by rw [h.owner, if_neg hgone]
    by_cases hg1 : (d1.nodeInfo x).guest = 0
    · rw [← howner]
      exact (hrest x hxn).2.2.2 hg1 (by rwa [h.state x hgone, h.flags.queues])
    · rw [(hrest x hxn).2.2.1 hg1]
      exact h.claimed x (by omega) hg hb
  · exact hocc x (by omega) ho hf (h.ahead x (by omega) ho hf)

theorem Leaving.foreign_guest (ho : (d.nodeInfo e).owner = pid) (hf : (d.nodeInfo e).Foreign) :
    (d1.nodeInfo e).guest = (d.nodeInfo e).guest :=
  h.guest e hf.2.1 fun hg => absurd (hg.trans ho.symm) hf.2.2

end Step

theorem Lent.guest_of_ne (h : Lent S pid c d d1) (h0 : (d.nodeInfo x).guest ≠ 0)
    (hx : x ≠ c ∨ (d.nodeInfo x).guest ≠ pid) : (d1.nodeInfo x).guest = (d.nodeInfo x).guest := by
  by_cases hxc : x = c
  · subst hxc
    have hp : (d.nodeInfo x).guest ≠ pid := hx.resolve_left fun hne => hne rfl
    have hentry : (lentInfo pid (d.nodeInfo x)).guest = (d.nodeInfo x).guest := if_neg hp
    rw [h.guest (hentry ▸ h0), hentry]
  · rcases h.rest x hxc with hk | ⟨-, hh⟩
    · exact hk.1
    · exact absurd hh.before h0

theorem Lent.claimed (h : Lent S pid c d d1) (hx : x ≠ c) (hg : (d.nodeInfo x).guest = 0)
    (hb : (d.nodeInfo x).state = .busy ∨ d.queuesEnabled = false) :
    (d1.nodeInfo x).guest = 0 ∨ (d1.nodeInfo x).guest = (d.nodeInfo x).owner := by
  rcases h.rest x hx with hk | ⟨-, hh⟩
  · exact .inl (hk.1.trans hg)
  · refine .inr (hh.who.resolve_right fun hno => ?_)
    rcases hb with hb | hq
    · exact hno.2.1 hb
    · exact Bool.false_ne_true (hq.symm.trans hno.1)

theorem Lent.occupied_keep (h : Lent S pid c d d1) (hx : x ∈ d.occupiedCores) (hc : c ∈ d.occupiedCores)
    (ho : (d.nodeInfo c).owner ≠ 0) (he : e ∈ coreOf S d.hwHasSmt c) (h0 : (d.nodeInfo e).guest ≠ 0)
    (hne : (d.nodeInfo e).guest ≠ (d.nodeInfo c).owner) (hp : e ≠ c ∨ (d.nodeInfo e).guest ≠ pid) :
    x ∈ d1.occupiedCores := by
  rw [h.occupied]
  refine mem_occupiedUpdate_keep hx hc (coreIsOccupied_iff.mpr ⟨e, ?_, ho, ?_⟩)
  · show e ∈ coreOf S d1.hwHasSmt c
    rwa [h.flags.smt]
  · show (d1.nodeInfo e).guest ≠ 0 ∧ (d1.nodeInfo e).guest ≠ _
    rw [h.guest_of_ne h0 hp]
    exact ⟨h0, hne⟩

theorem Lent.occupied_of_notMem (h : Lent S pid c d d1) (hx : x ∉ coreOf S d.hwHasSmt c) :
    x ∈ d1.occupiedCores ↔ x ∈ d.occupiedCores := by
  rw [h.occupied]
  refine mem_occupiedUpdate_of_notMem fun hmem => hx ?_
  have hsmt : d1.hwHasSmt = d.hwHasSmt := h.flags.smt
  exact hsmt ▸ hmem

theorem disown_fewer : FewerRequests d (disown d c) := .write rfl rfl fun _ => id

theorem disown_of_ne (hx : x ≠ c) : (disown d c).nodeInfo x = d.nodeInfo x := by
  simp [disown, Shdata.set, hx]

theorem disown_self : (disown d c).nodeInfo c = { d.nodeInfo c with owner := 0 } := by
  simp [disown, Shdata.set]

theorem mem_disown_occupied : x ∈ (disown d c).occupiedCores ↔ x ≠ c ∧ x ∈ d.occupiedCores := Finset.mem_erase

theorem Leaving.lent_occupied (h : Leaving S pid d d1 n) (hw : WholeOwners S d) (hpid : pid ≠ 0)
    (ho : (d.nodeInfo n).owner = pid) (hl : Lent S pid n d1 d2) (hf : CoreForeign S d x) (hx : x ∈ d1.occupiedCores) :
    x ∈ d2.occupiedCores := by
  by_cases hxn : x ∈ coreOf S d.hwHasSmt n
  · obtain ⟨e, he, hfe⟩ := hf
    rw [coreOf_eq hxn] at he
    have hoe : (d.nodeInfo e).owner = pid := (hw.coreOf he).trans ho
    have hge : (d1.nodeInfo e).guest = (d.nodeInfo e).guest := h.foreign_guest hoe hfe
    have hne : (d1.nodeInfo e).guest ≠ pid := by
      rw [hge, ← hoe]
      exact hfe.2.2
    have hon : (d1.nodeInfo n).owner = pid := h.info_owner.trans ho
    exact hl.occupied_keep hx (h.ahead n le_rfl ho ⟨e, he, hfe⟩) (hon ▸ hpid) (h.flags.smt.symm ▸ he) (hge ▸ hfe.2.1)
      (hon.symm ▸ hne) (.inr hne)
  · exact (hl.occupied_of_notMem (h.flags.smt.symm ▸ hxn)).mpr hx

theorem Leaving.keep_bit (h : Leaving S pid d d1 n) (hw : WholeOwners S d) (hpid : pid ≠ 0)
    (hs : LeaveStep S co pid d1 n d2) (hxn : x ≠ n) (hox : (d.nodeInfo x).owner = pid) (hf : CoreForeign S d x)
    (hx : x ∈ d1.occupiedCores) : x ∈ d2.occupiedCores := by
  cases hs with
  | kept ho => exact hx
  | left ho hg hs =>
    have hl : Lent S pid n d1 (lendCpu S pid d1 n) := lendCpu_lent hs
    rw [h.info_owner] at ho
    -- the core of the CPU is not one of the process
    refine (hl.occupied_of_notMem fun hmem => ho ?_).mpr hx
    rw [← hw.coreOf hmem, hox]
  | dropped d2 ho _ hd =>
    rw [mem_disown_occupied, hd.occupied]
    exact ⟨hxn, hx⟩
  | lent ho _ hs =>
    rw [h.info_owner] at ho
    exact mem_disown_occupied.mpr ⟨hxn, h.lent_occupied hw hpid ho (lendCpu_lent hs) hf hx⟩

theorem Leaving.step (h : Leaving S pid d d1 n) (hw : WholeOwners S d) (hpid : pid ≠ 0)
    (hs : LeaveStep S co pid d1 n d2) : Leaving S pid d d2 (n + 1) := by
  have hbit := fun x (hx : x ≠ n) => h.keep_bit hw hpid hs hx
  cases hs with
  | kept ho =>
    rw [h.info_owner] at ho
    exact h.next ⟨rfl, rfl, rfl⟩ (.refl _) (fun _ _ => ⟨rfl, rfl, fun _ => rfl, fun hg _ => .inl hg⟩)
      (fun hno => absurd hno ho) (fun _ => ⟨rfl, rfl⟩) (fun _ _ => rfl) hbit
  | left ho hg hs =>
    have hl : Lent S pid n d1 (lendCpu S pid d1 n) := lendCpu_lent hs
    have hentry : (lentInfo pid (d1.nodeInfo n)).state = (d1.nodeInfo n).state := if_neg ho
    rw [h.info_owner] at ho
    refine h.next hl.flags lendCpu_fewer (fun x hx => ?_) (fun hno => absurd hno ho)
      (fun _ => ⟨hl.owner n, by rw [hl.state, if_pos rfl, hentry]⟩) (fun _ hne => absurd hg hne) hbit
    exact ⟨hl.owner x, by rw [hl.state, if_neg hx], fun h0 => hl.guest_of_ne h0 (.inl hx), hl.claimed hx⟩
  | dropped d2 ho _ hd =>
    rw [h.info_owner] at ho
    refine h.next ⟨hd.flags.initialized, hd.flags.queues, hd.flags.smt⟩ (hd.fewer.trans disown_fewer) (fun x hx => ?_)
      (fun _ => by rw [disown_self]) (fun hno => absurd ho hno) (fun h0 hp => ?_) hbit
    · rw [disown_of_ne hx, (hd.rest x hx).1]
      exact ⟨rfl, rfl, fun _ => rfl, fun hg _ => .inl hg⟩
    · rw [disown_self]
      exact hd.guest h0 hp
  | lent ho _ hs =>
    have hl : Lent S pid n d1 (lendCpu S pid d1 n) := lendCpu_lent hs
    rw [h.info_owner] at ho
    refine h.next ⟨hl.flags.initialized, hl.flags.queues, hl.flags.smt⟩ (lendCpu_fewer.trans disown_fewer)
      (fun x hx => ?_) (fun _ => by rw [disown_self]) (fun hno => absurd ho hno) (fun h0 hp => ?_) hbit
    · rw [disown_of_ne hx]
      exact ⟨hl.owner x, by rw [hl.state, if_neg hx], fun h0 => hl.guest_of_ne h0 (.inl hx), hl.claimed hx⟩
    · rw [disown_self]
      exact hl.guest_of_ne h0 (.inr hp)

/-- The loop over the CPUs below `n`. -/
def leftBelow (S : System) (co : Caller) (pid : Pid) (d : Shdata) (n : ℕ) : Shdata :=
  (List.range n).foldl (leaveCpu S co pid) d

theorem leftBelow_succ : leftBelow S co pid d (n + 1) = leaveCpu S co pid (leftBelow S co pid d n) n := by
  unfold leftBelow
  rw [List.range_succ, List.foldl_append]
  rfl

/-- The CPUs that the process guests go to their owner or are lent, and a core of the process that has a foreign guest
is as occupied as its first CPU. -/
structure LeavesClean (S : System) (co : Caller) (pid : Pid) (d : Shdata) : Prop where
  busy : ∀ c < S.size, (d.nodeInfo c).guest = pid → (d.nodeInfo c).state = .busy → (d.nodeInfo c).owner ≠ 0
  last : co.public → ∀ c, (d.nodeInfo c).owner = pid → (d.nodeInfo c).state ≠ .disabled → ¬(d.nodeInfo c).Foreign →
    CoreForeign S d c → ∀ x ∈ coreOf S d.hwHasSmt c, c ≤ x

/-- Nobody has asked for the CPU, unless it is the process in the global queue. -/
structure Unasked (pid : Pid) (d : Shdata) (c : ℕ) : Prop where
  own : ∀ p, p ∉ (d.nodeInfo c).requests.items
  global : ∀ it ∈ d.lewiMaskRequests.items, it.pid ≠ pid → c ∉ it.allowed

/-- In asynchronous mode: a core is what the source takes for one, and nobody has asked for a CPU of the process that
becomes public and is idle; with SMT, for none that becomes public. -/
structure LeavesAlone (S : System) (co : Caller) (pid : Pid) (d : Shdata) : Prop where
  core : d.hwHasSmt = true ∨ ∀ core ∈ S.cores, core.card ≤ 1
  asked : co.public → ∀ c, (d.nodeInfo c).owner = pid → d.hwHasSmt = true ∨ (d.nodeInfo c).Idle → Unasked pid d c

/-- The sets while the process leaves: they are exact but for its own cores, where the CPUs that are done have no bit. -/
structure LeavingExact (S : System) (pid : Pid) (d d1 : Shdata) (n : ℕ) : Prop where
  free : ∀ x, x ∈ d1.freeCpus ↔ (d1.nodeInfo x).Idle
  others : ∀ x, (d.nodeInfo x).owner ≠ pid →
    (x ∈ d1.occupiedCores ↔ ∃ e ∈ coreOf S d.hwHasSmt x, (d1.nodeInfo e).Foreign)
  behind : ∀ x, Gone pid d n x → x ∉ d1.occupiedCores
  quiet : ∀ x, n ≤ x → (d.nodeInfo x).owner = pid → ¬CoreForeign S d x → x ∉ d1.occupiedCores
  guest : ∀ x, n ≤ x → (d.nodeInfo x).owner = pid → (d1.nodeInfo x).guest = (d.nodeInfo x).guest

theorem LeavingExact.start (h : SetsExact S d) : LeavingExact S pid d d 0 :=
  ⟨h.free, fun x _ => h.occupied x, fun x hx => absurd hx.1 (Nat.not_lt_zero x),
    fun x _ _ hno hx => hno ((h.occupied x).mp hx), fun _ _ _ => rfl⟩

theorem Lent.free_exact (h : Lent S pid c d d1) (hfree : ∀ x, x ∈ d.freeCpus ↔ (d.nodeInfo x).Idle)
    (hc : (d.nodeInfo c).Idle → (d1.nodeInfo c).guest = 0)
    (hs : (d1.nodeInfo c).guest = 0 → (d1.nodeInfo c).state = .lent) (x : ℕ) :
    x ∈ d1.freeCpus ↔ (d1.nodeInfo x).Idle := by
  by_cases hx : x = c
  · subst hx
    rw [h.free, hfree]
    constructor
    · rintro (hidle | hg)
      · exact ⟨hs (hc hidle), hc hidle⟩
      · exact ⟨hs hg, hg⟩
    · exact fun hidle => .inr hidle.2
  · rcases h.rest x hx with hk | ⟨-, hh⟩
    · rw [hk.2, hfree]
      unfold CpuInfo.Idle
      rw [hk.1, h.state, if_neg hx]
    · exact iff_of_false hh.free fun hidle => hh.guest hidle.2

theorem Lent.foreign_of_notMem (h : Lent S pid c d d1) (hself : (d.nodeInfo c).owner ≠ 0 → c ∈ coreOf S d.hwHasSmt c)
    (hcore : d.queuesEnabled = true → d.hwHasSmt = true ∨ ∀ core ∈ S.cores, core.card ≤ 1)
    (hx : x ∉ coreOf S d.hwHasSmt c) : (d1.nodeInfo x).Foreign ↔ (d.nodeInfo x).Foreign := by
  by_cases hxc : x = c
  · subst hxc
    have ho : (d.nodeInfo x).owner = 0 := by
      by_contra ho
      exact hx (hself ho)
    exact iff_of_false (fun hf => hf.1 ((h.owner x).trans ho)) (fun hf => hf.1 ho)
  rcases h.rest x hxc with hk | ⟨-, hh⟩
  · unfold CpuInfo.Foreign
    rw [hk.1, h.owner]
  · refine iff_of_false (fun hf => ?_) fun hf => hf.2.1 hh.before
    rcases hh.who with howner | ⟨hq, -, -⟩
    · exact hf.2.2 (howner.trans (h.owner x).symm)
    · rcases hcore hq with hsmt | hcard
      · -- with SMT the CPU is of the same core
        unfold coreOf at hx
        rw [hsmt, if_pos rfl] at hx
        exact hx hh.core
      · have hone := Finset.card_le_one.mp (hcard _ (coreMask_mem hh.core).1)
        exact hxc (hone x hh.core c (coreMask_mem hh.core).2)

theorem lendCpu_untaken (hs : (d.nodeInfo c).state ≠ .disabled) (hg : (lentInfo pid (d.nodeInfo c)).guest = 0)
    (hb : (lentInfo pid (d.nodeInfo c)).state ≠ .busy) (hu : d.queuesEnabled = true → Unrequested d c) :
    ((lendCpu S pid d c).nodeInfo c).guest = 0 := by
  by_contra hnew
  have htaker := lendCpu_taken hs hg hb hnew
  have hl : LeftBy pid c d (leave (lendOwned d pid c) pid c) := lendOwned_leave
  exact ((hu (hl.flags.queues ▸ htaker.queues)).fewer (lendOwned_fewer.trans leave_fewer)).not_taker htaker

section Exact

variable (h : Leaving S pid d d1 n) (hx : LeavingExact S pid d d1 n) (hw : WholeOwners S d) (hpid : pid ≠ 0)

include h hx hw hpid

theorem LeavingExact.left (hcore : d.queuesEnabled = true → d.hwHasSmt = true ∨ ∀ core ∈ S.cores, core.card ≤ 1)
    (hbusy : (d.nodeInfo n).state = .busy → (d.nodeInfo n).owner ≠ 0) (ho : (d.nodeInfo n).owner ≠ pid)
    (hg : (d1.nodeInfo n).guest = pid) (hs : (d1.nodeInfo n).state ≠ .disabled) :
    LeavingExact S pid d (lendCpu S pid d1 n) (n + 1) := by
  have hl : Lent S pid n d1 (lendCpu S pid d1 n) := lendCpu_lent hs
  generalize lendCpu S pid d1 n = d2 at hl ⊢
  have hentry : (lentInfo pid (d1.nodeInfo n)).guest = 0 := if_pos hg
  have hstate : (d2.nodeInfo n).state = (d.nodeInfo n).state := by
    rw [hl.state, if_pos rfl, ← h.info_state]
    exact if_neg (h.info_owner ▸ ho)
  have howner : ∀ e ∈ coreOf S d.hwHasSmt n, (d.nodeInfo e).owner ≠ pid := fun e he => by rwa [hw.coreOf he]
  have hkeep : ∀ x, (d.nodeInfo x).owner = pid → (x ∈ d2.occupiedCores ↔ x ∈ d1.occupiedCores) := fun x hox =>
    hl.occupied_of_notMem fun hmem => howner x (h.flags.smt ▸ hmem) hox
  refine ⟨hl.free_exact hx.free (fun hidle => ?_) (fun hg2 => ?_), fun x hox => ?_, fun x hgone => ?_,
    fun x hxn hox hno => ?_, fun x hxn hox => ?_⟩
  · exact absurd (hg.symm.trans hidle.2) hpid
  · rw [hstate]
    cases hst : (d.nodeInfo n).state with
    | disabled => exact absurd (h.info_state.trans hst) hs
    | busy =>
      have hown := hl.busy hentry (hstate.trans hst)
      rw [hg2, h.info_owner] at hown
      exact absurd hown.symm (hbusy hst)
    | lent => rfl
  · by_cases hxn : x ∈ coreOf S d.hwHasSmt n
    · rw [hl.occupied, coreOf_eq hxn]
      have hown2 : ∀ e ∈ coreOf S d.hwHasSmt n, (d2.nodeInfo e).owner = (d.nodeInfo n).owner := fun e he => by
        rw [hl.owner, h.owner, if_neg fun hgone => howner e he hgone.2, hw.coreOf he]
      have hsmt : ({ d2 with occupiedCores := d1.occupiedCores } : Shdata).hwHasSmt = d.hwHasSmt :=
        hl.flags.smt.trans h.flags.smt
      have htouch := touch_core (d := d1) hsmt (fun y hy => ?_) (fun e he => ?_) (fun e he hen hf => ?_)
        (fun e he hen hf => ?_) hxn
      · rw [h.info_owner, ← hown2 n (self_mem_coreOf hxn)]
        exact htouch
      · rw [← coreOf_eq hy]
        exact hx.others y (howner y hy)
      · exact (hown2 e he).trans (hown2 n (self_mem_coreOf hxn)).symm
      · refine ⟨(hl.owner e).symm ▸ hf.1, ?_⟩
        have hge : (d2.nodeInfo e).guest = (d1.nodeInfo e).guest := hl.guest_of_ne hf.2.1 (.inl hen)
        show (d2.nodeInfo e).guest ≠ 0 ∧ (d2.nodeInfo e).guest ≠ (d2.nodeInfo e).owner
        rw [hge, hl.owner]
        exact hf.2
      · rcases hl.rest e hen with hk | ⟨-, hh⟩
        · left
          have hf2 : (d2.nodeInfo e).Foreign := hf
          unfold CpuInfo.Foreign at hf2 ⊢
          rwa [hk.1, hl.owner] at hf2
        · -- a CPU that is handed over has the same guest
          right
          have hf2 : (d2.nodeInfo e).Foreign := hf
          rcases hh.who with hown | ⟨-, -, hsame⟩
          · exact absurd (hown.trans (hl.owner e).symm) hf2.2.2
          · cases hsm : d.hwHasSmt with
            | false =>
              rw [hsm] at he
              exact absurd (Finset.mem_singleton.mp he) hen
            | true =>
              have hge := hsame (h.flags.smt.trans hsm)
              have hoe : (d2.nodeInfo e).owner = (d2.nodeInfo n).owner :=
                (hown2 e he).trans (hown2 n (self_mem_coreOf he)).symm
              unfold CpuInfo.Foreign at hf2
              rwa [hge, hoe] at hf2
    · rw [hl.occupied_of_notMem (h.flags.smt.symm ▸ hxn), hx.others x hox]
      refine exists_congr fun e => and_congr_right fun he => (hl.foreign_of_notMem ?_ ?_ ?_).symm
      · rw [h.info_owner, h.flags.smt]
        exact hw.self_mem
      · rw [h.flags.queues, h.flags.smt]
        exact hcore
      · rw [h.flags.smt]
        exact notMem_coreOf hxn he
  · have hne : x ≠ n := fun hxn => ho (hxn ▸ hgone.2)
    rw [hkeep x hgone.2]
    exact hx.behind x ((gone_succ_of_ne hne).mp hgone)
  · rw [hkeep x hox]
    exact hx.quiet x (by omega) hox hno
  · have hne : x ≠ n := by omega
    rcases hl.rest x hne with hk | ⟨-, hh⟩
    · rw [hk.1, hx.guest x (by omega) hox]
    · exact absurd ((hw.coreMask hh.core).symm.trans hox) ho

omit h in
/-- An owned CPU after its owner is gone, if the lend, or what comes in its place, kept `free_cpus` exact, changed
foreign guests of this core at most, and set no other bit of the core that was off. -/
theorem LeavingExact.disowned (ho : (d.nodeInfo n).owner = pid)
    (hfree : ∀ x, x ∈ d2.freeCpus ↔ (d2.nodeInfo x).Idle)
    (hforeign : ∀ x, x ∉ coreOf S d.hwHasSmt n → ((d2.nodeInfo x).Foreign ↔ (d1.nodeInfo x).Foreign))
    (hguest : ∀ x, x ≠ n → (d.nodeInfo x).owner = pid → (d2.nodeInfo x).guest = (d1.nodeInfo x).guest)
    (hocc : ∀ x, x ∉ coreOf S d.hwHasSmt n → (x ∈ d2.occupiedCores ↔ x ∈ d1.occupiedCores))
    (hbits : ∀ x ∈ coreOf S d.hwHasSmt n, x ≠ n → (x < n ∨ ¬CoreForeign S d n) → x ∉ d1.occupiedCores →
      x ∉ d2.occupiedCores) : LeavingExact S pid d (disown d2 n) (n + 1) := by
  have hself : n ∈ coreOf S d.hwHasSmt n := hw.self_mem (ho ▸ hpid)
  refine ⟨fun x => ?_, fun x hox => ?_, fun x hgone => ?_, fun x hxn hox hno => ?_, fun x hxn hox => ?_⟩
  · refine (hfree x).trans ?_
    by_cases hxn : x = n
    · rw [hxn, disown_self]
      rfl
    · rw [disown_of_ne hxn]
  · have hxn : x ∉ coreOf S d.hwHasSmt n := fun hmem => hox ((hw.coreOf hmem).trans ho)
    have hne : x ≠ n := fun hxn' => hxn (hxn' ▸ hself)
    rw [mem_disown_occupied, and_iff_right hne, hocc x hxn, hx.others x hox]
    refine exists_congr fun e => and_congr_right fun he => ?_
    have hen : e ∉ coreOf S d.hwHasSmt n := notMem_coreOf hxn he
    rw [disown_of_ne fun hen' : e = n => hen (hen' ▸ hself), hforeign e hen]
  · rw [mem_disown_occupied]
    rintro ⟨hne, hmem⟩
    have hold : Gone pid d n x := (gone_succ_of_ne hne).mp hgone
    by_cases hxn : x ∈ coreOf S d.hwHasSmt n
    · exact hbits x hxn hne (.inl hold.1) (hx.behind x hold) hmem
    · exact hx.behind x hold ((hocc x hxn).mp hmem)
  · rw [mem_disown_occupied]
    rintro ⟨hne, hmem⟩
    have hold : x ∉ d1.occupiedCores := hx.quiet x (by omega) hox hno
    by_cases hxn : x ∈ coreOf S d.hwHasSmt n
    · refine hbits x hxn hne (.inr fun hf => hno ?_) hold hmem
      unfold CoreForeign at hf ⊢
      rwa [coreOf_eq hxn]
    · exact hold ((hocc x hxn).mp hmem)
  · have hne : x ≠ n := by omega
    rw [disown_of_ne hne, hguest x hne hox]
    exact hx.guest x (by omega) hox

theorem LeavingExact.dropped (ho : (d.nodeInfo n).owner = pid) (hd : Dropped pid n d1 d2) :
    LeavingExact S pid d (disown d2 n) (n + 1) := by
  have hself : n ∈ coreOf S d.hwHasSmt n := hw.self_mem (ho ▸ hpid)
  refine hx.disowned hw hpid ho (fun x => ?_) (fun x hxn => ?_) (fun x hxn _ => ?_) (fun x _ => ?_)
    fun x _ _ _ hmem => ?_
  · by_cases hxn : x = n
    · subst hxn
      refine iff_of_false (fun hmem => ?_) fun hidle => ?_
      · obtain ⟨hold, hs⟩ := hd.free hmem
        have hidle := (hx.free x).mp hold
        rw [hidle.1] at hs
        cases hs
      · have hs := hd.state
        rw [hidle.1] at hs
        cases hs
    · rw [(hd.rest x hxn).1, (hd.rest x hxn).2, hx.free]
  · rw [(hd.rest x fun hxn' => hxn (hxn' ▸ hself)).1]
  · rw [(hd.rest x hxn).1]
  · rw [hd.occupied]
  · rwa [hd.occupied]

theorem LeavingExact.lent (hclean : LeavesClean S co pid d)
    (halone : d.queuesEnabled = true → LeavesAlone S co pid d)
    (hgone : d.queuesEnabled = true → ∀ it ∈ d.lewiMaskRequests.items, it.pid ≠ pid) (hpublic : co.public) (ho : (d.nodeInfo n).owner = pid)
    (hs : (d1.nodeInfo n).state ≠ .disabled) : LeavingExact S pid d (disown (lendCpu S pid d1 n) n) (n + 1) := by
  have hl : Lent S pid n d1 (lendCpu S pid d1 n) := lendCpu_lent hs
  have hself : n ∈ coreOf S d.hwHasSmt n := hw.self_mem (ho ▸ hpid)
  have hon : (d1.nodeInfo n).owner = pid := h.info_owner.trans ho
  have hsmt : d1.hwHasSmt = d.hwHasSmt := h.flags.smt
  have hlent : (lentInfo pid (d1.nodeInfo n)).state = .lent := if_pos hon
  -- nobody takes the CPU
  have hzero : (d1.queuesEnabled = true → d.hwHasSmt = true ∨ (d.nodeInfo n).Idle) →
      (lentInfo pid (d1.nodeInfo n)).guest = 0 → ((lendCpu S pid d1 n).nodeInfo n).guest = 0 := by
    intro hcond hg
    refine lendCpu_untaken hs hg (by rw [hlent]; exact nofun) fun hq => ?_
    have hqd : d.queuesEnabled = true := h.flags.queues ▸ hq
    have hu : Unasked pid d n := (halone hqd).asked hpublic n ho (hcond hq)
    exact Unrequested.fewer ⟨hu.own, fun it hit => hu.global it hit (hgone hqd it hit)⟩ h.fewer
  generalize lendCpu S pid d1 n = d2 at hl hzero ⊢
  have huntouched : ∀ x, x ≠ n → Untouched d1 d2 x := by
    intro x hxn
    rcases hl.rest x hxn with hk | ⟨hg, hh⟩
    · exact hk
    exfalso
    by_cases hcond : d1.queuesEnabled = true → d.hwHasSmt = true ∨ (d.nodeInfo n).Idle
    · exact hh.lent (hzero hcond hg)
    · rw [Classical.not_imp] at hcond
      rcases (halone (h.flags.queues ▸ hcond.1)).core with hsm | hcard
      · exact hcond.2 (.inl hsm)
      · have hone := Finset.card_le_one.mp (hcard _ (coreMask_mem hh.core).1)
        exact hxn (hone x hh.core n (coreMask_mem hh.core).2)
  refine hx.disowned hw hpid ho (hl.free_exact hx.free (fun hidle => ?_) fun _ => ?_) (fun x hxn => ?_)
    (fun x hxn _ => (huntouched x hxn).1) (fun x hxn => hl.occupied_of_notMem (hsmt ▸ hxn))
    fun x hxn hne hcase hmem => ?_
  · have hold : (d.nodeInfo n).Idle := ⟨h.info_state ▸ hidle.1, by rw [← hx.guest n le_rfl ho, hidle.2]⟩
    refine hzero (fun _ => .inr hold) ?_
    unfold lentInfo
    rw [hidle.2, ite_self]
  · rw [hl.state, if_pos rfl, hlent]
  · have hxn' : x ≠ n := fun hxn' => hxn (hxn' ▸ hself)
    unfold CpuInfo.Foreign
    rw [(huntouched x hxn').1, hl.owner]
  · -- the bits of the core
    have hsm : d.hwHasSmt = true := by
      cases hsm : d.hwHasSmt with
      | true => rfl
      | false =>
        rw [hsm] at hxn
        exact absurd (Finset.mem_singleton.mp hxn) hne
    have hforeign : (d.nodeInfo n).Foreign ∨ ¬CoreForeign S d n := by
      by_contra hno
      rw [not_or, not_not] at hno
      have hlast := hclean.last hpublic n ho (h.info_state ▸ hs) hno.1 hno.2 x hxn
      rcases hcase with hlt | hquiet
      · omega
      · exact hquiet hno.2
    rw [hl.occupied, hon]
    rcases hforeign with hf | hquiet
    · -- the CPU keeps its guest, and its core is occupied already
      have hg : (d1.nodeInfo n).guest = (d.nodeInfo n).guest := hx.guest n le_rfl ho
      have hgp : (d1.nodeInfo n).guest ≠ pid := by
        rw [hg, ← ho]
        exact hf.2.2
      have hcpu : cpuIsOccupied { d2 with occupiedCores := d1.occupiedCores } pid n := by
        unfold cpuIsOccupied
        rw [decide_eq_true_eq]
        show (d2.nodeInfo n).guest ≠ 0 ∧ pid ≠ 0 ∧ (d2.nodeInfo n).guest ≠ pid
        rw [hl.guest_of_ne (hg ▸ hf.2.1) (.inr hgp)]
        exact ⟨hg ▸ hf.2.1, hpid, hgp⟩
      rw [occupiedUpdate_of_occupied hcpu (h.ahead n le_rfl ho ⟨n, hself, hf⟩)]
      exact hmem
    · have hgone : (d2.nodeInfo n).guest = 0 := by
        refine hzero (fun _ => .inl hsm) ?_
        by_contra hg0
        have hentry := lentInfo_guest hg0
        refine hquiet ⟨n, hself, ho ▸ hpid, ?_, ?_⟩
        · rw [← hx.guest n le_rfl ho, ← hentry]
          exact hg0
        · rw [← hx.guest n le_rfl ho, ho]
          intro hp
          exact hg0 (if_pos hp)
      have hcpu : cpuIsOccupied { d2 with occupiedCores := d1.occupiedCores } pid n = false := by
        unfold cpuIsOccupied
        rw [decide_eq_false_iff_not]
        exact fun hno => hno.1 hgone
      have hn : n ∉ d1.occupiedCores := hx.quiet n le_rfl ho hquiet
      have hxs : x ∈ coreOf S ({ d2 with occupiedCores := d1.occupiedCores } : Shdata).hwHasSmt n := by
        show x ∈ coreOf S d2.hwHasSmt n
        rw [hl.flags.smt, hsmt]
        exact hxn
      rw [mem_occupiedUpdate hxs (iff_of_false hmem hn), hcpu]
      rintro (hno | ⟨hno, -⟩)
      · cases hno
      · exact hn hno

theorem LeavingExact.step (hclean : LeavesClean S co pid d)
    (halone : d.queuesEnabled = true → LeavesAlone S co pid d)
    (hgone : d.queuesEnabled = true → ∀ it ∈ d.lewiMaskRequests.items, it.pid ≠ pid) (hn : n < S.size) (hs : LeaveStep S co pid d1 n d2) :
    LeavingExact S pid d d2 (n + 1) := by
  cases hs with
  | kept ho =>
    rw [h.info_owner] at ho
    refine ⟨hx.free, hx.others, fun x hgone => ?_, fun x hxn => hx.quiet x (by omega), fun x hxn => hx.guest x (by omega)⟩
    exact hx.behind x ((gone_succ_of_ne fun hxn : x = n => ho (hxn ▸ hgone.2)).mp hgone)
  | left ho hg hs =>
    rw [h.info_owner] at ho
    refine hx.left h hw hpid (fun hq => (halone hq).core) (fun hb => ?_) ho hg hs
    by_cases hgn : (d.nodeInfo n).guest = pid
    · exact hclean.busy n hn hgn hb
    · -- a claimed CPU that got a guest has an owner
      have hg0 : (d.nodeInfo n).guest = 0 := by
        by_contra hg0
        rw [h.guest n hg0 fun _ => le_rfl] at hg
        exact hgn hg
      rcases h.claimed n le_rfl hg0 (.inl hb) with hno | hown
      · exact absurd (hg.symm.trans hno) hpid
      · exact absurd (hown.symm.trans hg) ho
  | dropped d2 ho _ hd =>
    rw [h.info_owner] at ho
    exact hx.dropped h hw hpid ho hd
  | lent ho hpublic hs =>
    rw [h.info_owner] at ho
    exact hx.lent h hw hpid hclean halone hgone hpublic ho hs

end Exact

section Final

variable (h : SetsExact S d) (hw : WholeOwners S d) (hpid : pid ≠ 0)

include h hw hpid

end Final

/-! ## The operation -/

theorem WholeOwners.only (hw : WholeOwners S d) (ho : OnlyRequests d d1) : WholeOwners S d1 := by
  refine ⟨fun core hk c hc e he => ?_, fun c hc => ?_⟩
  · rw [(ho.same e).owner, (ho.same c).owner]
    exact hw.core core hk c hc e he
  · rw [(ho.same c).owner] at hc
    exact hw.owned c hc

theorem CoreForeign.only (ho : OnlyRequests d d1) : CoreForeign S d1 x ↔ CoreForeign S d x := by
  unfold CoreForeign
  rw [ho.flags.smt]
  exact exists_congr fun e => and_congr_right fun _ => (ho.same e).foreign

theorem LeavesClean.only (h : LeavesClean S co pid d) (ho : OnlyRequests d d1) : LeavesClean S co pid d1 := by
  refine ⟨fun c hc => ?_, fun hpublic c => ?_⟩
  · rw [(ho.same c).guest, (ho.same c).state, (ho.same c).owner]
    exact h.busy c hc
  · rw [(ho.same c).owner, (ho.same c).state, (ho.same c).foreign, CoreForeign.only ho, ho.flags.smt]
    exact h.last hpublic c

theorem LeavesAlone.removed (h : LeavesAlone S co pid d) : LeavesAlone S co pid (removeRequests S d pid) := by
  have honly : OnlyRequests d (removeRequests S d pid) := removeRequests_only
  refine ⟨honly.flags.smt ▸ h.core, fun hpublic c ho hcond => ?_⟩
  rw [(honly.same c).owner] at ho
  rw [honly.flags.smt, (honly.same c).idle] at hcond
  have hu : Unasked pid d c := h.asked hpublic c ho hcond
  have hf : FewerRequests d (removeRequests S d pid) := removeRequests_fewer
  refine ⟨fun p hp => hu.own p (hf.own c p hp), fun it hit hne hc => ?_⟩
  obtain ⟨it', hit', hpid, hallowed⟩ := hf.global it hit
  exact hu.global it' hit' (hpid ▸ hne) (hallowed ▸ hc)

section Deregister

variable (h : SetsExact S d) (hw : WholeOwners S d) (hpid : pid ≠ 0)

include h hw hpid

end Deregister

/-! ## Every ownership change -/

end Dlb.Cpuinfo

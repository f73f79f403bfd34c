import Dlb.Cpuinfo.FreeSet

/-!
# Idle CPUs are in `free_cpus`

`free_cpus` may have too many CPUs (`FreeSet`), never too few: in every run of processes that stay, in polling or
asynchronous mode, it has all CPUs that are lent and have no guest, and a busy CPU has a guest (`shown_run`).
-/

namespace Dlb.Cpuinfo

variable {S : System} {co : Caller} {p q : Pid} {d d1 : Shdata} {c x : ℕ} {i : CpuInfo}

/-- `free_cpus` has the idle CPUs, and a busy CPU has an owner and a guest. -/
structure Shown (S : System) (d : Shdata) : Prop where
  smt : muSystemHasSmt S = false → d.hwHasSmt = false
  idle : ∀ x, (d.nodeInfo x).Idle → x ∈ d.freeCpus
  busy : ∀ x, (d.nodeInfo x).state = .busy → (d.nodeInfo x).owner ≠ 0 ∧ (d.nodeInfo x).guest ≠ 0

/-! ## Changes -/

theorem Shown.only (h : Shown S d) (hsmt : d1.hwHasSmt = d.hwHasSmt) (hsame : ∀ x, (d.nodeInfo x).Same (d1.nodeInfo x))
    (hfree : d1.freeCpus = d.freeCpus) : Shown S d1 := by
  refine ⟨fun hS => hsmt.trans (h.smt hS), fun x => ?_, fun x => ?_⟩
  · rw [hfree, (hsame x).idle]
    exact h.idle x
  · rw [(hsame x).state, (hsame x).owner, (hsame x).guest]
    exact h.busy x

theorem Shown.congr (h : Shown S d) (hsmt : d1.hwHasSmt = d.hwHasSmt) (hinfo : d1.nodeInfo = d.nodeInfo)
    (hfree : d1.freeCpus = d.freeCpus) : Shown S d1 := h.only hsmt (fun x => by rw [hinfo]; exact .refl _) hfree

theorem Shown.write (h : Shown S d) (hsmt : d1.hwHasSmt = d.hwHasSmt)
    (hinfo : d1.nodeInfo = Function.update d.nodeInfo c i) (hrest : ∀ x ∈ d.freeCpus, x ≠ c → x ∈ d1.freeCpus)
    (hidle : i.Idle → c ∈ d1.freeCpus) (hbusy : i.state = .busy → i.owner ≠ 0 ∧ i.guest ≠ 0) : Shown S d1 := by
  refine ⟨fun hS => hsmt.trans (h.smt hS), fun x => ?_, fun x => ?_⟩
  · rw [hinfo]
    by_cases hx : x = c
    · rw [hx, Function.update_self]
      exact hidle
    · rw [Function.update_of_ne hx]
      exact fun hold => hrest x (h.idle x hold) hx
  · rw [hinfo]
    by_cases hx : x = c
    · rw [hx, Function.update_self]
      exact hbusy
    · rw [Function.update_of_ne hx]
      exact h.busy x

theorem Shown.guested (h : Shown S d) (hsmt : d1.hwHasSmt = d.hwHasSmt)
    (hinfo : d1.nodeInfo = Function.update d.nodeInfo c i)
    (hfree : d1.freeCpus = d.freeCpus ∨ d1.freeCpus = d.freeCpus.erase c) (hguest : i.guest ≠ 0)
    (hbusy : i.state = .busy → i.owner ≠ 0) : Shown S d1 := by
  refine h.write hsmt hinfo (fun x hx hne => ?_) (fun hidle => absurd hidle.2 hguest) fun hb => ⟨hbusy hb, hguest⟩
  rcases hfree with hfree | hfree
  · rwa [hfree]
  · rw [hfree]
    exact Finset.mem_erase.mpr ⟨hne, hx⟩

theorem Shown.push (h : Shown S d) (action : CpuinfoAction) (pid : Pid) (c : ℕ) : Shown S (d.push action pid c) :=
  h.congr rfl rfl rfl

/-! ## Operations on one CPU -/

theorem lendCpu_shown (h : Shown S d) : Shown S (lendCpu S q d c) := by
  by_cases hs : (d.nodeInfo c).state = .disabled
  · rwa [lendCpu_of_disabled hs]
  have hl : Lent S q c d (lendCpu S q d c) := lendCpu_lent hs
  refine ⟨fun hS => hl.flags.smt.trans (h.smt hS), fun x hidle => ?_, fun x hb => ?_⟩
  · by_cases hx : x = c
    · rw [hx] at hidle ⊢
      exact hl.free.mpr (.inr hidle.2)
    · rcases hl.rest x hx with hk | ⟨-, hh⟩
      · refine hk.2.mpr (h.idle x ⟨?_, hk.1 ▸ hidle.2⟩)
        have hstate := hl.state x
        rw [if_neg hx] at hstate
        exact hstate ▸ hidle.1
      · exact absurd hidle.2 hh.guest
  · rw [hl.owner]
    by_cases hx : x = c
    · rw [hx] at hb ⊢
      have hstate := hl.state c
      rw [if_pos rfl] at hstate
      have howner := (h.busy c (lentInfo_busy (hstate ▸ hb))).1
      refine ⟨howner, ?_⟩
      by_cases hg : (lentInfo q (d.nodeInfo c)).guest = 0
      · -- a claimed CPU goes back to its owner
        rwa [hl.busy hg hb]
      · rwa [hl.guest hg]
    · have hstate := hl.state x
      rw [if_neg hx] at hstate
      have hold := h.busy x (hstate ▸ hb)
      refine ⟨hold.1, ?_⟩
      rcases hl.rest x hx with hk | ⟨-, hh⟩
      · rw [hk.1]
        exact hold.2
      · exact hh.guest

theorem reclaimCpu_shown (h : Shown S d) (hq0 : q ≠ 0) : Shown S (reclaimCpu q d c).1 := by
  unfold reclaimCpu
  dsimp only
  split
  · rename_i ho
    split
    · rename_i hg
      exact h.guested rfl rfl (.inl rfl) (hg ▸ hq0) fun _ => ho ▸ hq0
    split
    · exact h.guested rfl rfl (.inr rfl) hq0 fun _ => ho ▸ hq0
    · rename_i hg
      exact h.guested rfl rfl (.inl rfl) hg fun _ => ho ▸ hq0
  · exact h

theorem noteOccupied_shown (h : Shown S d) : Shown S (noteOccupied S d c) := by
  unfold noteOccupied
  split
  · exact h.congr rfl rfl rfl
  · exact h

theorem noteOccupiedOwned_shown (h : Shown S d) : Shown S (noteOccupiedOwned S d c) := by
  unfold noteOccupiedOwned
  split
  · exact noteOccupied_shown h
  · exact h

theorem acquireCpu_shown (h : Shown S d) (hq0 : q ≠ 0) : Shown S (acquireCpu S q d c).1 := by
  unfold acquireCpu
  dsimp only
  split
  · exact h
  split
  · rename_i ho
    split
    · exact h.guested rfl rfl (.inr rfl) hq0 fun _ => ho ▸ hq0
    · rename_i hg
      exact noteOccupied_shown (h.guested rfl rfl (.inl rfl) hg fun _ => ho ▸ hq0)
  split
  · refine h.guested (c := c) (i := { d.nodeInfo c with guest := q }) noteOccupiedOwned_smt ?_ (.inr ?_) hq0
      fun hb => (h.busy c hb).1
    · show (noteOccupiedOwned S _ c).nodeInfo = _
      rw [noteOccupiedOwned_info]
      rfl
    · show (noteOccupiedOwned S _ c).freeCpus.erase c = _
      rw [noteOccupiedOwned_free]
      rfl
  split
  · split
    · exact h.only rfl (OnlyRequests.setRequests _).same rfl
    · exact h
  split
  · exact h
  · exact h

theorem borrowCpu_shown (h : Shown S d) (hq0 : q ≠ 0) : Shown S (borrowCpu S q d c).1 := by
  unfold borrowCpu
  dsimp only
  split
  · exact h
  split
  · split
    · rename_i ho
      exact h.guested rfl rfl (.inr rfl) hq0 fun _ => ho ▸ hq0
    split
    · exact noteOccupiedOwned_shown (h.guested rfl rfl (.inr rfl) hq0 fun hb => (h.busy c hb).1)
    · exact h
  · exact h

theorem returnGuest_shown (h : Shown S d) : Shown S (returnGuest d c) := by
  unfold returnGuest
  dsimp only
  split
  · rename_i hb
    exact h.guested rfl rfl (.inl rfl) (h.busy c hb).1 fun _ => (h.busy c hb).1
  · rename_i hb
    refine h.write rfl rfl (fun x hx _ => Finset.mem_insert_of_mem hx) (fun _ => Finset.mem_insert_self c _)
      fun hbusy => absurd hbusy hb

theorem returnCpu_shown (h : Shown S d) : Shown S (returnCpu S q d c).1 := by
  unfold returnCpu
  dsimp only
  split
  · exact h
  · exact (returnGuest_shown (c := c) h).congr rfl rfl rfl

theorem returnAsync_shown (h : Shown S d) : Shown S (returnAsync S p d c) := by
  have hupdate : Shown S (updateOccupiedCores S (returnGuest d c) (d.nodeInfo c).owner c) :=
    (returnGuest_shown (c := c) h).congr rfl rfl rfl
  unfold returnAsync requestAgain
  split
  · exact hupdate.only rfl (OnlyRequests.setRequests _).same rfl
  · exact hupdate

/-! ## Calls -/

theorem petition_shown {request : LewiMaskRequest} (h : Shown S d) : Shown S (petition d request).1 := by
  unfold petition
  split
  · exact h.congr rfl rfl rfl
  split
  · exact h.congr rfl rfl rfl
  · exact h

theorem petitionCpu_shown (r : Shdata × DlbError) (h : Shown S r.1) : Shown S (petitionCpu q r c).1 := by
  unfold petitionCpu
  dsimp only
  split
  · split
    · split
      · exact h.only rfl (OnlyRequests.setRequests _).same rfl
      · exact h
    · exact h
  · exact h

theorem removeRequests_shown (h : Shown S d) : Shown S (removeRequests S d q) :=
  h.only removeRequests_only.flags.smt removeRequests_only.same removeRequests_only.free

theorem shown_kept (hq0 : q ≠ 0) : Kept S q (Shown S) where
  start _ h := h.congr rfl rfl rfl
  timestamp _ _ h := h.congr rfl rfl rfl
  lend _ _ h := lendCpu_shown h
  reclaim _ _ h := reclaimCpu_shown h hq0
  acquire _ _ h := acquireCpu_shown h hq0
  borrow _ _ h := borrowCpu_shown h hq0
  giveBack _ _ h := returnCpu_shown h
  disable _ _ h := h.push _ _ _
  petitions w r h := addPetitions_keeps (fun _ _ hd => petition_shown hd) (fun r _ hr => petitionCpu_shown r hr) w r h
  remove _ h := removeRequests_shown h

theorem call_shown (h : Shown S d) (hq0 : q ≠ 0) (co : Caller) (call : Call) : Shown S (exec S co q d call) := by
  have hkept : Kept S q (Shown S) := shown_kept hq0
  refine exec_keeps hkept h co call fun cpuid _ => ?_
  refine shmemReclaimCpu_keeps hkept.reclaim (fun d cpuid c hd => ?_) (hkept.start d h) cpuid
  unfold disableRest
  split
  · exact hd.push _ _ _
  · exact hd

/-! ## Leaving LeWI -/

theorem disown_shown (h : Shown S d) (hs : (d.nodeInfo c).state ≠ .busy) : Shown S (disown d c) :=
  h.write (c := c) (i := { d.nodeInfo c with owner := 0 }) rfl rfl (fun _ hx _ => hx) (h.idle c)
    fun hb => absurd hb hs

theorem leaveCpu_shown (h : Shown S d) : Shown S (leaveCpu S co q d c) := by
  have hstep : LeaveStep S co q d c (leaveCpu S co q d c) := leaveCpu_step
  generalize leaveCpu S co q d c = d1 at hstep ⊢
  cases hstep with
  | kept => exact h
  | left _ _ _ => exact lendCpu_shown h
  | dropped d1 _ _ hd =>
    have hd1 : Shown S d1 := by
      refine ⟨fun hS => hd.flags.smt.trans (h.smt hS), fun x => ?_, fun x => ?_⟩
      · by_cases hx : x = c
        · rw [hx]
          exact fun hidle => absurd (hidle.1.symm.trans hd.state) nofun
        · rw [(hd.rest x hx).1, (hd.rest x hx).2]
          exact h.idle x
      · by_cases hx : x = c
        · rw [hx, hd.state]
          exact nofun
        · rw [(hd.rest x hx).1]
          exact h.busy x
    exact disown_shown hd1 (by rw [hd.state]; exact nofun)
  | lent ho _ hs =>
    have hl : Lent S q c d (lendCpu S q d c) := lendCpu_lent hs
    refine disown_shown (lendCpu_shown h) ?_
    rw [hl.state, if_pos rfl, show (lentInfo q (d.nodeInfo c)).state = .lent from if_pos ho]
    exact nofun

theorem shmemDeregister_shown (h : Shown S d) : Shown S (shmemDeregister S co d q).1 := by
  have hrun : Shown S ((List.range S.size).foldl (leaveCpu S co q) (removeRequests S d q)) :=
    List.foldlRecOn _ _ (removeRequests_shown h) fun _ hd _ _ => leaveCpu_shown hd
  exact hrun.congr rfl rfl rfl

/-! ## A new process mask -/

theorem stealCpu_shown (h : Shown S d) (hq0 : q ≠ 0) (hasTasks : Bool) : Shown S (stealCpu hasTasks q d c) := by
  have htaken : Shown S (if (d.nodeInfo c).guest = 0 then
      let d2 := (d.set c { d.nodeInfo c with owner := q, state := .busy, guest := q }).clrFree c
      { d2 with occupiedCores := d2.occupiedCores.erase c }
    else d.set c { d.nodeInfo c with owner := q, state := .busy }) := by
    split
    · exact h.guested rfl rfl (.inr rfl) hq0 fun _ => hq0
    · rename_i hg
      exact h.guested rfl rfl (.inl rfl) hg fun _ => hq0
  have htold : ∀ d1 : Shdata, Shown S d1 → Shown S (if hasTasks then
      let guest := (d1.nodeInfo c).guest
      (if guest ≠ q then d1.push .disableCpu guest c else d1).push .enableCpu q c
    else d1) := by
    intro d1 h1
    split
    · dsimp only
      split
      · exact (h1.push _ _ _).push _ _ _
      · exact h1.push _ _ _
    · exact h1
  exact htold _ htaken

theorem releaseCpu_shown (h : Shown S d) (hasTasks : Bool) : Shown S (releaseCpu hasTasks q d c) := by
  unfold releaseCpu
  dsimp only
  split
  · have hleft : ∀ d1 : Shdata, d1.hwHasSmt = d.hwHasSmt →
        d1.nodeInfo = Function.update d.nodeInfo c { d.nodeInfo c with owner := 0, state := .disabled, guest := 0 } →
        d1.freeCpus = d.freeCpus → Shown S (d1.clrFree c) := by
      intro d1 hsmt hinfo hfree
      have hrest : ∀ x ∈ d.freeCpus, x ≠ c → x ∈ (d1.clrFree c).freeCpus := fun x hx hne =>
        Finset.mem_erase.mpr ⟨hne, hfree ▸ hx⟩
      exact h.write hsmt hinfo hrest nofun nofun
    split
    · exact hleft _ rfl rfl rfl
    · exact hleft _ rfl rfl rfl
  · exact h.write rfl rfl (fun _ hx _ => hx) nofun nofun

theorem shmemUpdateOwnership_shown (h : Shown S d) (hq0 : q ≠ 0) (hasTasks : Bool) (mask : CpuSet) :
    Shown S (shmemUpdateOwnership S hasTasks d q mask).1 := by
  refine List.foldlRecOn (motive := fun r : Shdata × Bool => Shown S r.1) _ _ h fun r hr c _ => ?_
  unfold updateOwnershipCpu
  dsimp only
  split
  · exact hr
  split
  · split
    · exact stealCpu_shown hr hq0 hasTasks
    · exact hr
  split
  · exact releaseCpu_shown hr hasTasks
  split
  · split
    · exact returnCpu_shown hr
    · exact hr
  · exact hr

theorem checkCpuAvailability_shown (h : Shown S d) (hq0 : q ≠ 0) (before : CpuInfo) :
    Shown S (checkCpuAvailability before d q c).1 := by
  unfold checkCpuAvailability
  split
  · exact h
  split
  · exact h
  split
  · split
    · exact h.guested rfl rfl (.inr rfl) hq0 fun hb => (h.busy c hb).1
    · exact h
  split
  · exact h
  · exact h

/-! ## Init -/

theorem initShmem_shown (h : Shown S d) : Shown S (initShmem S co d) := by
  unfold initShmem
  split
  · exact h
  · refine ⟨id, fun x hidle => ?_, fun x => ?_⟩
    · unfold CpuInfo.Idle at hidle
      dsimp only at hidle ⊢
      by_cases hx : x < S.size
      · rw [if_pos hx] at hidle
        cases hr : co.respectCpuset with
        | true => simp [hr] at hidle
        | false => simp [hx]
      · rw [if_neg hx] at hidle
        cases hidle.1
    · dsimp only
      split
      · split
        · exact nofun
        · exact nofun
      · exact nofun

theorem registerProcess_shown (h : Shown S d) (hq0 : q ≠ 0) (preinitPid : Pid) (mask : CpuSet) (steal : Bool) :
    Shown S (registerProcess S d q preinitPid mask steal).1 := by
  unfold registerProcess
  split
  · exact h
  split
  · exact h
  · refine List.foldlRecOn _ _ h fun d hd c _ => ?_
    refine hd.guested rfl registerCpu_info (.inr rfl) ?_ fun _ => hq0
    unfold registered
    split
    · exact hq0
    · rename_i hg
      exact fun h0 => hg (.inl h0)

theorem finalize_shown (h : Shown S d) (ht : Traceless S q d) (hq0 : q ≠ 0) : Shown S (finalize S co d q) := by
  have hrun : Shown S ((List.range S.size).foldl (deregisterCpu S co q) d) := by
    refine (List.foldlRecOn (motive := fun r => Shown S r ∧ Traceless S q r) _ _ ⟨h, ht⟩ fun d hd c hc => ?_).1
    refine ⟨?_, deregisterCpu_traceless hq0 hd.2 co (List.mem_range.mp hc)⟩
    unfold deregisterCpu
    rw [if_neg (hd.2.owner c), if_neg (hd.2.guest c)]
    split
    · exact hd.1.only rfl (OnlyRequests.setRequests _).same rfl
    · exact hd.1
  unfold finalize deregisterProcess
  dsimp only
  split
  · exact hrun.congr rfl rfl rfl
  · exact hrun.congr rfl rfl rfl

theorem init_shown (h : Shown S d) (ht : Traceless S q d) (hq0 : q ≠ 0) (preinitPid : Pid) (mask : CpuSet) :
    Shown S (init S co d q preinitPid mask).1 := by
  have hstart : Shown S (initShmem S co d) := initShmem_shown h
  have htrace : Traceless S q (initShmem S co d) := initShmem_traceless hq0 ht co
  unfold init
  dsimp only
  split
  · rename_i hfail
    rw [registerProcess_failed hfail]
    exact finalize_shown hstart htrace hq0
  · exact registerProcess_shown hstart hq0 preinitPid mask false

/-! ## Runs -/

theorem exec_shown (h : Shown S d) (hq0 : q ≠ 0) {op : Op} (hop : op ≠ .finalize)
    (ht : ∀ preinitPid mask, op = .init preinitPid mask → Traceless S q d) : Shown S (op.exec S co q d).1 := by
  have h₀ : Shown S { d with tasks := [] } := h.congr rfl rfl rfl
  unfold Op.exec
  cases op with
  | init preinitPid mask =>
    have htrace : Traceless S q { d with tasks := [] } :=
      (ht preinitPid mask rfl).only (fun _ => .refl _) ⟨fun _ => id, fun it hit hpid => ⟨it, hit, hpid⟩, nofun⟩
    exact init_shown h₀ htrace hq0 preinitPid mask
  | lewiInit async =>
    dsimp only
    split
    · exact h₀.congr rfl rfl rfl
    · exact h₀
  | lewi call => exact call_shown h₀ hq0 co call
  | removeRequests =>
    dsimp only
    unfold shmemRemoveRequests
    split
    · refine h₀.only rfl (fun x => ?_) rfl
      dsimp only
      split
      · exact ⟨rfl, rfl, rfl⟩
      · exact .refl _
    · exact h₀
  | checkCpuAvailability before cpuid => exact checkCpuAvailability_shown h₀ hq0 before
  | updateOwnership hasTasks mask => exact shmemUpdateOwnership_shown h₀ hq0 hasTasks mask
  | deregister => exact shmemDeregister_shown h₀
  | finalize => exact absurd rfl hop

namespace AsyncNode

variable {n : AsyncNode} {e : Event}

theorem shown_next (h : Shown S n.shm) (ht : n.OutTraceless S) (he : e.Staying S) : Shown S (n.next S e).shm := by
  cases e with
  | op co q op =>
    obtain ⟨hq0, -, hop⟩ := he
    unfold AsyncNode.next
    dsimp only
    split
    · rename_i hallowed
      refine exec_shown h hq0 hop fun preinitPid mask hinit => ?_
      subst hinit
      refine (ht q hq0 ?_).1
      cases hph : n.phase q with
      | out => rfl
      | joined | active _ | left _ =>
        rw [hph] at hallowed
        cases hallowed
    · exact h
  | resolve i =>
    unfold AsyncNode.next
    dsimp only
    cases hgroup : n.pending[i]? with
    | none => exact h
    | some group => exact List.foldlRecOn _ _ h fun _ hd _ _ => returnAsync_shown hd

end AsyncNode

theorem shown_run (S : System) {events : List Event} (hevents : ∀ e ∈ events, e.Staying S) :
    Shown S (events.foldl (AsyncNode.next S) {}).shm := by
  have hstart : Shown S ({} : AsyncNode).shm ∧ AsyncNode.OutTraceless S {} := by
    refine ⟨⟨fun _ => rfl, fun x hidle => ?_, fun x => nofun⟩, AsyncNode.outTraceless_zero⟩
    cases hidle.1
  refine (List.foldlRecOn (motive := fun n : AsyncNode => Shown S n.shm ∧ n.OutTraceless S) _ _ hstart
    fun n hn e he => ?_).1
  exact ⟨AsyncNode.shown_next hn.1 hn.2 (hevents e he), hn.2.next (hevents e he)⟩

end Dlb.Cpuinfo

import Dlb.Cpuinfo.Departed

/-!
# What a process gives back when it resets or deregisters, in polling mode

Without request queues a CPU that is lent goes back to its owner if that has claimed it, and to nobody else (`Claims`).
So `shmem_cpuinfo__reset` and `shmem_cpuinfo__deregister` give every guested CPU back, with the one exception that
`lend_cpu` returns early on a disabled CPU: there the process stays the guest (`gives_back_iff`). Such a CPU is left by
an owner that deregisters while another process guests it.
-/

namespace Dlb.Cpuinfo

open List

variable {S : System} {co : Caller} {pid : Pid} {d d1 d2 d3 : Shdata} {c e x n : ℕ}

/-! ## Lending without queues -/

/-- Idle CPUs that their owners have claimed get these as guests, and tasks are pushed. -/
structure Claims (d d1 : Shdata) : Prop where
  queues : d1.queuesEnabled = d.queuesEnabled
  owner : ∀ x, (d1.nodeInfo x).owner = (d.nodeInfo x).owner
  state : ∀ x, (d1.nodeInfo x).state = (d.nodeInfo x).state
  guest : ∀ x, (d1.nodeInfo x).guest = (d.nodeInfo x).guest ∨
    ((d.nodeInfo x).guest = 0 ∧ (d.nodeInfo x).state = .busy ∧ (d1.nodeInfo x).guest = (d.nodeInfo x).owner)
  tasks : ∀ t ∈ d.tasks, t ∈ d1.tasks

theorem Claims.of_info (hq : d1.queuesEnabled = d.queuesEnabled) (hinfo : d1.nodeInfo = d.nodeInfo)
    (ht : ∀ t ∈ d.tasks, t ∈ d1.tasks) : Claims d d1 :=
  ⟨hq, fun x => by rw [hinfo], fun x => by rw [hinfo], fun x => .inl (by rw [hinfo]), ht⟩

theorem Claims.refl (d : Shdata) : Claims d d := .of_info rfl rfl fun _ => id

theorem Claims.trans (h1 : Claims d d1) (h2 : Claims d1 d2) : Claims d d2 where
  queues := h2.queues.trans h1.queues
  owner x := (h2.owner x).trans (h1.owner x)
  state x := (h2.state x).trans (h1.state x)
  guest x := by
    rcases h2.guest x with hk | ⟨hzero, hbusy, hown⟩
    · rw [hk]
      exact h1.guest x
    · rw [h1.owner] at hown
      rw [h1.state] at hbusy
      rcases h1.guest x with hk | hclaimed
      · exact .inr ⟨hk ▸ hzero, hbusy, hown⟩
      · exact .inr ⟨hclaimed.1, hclaimed.2.1, hown⟩
  tasks t ht := h2.tasks t (h1.tasks t ht)

theorem assignGuest_claims (hq : d.queuesEnabled = false) (hg : (d.nodeInfo c).guest = 0) :
    Claims d (assignGuest S d c).1 := by
  by_cases hb : (d.nodeInfo c).state = .busy
  · by_cases ho : (d.nodeInfo c).owner = 0
    · have heq : (assignGuest S d c).1 = d := by simp [assignGuest, findNewGuest, hb, ho]
      rw [heq]
      exact .refl d
    · rw [assignGuest_of_busy hb ho]
      refine ⟨rfl, fun x => ?_, fun x => ?_, fun x => ?_, fun t ht => mem_append_left _ ht⟩
      · by_cases hx : x = c
        · simp [Shdata.push, Shdata.set, hx]
        · simp [Shdata.push, Shdata.set, hx]
      · by_cases hx : x = c
        · simp [Shdata.push, Shdata.set, hx]
        · simp [Shdata.push, Shdata.set, hx]
      · by_cases hx : x = c
        · exact .inr (by simp [Shdata.push, Shdata.set, hx, hg, hb])
        · exact .inl (by simp [Shdata.push, Shdata.set, hx])
  · rw [assignGuest_of_not_busy hq hb]
    exact .refl d

theorem assignRest_claims (hq : d.queuesEnabled = false) : Claims d (assignRest S c d e) := by
  unfold assignRest
  split
  · rename_i h
    have hclaims : Claims d (assignGuest S d e).1 := assignGuest_claims hq h.2
    dsimp only
    split
    · exact hclaims
    · exact hclaims.trans (.of_info rfl rfl fun _ => id)
  · exact .refl d

theorem assignRests_claims (hq : d.queuesEnabled = false) (l : List ℕ) : Claims d (l.foldl (assignRest S c) d) :=
  foldlRecOn l (assignRest S c) (Claims.refl d) fun _ hd _ _ =>
    hd.trans (assignRest_claims (hd.queues.trans hq))

theorem findGuests_claims (hq : d.queuesEnabled = false) : Claims d (findGuests S d c) := by
  unfold findGuests
  split
  · rename_i hg
    have hclaims : Claims d (assignGuest S d c).1 := assignGuest_claims hq hg
    dsimp only
    split
    · exact hclaims
    · exact hclaims.trans (assignRests_claims (hclaims.queues.trans hq) _)
  · exact .refl d

theorem lendCpu_claims (hq : d.queuesEnabled = false) (hs : (d.nodeInfo c).state ≠ .disabled) :
    Claims (d.set c (lentInfo pid (d.nodeInfo c))) (lendCpu S pid d c) := by
  have hfind : Claims (d.set c (lentInfo pid (d.nodeInfo c))) (findGuests S (d.set c (lentInfo pid (d.nodeInfo c))) c) :=
    findGuests_claims hq
  unfold lendCpu
  rw [if_neg hs, leave_lendOwned hq]
  dsimp only
  split
  · exact hfind.trans (.of_info rfl rfl fun _ => id)
  · exact hfind.trans (.of_info rfl rfl fun _ => id)

/-- What `lend_cpu` leaves of other CPUs: a CPU that was idle may have its owner as guest. -/
structure LentPolling (pid : Pid) (c : ℕ) (d d1 : Shdata) : Prop where
  queues : d1.queuesEnabled = d.queuesEnabled
  owner : ∀ x, (d1.nodeInfo x).owner = (d.nodeInfo x).owner
  state : ∀ x, (d.nodeInfo x).owner ≠ pid ∨ x ≠ c → (d1.nodeInfo x).state = (d.nodeInfo x).state
  guest : ∀ x, x ≠ c → (d1.nodeInfo x).guest = (d.nodeInfo x).guest ∨
    ((d.nodeInfo x).guest = 0 ∧ (d.nodeInfo x).state = .busy ∧ (d1.nodeInfo x).guest = (d.nodeInfo x).owner)
  left : pid ≠ 0 → (d1.nodeInfo c).guest ≠ pid
  tasks : ∀ t ∈ d.tasks, t ∈ d1.tasks

theorem lendCpu_polling (hq : d.queuesEnabled = false) (hs : (d.nodeInfo c).state ≠ .disabled) :
    LentPolling pid c d (lendCpu S pid d c) := by
  have h : Claims (d.set c (lentInfo pid (d.nodeInfo c))) (lendCpu S pid d c) := lendCpu_claims hq hs
  generalize lendCpu S pid d c = d1 at h ⊢
  have hself : (d.set c (lentInfo pid (d.nodeInfo c))).nodeInfo c = lentInfo pid (d.nodeInfo c) := set_info _
  have hrest : ∀ x, x ≠ c → (d.set c (lentInfo pid (d.nodeInfo c))).nodeInfo x = d.nodeInfo x :=
    fun x hx => Function.update_of_ne hx _ _
  refine ⟨h.queues, fun x => ?_, fun x hx => ?_, fun x hx => ?_, fun hpid hg => ?_, h.tasks⟩
  · rw [h.owner]
    by_cases hx : x = c
    · rw [hx, hself]
      rfl
    · rw [hrest x hx]
  · rw [h.state]
    by_cases hc : x = c
    · rw [hc, hself]
      exact if_neg fun ho => hx.elim (fun hne => hne (hc ▸ ho)) fun hne => hne hc
    · rw [hrest x hc]
  · have hguest := h.guest x
    rwa [hrest x hx] at hguest
  · rcases h.guest c with hk | ⟨-, hbusy, hown⟩
    · rw [hself] at hk
      rw [hk] at hg
      unfold lentInfo at hg
      split at hg
      · exact hpid hg.symm
      · rename_i hne
        exact hne hg
    · -- a CPU that the process owns is lent, and not claimed
      rw [hself] at hbusy hown
      unfold lentInfo at hbusy
      dsimp only at hbusy
      split at hbusy
      · cases hbusy
      · rename_i hne
        exact hne (hown.symm.trans hg)

/-! ## Reset -/

/-- What `shmem_cpuinfo__reset` is to do: the process guests its own CPUs only; it has claimed all of these, and each of
them that another process guests comes with the two tasks of a reclaim; a CPU that it stops guesting comes with a task
to disable it. -/
structure ResetGivesBack (S : System) (pid : Pid) (d d1 : Shdata) : Prop where
  guested : ∀ x < S.size, (d1.nodeInfo x).guest = pid → (d1.nodeInfo x).owner = pid
  owned : ∀ x < S.size, (d1.nodeInfo x).owner = pid → (d1.nodeInfo x).state = .busy ∧ ((d1.nodeInfo x).guest = pid ∨
    (⟨.disableCpu, (d1.nodeInfo x).guest, x⟩ ∈ d1.tasks ∧ ⟨.enableCpu, pid, x⟩ ∈ d1.tasks))
  left : ∀ x < S.size, (d.nodeInfo x).guest = pid → (d1.nodeInfo x).guest ≠ pid →
    ⟨.disableCpu, pid, x⟩ ∈ d1.tasks

/-- The CPUs below `n` have been reset. -/
structure Resets (pid : Pid) (d d1 : Shdata) (n : ℕ) : Prop where
  queues : d1.queuesEnabled = false
  owner : ∀ x, (d1.nodeInfo x).owner = (d.nodeInfo x).owner
  state : ∀ x, (d1.nodeInfo x).state = if x < n ∧ (d.nodeInfo x).owner = pid then .busy else (d.nodeInfo x).state
  guested : ∀ x, (d.nodeInfo x).owner ≠ pid → ((d1.nodeInfo x).guest = pid ↔
    (d.nodeInfo x).guest = pid ∧ (n ≤ x ∨ (d.nodeInfo x).state = .disabled))
  kept : ∀ x, (d.nodeInfo x).owner = pid → (d.nodeInfo x).guest = pid → (d1.nodeInfo x).guest = pid
  owned : ∀ x < n, (d.nodeInfo x).owner = pid → (d1.nodeInfo x).guest ≠ 0 ∧ ((d1.nodeInfo x).guest = pid ∨
    (⟨.disableCpu, (d1.nodeInfo x).guest, x⟩ ∈ d1.tasks ∧ ⟨.enableCpu, pid, x⟩ ∈ d1.tasks))
  left : ∀ x < n, (d.nodeInfo x).owner ≠ pid → (d.nodeInfo x).guest = pid → ⟨.disableCpu, pid, x⟩ ∈ d1.tasks

theorem Resets.start (hq : d.queuesEnabled = false) : Resets pid d d 0 where
  queues := hq
  owner _ := rfl
  state x := (if_neg fun h => Nat.not_lt_zero x h.1).symm
  guested x _ := (and_iff_left (.inl (Nat.zero_le x))).symm
  kept _ _ hg := hg
  owned x hx := absurd hx (Nat.not_lt_zero x)
  left x hx := absurd hx (Nat.not_lt_zero x)

theorem reclaimCpu_polling (hpid : pid ≠ 0) (ho : (d.nodeInfo c).owner = pid) :
    (reclaimCpu pid d c).1.queuesEnabled = d.queuesEnabled ∧
    (∀ x, x ≠ c → (reclaimCpu pid d c).1.nodeInfo x = d.nodeInfo x) ∧
    ((reclaimCpu pid d c).1.nodeInfo c).owner = pid ∧ ((reclaimCpu pid d c).1.nodeInfo c).state = .busy ∧
    ((reclaimCpu pid d c).1.nodeInfo c).guest ≠ 0 ∧
    ((d.nodeInfo c).guest = pid → ((reclaimCpu pid d c).1.nodeInfo c).guest = pid) ∧
    (((reclaimCpu pid d c).1.nodeInfo c).guest = pid ∨
      (⟨.disableCpu, ((reclaimCpu pid d c).1.nodeInfo c).guest, c⟩ ∈ (reclaimCpu pid d c).1.tasks ∧
        ⟨.enableCpu, pid, c⟩ ∈ (reclaimCpu pid d c).1.tasks)) ∧
    ∀ t ∈ d.tasks, t ∈ (reclaimCpu pid d c).1.tasks := by
  unfold reclaimCpu
  rw [if_pos ho]
  split
  · rename_i hg
    refine ⟨rfl, fun x hx => Function.update_of_ne hx _ _, ?_, ?_, ?_, fun _ => ?_, .inl ?_, fun _ => id⟩
    · rw [set_info]
      exact ho
    · rw [set_info]
    · rw [set_info]
      exact hg ▸ hpid
    · rw [set_info]
      exact hg
    · rw [set_info]
      exact hg
  split
  · refine ⟨rfl, fun x hx => Function.update_of_ne hx _ _, ?_, ?_, ?_, fun _ => ?_, .inl ?_,
      fun _ ht => mem_append_left _ ht⟩
    · simp [Shdata.clrFree, Shdata.push, Shdata.set, ho]
    · simp [Shdata.clrFree, Shdata.push, Shdata.set]
    · simpa [Shdata.clrFree, Shdata.push, Shdata.set] using hpid
    · simp [Shdata.clrFree, Shdata.push, Shdata.set]
    · simp [Shdata.clrFree, Shdata.push, Shdata.set]
  · rename_i hg hzero
    refine ⟨rfl, fun x hx => Function.update_of_ne hx _ _, ?_, ?_, ?_, fun hp => absurd hp hg, .inr ⟨?_, ?_⟩,
      fun _ ht => mem_append_left _ (mem_append_left _ ht)⟩
    · simp [Shdata.recall, Shdata.push, Shdata.set, ho]
    · simp [Shdata.recall, Shdata.push, Shdata.set]
    · simpa [Shdata.recall, Shdata.push, Shdata.set] using hzero
    · simp [Shdata.recall, Shdata.push, Shdata.set]
    · simp [Shdata.recall, Shdata.push, Shdata.set]

theorem Resets.reclaim (h : Resets pid d d1 n) (hpid : pid ≠ 0) (ho : (d.nodeInfo n).owner = pid) :
    Resets pid d (reclaimCpu pid d1 n).1 (n + 1) := by
  obtain ⟨hq, hrest, howner, hstate, hzero, hkept, htold, htasks⟩ := reclaimCpu_polling hpid ((h.owner n).trans ho)
  generalize (reclaimCpu pid d1 n).1 = d2 at hq hrest howner hstate hzero hkept htold htasks ⊢
  refine ⟨hq.trans h.queues, fun x => ?_, fun x => ?_, fun x hx => ?_, fun x hx hg => ?_, fun x hx hox => ?_,
    fun x hx hox hg => ?_⟩
  · by_cases hxn : x = n
    · rw [hxn, howner, ho]
    · rw [hrest x hxn, h.owner]
  · by_cases hxn : x = n
    · rw [hxn, hstate, if_pos ⟨Nat.lt_succ_self n, ho⟩]
    · have hlt : x < n + 1 ↔ x < n := by omega
      rw [hrest x hxn, h.state]
      simp only [hlt]
  · have hxn : x ≠ n := fun e => hx (e ▸ ho)
    have hle : n + 1 ≤ x ↔ n ≤ x := by omega
    rw [hrest x hxn, h.guested x hx, hle]
  · by_cases hxn : x = n
    · subst hxn
      exact hkept (h.kept x hx hg)
    · rw [hrest x hxn]
      exact h.kept x hx hg
  · by_cases hxn : x = n
    · subst hxn
      exact ⟨hzero, htold⟩
    · obtain ⟨hne, htold'⟩ := h.owned x (by omega) hox
      rw [hrest x hxn]
      exact ⟨hne, htold'.imp id fun ht => ⟨htasks _ ht.1, htasks _ ht.2⟩⟩
  · have hxn : x ≠ n := fun e => hox (e ▸ ho)
    exact htasks _ (h.left x (by omega) hox hg)

theorem Resets.lend (h : Resets pid d d1 n) (hpid : pid ≠ 0) (ho : (d.nodeInfo n).owner ≠ pid) :
    Resets pid d ((lendCpu S pid d1 n).push .disableCpu pid n) (n + 1) := by
  have ho1 : (d1.nodeInfo n).owner ≠ pid := by rwa [h.owner]
  have hs1 : (d1.nodeInfo n).state = (d.nodeInfo n).state := (h.state n).trans (if_neg fun hn => ho hn.2)
  by_cases hs : (d.nodeInfo n).state = .disabled
  · rw [lendCpu_of_disabled (hs1.trans hs)]
    refine ⟨h.queues, h.owner, fun x => ?_, fun x hx => ?_, h.kept, fun x hx hox => ?_, fun x hx hox hg => ?_⟩
    · show (d1.nodeInfo x).state = _
      rw [h.state]
      by_cases hxn : x = n
      · rw [if_neg fun hc => ho (hxn ▸ hc.2), if_neg fun hc => ho (hxn ▸ hc.2)]
      · have hlt : x < n + 1 ↔ x < n := by omega
        simp only [hlt]
    · show (d1.nodeInfo x).guest = pid ↔ _
      rw [h.guested x hx]
      by_cases hxn : x = n
      · rw [hxn, hs]
        simp
      · have hle : n + 1 ≤ x ↔ n ≤ x := by omega
        rw [hle]
    · have hxn : x ≠ n := fun e => ho (e ▸ hox)
      obtain ⟨hne, htold⟩ := h.owned x (by omega) hox
      exact ⟨hne, htold.imp id fun ht => ⟨mem_append_left _ ht.1, mem_append_left _ ht.2⟩⟩
    · by_cases hxn : x = n
      · rw [hxn]
        exact mem_append_right _ (mem_singleton_self _)
      · exact mem_append_left _ (h.left x (by omega) hox hg)
  · have hl : LentPolling pid n d1 (lendCpu S pid d1 n) := lendCpu_polling h.queues (hs1 ▸ hs)
    generalize lendCpu S pid d1 n = d2 at hl ⊢
    refine ⟨hl.queues.trans h.queues, fun x => (hl.owner x).trans (h.owner x), fun x => ?_, fun x hx => ?_,
      fun x hx hg => ?_, fun x hx hox => ?_, fun x hx hox hg => ?_⟩
    · show (d2.nodeInfo x).state = _
      by_cases hxn : x = n
      · subst hxn
        rw [hl.state x (.inl ho1), hs1, if_neg fun hc => ho hc.2]
      · have hlt : x < n + 1 ↔ x < n := by omega
        rw [hl.state x (.inr hxn), h.state]
        simp only [hlt]
    · show (d2.nodeInfo x).guest = pid ↔ _
      by_cases hxn : x = n
      · subst hxn
        refine iff_of_false (hl.left hpid) ?_
        rintro ⟨-, hle | hd⟩
        · omega
        · exact hs hd
      · have hle : n + 1 ≤ x ↔ n ≤ x := by omega
        rw [hle, ← h.guested x hx]
        rcases hl.guest x hxn with hk | ⟨hzero, -, hown⟩
        · rw [hk]
        · rw [hown, hzero, h.owner]
          exact iff_of_false hx hpid.symm
    · have hxn : x ≠ n := fun e => ho (e ▸ hx)
      show (d2.nodeInfo x).guest = pid
      rcases hl.guest x hxn with hk | ⟨-, -, hown⟩
      · rw [hk]
        exact h.kept x hx hg
      · rw [hown, h.owner, hx]
    · have hxn : x ≠ n := fun e => ho (e ▸ hox)
      obtain ⟨hne, htold⟩ := h.owned x (by omega) hox
      have hk : (d2.nodeInfo x).guest = (d1.nodeInfo x).guest := by
        rcases hl.guest x hxn with hk | ⟨hzero, -, -⟩
        · exact hk
        · exact absurd hzero hne
      show (d2.nodeInfo x).guest ≠ 0 ∧ ((d2.nodeInfo x).guest = pid ∨
        (⟨.disableCpu, (d2.nodeInfo x).guest, x⟩ ∈ d2.tasks ++ [_] ∧ ⟨.enableCpu, pid, x⟩ ∈ d2.tasks ++ [_]))
      rw [hk]
      exact ⟨hne, htold.imp id fun ht => ⟨mem_append_left _ (hl.tasks _ ht.1),
        mem_append_left _ (hl.tasks _ ht.2)⟩⟩
    · by_cases hxn : x = n
      · rw [hxn]
        exact mem_append_right _ (mem_singleton_self _)
      · exact mem_append_left _ (hl.tasks _ (h.left x (by omega) hox hg))

theorem Resets.step (h : Resets pid d d1 n) (hpid : pid ≠ 0) : Resets pid d (resetCpu S pid d1 n) (n + 1) := by
  unfold resetCpu
  rw [h.owner]
  by_cases ho : (d.nodeInfo n).owner = pid
  · rw [if_pos ho]
    exact h.reclaim hpid ho
  rw [if_neg ho]
  by_cases hg : (d1.nodeInfo n).guest = pid
  · rw [if_pos hg]
    exact h.lend hpid ho
  rw [if_neg hg]
  have hguest : (d.nodeInfo n).guest ≠ pid := fun hp => hg ((h.guested n ho).mpr ⟨hp, .inl (Nat.le_refl n)⟩)
  refine ⟨h.queues, h.owner, fun x => ?_, fun x hx => ?_, h.kept, fun x hx hox => ?_, fun x hx hox hgx => ?_⟩
  · rw [h.state]
    by_cases hxn : x = n
    · rw [if_neg fun hc => ho (hxn ▸ hc.2), if_neg fun hc => ho (hxn ▸ hc.2)]
    · have hlt : x < n + 1 ↔ x < n := by omega
      simp only [hlt]
  · rw [h.guested x hx]
    by_cases hxn : x = n
    · subst hxn
      exact iff_of_false (fun hp => hguest hp.1) fun hp => hguest hp.1
    · have hle : n + 1 ≤ x ↔ n ≤ x := by omega
      rw [hle]
  · have hxn : x ≠ n := fun e => ho (e ▸ hox)
    exact h.owned x (by omega) hox
  · have hxn : x ≠ n := fun e => hguest (e ▸ hgx)
    exact h.left x (by omega) hox hgx

theorem resets_run (hpid : pid ≠ 0) (hq : d.queuesEnabled = false) :
    ∀ n, Resets pid d ((range n).foldl (resetCpu S pid) d) n
  | 0 => .start hq
  | n + 1 => by
    rw [range_succ, foldl_append]
    exact (resets_run hpid hq n).step hpid

theorem removeRequests_polling (hq : d.queuesEnabled = false) : removeRequests S d pid = d := by
  unfold removeRequests
  rw [if_neg (by rw [hq]; exact Bool.false_ne_true)]

theorem reset_iff (hpid : pid ≠ 0) (hq : d.queuesEnabled = false) :
    ResetGivesBack S pid d (shmemReset S co d pid).1 ↔
      ∀ x < S.size, (d.nodeInfo x).guest = pid → (d.nodeInfo x).state = .disabled → (d.nodeInfo x).owner = pid := by
  have h : Resets pid d (shmemReset S co d pid).1 S.size := by
    have hrun : Resets pid d ((range S.size).foldl (resetCpu S pid) d) S.size := resets_run hpid hq S.size
    unfold shmemReset
    rw [removeRequests_polling hq]
    exact ⟨hrun.queues, hrun.owner, hrun.state, hrun.guested, hrun.kept, hrun.owned, hrun.left⟩
  generalize (shmemReset S co d pid).1 = d1 at h ⊢
  constructor
  · intro hback x hx hg hs
    by_contra ho
    exact ho ((h.owner x).symm.trans (hback.guested x hx ((h.guested x ho).mpr ⟨hg, .inr hs⟩)))
  · intro hall
    refine ⟨fun x hx hg => ?_, fun x hx ho => ?_, fun x hx hg hne => ?_⟩
    · rw [h.owner]
      by_contra ho
      obtain ⟨hgd, hle | hs⟩ := (h.guested x ho).mp hg
      · omega
      · exact ho (hall x hx hgd hs)
    · rw [h.owner] at ho
      exact ⟨by rw [h.state, if_pos ⟨hx, ho⟩], (h.owned x hx ho).2⟩
    · have ho : (d.nodeInfo x).owner ≠ pid := fun ho => hne (h.kept x ho hg)
      exact h.left x hx ho hg

/-! ## Deregister -/

/-- What `shmem_cpuinfo__deregister` is to do: the process owns and guests nothing. -/
structure DeregisterGivesBack (S : System) (pid : Pid) (d1 : Shdata) : Prop where
  owned : ∀ x < S.size, (d1.nodeInfo x).owner ≠ pid
  guested : ∀ x < S.size, (d1.nodeInfo x).guest ≠ pid

/-- The CPUs below `n` have been left. -/
structure Leaves (co : Caller) (pid : Pid) (d d1 : Shdata) (n : ℕ) : Prop where
  queues : d1.queuesEnabled = false
  owner : ∀ x, (d1.nodeInfo x).owner = if x < n ∧ (d.nodeInfo x).owner = pid then 0 else (d.nodeInfo x).owner
  state : ∀ x, n ≤ x → (d1.nodeInfo x).state = (d.nodeInfo x).state
  ahead : ∀ x, n ≤ x → (d.nodeInfo x).owner ≠ pid ∨ (d.nodeInfo x).state = .disabled →
    ((d1.nodeInfo x).guest = pid ↔ (d.nodeInfo x).guest = pid)
  behind : ∀ x < n, (d1.nodeInfo x).guest = pid ↔
    (d.nodeInfo x).guest = pid ∧ (d.nodeInfo x).state = .disabled ∧ ((d.nodeInfo x).owner = pid → co.public)

theorem Leaves.start (hq : d.queuesEnabled = false) : Leaves co pid d d 0 where
  queues := hq
  owner x := (if_neg fun h => Nat.not_lt_zero x h.1).symm
  state _ _ := rfl
  ahead _ _ _ := Iff.rfl
  behind x hx := absurd hx (Nat.not_lt_zero x)

theorem Leaves.owner_self (h : Leaves co pid d d1 n) : (d1.nodeInfo n).owner = (d.nodeInfo n).owner :=
  (h.owner n).trans (if_neg fun hc => Nat.lt_irrefl n hc.1)

/-- What one CPU must show: it has lost its owner if that was the process, and the process guests it only if it is
disabled; the CPUs beside it stay, but for claimed ones. -/
theorem Leaves.next (h : Leaves co pid d d1 n) (hpid : pid ≠ 0) (hq : d2.queuesEnabled = false)
    (howner : ∀ x, x ≠ n → (d2.nodeInfo x).owner = (d1.nodeInfo x).owner)
    (hstate : ∀ x, x ≠ n → (d2.nodeInfo x).state = (d1.nodeInfo x).state)
    (hguest : ∀ x, x ≠ n → (d2.nodeInfo x).guest = (d1.nodeInfo x).guest ∨
      ((d1.nodeInfo x).guest = 0 ∧ (d1.nodeInfo x).state = .busy ∧ (d2.nodeInfo x).guest = (d1.nodeInfo x).owner))
    (hself : (d2.nodeInfo n).owner = if (d.nodeInfo n).owner = pid then 0 else (d.nodeInfo n).owner)
    (hleft : (d2.nodeInfo n).guest = pid ↔
      (d.nodeInfo n).guest = pid ∧ (d.nodeInfo n).state = .disabled ∧ ((d.nodeInfo n).owner = pid → co.public)) :
    Leaves co pid d d2 (n + 1) := by
  refine ⟨hq, fun x => ?_, fun x hx => ?_, fun x hx hcase => ?_, fun x hx => ?_⟩
  · by_cases hxn : x = n
    · subst hxn
      simp only [hself, Nat.lt_succ_self, true_and]
    · have hlt : x < n + 1 ↔ x < n := by omega
      rw [howner x hxn, h.owner]
      simp only [hlt]
  · rw [hstate x (by omega), h.state x (by omega)]
  · rw [← h.ahead x (by omega) hcase]
    rcases hguest x (by omega) with hk | ⟨hzero, hbusy, hown⟩
    · rw [hk]
    · -- a claimed CPU goes to its owner, which is another process
      rw [h.state x (by omega)] at hbusy
      rw [h.owner, if_neg fun hc => by omega] at hown
      rw [hown, hzero]
      refine iff_of_false (fun ho => ?_) hpid.symm
      exact hcase.elim (fun hne => hne ho) fun hs => nomatch hbusy.symm.trans hs
  · by_cases hxn : x = n
    · rw [hxn]
      exact hleft
    · rw [← h.behind x (by omega)]
      rcases hguest x hxn with hk | ⟨hzero, -, hown⟩
      · rw [hk]
      · rw [hown, hzero]
        refine iff_of_false (fun ho => ?_) hpid.symm
        rw [h.owner] at ho
        split at ho
        · exact hpid ho.symm
        · rename_i hno
          exact hno ⟨by omega, ho⟩

theorem reclaimDisable_guest (hpid : pid ≠ 0) : ((reclaimDisable pid d c).nodeInfo c).guest ≠ pid := by
  unfold reclaimDisable guestWithout
  intro hg
  simp only [Shdata.clrFree, set_info] at hg
  split at hg
  · exact hpid hg.symm
  · rename_i hne
    exact hne hg

theorem Leaves.leaveOwned (h : Leaves co pid d d1 n) (hpid : pid ≠ 0) (ho : (d.nodeInfo n).owner = pid) :
    Leaves co pid d (leaveOwned S co pid d1 n) (n + 1) := by
  have ho1 : (d1.nodeInfo n).owner = pid := h.owner_self.trans ho
  have hs1 : (d1.nodeInfo n).state = (d.nodeInfo n).state := h.state n (Nat.le_refl n)
  have hnone : ∀ d2 : Shdata, ((disown d2 n).nodeInfo n).owner = if (d.nodeInfo n).owner = pid then 0 else (d.nodeInfo n).owner :=
    fun d2 => by rw [if_pos ho, disown_self]
  unfold Cpuinfo.leaveOwned
  by_cases hpublic : co.cpuIsPublicPostMortem = true ∨ (!co.respectCpuset) = true
  · rw [if_pos hpublic]
    by_cases hs : (d.nodeInfo n).state = .disabled
    · rw [lendCpu_of_disabled (hs1.trans hs)]
      show Leaves co pid d (disown d1 n) (n + 1)
      refine h.next hpid h.queues (fun x hx => by rw [disown_of_ne hx])
        (fun x hx => by rw [disown_of_ne hx]) (fun x hx => .inl (by rw [disown_of_ne hx])) (hnone d1) ?_
      rw [disown_self]
      exact (h.ahead n (Nat.le_refl n) (.inr hs)).trans ⟨fun hg => ⟨hg, hs, fun _ => hpublic⟩, fun hg => hg.1⟩
    · have hl : LentPolling pid n d1 (lendCpu S pid d1 n) := lendCpu_polling h.queues (hs1 ▸ hs)
      generalize lendCpu S pid d1 n = d2 at hl ⊢
      show Leaves co pid d (disown d2 n) (n + 1)
      refine h.next hpid (hl.queues.trans h.queues) (fun x hx => ?_) (fun x hx => ?_) (fun x hx => ?_)
        (hnone d2) ?_
      · rw [disown_of_ne hx, hl.owner]
      · rw [disown_of_ne hx, hl.state x (.inr hx)]
      · rw [disown_of_ne hx]
        exact hl.guest x hx
      · rw [disown_self]
        exact iff_of_false (hl.left hpid) fun hc => hs hc.2.1
  · rw [if_neg hpublic]
    have hd : Dropped pid n d1 (reclaimDisable pid d1 n) := reclaimDisable_dropped ho1
    show Leaves co pid d (disown (reclaimDisable pid d1 n) n) (n + 1)
    refine h.next hpid (hd.flags.queues.trans h.queues) (fun x hx => ?_)
      (fun x hx => ?_) (fun x hx => .inl ?_) (hnone _) ?_
    · rw [disown_of_ne hx, (hd.rest x hx).1]
    · rw [disown_of_ne hx, (hd.rest x hx).1]
    · rw [disown_of_ne hx, (hd.rest x hx).1]
    · rw [disown_self]
      exact iff_of_false (reclaimDisable_guest hpid) fun hc => hpublic (hc.2.2 ho)

theorem Leaves.step (h : Leaves co pid d d1 n) (hpid : pid ≠ 0) : Leaves co pid d (leaveCpu S co pid d1 n) (n + 1) := by
  have hs1 : (d1.nodeInfo n).state = (d.nodeInfo n).state := h.state n (Nat.le_refl n)
  unfold leaveCpu
  rw [h.owner_self]
  by_cases ho : (d.nodeInfo n).owner = pid
  · rw [if_pos ho]
    exact h.leaveOwned hpid ho
  rw [if_neg ho]
  have hguest : (d1.nodeInfo n).guest = pid ↔ (d.nodeInfo n).guest = pid := h.ahead n (Nat.le_refl n) (.inl ho)
  have hself : (d1.nodeInfo n).owner = if (d.nodeInfo n).owner = pid then 0 else (d.nodeInfo n).owner := by
    rw [if_neg ho, h.owner_self]
  by_cases hg : (d1.nodeInfo n).guest = pid
  · rw [if_pos hg]
    by_cases hs : (d.nodeInfo n).state = .disabled
    · rw [lendCpu_of_disabled (hs1.trans hs)]
      refine h.next hpid h.queues (fun _ _ => rfl) (fun _ _ => rfl) (fun _ _ => .inl rfl) hself ?_
      exact iff_of_true hg ⟨hguest.mp hg, hs, fun hp => absurd hp ho⟩
    · have hl : LentPolling pid n d1 (lendCpu S pid d1 n) := lendCpu_polling h.queues (hs1 ▸ hs)
      refine h.next hpid (hl.queues.trans h.queues) (fun x _ => hl.owner x) (fun x hx => hl.state x (.inr hx)) hl.guest
        ((hl.owner n).trans hself) ?_
      exact iff_of_false (hl.left hpid) fun hc => hs hc.2.1
  · rw [if_neg hg]
    refine h.next hpid h.queues (fun _ _ => rfl) (fun _ _ => rfl) (fun _ _ => .inl rfl) hself ?_
    exact iff_of_false hg fun hc => hg (hguest.mpr hc.1)

theorem leaves_run (hpid : pid ≠ 0) (hq : d.queuesEnabled = false) : ∀ n, Leaves co pid d (leftBelow S co pid d n) n
  | 0 => .start hq
  | n + 1 => by
    rw [leftBelow_succ]
    exact (leaves_run hpid hq n).step hpid

/-- **`shmem_cpuinfo__deregister`** leaves nothing behind, if and only if the process guests no disabled CPU; one that it
owns is no matter when its CPUs do not become public. -/
theorem deregister_iff (hpid : pid ≠ 0) (hq : d.queuesEnabled = false) :
    DeregisterGivesBack S pid (shmemDeregister S co d pid).1 ↔
      ∀ x < S.size, (d.nodeInfo x).guest = pid → (d.nodeInfo x).state = .disabled →
        (d.nodeInfo x).owner = pid ∧ ¬co.public := by
  have h : Leaves co pid d (leftBelow S co pid d S.size) S.size := leaves_run hpid hq S.size
  have hinfo : (shmemDeregister S co d pid).1.nodeInfo = (leftBelow S co pid d S.size).nodeInfo := by
    unfold shmemDeregister leftBelow
    rw [removeRequests_polling hq]
    rfl
  constructor
  · intro hback x hx hg hs
    by_contra hno
    refine hback.guested x hx ?_
    rw [hinfo, h.behind x hx]
    refine ⟨hg, hs, fun ho => ?_⟩
    by_contra hpublic
    exact hno ⟨ho, hpublic⟩
  · intro hall
    refine ⟨fun x hx => ?_, fun x hx => ?_⟩
    · rw [hinfo, h.owner]
      split
      · exact hpid.symm
      · rename_i hno
        exact fun ho => hno ⟨hx, ho⟩
    · rw [hinfo, Ne, h.behind x hx]
      rintro ⟨hg, hs, ho⟩
      have hkept := hall x hx hg hs
      exact hkept.2 (ho hkept.1)

/-! ## Both operations -/

/-- **A process gives everything back** when it resets, and when it deregisters, if and only if it guests no disabled
CPU (one of its own, which it does not make public, apart). -/
theorem gives_back_iff (S : System) (co : Caller) (pid : Pid) (d : Shdata) (hpid : pid ≠ 0)
    (hq : d.queuesEnabled = false) :
    (ResetGivesBack S pid d (shmemReset S co { d with tasks := [] } pid).1 ∧
      DeregisterGivesBack S pid (shmemDeregister S co { d with tasks := [] } pid).1) ↔
      ∀ x < S.size, (d.nodeInfo x).guest = pid → (d.nodeInfo x).state = .disabled →
        (d.nodeInfo x).owner = pid ∧ ¬co.public := by
  have hreset : ResetGivesBack S pid { d with tasks := [] } (shmemReset S co { d with tasks := [] } pid).1 ↔ _ :=
    reset_iff hpid hq
  have hderegister : DeregisterGivesBack S pid (shmemDeregister S co { d with tasks := [] } pid).1 ↔ _ :=
    deregister_iff hpid hq
  constructor
  · rintro ⟨-, hleft⟩
    exact hderegister.mp hleft
  · intro hall
    have hback : ResetGivesBack S pid { d with tasks := [] } (shmemReset S co { d with tasks := [] } pid).1 :=
      hreset.mpr fun x hx hg hs => (hall x hx hg hs).1
    exact ⟨⟨hback.guested, hback.owned, hback.left⟩, hderegister.mpr hall⟩

/-- `2` borrows the CPU that `1` lends. -/
def borrowed : List Deed :=
  [.event (.op {} 1 (.init 0 {0})), .event (.op {} 1 (.lewiInit false)), .event (.op {} 2 (.init 0 {1})),
    .event (.op {} 2 (.lewiInit false)), .event (.op {} 1 (.lewi (.lendCpu 0))), .event (.op {} 2 (.lewi (.borrowCpu 0)))]

theorem gives_back_iff_borrowed :
    ResetGivesBack twoCores 2 (borrowed.foldl (MortalNode.next twoCores) {}).node.shm
        (shmemReset twoCores {} { (borrowed.foldl (MortalNode.next twoCores) {}).node.shm with tasks := [] } 2).1 ∧
      DeregisterGivesBack twoCores 2
        (shmemDeregister twoCores {} { (borrowed.foldl (MortalNode.next twoCores) {}).node.shm with tasks := [] } 2).1 :=
  (gives_back_iff twoCores {} 2 (borrowed.foldl (MortalNode.next twoCores) {}).node.shm (by decide)
    (by decide)).mpr (by decide)

/-- The owner deregisters while `2` guests its CPU. -/
def ownerLeft : List Deed := borrowed ++ [.event (.op {} 1 .deregister)]

/-- Neither a reset nor the end of LeWI takes `2` off the CPU, which has no owner any more. -/
theorem keeps_disabled_cpu :
    let d := (ownerLeft.foldl (MortalNode.next twoCores) {}).node.shm
    (∀ e ∈ ownerLeft, e.Valid twoCores) ∧ d.queuesEnabled = false ∧
      ¬ResetGivesBack twoCores 2 d (shmemReset twoCores {} { d with tasks := [] } 2).1 ∧
      ¬DeregisterGivesBack twoCores 2 (shmemDeregister twoCores {} { d with tasks := [] } 2).1 := by
  intro d
  refine ⟨by simp [ownerLeft, borrowed, Deed.Valid, Act.InNode, twoCores], by decide, fun hback => ?_,
    fun hback => ?_⟩
  · have hguest : ((shmemReset twoCores {} { d with tasks := [] } 2).1.nodeInfo 0).guest = 2 := by decide
    have howner : ((shmemReset twoCores {} { d with tasks := [] } 2).1.nodeInfo 0).owner = 0 := by decide
    have hown := hback.guested 0 (by decide) hguest
    cases hown
  · have hguest : ((shmemDeregister twoCores {} { d with tasks := [] } 2).1.nodeInfo 0).guest = 2 := by decide
    exact hback.guested 0 (by decide) hguest

end Dlb.Cpuinfo

import Dlb.Cpuinfo.Respect
import Dlb.Support.QueueTemplateSpec

/-!
# What `lend_cpu` does

In asynchronous mode `lend_cpu` hands the CPU to a process of its queue or of the global one, and then the CPUs of its
core that are left. `Lent` says all of it that does not depend on who is in the queues, in every state and mode
(`lendCpu_lent`); who gets the CPU is a `Taker` (`lendCpu_taken`).
-/

namespace Dlb.Cpuinfo

open Function

variable {S : System} {pid p : Pid} {d d1 d2 : Shdata} {c e x : ℕ} {i j : CpuInfo}

/-! ## Changes of requests -/

structure CpuInfo.Same (i j : CpuInfo) : Prop where
  owner : j.owner = i.owner
  guest : j.guest = i.guest
  state : j.state = i.state

theorem CpuInfo.Same.refl (i : CpuInfo) : i.Same i := ⟨rfl, rfl, rfl⟩

theorem CpuInfo.Same.trans {k : CpuInfo} (h1 : i.Same j) (h2 : j.Same k) : i.Same k :=
  ⟨h2.owner.trans h1.owner, h2.guest.trans h1.guest, h2.state.trans h1.state⟩

theorem CpuInfo.Same.idle (h : i.Same j) : j.Idle ↔ i.Idle := by
  unfold CpuInfo.Idle
  rw [h.guest, h.state]

theorem CpuInfo.Same.foreign (h : i.Same j) : j.Foreign ↔ i.Foreign := by
  unfold CpuInfo.Foreign
  rw [h.guest, h.owner]

theorem SameFlags.trans (h1 : SameFlags d d1) (h2 : SameFlags d1 d2) : SameFlags d d2 :=
  ⟨h2.initialized.trans h1.initialized, h2.queues.trans h1.queues, h2.smt.trans h1.smt⟩

structure OnlyRequests (d d1 : Shdata) : Prop where
  flags : SameFlags d d1
  free : d1.freeCpus = d.freeCpus
  occupied : d1.occupiedCores = d.occupiedCores
  same : ∀ x, (d.nodeInfo x).Same (d1.nodeInfo x)

theorem OnlyRequests.refl (d : Shdata) : OnlyRequests d d := ⟨⟨rfl, rfl, rfl⟩, rfl, rfl, fun _ => .refl _⟩

theorem OnlyRequests.trans (h1 : OnlyRequests d d1) (h2 : OnlyRequests d1 d2) : OnlyRequests d d2 where
  flags := h1.flags.trans h2.flags
  free := h2.free.trans h1.free
  occupied := h2.occupied.trans h1.occupied
  same x := (h1.same x).trans (h2.same x)

theorem OnlyRequests.setRequests (requests : Queue Pid) :
    OnlyRequests d (d.set c { d.nodeInfo c with requests := requests }) := by
  refine ⟨⟨rfl, rfl, rfl⟩, rfl, rfl, fun x => ?_⟩
  unfold Shdata.set
  dsimp only
  by_cases hx : x = c
  · subst hx
    rw [update_self]
    exact ⟨rfl, rfl, rfl⟩
  · rw [update_of_ne hx]
    exact .refl _

theorem coreIsEligible_congr (hsmt : d1.hwHasSmt = d.hwHasSmt) (h : ∀ x, (d.nodeInfo x).Same (d1.nodeInfo x)) :
    coreIsEligible S d1 p c = coreIsEligible S d p c := by
  unfold coreIsEligible
  simp only [hsmt, fun x => (h x).owner, fun x => (h x).guest, fun x => (h x).state]

/-! ## New guests -/

/-- A process that a CPU without guest can be handed to: it is in the queue of the CPU or in the global one, and it is
eligible. -/
structure Taker (S : System) (d : Shdata) (c : ℕ) (p : Pid) : Prop where
  pid : p ≠ 0
  queues : d.queuesEnabled = true
  requested : p ∈ (d.nodeInfo c).requests.items ∨ ∃ it ∈ d.lewiMaskRequests.items, c ∈ it.allowed ∧ it.pid = p
  eligible : coreIsEligible S d p c = true

theorem popRequest_only : OnlyRequests d (popRequest S d c).1 := .setRequests _

theorem popGlobalRequest_only : OnlyRequests d (popGlobalRequest S d c).1 :=
  ⟨⟨rfl, rfl, rfl⟩, rfl, rfl, fun _ => .refl _⟩

theorem findNewGuest_only : OnlyRequests d (findNewGuest S d c).1 := by
  unfold findNewGuest
  dsimp only
  split
  · exact .refl d
  split
  · split
    · exact popRequest_only.trans popGlobalRequest_only
    · exact popRequest_only
  · exact .refl d

theorem popRequest_taker (hq : d.queuesEnabled = true) (h : (popRequest S d c).2 ≠ 0) :
    Taker S d c (popRequest S d c).2 := by
  have hsame : ∀ x x' : Pid, (none : Option Pid) = some x' →
      coreIsEligible S d x' c = coreIsEligible S d x c ∧ id x' = id x := nofun
  obtain ⟨x, hx, htest, hkey⟩ := Queue.take_found hsame _ _ _ h
  have hpid : x = (popRequest S d c).2 := hkey
  exact ⟨h, hq, .inl (hpid ▸ hx), hpid ▸ htest⟩

theorem useOne_same {it it' : LewiMaskRequest} (h : useOne it = some it') : it'.pid = it.pid ∧ it'.allowed = it.allowed := by
  unfold useOne at h
  dsimp only at h
  split at h
  · cases h
  · obtain rfl := Option.some.inj h
    exact ⟨rfl, rfl⟩

theorem popGlobalRequest_taker (hq : d.queuesEnabled = true) (h : (popGlobalRequest S d c).2 ≠ 0) :
    Taker S d c (popGlobalRequest S d c).2 := by
  have hsame : ∀ it it' : LewiMaskRequest, useOne it = some it' →
      decide (c ∈ it'.allowed ∧ coreIsEligible S d it'.pid c) = decide (c ∈ it.allowed ∧ coreIsEligible S d it.pid c) ∧
        it'.pid = it.pid := by
    intro it it' huse
    obtain ⟨hpid, hallowed⟩ := useOne_same huse
    rw [hpid, hallowed]
    exact ⟨rfl, rfl⟩
  obtain ⟨it, hit, htest, hkey⟩ := Queue.take_found hsame _ _ _ h
  have hpid : it.pid = (popGlobalRequest S d c).2 := hkey
  obtain ⟨hallowed, heligible⟩ := of_decide_eq_true htest
  exact ⟨h, hq, .inr ⟨it, hit, hallowed, hpid⟩, hpid ▸ heligible⟩

theorem findNewGuest_found (h : (findNewGuest S d c).2 ≠ 0) :
    ((d.nodeInfo c).state = .busy ∧ (findNewGuest S d c).2 = (d.nodeInfo c).owner) ∨
      ((d.nodeInfo c).state ≠ .busy ∧ Taker S d c (findNewGuest S d c).2) := by
  unfold findNewGuest at h ⊢
  dsimp only at h ⊢
  split at h
  · rename_i hb
    rw [if_pos hb]
    exact .inl ⟨hb, rfl⟩
  rename_i hb
  rw [if_neg hb]
  refine .inr ⟨hb, ?_⟩
  split at h
  · rename_i hq
    rw [if_pos hq]
    split at h
    · rename_i hpop
      rw [if_pos hpop]
      have honly : OnlyRequests d (popRequest S d c).1 := popRequest_only
      obtain ⟨hpid, -, hrequested, heligible⟩ := popGlobalRequest_taker (S := S) (honly.flags.queues.trans hq) h
      refine ⟨hpid, hq, ?_, ?_⟩
      · rcases hrequested with hown | hglobal
        · -- the requests of the CPU that are left were there before
          refine .inl ?_
          unfold popRequest at hown
          rw [set_info] at hown
          obtain ⟨y, hy, rfl⟩ := Queue.take_items Eq (fun _ => rfl) (fun _ _ _ => Eq.trans) nofun _ _ _ _ hown
          exact hy
        · exact .inr hglobal
      · rw [← coreIsEligible_congr honly.flags.smt honly.same]
        exact heligible
    · rename_i hpop
      rw [if_neg hpop]
      exact popRequest_taker hq hpop
  · exact absurd rfl h

theorem findNewGuest_busy (hb : (d.nodeInfo c).state = .busy) : (findNewGuest S d c).2 = (d.nodeInfo c).owner := by
  unfold findNewGuest
  rw [if_pos hb]

structure Assigned (S : System) (c : ℕ) (d d1 : Shdata) (guest : Pid) : Prop where
  flags : SameFlags d d1
  free : d1.freeCpus = d.freeCpus
  occupied : d1.occupiedCores = d.occupiedCores
  rest : ∀ x, x ≠ c → (d.nodeInfo x).Same (d1.nodeInfo x)
  owner : (d1.nodeInfo c).owner = (d.nodeInfo c).owner
  state : (d1.nodeInfo c).state = (d.nodeInfo c).state
  guest : (d1.nodeInfo c).guest = if guest = 0 then (d.nodeInfo c).guest else guest

theorem assignGuest_assigned : Assigned S c d (assignGuest S d c).1 (assignGuest S d c).2 := by
  have honly : OnlyRequests d (findNewGuest S d c).1 := findNewGuest_only
  unfold assignGuest
  dsimp only
  split
  · rename_i hr
    exact ⟨honly.flags, honly.free, honly.occupied, fun x _ => honly.same x, (honly.same c).owner, (honly.same c).state,
      by rw [if_pos hr]; exact (honly.same c).guest⟩
  · rename_i hr
    refine ⟨⟨honly.flags.initialized, honly.flags.queues, honly.flags.smt⟩, honly.free, honly.occupied,
      fun x hx => ?_, ?_, ?_, ?_⟩
    · simpa [Shdata.push, Shdata.set, hx] using honly.same x
    · simpa [Shdata.push, Shdata.set] using (honly.same c).owner
    · simpa [Shdata.push, Shdata.set] using (honly.same c).state
    · simp [Shdata.push, Shdata.set, hr]

theorem assignGuest_snd : (assignGuest S d c).2 = (findNewGuest S d c).2 := by
  unfold assignGuest
  dsimp only
  split
  · rfl
  · rfl

/-! ## The rest of the core -/

/-- A CPU that is handed over with the rest of the core of `c`: to its owner that has claimed it, or to a taker, which is
with SMT the new guest of `c`. -/
structure Handed (S : System) (c : ℕ) (d d1 : Shdata) (x : ℕ) : Prop where
  before : (d.nodeInfo x).guest = 0
  core : x ∈ coreMask S c
  guest : (d1.nodeInfo x).guest ≠ 0
  lent : (d1.nodeInfo c).guest ≠ 0
  free : x ∉ d1.freeCpus
  who : (d1.nodeInfo x).guest = (d.nodeInfo x).owner ∨ (d.queuesEnabled = true ∧ (d.nodeInfo x).state ≠ .busy ∧
    (d.hwHasSmt = true → (d1.nodeInfo x).guest = (d1.nodeInfo c).guest))

/-- The CPU, and its bit of `free_cpus`, are as before. -/
def Untouched (d d1 : Shdata) (x : ℕ) : Prop :=
  (d1.nodeInfo x).guest = (d.nodeInfo x).guest ∧ (x ∈ d1.freeCpus ↔ x ∈ d.freeCpus)

structure Resting (S : System) (c : ℕ) (d d1 : Shdata) : Prop where
  flags : SameFlags d d1
  occupied : d1.occupiedCores = d.occupiedCores
  owner : ∀ x, (d1.nodeInfo x).owner = (d.nodeInfo x).owner
  state : ∀ x, (d1.nodeInfo x).state = (d.nodeInfo x).state
  self : Untouched d d1 c
  rest : ∀ x, x ≠ c → Untouched d d1 x ∨ Handed S c d d1 x

theorem Resting.refl (d : Shdata) : Resting S c d d :=
  ⟨⟨rfl, rfl, rfl⟩, rfl, fun _ => rfl, fun _ => rfl, ⟨rfl, Iff.rfl⟩, fun _ _ => .inl ⟨rfl, Iff.rfl⟩⟩

theorem Resting.step (h : Resting S c d d1) (hc : (d.nodeInfo c).guest ≠ 0) (he : e ∈ coreMask S c) :
    Resting S c d (assignRest S c d1 e) := by
  unfold assignRest
  split
  swap
  · exact h
  rename_i hrest
  obtain ⟨hec, hg⟩ := hrest
  have ha : Assigned S e d1 (assignGuest S d1 e).1 (assignGuest S d1 e).2 := assignGuest_assigned
  have hfound := findNewGuest_found (S := S) (d := d1) (c := e)
  rw [← assignGuest_snd] at hfound
  dsimp only
  generalize assignGuest S d1 e = r at ha hfound ⊢
  have hguest : ∀ x, x ≠ e → (r.1.nodeInfo x).guest = (d1.nodeInfo x).guest := fun x hx => (ha.rest x hx).guest
  have howner : ∀ x, (r.1.nodeInfo x).owner = (d.nodeInfo x).owner := by
    intro x
    by_cases hx : x = e
    · rw [hx, ha.owner, h.owner]
    · rw [(ha.rest x hx).owner, h.owner]
  have hstate : ∀ x, (r.1.nodeInfo x).state = (d.nodeInfo x).state := by
    intro x
    by_cases hx : x = e
    · rw [hx, ha.state, h.state]
    · rw [(ha.rest x hx).state, h.state]
  have hflags : SameFlags d r.1 := h.flags.trans ha.flags
  have hcg : (r.1.nodeInfo c).guest = (d.nodeInfo c).guest := (hguest c hec.symm).trans h.self.1
  split
  · -- nobody takes the CPU
    rename_i hr
    have hsame : ∀ x, (r.1.nodeInfo x).guest = (d1.nodeInfo x).guest := by
      intro x
      by_cases hx : x = e
      · rw [hx, ha.guest, if_pos hr]
      · exact hguest x hx
    refine ⟨hflags, ha.occupied.trans h.occupied, howner, hstate, ⟨hcg, by rw [ha.free]; exact h.self.2⟩, fun x hx => ?_⟩
    rcases h.rest x hx with hk | hh
    · exact .inl ⟨(hsame x).trans hk.1, by rw [ha.free]; exact hk.2⟩
    · exact .inr ⟨hh.before, hh.core, hsame x ▸ hh.guest, hsame c ▸ hh.lent, by rw [ha.free]; exact hh.free,
        by rw [hsame x, hsame c]; exact hh.who⟩
  · rename_i hr
    have hfree : ∀ x, x ≠ e → (x ∈ (r.1.clrFree e).freeCpus ↔ x ∈ d1.freeCpus) := by
      intro x hx
      show x ∈ r.1.freeCpus.erase e ↔ _
      rw [Finset.mem_erase, ha.free]
      exact and_iff_right hx
    refine ⟨⟨hflags.initialized, hflags.queues, hflags.smt⟩, ha.occupied.trans h.occupied, howner, hstate,
      ⟨hcg, (hfree c hec.symm).trans h.self.2⟩, fun x hx => ?_⟩
    by_cases hxe : x = e
    · subst hxe
      have hge : (r.1.nodeInfo x).guest = r.2 := by rw [ha.guest, if_neg hr]
      have hbefore : (d.nodeInfo x).guest = 0 := by
        rcases h.rest x hx with hk | hh
        · rw [← hk.1, hg]
        · exact absurd hg hh.guest
      refine .inr ⟨hbefore, he, ?_, ?_, ?_, ?_⟩
      · show (r.1.nodeInfo x).guest ≠ 0
        rwa [hge]
      · show (r.1.nodeInfo c).guest ≠ 0
        rwa [hcg]
      · show x ∉ r.1.freeCpus.erase x
        exact Finset.notMem_erase x _
      · show (r.1.nodeInfo x).guest = _ ∨ (_ ∧ _ ∧ (_ → (r.1.nodeInfo x).guest = (r.1.nodeInfo c).guest))
        rw [hge, hcg]
        rcases hfound hr with ⟨-, howner⟩ | ⟨hbusy, htaker⟩
        · left
          rw [howner, h.owner]
        · refine .inr ⟨h.flags.queues ▸ htaker.queues, h.state x ▸ hbusy, fun hsmt => ?_⟩
          -- the taker is eligible although `c` has a guest in the same core
          have hel := htaker.eligible
          unfold coreIsEligible at hel
          rw [h.flags.smt, hsmt, if_pos rfl] at hel
          have hcc := of_decide_eq_true hel c (coreMask_of_mem (coreMask_mem he).1 he ▸ (coreMask_mem he).2)
          rw [h.self.1] at hcc
          by_contra hne
          exact hcc (.inl ⟨Ne.symm hne, hc⟩)
    · rcases h.rest x hx with hk | hh
      · exact .inl ⟨(hguest x hxe).trans hk.1, (hfree x hxe).trans hk.2⟩
      · refine .inr ⟨hh.before, hh.core, ?_, ?_, ?_, ?_⟩
        · show (r.1.nodeInfo x).guest ≠ 0
          rw [hguest x hxe]
          exact hh.guest
        · show (r.1.nodeInfo c).guest ≠ 0
          rwa [hcg]
        · exact fun hmem => hh.free ((hfree x hxe).mp hmem)
        · show (r.1.nodeInfo x).guest = _ ∨ (_ ∧ _ ∧ (_ → (r.1.nodeInfo x).guest = (r.1.nodeInfo c).guest))
          rw [hguest x hxe, hguest c hec.symm]
          exact hh.who

theorem Resting.run (hc : (d.nodeInfo c).guest ≠ 0) : Resting S c d ((muCpus S (coreMask S c)).foldl (assignRest S c) d) :=
  List.foldlRecOn (muCpus S (coreMask S c)) _ (Resting.refl d) fun _ h _ he =>
    h.step hc (of_decide_eq_true (List.mem_filter.mp he).2)

/-! ## The whole operation -/

/-- What `lend_cpu` of process `pid` does, but for the requests. -/
structure Lent (S : System) (pid : Pid) (c : ℕ) (d d1 : Shdata) : Prop where
  flags : SameFlags d d1
  owner : ∀ x, (d1.nodeInfo x).owner = (d.nodeInfo x).owner
  state : ∀ x, (d1.nodeInfo x).state = if x = c then (lentInfo pid (d.nodeInfo c)).state else (d.nodeInfo x).state
  guest : (lentInfo pid (d.nodeInfo c)).guest ≠ 0 → (d1.nodeInfo c).guest = (lentInfo pid (d.nodeInfo c)).guest
  busy : (lentInfo pid (d.nodeInfo c)).guest = 0 → (d1.nodeInfo c).state = .busy →
    (d1.nodeInfo c).guest = (d.nodeInfo c).owner
  free : c ∈ d1.freeCpus ↔ c ∈ d.freeCpus ∨ (d1.nodeInfo c).guest = 0
  rest : ∀ x, x ≠ c → Untouched d d1 x ∨ ((lentInfo pid (d.nodeInfo c)).guest = 0 ∧ Handed S c d d1 x)
  occupied : d1.occupiedCores = occupiedUpdate S { d1 with occupiedCores := d.occupiedCores } (d.nodeInfo c).owner c

/-- The first half of `lend_cpu`: the CPU is lent and left. -/
structure LeftBy (pid : Pid) (c : ℕ) (d d1 : Shdata) : Prop where
  flags : SameFlags d d1
  free : d1.freeCpus = d.freeCpus
  occupied : d1.occupiedCores = d.occupiedCores
  global : d1.lewiMaskRequests = d.lewiMaskRequests
  rest : ∀ x, x ≠ c → d1.nodeInfo x = d.nodeInfo x
  self : (lentInfo pid (d.nodeInfo c)).Same (d1.nodeInfo c)
  requests : ∀ p ∈ (d1.nodeInfo c).requests.items,
    p ∈ (d.nodeInfo c).requests.items ∧ ((d.nodeInfo c).owner ≠ pid → p ≠ pid ∨ d.queuesEnabled = false)

theorem lendOwned_leave : LeftBy pid c d (leave (lendOwned d pid c) pid c) := by
  have hleave : ∀ (d1 : Shdata) (i : CpuInfo), d1.nodeInfo = update d.nodeInfo c i → SameFlags d d1 →
      d1.freeCpus = d.freeCpus → d1.occupiedCores = d.occupiedCores → d1.lewiMaskRequests = d.lewiMaskRequests →
      i.owner = (d.nodeInfo c).owner → i.guest = (d.nodeInfo c).guest → i.state = (lentInfo pid (d.nodeInfo c)).state →
      (∀ p ∈ i.requests.items,
        p ∈ (d.nodeInfo c).requests.items ∧ ((d.nodeInfo c).owner ≠ pid → p ≠ pid ∨ d.queuesEnabled = false)) →
      LeftBy pid c d (leave d1 pid c) := by
    intro d1 i hinfo hflags hfree hocc hglobal ho hg hs hreq
    have hself : d1.nodeInfo c = i := by rw [hinfo, update_self]
    unfold leave
    dsimp only
    split
    · rename_i hp
      rw [hself, hg] at hp
      refine ⟨⟨hflags.initialized, hflags.queues, hflags.smt⟩, hfree, hocc, hglobal, fun x hx => ?_, ⟨?_, ?_, ?_⟩, ?_⟩
      · simp [Shdata.set, hinfo, hx]
      · simp [Shdata.set, hself, ho, lentInfo]
      · simp [Shdata.set, lentInfo, hp]
      · simpa [Shdata.set, hself] using hs
      · simpa [Shdata.set, hself] using hreq
    · rename_i hp
      rw [hself, hg] at hp
      refine ⟨hflags, hfree, hocc, hglobal, fun x hx => ?_, ⟨?_, ?_, ?_⟩, ?_⟩
      · rw [hinfo, update_of_ne hx]
      · rw [hself, ho]
        rfl
      · rw [hself, hg, lentInfo]
        rw [if_neg hp]
      · rw [hself, hs]
      · rwa [hself]
  unfold lendOwned
  dsimp only
  split
  · rename_i ho
    refine hleave _ { d.nodeInfo c with state := .lent } rfl ⟨rfl, rfl, rfl⟩ rfl rfl rfl rfl rfl ?_ ?_
    · simp [lentInfo, ho]
    · exact fun p hp => ⟨hp, fun hno => absurd ho hno⟩
  rename_i ho
  split
  · refine hleave _ _ rfl ⟨rfl, rfl, rfl⟩ rfl rfl rfl rfl rfl ?_ ?_
    · simp [lentInfo, ho]
    · intro p hp
      obtain ⟨hold, hne⟩ := Queue.remove_items.mp hp
      exact ⟨hold, fun _ => .inl (by simpa using hne)⟩
  · rename_i hq
    refine hleave d (d.nodeInfo c) (by rw [update_eq_self]) ⟨rfl, rfl, rfl⟩ rfl rfl rfl rfl rfl ?_ ?_
    · simp [lentInfo, ho]
    · exact fun p hp => ⟨hp, fun _ => .inr (by simpa using hq)⟩

theorem findGuests_resting (h : (d.nodeInfo c).guest = 0) (hnew : (findNewGuest S d c).2 ≠ 0) :
    Resting S c (assignGuest S d c).1 (findGuests S d c) := by
  have ha : Assigned S c d (assignGuest S d c).1 (assignGuest S d c).2 := assignGuest_assigned
  rw [← assignGuest_snd] at hnew
  unfold findGuests
  rw [if_pos h]
  rw [if_neg hnew]
  refine Resting.run ?_
  rw [ha.guest, if_neg hnew]
  exact hnew

/-- What the search for guests does to the CPU and the others. -/
structure Searched (S : System) (c : ℕ) (d d1 : Shdata) : Prop where
  flags : SameFlags d d1
  occupied : d1.occupiedCores = d.occupiedCores
  owner : ∀ x, (d1.nodeInfo x).owner = (d.nodeInfo x).owner
  state : ∀ x, (d1.nodeInfo x).state = (d.nodeInfo x).state
  free : c ∈ d1.freeCpus ↔ c ∈ d.freeCpus
  guest : (d1.nodeInfo c).guest = if (d.nodeInfo c).guest = 0 then (findNewGuest S d c).2 else (d.nodeInfo c).guest
  rest : ∀ x, x ≠ c → Untouched d d1 x ∨ ((d.nodeInfo c).guest = 0 ∧ Handed S c d d1 x)

theorem findGuests_searched : Searched S c d (findGuests S d c) := by
  by_cases hg : (d.nodeInfo c).guest = 0
  · have ha : Assigned S c d (assignGuest S d c).1 (assignGuest S d c).2 := assignGuest_assigned
    rw [assignGuest_snd] at ha
    have howner : ∀ x, ((assignGuest S d c).1.nodeInfo x).owner = (d.nodeInfo x).owner := by
      intro x
      by_cases hx : x = c
      · rw [hx, ha.owner]
      · exact (ha.rest x hx).owner
    have hstate : ∀ x, ((assignGuest S d c).1.nodeInfo x).state = (d.nodeInfo x).state := by
      intro x
      by_cases hx : x = c
      · rw [hx, ha.state]
      · exact (ha.rest x hx).state
    by_cases hnew : (findNewGuest S d c).2 = 0
    · have heq : findGuests S d c = (assignGuest S d c).1 := by
        unfold findGuests
        rw [if_pos hg]
        rw [if_pos (assignGuest_snd.trans hnew)]
      rw [heq]
      refine ⟨ha.flags, ha.occupied, howner, hstate, by rw [ha.free], ?_, fun x hx => .inl ⟨(ha.rest x hx).guest, by rw [ha.free]⟩⟩
      rw [ha.guest, if_pos hnew, if_pos hg, hg, hnew]
    · have hr : Resting S c (assignGuest S d c).1 (findGuests S d c) := findGuests_resting hg hnew
      refine ⟨ha.flags.trans hr.flags, hr.occupied.trans ha.occupied, fun x => (hr.owner x).trans (howner x),
        fun x => (hr.state x).trans (hstate x), by rw [hr.self.2, ha.free], ?_, fun x hx => ?_⟩
      · rw [hr.self.1, ha.guest, if_neg hnew, if_pos hg]
      · have hxg := (ha.rest x hx).guest
        rcases hr.rest x hx with hk | hh
        · exact .inl ⟨hk.1.trans hxg, by rw [hk.2, ha.free]⟩
        · refine .inr ⟨hg, hxg ▸ hh.before, hh.core, hh.guest, hh.lent, hh.free, ?_⟩
          rw [← howner x, ← hstate x, ← ha.flags.smt, ← ha.flags.queues]
          exact hh.who
  · have heq : findGuests S d c = d := by
      unfold findGuests
      rw [if_neg hg]
    rw [heq]
    exact ⟨⟨rfl, rfl, rfl⟩, rfl, fun _ => rfl, fun _ => rfl, Iff.rfl, by rw [if_neg hg], fun _ _ => .inl ⟨rfl, Iff.rfl⟩⟩

theorem lendCpu_lent (hs : (d.nodeInfo c).state ≠ .disabled) : Lent S pid c d (lendCpu S pid d c) := by
  have hl : LeftBy pid c d (leave (lendOwned d pid c) pid c) := lendOwned_leave
  unfold lendCpu
  rw [if_neg hs]
  dsimp only
  generalize leave (lendOwned d pid c) pid c = d0 at hl ⊢
  have hf : Searched S c d0 (findGuests S d0 c) := findGuests_searched
  have hbusy : ((d0.nodeInfo c).state = .busy → (findNewGuest S d0 c).2 = (d0.nodeInfo c).owner) := findNewGuest_busy
  generalize findGuests S d0 c = d1 at hf ⊢
  have hbit : ∃ d2 : Shdata, (if (d1.nodeInfo c).guest = 0 then d1.setFree c else d1) = d2 ∧ SameFlags d1 d2 ∧
      d2.nodeInfo = d1.nodeInfo ∧ d2.occupiedCores = d1.occupiedCores ∧
      (∀ x, x ≠ c → (x ∈ d2.freeCpus ↔ x ∈ d1.freeCpus)) ∧
      (c ∈ d2.freeCpus ↔ c ∈ d1.freeCpus ∨ (d1.nodeInfo c).guest = 0) := by
    refine ⟨_, rfl, ?_⟩
    split
    · rename_i hg
      refine ⟨⟨rfl, rfl, rfl⟩, rfl, rfl, fun x hx => ?_, ?_⟩
      · simp [Shdata.setFree, hx]
      · simp [Shdata.setFree, hg]
    · rename_i hg
      exact ⟨⟨rfl, rfl, rfl⟩, rfl, rfl, fun _ _ => Iff.rfl, (or_iff_left hg).symm⟩
  obtain ⟨d2, heq, hflags, hinfo, hocc, hfree, hfreec⟩ := hbit
  rw [heq]
  have hout : (updateOccupiedCores S d2 (d2.nodeInfo c).owner c).nodeInfo = d1.nodeInfo := hinfo
  have howner : ∀ x, (d1.nodeInfo x).owner = (d.nodeInfo x).owner := by
    intro x
    rw [hf.owner]
    by_cases hx : x = c
    · rw [hx, hl.self.owner]
      rfl
    · rw [hl.rest x hx]
  have hflags₂ : SameFlags d d2 := (hl.flags.trans hf.flags).trans hflags
  refine ⟨⟨hflags₂.initialized, hflags₂.queues, hflags₂.smt⟩, fun x => ?_, fun x => ?_, fun hg => ?_, fun hg hb => ?_, ?_,
    fun x hx => ?_, ?_⟩
  · rw [hout, howner]
  · rw [hout, hf.state]
    split
    · rename_i hx
      rw [hx, hl.self.state]
    · rename_i hx
      rw [hl.rest x hx]
  · rw [hout, hf.guest, hl.self.guest, if_neg hg]
  · rw [hout, hf.state] at hb
    rw [hout, hf.guest, hl.self.guest, if_pos hg, hbusy hb, hl.self.owner]
    rfl
  · show c ∈ d2.freeCpus ↔ _
    rw [hout, hfreec, hf.free, hl.free]
  · have hx0 := hl.rest x hx
    rcases hf.rest x hx with hk | hh
    · refine .inl ⟨?_, ?_⟩
      · rw [hout, hk.1, hx0]
      · show x ∈ d2.freeCpus ↔ _
        rw [hfree x hx, hk.2, hl.free]
    · obtain ⟨hg, hh⟩ := hh
      refine .inr ⟨hl.self.guest ▸ hg, hx0 ▸ hh.before, hh.core, ?_, ?_, ?_, ?_⟩
      · rw [hout]
        exact hh.guest
      · rw [hout]
        exact hh.lent
      · exact fun hmem => hh.free ((hfree x hx).mp hmem)
      · rw [hout, ← hx0, ← hl.flags.smt, ← hl.flags.queues]
        exact hh.who
  · show occupiedUpdate S d2 (d2.nodeInfo c).owner c = _
    have howner₂ : (d2.nodeInfo c).owner = (d.nodeInfo c).owner := by rw [hinfo, howner]
    have hocc2 : d2.occupiedCores = d.occupiedCores := hocc.trans (hf.occupied.trans hl.occupied)
    rw [howner₂, ← hocc2]
    rfl

theorem lendCpu_taken (hs : (d.nodeInfo c).state ≠ .disabled) (hg : (lentInfo pid (d.nodeInfo c)).guest = 0)
    (hb : (lentInfo pid (d.nodeInfo c)).state ≠ .busy) (hnew : ((lendCpu S pid d c).nodeInfo c).guest ≠ 0) :
    Taker S (leave (lendOwned d pid c) pid c) c ((lendCpu S pid d c).nodeInfo c).guest := by
  have hl : LeftBy pid c d (leave (lendOwned d pid c) pid c) := lendOwned_leave
  have hguest : ((lendCpu S pid d c).nodeInfo c).guest = (findNewGuest S (leave (lendOwned d pid c) pid c) c).2 := by
    have hf : Searched S c (leave (lendOwned d pid c) pid c) (findGuests S (leave (lendOwned d pid c) pid c) c) :=
      findGuests_searched
    have hself := hf.guest
    rw [hl.self.guest, if_pos hg] at hself
    rw [← hself]
    unfold lendCpu
    rw [if_neg hs]
    dsimp only
    split
    · rfl
    · rfl
  rw [hguest] at hnew ⊢
  rcases findNewGuest_found hnew with ⟨hbusy, -⟩ | ⟨-, htaker⟩
  · exact absurd (hl.self.state ▸ hbusy) hb
  · exact htaker

/-! ## Requests -/

structure FewerRequests (d d1 : Shdata) : Prop where
  own : ∀ x, ∀ p ∈ (d1.nodeInfo x).requests.items, p ∈ (d.nodeInfo x).requests.items
  global : ∀ it ∈ d1.lewiMaskRequests.items, ∃ it' ∈ d.lewiMaskRequests.items, it.pid = it'.pid ∧ it.allowed = it'.allowed

theorem FewerRequests.refl (d : Shdata) : FewerRequests d d := ⟨fun _ _ => id, fun it hit => ⟨it, hit, rfl, rfl⟩⟩

theorem FewerRequests.trans (h1 : FewerRequests d d1) (h2 : FewerRequests d1 d2) : FewerRequests d d2 where
  own x p hp := h1.own x p (h2.own x p hp)
  global it hit := by
    obtain ⟨it1, hit1, hpid1, hallowed₁⟩ := h2.global it hit
    obtain ⟨it2, hit2, hpid2, hallowed₂⟩ := h1.global it1 hit1
    exact ⟨it2, hit2, hpid1.trans hpid2, hallowed₁.trans hallowed₂⟩

theorem FewerRequests.write (hinfo : d1.nodeInfo = update d.nodeInfo c i)
    (hglobal : d1.lewiMaskRequests = d.lewiMaskRequests)
    (hi : ∀ p ∈ i.requests.items, p ∈ (d.nodeInfo c).requests.items) : FewerRequests d d1 := by
  refine ⟨fun x => ?_, fun it hit => ⟨it, hglobal ▸ hit, rfl, rfl⟩⟩
  rw [hinfo]
  by_cases hx : x = c
  · rw [hx, update_self]
    exact hi
  · rw [update_of_ne hx]
    exact fun _ => id

theorem FewerRequests.of_info (hinfo : d1.nodeInfo = d.nodeInfo) (hglobal : d1.lewiMaskRequests = d.lewiMaskRequests) :
    FewerRequests d d1 := ⟨fun _ _ hp => hinfo ▸ hp, fun it hit => ⟨it, hglobal ▸ hit, rfl, rfl⟩⟩

theorem FewerRequests.foldl {f : Shdata → ℕ → Shdata} (hf : ∀ d c, FewerRequests d (f d c)) (l : List ℕ) (d : Shdata) :
    FewerRequests d (l.foldl f d) :=
  List.foldlRecOn l f (FewerRequests.refl d) fun _ hd c _ => hd.trans (hf _ c)

theorem popRequest_fewer : FewerRequests d (popRequest S d c).1 := by
  refine FewerRequests.write rfl rfl fun p hp => ?_
  obtain ⟨y, hy, rfl⟩ := Queue.take_items Eq (fun _ => rfl) (fun _ _ _ => Eq.trans) nofun _ _ _ _ hp
  exact hy

theorem popGlobalRequest_fewer : FewerRequests d (popGlobalRequest S d c).1 := by
  refine ⟨fun _ _ => id, fun it hit => ?_⟩
  refine Queue.take_items (fun it it' => it.pid = it'.pid ∧ it.allowed = it'.allowed) (fun _ => ⟨rfl, rfl⟩) ?_
    (fun _ _ => useOne_same) _ _ _ _ hit
  intro it1 it2 it3 h1 h2
  exact ⟨h1.1.trans h2.1, h1.2.trans h2.2⟩

theorem findNewGuest_fewer : FewerRequests d (findNewGuest S d c).1 := by
  unfold findNewGuest
  dsimp only
  split
  · exact .refl d
  split
  · split
    · exact popRequest_fewer.trans popGlobalRequest_fewer
    · exact popRequest_fewer
  · exact .refl d

theorem assignGuest_fewer : FewerRequests d (assignGuest S d c).1 := by
  unfold assignGuest
  dsimp only
  split
  · exact findNewGuest_fewer
  · exact findNewGuest_fewer.trans (.write rfl rfl fun _ => id)

theorem assignRest_fewer : FewerRequests d (assignRest S c d e) := by
  unfold assignRest
  split
  · dsimp only
    split
    · exact assignGuest_fewer
    · exact assignGuest_fewer.trans (.of_info rfl rfl)
  · exact .refl d

theorem findGuests_fewer : FewerRequests d (findGuests S d c) := by
  unfold findGuests
  split
  · dsimp only
    split
    · exact assignGuest_fewer
    · exact assignGuest_fewer.trans (FewerRequests.foldl (fun _ _ => assignRest_fewer) _ _)
  · exact .refl d

theorem lendOwned_fewer : FewerRequests d (lendOwned d pid c) := by
  unfold lendOwned
  dsimp only
  split
  · exact .write rfl rfl fun _ => id
  split
  · exact .write rfl rfl fun p hp => (Queue.remove_items.mp hp).1
  · exact .refl d

theorem leave_fewer : FewerRequests d (leave d pid c) := by
  unfold leave
  dsimp only
  split
  · exact .write rfl rfl fun _ => id
  · exact .refl d

theorem lendCpu_fewer : FewerRequests d (lendCpu S pid d c) := by
  unfold lendCpu
  split
  · exact .refl d
  · have hfind : FewerRequests d (findGuests S (leave (lendOwned d pid c) pid c) c) :=
      (lendOwned_fewer.trans leave_fewer).trans findGuests_fewer
    dsimp only
    split
    · exact hfind.trans (.of_info rfl rfl)
    · exact hfind.trans (.of_info rfl rfl)

theorem removeRequests_fewer : FewerRequests d (removeRequests S d pid) := by
  unfold removeRequests
  split
  · refine ⟨fun x p hp => ?_, fun it hit => ⟨it, (Queue.remove_items.mp hit).1, rfl, rfl⟩⟩
    dsimp only at hp
    split at hp
    · exact (Queue.remove_items.mp hp).1
    · exact hp
  · exact .refl d

theorem removeRequests_only : OnlyRequests d (removeRequests S d pid) := by
  unfold removeRequests
  split
  · refine ⟨⟨rfl, rfl, rfl⟩, rfl, rfl, fun x => ?_⟩
    dsimp only
    split
    · exact ⟨rfl, rfl, rfl⟩
    · exact .refl _
  · exact .refl d

structure Unrequested (d : Shdata) (c : ℕ) : Prop where
  own : ∀ p, p ∉ (d.nodeInfo c).requests.items
  global : ∀ it ∈ d.lewiMaskRequests.items, c ∉ it.allowed

theorem Unrequested.fewer (h : Unrequested d c) (hf : FewerRequests d d1) : Unrequested d1 c := by
  refine ⟨fun p hp => h.own p (hf.own c p hp), fun it hit hc => ?_⟩
  obtain ⟨it', hit', -, hallowed⟩ := hf.global it hit
  exact h.global it' hit' (hallowed ▸ hc)

theorem Unrequested.not_taker (h : Unrequested d c) : ¬Taker S d c p := by
  rintro ⟨-, -, hown | ⟨it, hit, hc, -⟩, -⟩
  · exact h.own p hown
  · exact h.global it hit hc

end Dlb.Cpuinfo

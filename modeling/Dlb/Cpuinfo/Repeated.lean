import Dlb.Cpuinfo.Lend
import Dlb.Cpuinfo.Sweeps

/-!
# Repeated requests

`acquire_cpu` puts the process in the queue of a CPU without a look at who is there, and makes a process the guest of a
CPU without taking its request back. Only the petitions of `shmem_cpuinfo__acquire_ncpus_from_cpu_subset` search the
queue first. So a process is in the queue of a CPU at most once, and not while it is the guest, along every run whose
steps meet no request of their own process (`queues_once`); a process that acquires a CPU again and again fills its
queue (`acquired_again`).
-/

namespace Dlb.Cpuinfo

open List Function

variable (S : System)

/-! ## The queues and the calls -/

/-- No process is in the queue of the CPU twice, and its guest is not in it. A full queue is one of seven processes. -/
structure CpuInfo.Once (i : CpuInfo) : Prop where
  nodup : i.requests.items.Nodup
  guest : i.guest ≠ 0 → i.guest ∉ i.requests.items
  full : i.requests.hasSpace queuePidSize = false → queuePidSize - 1 ≤ i.requests.items.toFinset.card

/-- The CPU is idle and lent, and the process may use its core. -/
def Available (pid : Pid) (d : Shdata) (c : ℕ) : Prop :=
  (d.nodeInfo c).guest = 0 ∧ (d.nodeInfo c).state = .lent ∧ coreIsEligible S d pid c = true

/-- `acquire_cpu` of a CPU that the process has asked for neither gets the CPU nor finds room in its queue. -/
def AcquireSafe (pid : Pid) (d : Shdata) (c : ℕ) : Prop :=
  pid ∈ (d.nodeInfo c).requests.items → ¬Available S pid d c ∧ (d.nodeInfo c).requests.hasSpace queuePidSize = false

/-- `borrow_cpu` does not get a CPU that the process has asked for. -/
def BorrowSafe (pid : Pid) (d : Shdata) (c : ℕ) : Prop :=
  pid ∈ (d.nodeInfo c).requests.items → ¬Available S pid d c

/-- `shmem_cpuinfo__return_async` that asks again does it for a process that is not in the queue and not the owner. -/
def ReturnSafe (pid : Pid) (d : Shdata) (c : ℕ) : Prop :=
  (d.nodeInfo c).requests.hasSpace queuePidSize = true →
    pid ≠ 0 ∧ pid ∉ (d.nodeInfo c).requests.items ∧ (d.nodeInfo c).owner ≠ pid

def AcquiresSafe (pid : Pid) (d : Shdata) (cpus : List ℕ) (ncpus : ℤ) : Prop :=
  ArrayAlong (acquireCpu S pid) pid (AcquireSafe S pid) S (acquireCore S pid) cpus none d ncpus

def BorrowsSafe (pid : Pid) (d : Shdata) (cpus : List ℕ) (ncpus : ℤ) : Prop :=
  ArrayAlong (borrowCpu S pid) pid (BorrowSafe S pid) S (borrowCore S pid) cpus none d ncpus

/-- The three sub-arrays of `shmem_cpuinfo__acquire_ncpus_from_cpu_subset`. -/
def StagesSafe (w : Wish) (d : Shdata) (pid : Pid) (ncpus : ℤ) : Prop :=
  let cpus := fun p : CpuInfo → Bool => w.cpusPriorityArray.filter fun c => p (d.nodeInfo c)
  let r1 := stage (acquireCpusInArray S pid) (cpus (ownedIdle pid)) (d, .noupdt, ncpus)
  let r2 := stage (acquireCpusInArray S pid) (cpus (ownedNonIdle pid)) r1
  AcquiresSafe S pid d (cpus (ownedIdle pid)) ncpus ∧ AcquiresSafe S pid r1.1 (cpus (ownedNonIdle pid)) r1.2.2 ∧
    BorrowsSafe S pid r2.1 (cpus (nonOwned pid)) r2.2.2

/-- No disabled CPU of the list has the process as its guest. -/
def NotGuested (pid : Pid) (cpus : List ℕ) (d : Shdata) : Prop :=
  ∀ c ∈ cpus, (d.nodeInfo c).state = .disabled → (d.nodeInfo c).guest ≠ pid

/-- The calls whose acquisitions and borrowings are safe, and whose petitions are not for a disabled CPU that the
process guests. -/
def Call.Safe (pid : Pid) (d : Shdata) : Call → Prop
  | .acquireCpu c => c < S.size → AcquireSafe S pid d c
  | .acquireFromCpuSubset cpus => AcquiresSafe S pid d cpus intMax
  | .acquireNcpusFromCpuSubset w u =>
    StagesSafe S w d pid (w.ncpus S u pid) ∧ NotGuested pid w.cpusPriorityArray d
  | .borrowCpu c => c < S.size → BorrowSafe S pid d c
  | .borrowFromCpuSubset cpus => BorrowsSafe S pid d cpus intMax
  | .borrowNcpusFromCpuSubset w u =>
    let ncpus := if d.freeCpus = ∅ then 0 else w.ncpus S u pid
    let r := borrowCpusInArray S pid d w.cpusPriorityArray ncpus
    BorrowsSafe S pid d w.cpusPriorityArray ncpus ∧ (w.lewiAffinity = .spreadIfempty →
      BorrowsSafe S pid r.1 (nodeCpus S (muGetNodesSubsetOfCpuset S r.1.freeCpus)) r.2.2)
  | _ => True

/-- A call of a process, or the return of CPUs for one. -/
inductive QueueEvent where
  | call (co : Caller) (pid : Pid) (call : Call)
  | returnAsync (pid : Pid) (mask : CpuSet)

namespace QueueEvent

def next (d : Shdata) : QueueEvent → Shdata
  | .call co pid c => exec S co pid d c
  | .returnAsync pid mask => returnAsyncCpuMask S pid d mask

def Named : QueueEvent → Prop
  | .call _ pid _ => pid ≠ 0
  | .returnAsync _ _ => True

/-- No step meets a request of its own process. -/
def Safe (d : Shdata) : QueueEvent → Prop
  | .call _ pid c => c.Safe S pid { d with tasks := [] }
  | .returnAsync pid mask => Lib.Along (Cpuinfo.returnAsync S pid) (ReturnSafe pid) d (nodeCpus S mask)

end QueueEvent

/-- Nobody has asked for a CPU yet, and the disabled CPUs have no owner. -/
def NoneAsked (d : Shdata) : Prop :=
  ∀ x, (d.nodeInfo x).requests = {} ∧ ((d.nodeInfo x).state = .disabled → (d.nodeInfo x).owner = 0)

variable {S}

/-! ## The invariant -/

/-- What the queue of a CPU keeps. A CPU that nobody owns may be disabled. -/
structure CpuInfo.Single (i : CpuInfo) : Prop where
  nodup : i.requests.items.Nodup
  named : 0 ∉ i.requests.items
  guest : i.guest ∉ i.requests.items
  owner : i.owner ∉ i.requests.items
  disabled : i.state = .disabled → i.owner = 0
  ok : i.requests.Ok queuePidSize

def Single (d : Shdata) : Prop := ∀ x, (d.nodeInfo x).Single

theorem CpuInfo.Single.once {i : CpuInfo} (h : i.Single) : i.Once := by
  refine ⟨h.nodup, fun _ => h.guest, fun hfull => ?_⟩
  rw [toFinset_card_of_nodup h.nodup]
  have := of_decide_eq_false hfull
  omega

section Ops

variable {co : Caller} {pid : Pid} {d d1 : Shdata} {c : ℕ} {i : CpuInfo}

theorem Single.write (h : Single d) (hinfo : d1.nodeInfo = update d.nodeInfo c i) (hi : i.Single) :
    Single d1 := by
  intro x
  rw [hinfo]
  by_cases hx : x = c
  · rw [hx, update_self]
    exact hi
  · rw [update_of_ne hx]
    exact h x

theorem Single.congr (h : Single d) (hinfo : d1.nodeInfo = d.nodeInfo) : Single d1 := fun x => hinfo ▸ h x

theorem CpuInfo.Single.guested (h : i.Single) {g : Pid} (hg : g ∉ i.requests.items) {state : CpuState}
    (hs : state = .disabled → i.owner = 0) : ({ i with guest := g, state := state } : CpuInfo).Single :=
  ⟨h.nodup, h.named, hg, h.owner, hs, h.ok⟩

theorem CpuInfo.Single.enqueue (h : i.Single) {requests : Queue Pid} (hr : i.requests.enqueue queuePidSize pid = some requests)
    (hp0 : pid ≠ 0) (hnot : pid ∉ i.requests.items) (hguest : i.guest ≠ pid) (howner : i.owner ≠ pid) :
    ({ i with requests := requests } : CpuInfo).Single := by
  have hitems : requests.items = i.requests.items ++ [pid] := by
    unfold Queue.enqueue at hr
    split at hr
    · obtain rfl := Option.some.inj hr
      rfl
    · cases hr
  have hmem : ∀ p, p ∉ i.requests.items → p ≠ pid → p ∉ requests.items := by
    intro p hp hne
    rw [hitems, mem_append, mem_singleton, not_or]
    exact ⟨hp, hne⟩
  refine ⟨?_, hmem 0 h.named hp0.symm, hmem _ h.guest hguest, hmem _ h.owner howner, h.disabled, h.ok.enqueue hr⟩
  rw [hitems, nodup_append]
  refine ⟨h.nodup, by simp, fun a ha b hb => ?_⟩
  rw [mem_singleton] at hb
  rintro rfl
  exact hnot (hb ▸ ha)

theorem CpuInfo.Single.remove (h : i.Single) (pid : Pid) :
    ({ i with requests := i.requests.remove queuePidSize (· = pid) } : CpuInfo).Single := by
  have hmem : ∀ p, p ∉ i.requests.items → p ∉ (i.requests.remove queuePidSize (· = pid)).items :=
    fun p hp hin => hp (Queue.remove_items.mp hin).1
  exact ⟨h.nodup.filter _, hmem 0 h.named, hmem _ h.guest, hmem _ h.owner, h.disabled, h.ok.remove _⟩

/-! ## Lend -/

theorem popRequest_single (h : Single d) : Single (popRequest S d c).1 := by
  have hitems : ∀ p ∈ ((popRequest S d c).1.nodeInfo c).requests.items, p ∈ (d.nodeInfo c).requests.items :=
    fun p hp => (popRequest_fewer (S := S)).own c p hp
  unfold popRequest at hitems ⊢
  rw [set_info] at hitems
  have hkey : ∀ x ∈ (d.nodeInfo c).requests.items, id x ≠ 0 := fun x hx h0 => (h c).named (h0 ▸ hx)
  refine h.write rfl ⟨(Queue.take_nodup hkey (h c).nodup _ _).1, fun h0 => (h c).named (hitems _ h0),
    fun hg => (h c).guest (hitems _ hg), fun ho => (h c).owner (hitems _ ho), (h c).disabled, (h c).ok.take _ _⟩

theorem popRequest_gone (h : Single d) : (popRequest S d c).2 ∉ ((popRequest S d c).1.nodeInfo c).requests.items := by
  have hkey : ∀ x ∈ (d.nodeInfo c).requests.items, id x ≠ 0 := fun x hx h0 => (h c).named (h0 ▸ hx)
  unfold popRequest
  rw [set_info]
  intro hmem
  obtain ⟨y, -, hne, heq⟩ := (Queue.take_nodup hkey (h c).nodup _ _).2 _ hmem rfl
  exact hne heq

theorem popRequest_none (h : Single d) (hnone : (popRequest S d c).2 = 0) :
    ((popRequest S d c).1.nodeInfo c).requests.items = (d.nodeInfo c).requests.items ∧
      ∀ p ∈ (d.nodeInfo c).requests.items, coreIsEligible S d p c = false := by
  have hkey : ∀ x ∈ (d.nodeInfo c).requests.items, id x ≠ 0 := fun x hx h0 => (h c).named (h0 ▸ hx)
  obtain ⟨hsame, htest⟩ := Queue.take_first_none (h c).ok (fun x hx _ => hkey x hx) hnone
  refine ⟨?_, htest⟩
  unfold popRequest
  rw [set_info]
  exact congrArg Queue.items hsame

theorem popGlobalRequest_gone (h : Single d) (hq : d.queuesEnabled = true) (hnone : (popRequest S d c).2 = 0) :
    (popGlobalRequest S (popRequest S d c).1 c).2 ∉ (d.nodeInfo c).requests.items := by
  by_cases h0 : (popGlobalRequest S (popRequest S d c).1 c).2 = 0
  · rw [h0]
    exact (h c).named
  · have honly : OnlyRequests d (popRequest S d c).1 := popRequest_only
    have htaker := popGlobalRequest_taker (honly.flags.queues.trans hq) h0
    intro hmem
    have hineligible := (popRequest_none h hnone).2 _ hmem
    rw [← coreIsEligible_congr honly.flags.smt honly.same, htaker.eligible] at hineligible
    cases hineligible

theorem findNewGuest_single (h : Single d) :
    Single (findNewGuest S d c).1 ∧ (findNewGuest S d c).2 ∉ ((findNewGuest S d c).1.nodeInfo c).requests.items := by
  unfold findNewGuest
  dsimp only
  split
  · exact ⟨h, (h c).owner⟩
  split
  · rename_i hq
    split
    · rename_i hnone
      refine ⟨(popRequest_single h).congr rfl, ?_⟩
      change _ ∉ ((popRequest S d c).1.nodeInfo c).requests.items
      rw [(popRequest_none h hnone).1]
      exact popGlobalRequest_gone h hq hnone
    · exact ⟨popRequest_single h, popRequest_gone h⟩
  · exact ⟨h, (h c).named⟩

theorem assignGuest_single (h : Single d) : Single (assignGuest S d c).1 := by
  obtain ⟨hfind, hgone⟩ := findNewGuest_single (S := S) (c := c) h
  unfold assignGuest
  dsimp only
  split
  · exact hfind
  · exact hfind.write rfl ((hfind c).guested hgone (hfind c).disabled)

theorem assignRest_single (h : Single d) {cpuid : ℕ} : Single (assignRest S cpuid d c) := by
  unfold assignRest
  split
  · dsimp only
    split
    · exact assignGuest_single h
    · exact (assignGuest_single h).congr rfl
  · exact h

theorem findGuests_single (h : Single d) : Single (findGuests S d c) := by
  unfold findGuests
  split
  · dsimp only
    split
    · exact assignGuest_single h
    · exact foldlRecOn _ _ (assignGuest_single h) fun _ hd _ _ => assignRest_single hd
  · exact h

theorem lendCpu_single (h : Single d) : Single (lendCpu S pid d c) := by
  have hown : Single (lendOwned d pid c) := by
    unfold lendOwned
    dsimp only
    split
    · exact h.write rfl ((h c).guested (h c).guest nofun)
    split
    · exact h.write rfl ((h c).remove pid)
    · exact h
  have hleave : Single (leave (lendOwned d pid c) pid c) := by
    unfold leave
    dsimp only
    split
    · exact hown.write rfl ((hown c).guested (hown c).named (hown c).disabled)
    · exact hown
  have hfind : Single (findGuests S (leave (lendOwned d pid c) pid c) c) := findGuests_single hleave
  unfold lendCpu
  split
  · exact h
  · dsimp only
    split
    · exact hfind.congr rfl
    · exact hfind.congr rfl

/-! ## Reclaim, acquire, borrow -/

theorem reclaimCpu_single (h : Single d) : Single (reclaimCpu pid d c).1 := by
  unfold reclaimCpu
  dsimp only
  split
  · rename_i ho
    split
    · exact h.write rfl ((h c).guested (h c).guest nofun)
    split
    · exact h.write rfl ((h c).guested (ho ▸ (h c).owner) nofun)
    · exact h.write rfl ((h c).guested (h c).guest nofun)
  · exact h

theorem noteOccupied_single (h : Single d) : Single (noteOccupied S d c) := by
  unfold noteOccupied
  split
  · exact h.congr rfl
  · exact h

theorem noteOccupiedOwned_single (h : Single d) : Single (noteOccupiedOwned S d c) := by
  unfold noteOccupiedOwned
  split
  · exact noteOccupied_single h
  · exact h

theorem acquireCpu_single (hp0 : pid ≠ 0) (h : Single d) (hq : AcquireSafe S pid d c) :
    Single (acquireCpu S pid d c).1 := by
  unfold acquireCpu
  dsimp only
  split
  · exact h
  rename_i hguest
  split
  · rename_i ho
    split
    · exact h.write rfl ((h c).guested (ho ▸ (h c).owner) nofun)
    · have hclaim : Single ((d.set c { d.nodeInfo c with state := .busy }).recall pid c) :=
        h.write rfl ((h c).guested (h c).guest nofun)
      exact noteOccupied_single hclaim
  rename_i howner
  split
  · rename_i havailable
    have hnot : pid ∉ (d.nodeInfo c).requests.items := fun hmem => (hq hmem).1 havailable
    have htake : Single ((d.set c { d.nodeInfo c with guest := pid }).push .enableCpu pid c) :=
      h.write rfl ((h c).guested hnot (h c).disabled)
    exact (noteOccupiedOwned_single htake).congr rfl
  split
  · split
    · rename_i requests hr
      have hspace : (d.nodeInfo c).requests.hasSpace queuePidSize = true := by
        unfold Queue.enqueue at hr
        split at hr
        · assumption
        · cases hr
      have hnot : pid ∉ (d.nodeInfo c).requests.items := fun hmem => by
        rw [(hq hmem).2] at hspace
        cases hspace
      exact h.write rfl ((h c).enqueue hr hp0 hnot hguest howner)
    · exact h
  split
  · exact h
  · exact h

theorem borrowCpu_single (h : Single d) (hq : BorrowSafe S pid d c) : Single (borrowCpu S pid d c).1 := by
  unfold borrowCpu
  dsimp only
  split
  · exact h
  split
  · rename_i hidle
    split
    · rename_i ho
      exact h.write rfl ((h c).guested (ho ▸ (h c).owner) nofun)
    split
    · rename_i hlent
      have hnot : pid ∉ (d.nodeInfo c).requests.items := fun hmem => hq hmem ⟨hidle.1, hlent, hidle.2⟩
      have htake : Single (((d.set c { d.nodeInfo c with guest := pid }).push .enableCpu pid c).clrFree c) :=
        h.write rfl ((h c).guested hnot (h c).disabled)
      exact noteOccupiedOwned_single htake
    · exact h
  · exact h

theorem returnCpu_single (h : Single d) : Single (returnCpu S pid d c).1 := by
  unfold returnCpu
  dsimp only
  split
  · exact h
  · split
    · exact h.write rfl ((h c).guested (h c).owner (h c).disabled)
    · exact h.write rfl ((h c).guested (h c).named (h c).disabled)

theorem returnGuest_single (h : Single d) : Single (returnGuest d c) := by
  refine h.write returnGuest_info ((h c).guested ?_ (h c).disabled)
  split
  · exact (h c).owner
  · exact (h c).named

theorem returnAsync_single (h : Single d) (hq : ReturnSafe pid d c) : Single (returnAsync S pid d c) := by
  have hleft : Single (updateOccupiedCores S (returnGuest d c) (d.nodeInfo c).owner c) :=
    (returnGuest_single h).congr rfl
  have hentry : (returnGuest d c).nodeInfo c = returned (d.nodeInfo c) := by
    rw [returnGuest_info, update_self]
  unfold returnAsync requestAgain
  split
  · rename_i requests hr
    change ((returnGuest d c).nodeInfo c).requests.enqueue queuePidSize pid = some requests at hr
    have hspace : (d.nodeInfo c).requests.hasSpace queuePidSize = true := by
      rw [hentry] at hr
      unfold Queue.enqueue at hr
      split at hr
      · assumption
      · cases hr
    obtain ⟨hp0, hnot, hno⟩ := hq hspace
    refine hleft.write rfl ((returnGuest_single h c).enqueue hr hp0 (hentry ▸ hnot) ?_ (hentry ▸ hno))
    -- the guest that is left is the owner, or nobody
    rw [hentry]
    unfold returned
    split
    · exact hno
    · exact hp0.symm
  · exact hleft

/-! ## Calls -/

theorem acquiresSafe_single (hp0 : pid ≠ 0) (h : Single d) {cpus : List ℕ} {ncpus : ℤ}
    (hq : AcquiresSafe S pid d cpus ncpus) : Single (acquireCpusInArray S pid d cpus ncpus).1 :=
  arrayLoop_along (fun d k hd hk => coreLoop_along (fun _ _ => acquireCpu_single hp0) (coreCpus S k) d .noupdt 0 hd hk)
    (fun _ _ => acquireCpu_single hp0) cpus none d ncpus .noupdt h hq

theorem borrowsSafe_single (h : Single d) {cpus : List ℕ} {ncpus : ℤ} (hq : BorrowsSafe S pid d cpus ncpus) :
    Single (borrowCpusInArray S pid d cpus ncpus).1 :=
  arrayLoop_along (fun d k hd hk => coreLoop_along (fun _ _ => borrowCpu_single) (coreCpus S k) d .noupdt 0 hd hk)
    (fun _ _ => borrowCpu_single) cpus none d ncpus .noupdt h hq

theorem stagesSafe_single (hp0 : pid ≠ 0) (h : Single d) {w : Wish} {ncpus : ℤ} (hq : StagesSafe S w d pid ncpus) :
    Single (acquireStages S w d pid ncpus).1 := by
  have h1 := stage_along (P := Single) (r := (d, .noupdt, ncpus)) h (acquiresSafe_single hp0 h hq.1)
  have h2 := stage_along (P := Single) h1 (acquiresSafe_single hp0 h1 hq.2.1)
  exact stage_along (P := Single) h2 (borrowsSafe_single h2 hq.2.2)

theorem NotGuested.write {cpus : List ℕ} (h : NotGuested pid cpus d)
    (hinfo : d1.nodeInfo = update d.nodeInfo c i)
    (hi : i.state = .disabled → (d.nodeInfo c).state = .disabled ∧ i.guest = (d.nodeInfo c).guest) :
    NotGuested pid cpus d1 := by
  intro x hx hs
  rw [hinfo] at hs ⊢
  by_cases hxc : x = c
  · subst hxc
    rw [update_self] at hs ⊢
    rw [(hi hs).2]
    exact h x hx (hi hs).1
  · rw [update_of_ne hxc] at hs ⊢
    exact h x hx hs

theorem NotGuested.congr {cpus : List ℕ} (h : NotGuested pid cpus d) (hinfo : d1.nodeInfo = d.nodeInfo) :
    NotGuested pid cpus d1 := by
  unfold NotGuested
  rw [hinfo]
  exact h

theorem notGuested_takes (cpus : List ℕ) : Takes S pid (NotGuested pid cpus) where
  start _ h := h
  reclaim d c h := by
    unfold reclaimCpu
    dsimp only
    split_ifs
    · exact h.write rfl nofun
    · exact h.write rfl nofun
    · exact h.write rfl nofun
    · exact h
  acquire d c h := by
    unfold acquireCpu
    dsimp only
    split
    · exact h
    split
    · split
      · exact h.write rfl nofun
      · have hclaim : NotGuested pid cpus ((d.set c { d.nodeInfo c with state := .busy }).recall pid c) :=
          h.write rfl nofun
        unfold noteOccupied
        split
        · exact hclaim.congr rfl
        · exact hclaim
    split
    · rename_i havailable
      have htake : NotGuested pid cpus ((d.set c { d.nodeInfo c with guest := pid }).push .enableCpu pid c) := by
        refine h.write rfl fun hs => ?_
        rw [show (d.nodeInfo c).state = .disabled from hs] at havailable
        cases havailable.2.1
      have hnote : NotGuested pid cpus
          (noteOccupiedOwned S ((d.set c { d.nodeInfo c with guest := pid }).push .enableCpu pid c) c) :=
        htake.congr noteOccupiedOwned_info
      exact hnote.congr rfl
    split
    · split
      · exact h.write rfl fun hs => ⟨hs, rfl⟩
      · exact h
    split
    · exact h
    · exact h
  borrow d c h := by
    unfold borrowCpu
    dsimp only
    split
    · exact h
    rename_i hstate
    split
    · split
      · exact h.write rfl nofun
      split
      · have htake : NotGuested pid cpus (((d.set c { d.nodeInfo c with guest := pid }).push .enableCpu pid c).clrFree c) :=
          h.write rfl fun hs => absurd hs hstate
        exact htake.congr noteOccupiedOwned_info
      · exact h
    · exact h

theorem petitionCpu_single (hp0 : pid ≠ 0) {r : Shdata × DlbError} (h : Single r.1)
    (hq : (r.1.nodeInfo c).state = .disabled → (r.1.nodeInfo c).guest ≠ pid) : Single (petitionCpu pid r c).1 := by
  unfold petitionCpu
  dsimp only
  split
  · rename_i hcpu
    split
    · rename_i hnot
      split
      · rename_i requests hr
        refine h.write rfl ((h c).enqueue hr hp0 hnot ?_ ?_)
        · rcases hcpu with hdisabled | hother
          · exact hq hdisabled
          · exact hother.2
        · rcases hcpu with hdisabled | hother
          · rw [(h c).disabled hdisabled]
            exact hp0.symm
          · exact hother.1
      · exact h
    · exact h
  · exact h

theorem addPetitions_single (hp0 : pid ≠ 0) {w : Wish} {r : Shdata × DlbError × ℤ} (h : Single r.1)
    (hq : NotGuested pid w.cpusPriorityArray r.1) : Single (addPetitions w pid r).1 := by
  unfold addPetitions
  split
  · split
    · split
      · unfold petition
        split
        · exact h.congr rfl
        split
        · exact h.congr rfl
        · exact h
      · exact h
    · -- the petitions before one CPU change neither guest nor state
      have hrun : Single (w.cpusPriorityArray.foldl (petitionCpu pid) (r.1, r.2.1)).1 ∧
          NotGuested pid w.cpusPriorityArray (w.cpusPriorityArray.foldl (petitionCpu pid) (r.1, r.2.1)).1 := by
        refine foldlRecOn (motive := fun r : Shdata × DlbError => Single r.1 ∧
          NotGuested pid w.cpusPriorityArray r.1) _ _ ⟨h, hq⟩ fun r hr c hc => ?_
        refine ⟨petitionCpu_single hp0 hr.1 (hr.2 c hc), ?_⟩
        unfold petitionCpu
        dsimp only
        split
        · split
          · split
            · exact hr.2.write rfl fun hs => ⟨hs, rfl⟩
            · exact hr.2
          · exact hr.2
        · exact hr.2
      exact hrun.1
  · exact h

theorem borrowFreeNodes_single {w : Wish} {r : Shdata × DlbError × ℤ} (h : Single r.1)
    (hq : w.lewiAffinity = .spreadIfempty →
      BorrowsSafe S pid r.1 (nodeCpus S (muGetNodesSubsetOfCpuset S r.1.freeCpus)) r.2.2) :
    Single (borrowFreeNodes S w pid r).1 := by
  unfold borrowFreeNodes
  split
  · rename_i hspread
    exact stage_along (P := Single) h (borrowsSafe_single h (hq hspread.1))
  · exact h

theorem removeRequests_single (h : Single d) : Single (removeRequests S d pid) := by
  unfold removeRequests
  split
  · intro x
    dsimp only
    split
    · exact (h x).remove pid
    · exact h x
  · exact h

theorem exec_single (hp0 : pid ≠ 0) (h : Single d) (call : Call) (hq : call.Safe S pid { d with tasks := [] }) :
    Single (exec S co pid d call) := by
  have h₀ : Single { d with tasks := [] } := h.congr rfl
  have hlend : ∀ d c, Single d → Single ((lendCpu S pid d c).push .disableCpu pid c) := by
    intro d c hd
    have hlent : Single (lendCpu S pid d c) := lendCpu_single hd
    exact hlent.congr rfl
  unfold exec
  generalize { d with tasks := [] } = d0 at h₀ hq ⊢
  cases call with
  | lendCpu cpuid =>
    unfold shmemLendCpu
    dsimp only
    split
    · exact h₀
    · exact (lendCpu_single h₀).congr rfl
  | lendCpuMask mask =>
    have hrun : Single ((nodeCpus S mask).foldl (lendCpu S pid) d0) :=
      foldlRecOn _ _ h₀ fun _ hd _ _ => lendCpu_single hd
    exact hrun.congr rfl
  | reclaimAll =>
    refine foldl_keeps (P := Single) (fun r c hr => ?_) _ _ h₀
    split
    · exact reclaimCpu_single hr
    · exact hr
  | reclaimCpu cpuid =>
    refine shmemReclaimCpu_keeps (P := Single) (fun _ _ => reclaimCpu_single) (fun d cpuid c hd => ?_) h₀ cpuid
    unfold disableRest
    split
    · exact hd.congr rfl
    · exact hd
  | reclaimCpus ncpus =>
    exact reclaimCores_keeps (P := Single) (fun d k => coreLoop_keeps (fun _ _ => reclaimCpu_single) _ _ _ _) _ _ _ _ h₀
  | reclaimCpuMask mask =>
    refine foldl_keeps (P := Single) (fun r c hr => ?_) _ _ h₀
    exact reclaimCpu_single hr
  | acquireCpu cpuid =>
    unfold shmemAcquireCpu
    dsimp only
    split
    · exact h₀
    · rename_i hlt
      exact acquireCpu_single hp0 h₀ (hq (Nat.lt_of_not_le hlt))
  | acquireFromCpuSubset cpus => exact acquiresSafe_single hp0 h₀ hq
  | acquireNcpusFromCpuSubset w u =>
    unfold shmemAcquireNcpusFromCpuSubset
    dsimp only
    split
    · exact h₀
    · exact addPetitions_single hp0 (stagesSafe_single hp0 h₀ hq.1) ((notGuested_takes _).stages hq.2 w _)
  | borrowCpu cpuid =>
    unfold shmemBorrowCpu
    dsimp only
    split
    · exact h₀
    · rename_i hlt
      exact borrowCpu_single h₀ (hq (Nat.lt_of_not_le hlt))
  | borrowFromCpuSubset cpus => exact borrowsSafe_single h₀ hq
  | borrowNcpusFromCpuSubset w u =>
    unfold shmemBorrowNcpusFromCpuSubset
    dsimp only
    split
    · exact h₀
    · exact borrowFreeNodes_single (borrowsSafe_single h₀ hq.1) hq.2
  | returnAll =>
    refine foldl_keeps (P := Single) (fun r c hr => ?_) _ _ h₀
    split
    · exact returnCpu_single hr
    · exact hr
  | returnCpu cpuid =>
    unfold shmemReturnCpu
    dsimp only
    split
    · exact h₀
    split
    · exact h₀
    · exact returnCpu_single h₀
  | returnCpuMask mask =>
    refine foldl_keeps (P := Single) (fun r c hr => ?_) _ _ h₀
    exact returnCpu_single hr
  | reset =>
    have hrun : Single ((range S.size).foldl (resetCpu S pid) (removeRequests S d0 pid)) := by
      refine foldlRecOn _ _ (removeRequests_single h₀) fun d hd c _ => ?_
      unfold resetCpu
      split
      · exact reclaimCpu_single hd
      split
      · exact hlend d c hd
      · exact hd
    exact hrun.congr rfl
  | updateMaxParallelism max =>
    have hrun : Single ((range S.size).foldl (lendBeyond S pid max) (d0, 0, [])).1 := by
      refine foldl_keeps (P := Single) (fun r c hr => ?_) _ _ h₀
      unfold lendBeyond
      split_ifs
      · exact hlend _ _ hr
      · exact hr
      · exact hr
      · exact hr
    exact (lendGuested_keeps hlend _ _ _ hrun).congr rfl

/-- **Each process waits once.** From a state without requests whose disabled CPUs have no owner, along every run of
calls and returns that meet no request of their own process, no process is in the queue of a CPU twice or while it is
the guest, and a full queue is one of seven processes. -/
theorem queues_once (h : NoneAsked d) (events : List QueueEvent)
    (hnamed : ∀ e ∈ events, e.Named) (hsafe : Lib.Along (QueueEvent.next S) (QueueEvent.Safe S) d events) :
    Lib.Along (QueueEvent.next S) (fun d e => ∀ x, ((e.next S d).nodeInfo x).Once) d events := by
  have hstart : Single d := by
    intro x
    obtain ⟨hempty, hdisabled⟩ := h x
    have hitems : (d.nodeInfo x).requests.items = [] := by rw [hempty]
    have hnot : ∀ p, p ∉ (d.nodeInfo x).requests.items := fun p => by simp [hitems]
    exact ⟨hitems ▸ nodup_nil, hnot 0, hnot _, hnot _, hdisabled, hempty ▸ .empty (by decide)⟩
  have hstep : ∀ (d : Shdata) (e : QueueEvent), Single d → e.Named → e.Safe S d → Single (e.next S d) := by
    intro d e hd hne hse
    cases e with
    | call co pid call => exact exec_single hne hd call hse
    | returnAsync pid mask =>
      exact (Lib.Along.invariant (I := Single) (R := fun _ => True) (P := fun _ _ => True)
        (fun d c hd _ hc => returnAsync_single hd hc) (fun _ _ _ _ _ => trivial) d _ hd (fun _ _ => trivial) hse).2
  exact (Lib.Along.invariant hstep (fun d e hd hne hse x => (hstep d e hd hne hse x).once) d events hstart hnamed
    hsafe).1

/-! ## Processes that register -/

theorem NoneAsked.write (h : NoneAsked d) (hinfo : d1.nodeInfo = update d.nodeInfo c i) (hr : i.requests = {})
    (hi : i.state = .disabled → i.owner = 0) : NoneAsked d1 := by
  intro x
  rw [hinfo]
  by_cases hx : x = c
  · rw [hx, update_self]
    exact ⟨hr, hi⟩
  · rw [update_of_ne hx]
    exact h x

theorem registerCpu_noneAsked (h : NoneAsked d) {preinitPid : Pid} : NoneAsked (registerCpu S pid preinitPid d c) :=
  NoneAsked.write (i := registered pid preinitPid (d.nodeInfo c)) h registerCpu_info (h c).1 nofun

theorem deregisterCpu_noneAsked (h : NoneAsked d) : NoneAsked (deregisterCpu S co pid d c) := by
  obtain ⟨hempty, hdisabled⟩ := h c
  unfold deregisterCpu
  dsimp only
  split
  · refine h.write (deregisterOwned_info co) ?_ fun _ => rfl
    unfold deregistered
    dsimp only
    split
    · exact hempty
    · rfl
  · have hleft : NoneAsked (if (d.nodeInfo c).guest = pid then (d.set c { d.nodeInfo c with guest := 0 }).setFree c
        else d) := by
      split
      · exact h.write (i := { d.nodeInfo c with guest := 0 }) rfl hempty hdisabled
      · exact h
    split
    · refine hleft.write rfl ?_ (hleft c).2
      rw [(hleft c).1]
      rfl
    · exact hleft

theorem init_noneAsked (h : NoneAsked d) (preinitPid : Pid) (mask : CpuSet) :
    NoneAsked (init S co d pid preinitPid mask).1 := by
  have hshmem : NoneAsked (initShmem S co d) := by
    unfold initShmem
    split
    · exact h
    · intro x
      dsimp only
      split
      · exact ⟨rfl, fun _ => rfl⟩
      · exact ⟨rfl, fun _ => rfl⟩
  have hregister : NoneAsked (registerProcess S (initShmem S co d) pid preinitPid mask false).1 := by
    unfold registerProcess
    split
    · exact hshmem
    split
    · exact hshmem
    · exact foldlRecOn _ _ hshmem fun _ hd _ _ => registerCpu_noneAsked hd
  have hfinalize : ∀ d, NoneAsked d → NoneAsked (finalize S co d pid) := by
    intro d hd
    have hrun : NoneAsked ((range S.size).foldl (deregisterCpu S co pid) d) :=
      foldlRecOn _ _ hd fun _ hd _ _ => deregisterCpu_noneAsked hd
    unfold finalize deregisterProcess
    dsimp only
    split
    · exact hrun
    · exact hrun
  unfold init
  dsimp only
  split
  · exact hfinalize _ hregister
  · exact hregister

end Ops

/-! ## Two processes -/

/-- `1` and `2` have a CPU each and run LeWI in asynchronous mode. -/
def joined : Shdata := enableRequestQueues (init twoCores {} (init twoCores {} {} 1 0 {0}).1 2 0 {1}).1

theorem joined_noneAsked : NoneAsked joined := by
  have hzero : NoneAsked {} := fun _ => ⟨rfl, fun _ => rfl⟩
  have hone : NoneAsked (init twoCores {} {} 1 0 {0}).1 := init_noneAsked hzero 0 {0}
  have htwo : NoneAsked (init twoCores {} (init twoCores {} {} 1 0 {0}).1 2 0 {1}).1 := init_noneAsked hone 0 {1}
  exact htwo

/-- `2` asks for the CPU of `1`, gets it when `1` lends it, and asks for it again when `1` takes it back. -/
def askedOnce : List QueueEvent :=
  [.call {} 2 (.acquireCpu 0), .call {} 1 (.lendCpu 0), .call {} 1 (.acquireCpu 0), .returnAsync 2 {0}]

theorem queues_once_askedOnce : Lib.Along (QueueEvent.next twoCores)
    (fun d e => ∀ x, ((e.next twoCores d).nodeInfo x).Once) joined askedOnce := by
  refine queues_once joined_noneAsked askedOnce (by simp [askedOnce, QueueEvent.Named]) ⟨fun _ hmem => ?_, trivial,
    fun _ hmem => ?_, ⟨fun _ => ?_, trivial⟩, trivial⟩
  · exact absurd hmem (by decide)
  · exact absurd hmem (by decide)
  · decide

/-- **The same request again and again.** `2` acquires the CPU of `1` seven times: it is in the queue of the CPU seven
times, and the first request of `3` fails. -/
theorem acquired_again : ¬(∀ events : List QueueEvent, (∀ e ∈ events, e.Named) → Lib.Along (QueueEvent.next twoCores)
    (fun d e => ∀ x, ((e.next twoCores d).nodeInfo x).Once) joined events) ∧
    (shmemAcquireCpu twoCores ((replicate 7 (QueueEvent.call {} 2 (.acquireCpu 0))).foldl
      (QueueEvent.next twoCores) joined) 3 0).2 = .errReqst := by
  refine ⟨fun h => ?_, by decide⟩
  have htwice := h [.call {} 2 (.acquireCpu 0), .call {} 2 (.acquireCpu 0)] (by simp [QueueEvent.Named])
  have hnodup := (htwice.2.1 0).nodup
  revert hnodup
  decide

end Dlb.Cpuinfo

import Dlb.Cpuinfo.FreeSet

/-!
# Processes that have left

A process leaves with `finalize` after it has deregistered, or it dies and the next process that attaches cleans up
after it. In both cases its own CPUs and those that it guests are given up, and its requests are removed, with two gaps
of the cleanup: the global requests stay, and so do requests in the queues of its own CPUs that become public. A deferred
return that is made later on its behalf asks for the CPU again. These are the only ways to find a process that has left
(`departed_absent_iff`).
-/

namespace Dlb.Cpuinfo

open List Function

variable {S : System} {co : Caller} {p q : Pid} {d d1 : Shdata} {c x n : ℕ} {i : CpuInfo}

/-! ## What is left of a process -/

structure Absent (S : System) (p : Pid) (d : Shdata) : Prop where
  owner : ∀ x, (d.nodeInfo x).owner ≠ p
  guest : ∀ x, (d.nodeInfo x).guest ≠ p
  requests : ∀ x < S.size, p ∉ (d.nodeInfo x).requests.items
  global : ∀ it ∈ d.lewiMaskRequests.items, it.pid ≠ p

theorem Traceless.absent (h : Traceless S p d) : Absent S p d := ⟨h.owner, h.guest, h.requests, h.global⟩

theorem Absent.traceless (h : Absent S p d) (ht : InTable S d) : Traceless S p { d with tasks := [] } :=
  ⟨ht, h.owner, h.guest, h.requests, h.global, nofun⟩

structure Silent (d : Shdata) : Prop where
  queues : d.queuesEnabled = false
  own : ∀ x, ∀ p, p ∉ (d.nodeInfo x).requests.items
  global : ∀ it, it ∉ d.lewiMaskRequests.items

theorem Asks.silent (h : Asks q d d1) (hs : Silent d) : Silent d1 := by
  have hno : ¬d.queuesEnabled = true := by
    rw [hs.queues]
    exact Bool.false_ne_true
  refine ⟨h.flags.queues.trans hs.queues, fun x p hp => ?_, fun it hit => ?_⟩
  · rcases h.own x p hp with hp | ⟨-, hq⟩
    · exact hs.own x p hp
    · exact hno hq
  · rcases h.global it hit with ⟨it', hit', -⟩ | ⟨-, hq⟩
    · exact hs.global it' hit'
    · exact hno hq

def Quiet (d : Shdata) : Prop := d.queuesEnabled = true ∨ Silent d

theorem Asks.quiet (h : Asks q d d1) (hq : Quiet d) : Quiet d1 :=
  hq.imp (fun hq => h.flags.queues.trans hq) h.silent

/-! ## Deregister -/

/-- The entry of a CPU after `deregister_cpu`. -/
def withoutProcess (co : Caller) (pid : Pid) (queues : Bool) (i : CpuInfo) : CpuInfo :=
  if i.owner = pid then deregistered co pid i
  else { i with
    guest := guestWithout pid i
    requests := if queues then i.requests.remove queuePidSize (· = pid) else i.requests }

theorem deregisterCpu_info : (deregisterCpu S co q d c).nodeInfo =
    update d.nodeInfo c (withoutProcess co q d.queuesEnabled (d.nodeInfo c)) := by
  unfold deregisterCpu withoutProcess
  dsimp only
  split
  · exact deregisterOwned_info co
  · unfold guestWithout
    by_cases hg : (d.nodeInfo c).guest = q
    · rw [if_pos hg, if_pos hg]
      cases hq : d.queuesEnabled with
      | true => simp [Shdata.set, Shdata.setFree, hq]
      | false => simp [Shdata.set, Shdata.setFree, hq]
    · rw [if_neg hg, if_neg hg]
      cases hq : d.queuesEnabled with
      | true => simp [Shdata.set, hq]
      | false => simp

theorem deregisterCpus_info : ∀ n, ((range n).foldl (deregisterCpu S co q) d).nodeInfo =
    fun x => if x < n then withoutProcess co q d.queuesEnabled (d.nodeInfo x) else d.nodeInfo x
  | 0 => by simp
  | n + 1 => by
    have hasks : Asks q d ((range n).foldl (deregisterCpu S co q) d) :=
      Asks.foldl (fun _ _ => deregisterCpu_asks) _ _
    rw [range_succ, foldl_append, foldl_cons, foldl_nil, deregisterCpu_info,
      deregisterCpus_info n, hasks.flags.queues]
    dsimp only
    rw [if_neg (lt_irrefl n)]
    funext x
    by_cases hx : x = n
    · rw [hx, update_self, if_pos n.lt_succ_self]
    · rw [update_of_ne hx]
      have hlt : x < n + 1 ↔ x < n := by omega
      simp only [hlt]

theorem deregisterCpu_global : (deregisterCpu S co q d c).lewiMaskRequests = d.lewiMaskRequests := by
  unfold deregisterCpu deregisterOwned
  dsimp only
  split_ifs <;> rfl

theorem deregisterCpus_global (l : List ℕ) : (l.foldl (deregisterCpu S co q) d).lewiMaskRequests = d.lewiMaskRequests :=
  foldlRecOn (motive := fun r : Shdata => r.lewiMaskRequests = d.lewiMaskRequests) l _ rfl
    fun _ hd _ _ => deregisterCpu_global.trans hd

theorem withoutProcess_owner (hp0 : p ≠ 0) (queues : Bool) : (withoutProcess co p queues i).owner ≠ p := by
  unfold withoutProcess
  split
  · exact hp0.symm
  · assumption

theorem withoutProcess_guest (hp0 : p ≠ 0) (queues : Bool) : (withoutProcess co p queues i).guest ≠ p := by
  have hno : guestWithout p i ≠ p := by
    unfold guestWithout
    split
    · exact hp0.symm
    · assumption
  unfold withoutProcess
  split
  · exact hno
  · exact hno

theorem withoutProcess_requests {queues : Bool} (hq : queues = true ∨ p ∉ i.requests.items) :
    p ∈ (withoutProcess co p queues i).requests.items ↔ i.owner = p ∧ co.public ∧ p ∈ i.requests.items := by
  unfold withoutProcess
  split
  · rename_i ho
    unfold deregistered
    dsimp only
    rw [and_iff_right ho]
    by_cases hpublic : co.cpuIsPublicPostMortem = true ∨ (!co.respectCpuset) = true
    · rw [if_pos hpublic, and_iff_right (show co.public from hpublic)]
    · rw [if_neg hpublic]
      exact iff_of_false nofun fun h => hpublic h.1
  · rename_i ho
    refine iff_of_false (fun hp => ?_) fun h => ho h.1
    split at hp
    · simpa using (Queue.remove_items.mp hp).2
    · rename_i hqueues
      exact hq.resolve_left hqueues hp

theorem quiet_own (hq : Quiet d) (x : ℕ) (p : Pid) : d.queuesEnabled = true ∨ p ∉ (d.nodeInfo x).requests.items :=
  hq.imp_right fun hs => hs.own x p

theorem cleanupShmem_info : (cleanupShmem S co d p).nodeInfo =
    fun x => if x < S.size then withoutProcess co p d.queuesEnabled (d.nodeInfo x) else d.nodeInfo x :=
  deregisterCpus_info S.size

theorem cleanupShmem_owner (ht : InTable S d) (hp0 : p ≠ 0) (x : ℕ) : ((cleanupShmem S co d p).nodeInfo x).owner ≠ p := by
  rw [cleanupShmem_info]
  dsimp only
  split
  · exact withoutProcess_owner hp0 _
  · rw [(ht x (by omega)).1]
    exact hp0.symm

theorem cleanupShmem_guest (ht : InTable S d) (hp0 : p ≠ 0) (x : ℕ) : ((cleanupShmem S co d p).nodeInfo x).guest ≠ p := by
  rw [cleanupShmem_info]
  dsimp only
  split
  · exact withoutProcess_guest hp0 _
  · rw [(ht x (by omega)).2.1]
    exact hp0.symm

theorem cleanupShmem_absent_iff (ht : InTable S d) (hq : Quiet d) (hp0 : p ≠ 0) :
    Absent S p (cleanupShmem S co d p) ↔ (∀ it ∈ d.lewiMaskRequests.items, it.pid ≠ p) ∧
      ∀ c < S.size, (d.nodeInfo c).owner = p → co.public → p ∉ (d.nodeInfo c).requests.items := by
  have hglobal : (cleanupShmem S co d p).lewiMaskRequests = d.lewiMaskRequests := deregisterCpus_global _
  have hrequests : ∀ x < S.size, p ∈ ((cleanupShmem S co d p).nodeInfo x).requests.items ↔
      (d.nodeInfo x).owner = p ∧ co.public ∧ p ∈ (d.nodeInfo x).requests.items := fun x hx => by
    rw [cleanupShmem_info]
    dsimp only
    rw [if_pos hx]
    exact withoutProcess_requests (quiet_own hq x p)
  constructor
  · intro h
    refine ⟨fun it hit => h.global it (hglobal ▸ hit), fun c hc ho hpublic hp => h.requests c hc ?_⟩
    exact (hrequests c hc).mpr ⟨ho, hpublic, hp⟩
  · rintro ⟨hit, hown⟩
    refine ⟨cleanupShmem_owner ht hp0, cleanupShmem_guest ht hp0, fun x hx hp => ?_, fun it => hglobal ▸ hit it⟩
    obtain ⟨ho, hpublic, hp⟩ := (hrequests x hx).mp hp
    exact hown x hx ho hpublic hp

theorem deregisterProcess_absent (ht : InTable S d) (hq : Quiet d) (hp0 : p ≠ 0) (ho : ∀ x, (d.nodeInfo x).owner ≠ p) :
    Absent S p (deregisterProcess S co d p) := by
  have hrun : Absent S p (cleanupShmem S co { d with lewiMaskRequests := {} } p) := by
    have hquiet : Quiet { d with lewiMaskRequests := {} } := hq.imp id fun hs => ⟨hs.queues, hs.own, fun _ => not_mem_nil⟩
    have htable : InTable S { d with lewiMaskRequests := {} } := ht
    refine (cleanupShmem_absent_iff htable hquiet hp0).mpr ⟨fun it hit => ?_, fun c _ hc => absurd hc (ho c)⟩
    cases hit
  have hinfo : (cleanupShmem S co { d with lewiMaskRequests := {} } p).nodeInfo = (cleanupShmem S co d p).nodeInfo := by
    unfold cleanupShmem
    rw [deregisterCpus_info, deregisterCpus_info]
  have hasks : Asks p d (cleanupShmem S co d p) := Asks.foldl (fun _ _ => deregisterCpu_asks) _ _
  have hentries : ∀ x, ((deregisterProcess S co d p).nodeInfo x) = ((cleanupShmem S co d p).nodeInfo x) := by
    intro x
    unfold deregisterProcess cleanupShmem
    dsimp only
    split
    · rfl
    · rfl
  rw [← hinfo] at hentries
  refine ⟨fun x => ?_, fun x => ?_, fun x hx => ?_, fun it hit hp => ?_⟩
  · rw [hentries]
    exact hrun.owner x
  · rw [hentries]
    exact hrun.guest x
  · rw [hentries]
    exact hrun.requests x hx
  · unfold deregisterProcess at hit
    dsimp only at hit
    split at hit
    · simpa [hp] using (Queue.remove_items.mp hit).2
    · rename_i hoff
      have hs : Silent d := hq.resolve_left fun hon => hoff (hasks.flags.queues.trans hon)
      exact (hasks.silent hs).global it hit

/-! ## Deferred returns -/

theorem ask_requests : p ∈ (i.ask q).requests.items ↔
    (p = q ∧ i.requests.hasSpace queuePidSize = true) ∨ p ∈ i.requests.items := by
  unfold CpuInfo.ask Queue.enqueue
  cases hs : i.requests.hasSpace queuePidSize with
  | true => simp [or_comm]
  | false => simp

theorem returnAsyncs_global (mask : CpuSet) : (returnAsyncCpuMask S q d mask).lewiMaskRequests = d.lewiMaskRequests := by
  refine foldlRecOn (motive := fun r : Shdata => r.lewiMaskRequests = d.lewiMaskRequests) _ _ rfl
    fun r hr c _ => Eq.trans ?_ hr
  unfold returnAsync requestAgain updateOccupiedCores returnGuest
  dsimp only
  split_ifs <;> split <;> rfl

theorem returnAsyncs_absent_iff (h : Absent S p d) (hp0 : p ≠ 0) (mask : CpuSet) :
    Absent S p (returnAsyncCpuMask S q d mask) ↔
      (p = q → ∀ c ∈ nodeCpus S mask, (d.nodeInfo c).requests.hasSpace queuePidSize = false) := by
  have hinfo : ∀ x, (returnAsyncCpuMask S q d mask).nodeInfo x =
      if x ∈ nodeCpus S mask then (returned (d.nodeInfo x)).ask q else d.nodeInfo x :=
    fun x => returnAsyncs_info q x _ d (nodeCpus_nodup mask)
  have hasked : ∀ x, p ∈ ((returned (d.nodeInfo x)).ask q).requests.items ↔
      (p = q ∧ (d.nodeInfo x).requests.hasSpace queuePidSize = true) ∨ p ∈ (d.nodeInfo x).requests.items :=
    fun x => ask_requests
  constructor
  · intro hafter hpq c hc
    by_contra hspace
    refine hafter.requests c (mem_nodeCpus.mp hc).1 ?_
    rw [hinfo, if_pos hc, hasked]
    exact .inl ⟨hpq, by simpa using hspace⟩
  · intro hfull
    have hreturned : ∀ x, (returned (d.nodeInfo x)).guest ≠ p := fun x => by
      unfold returned
      split
      · exact h.owner x
      · exact hp0.symm
    have hglobal : (returnAsyncCpuMask S q d mask).lewiMaskRequests = d.lewiMaskRequests := returnAsyncs_global mask
    refine ⟨fun x => ?_, fun x => ?_, fun x hx => ?_, fun it hit => h.global it (hglobal ▸ hit)⟩
    · rw [hinfo]
      split
      · exact h.owner x
      · exact h.owner x
    · rw [hinfo]
      split
      · exact hreturned x
      · exact h.guest x
    · rw [hinfo]
      split
      · rename_i hc
        rw [hasked]
        refine fun hp => h.requests x hx (hp.resolve_left fun hspace => ?_)
        exact Bool.false_ne_true ((hfull hspace.1 x hc).symm.trans hspace.2)
      · exact h.requests x hx

/-! ## Owners -/

theorem leaveCpu_owner : ((leaveCpu S co q d c).nodeInfo x).owner =
    if x = c ∧ (d.nodeInfo c).owner = q then 0 else (d.nodeInfo x).owner := by
  have hstep : LeaveStep S co q d c (leaveCpu S co q d c) := leaveCpu_step
  generalize leaveCpu S co q d c = d1 at hstep ⊢
  cases hstep with
  | kept ho => rw [if_neg fun h => ho h.2]
  | left ho _ hs => rw [if_neg fun h => ho h.2, (lendCpu_lent hs).owner]
  | dropped d1 ho _ hd =>
    by_cases hx : x = c
    · rw [if_pos ⟨hx, ho⟩, hx, disown_self]
    · rw [if_neg fun h => hx h.1, disown_of_ne hx, (hd.rest x hx).1]
  | lent ho _ hs =>
    by_cases hx : x = c
    · rw [if_pos ⟨hx, ho⟩, hx, disown_self]
    · rw [if_neg fun h => hx h.1, disown_of_ne hx, (lendCpu_lent hs).owner]

theorem leftBelow_owner : ∀ n x, ((leftBelow S co q d n).nodeInfo x).owner =
    if Gone q d n x then 0 else (d.nodeInfo x).owner
  | 0, x => (if_neg fun h => Nat.not_lt_zero x h.1).symm
  | n + 1, x => by
    rw [leftBelow_succ, leaveCpu_owner, leftBelow_owner n n, leftBelow_owner n x, if_neg not_gone_self]
    by_cases hn : x = n ∧ (d.nodeInfo n).owner = q
    · rw [if_pos hn, if_pos (gone_succ.mpr (.inr hn))]
    · rw [if_neg hn]
      have hiff : Gone q d (n + 1) x ↔ Gone q d n x := gone_succ.trans (or_iff_left hn)
      simp only [hiff]

theorem shmemDeregister_owner (ht : InTable S d) (hq0 : q ≠ 0) (x : ℕ) :
    ((shmemDeregister S co d q).1.nodeInfo x).owner ≠ q := by
  have hsame : ((removeRequests S d q).nodeInfo x).owner = (d.nodeInfo x).owner := (removeRequests_only.same x).owner
  show ((leftBelow S co q (removeRequests S d q) S.size).nodeInfo x).owner ≠ q
  rw [leftBelow_owner]
  split
  · exact hq0.symm
  · rename_i hno
    intro ho
    exact hno ⟨ht.lt_of_owner (by rw [← hsame, ho]; exact hq0), ho⟩

/-- An owner stays, or it is the process of the operation, or nobody. -/
def Owned (q : Pid) (d d1 : Shdata) : Prop :=
  ∀ x, (d1.nodeInfo x).owner = (d.nodeInfo x).owner ∨ (d1.nodeInfo x).owner = q ∨ (d1.nodeInfo x).owner = 0

theorem Respects.owned (h : Respects q d d1) : Owned q d d1 := fun x => (h.cpu x).owner

theorem Owned.trans {d2 : Shdata} (h1 : Owned q d d1) (h2 : Owned q d1 d2) : Owned q d d2 := by
  intro x
  rcases h2 x with h | h | h
  · rw [h]
    exact h1 x
  · exact .inr (.inl h)
  · exact .inr (.inr h)

theorem Owned.ne (h : Owned q d d1) (hpq : p ≠ q) (hp0 : p ≠ 0) (ho : (d.nodeInfo x).owner ≠ p) :
    (d1.nodeInfo x).owner ≠ p := by
  rcases h x with h | h | h
  · rwa [h]
  · rw [h]
    exact hpq.symm
  · rw [h]
    exact hp0.symm

theorem registerProcess_owned (preinitPid : Pid) (mask : CpuSet) (steal : Bool) :
    Owned q d (registerProcess S d q preinitPid mask steal).1 := by
  unfold registerProcess
  split
  · exact fun _ => .inl rfl
  split
  · exact fun _ => .inl rfl
  · refine foldlRecOn (motive := Owned q d) _ _ (fun _ => .inl rfl) fun r hr c _ => hr.trans fun x => ?_
    rw [registerCpu_info]
    by_cases hx : x = c
    · rw [hx, update_self]
      exact .inr (.inl rfl)
    · rw [update_of_ne hx]
      exact .inl rfl

theorem initShmem_owned : Owned q d (initShmem S co d) := by
  unfold initShmem
  split
  · exact fun _ => .inl rfl
  · refine fun x => .inr (.inr ?_)
    dsimp only
    split
    · rfl
    · rfl

theorem init_owned (preinitPid : Pid) (mask : CpuSet) : Owned q d (init S co d q preinitPid mask).1 := by
  have hreg : Owned q d (registerProcess S (initShmem S co d) q preinitPid mask false).1 :=
    initShmem_owned.trans (registerProcess_owned preinitPid mask false)
  unfold init
  dsimp only
  split
  · exact hreg.trans (finalize_respects co).owned
  · exact hreg

/-! ## One operation -/

/-- The memory is initialized, or the operation initializes it. -/
def Op.HasMemory (d : Shdata) : Op → Prop
  | .init _ _ => True
  | _ => d.initialized = true

theorem exec_owned {op : Op} (hm : op.HasMemory d) (co : Caller) : Owned q d (op.exec S co q d).1 := by
  cases op with
  | init _ _ =>
    have hstart : Owned q d { d with tasks := [] } := fun _ => .inl rfl
    exact hstart.trans (init_owned _ _)
  | lewiInit _ | lewi _ | removeRequests | checkCpuAvailability _ _ | updateOwnership _ _ | deregister | finalize =>
    have hzeroed : d.Zeroed := fun hno => absurd hm (by simp [Op.HasMemory, hno])
    exact Respects.owned (exec_respects hzeroed co trivial)

theorem initShmem_initialized : (initShmem S co d).initialized = true := by
  unfold initShmem
  split
  · assumption
  · rfl

theorem initShmem_quiet (hq : Quiet d) : Quiet (initShmem S co d) := by
  unfold initShmem
  split
  · exact hq
  · refine .inr ⟨rfl, fun x p => ?_, fun it => not_mem_nil⟩
    dsimp only
    split
    · exact not_mem_nil
    · exact not_mem_nil

theorem exec_quiet {op : Op} (hm : op.HasMemory d) (hq : Quiet d) (co : Caller) :
    (op.exec S co q d).1.initialized = true ∧ Quiet (op.exec S co q d).1 := by
  have hstart : ∀ hi : d.initialized = true, (op.exec S co q d).1.initialized = true ∧ Quiet (op.exec S co q d).1 := by
    intro hi
    rcases exec_asks (S := S) (q := q) hi co op with hasks | ⟨-, heq⟩
    · exact ⟨hasks.flags.initialized.trans hi, hasks.quiet hq⟩
    · rw [heq]
      exact ⟨hi, .inl rfl⟩
  cases op with
  | init preinitPid mask =>
    have hq₀ : Quiet { d with tasks := [] } := hq.imp id fun hs => ⟨hs.queues, hs.own, hs.global⟩
    have hasks : Asks q (initShmem S co { d with tasks := [] }) (init S co { d with tasks := [] } q preinitPid mask).1 :=
      init_asks preinitPid mask
    exact ⟨hasks.flags.initialized.trans initShmem_initialized, hasks.quiet (initShmem_quiet hq₀)⟩
  | lewiInit _ | lewi _ | removeRequests | checkCpuAvailability _ _ | updateOwnership _ _ | deregister | finalize =>
    exact hstart hm

theorem exec_queues (hi : d.initialized = true) (hq : d.queuesEnabled = true) (co : Caller) (op : Op) :
    (op.exec S co q d).1.queuesEnabled = true := by
  rcases exec_asks (S := S) (q := q) hi co op with hasks | ⟨-, heq⟩
  · exact hasks.flags.queues.trans hq
  · rw [heq]
    rfl

/-! ## Runs -/

/-- What happens in a node: an event, a registration or a removal by an external tool, or the cleanup after the death of
a process. -/
inductive Deed where
  | event (e : Event)
  | preinit (c : Caller) (pid : Pid) (mask : CpuSet) (steal : Bool)
  | postfinalize (c : Caller) (pid : Pid)
  | cleanup (c : Caller) (pid : Pid)

/-- A node, and the processes that have left it. -/
structure MortalNode where
  node : AsyncNode := {}
  departed : Finset Pid := ∅

/-- A process that finalizes after it has deregistered leaves. -/
def Op.departs : Op → Phase → Bool
  | .finalize, .left _ => true
  | _, _ => false

/-- The processes that have left after an event; one that is there is not among them. -/
def AsyncNode.departing (S : System) (n : AsyncNode) (departed : Finset Pid) : Event → Finset Pid
  | .op co q op =>
    if op.allowed (n.phase q) then
      if op.departs (n.phase q) then insert q departed
      else if op.phase (op.exec S co q n.shm).2 (n.phase q) = .out then departed
      else departed.erase q
    else departed
  | .resolve _ => departed

namespace MortalNode

/-- The node after a deed. A process is registered before it starts, and one that is not there does not die. -/
def next (S : System) (m : MortalNode) : Deed → MortalNode
  | .event e => { node := m.node.next S e, departed := m.node.departing S m.departed e }
  | .preinit c pid mask steal =>
    if m.node.phase pid = .out then
      { node := { m.node with shm := (extPreinit S c { m.node.shm with tasks := [] } pid mask steal).1 }
        departed := m.departed.erase pid }
    else m
  | .postfinalize c pid =>
    { m with node := { m.node with shm := (extPostfinalize S c { m.node.shm with tasks := [] } pid).1 } }
  | .cleanup c pid =>
    if m.node.phase pid = .out then m
    else
      { node := { m.node with
          shm := cleanupShmem S c { m.node.shm with tasks := [] } pid
          phase := update m.node.phase pid .out }
        departed := insert pid m.departed }

end MortalNode

/-- A process does the deed, or is the one it is about; CPUs are of the node. -/
def Deed.Valid (S : System) : Deed → Prop
  | .event (.op _ pid op) => pid ≠ 0 ∧ (Act.own op).InNode S
  | .event (.resolve _) => True
  | .preinit _ pid _ _ | .postfinalize _ pid | .cleanup _ pid => pid ≠ 0

namespace AsyncNode

variable {m : AsyncNode} {op : Op}

/-- Nobody is there before the memory is initialized, nobody waits for a return before the queues are enabled, and a
process that has deregistered owns nothing. -/
structure Sound (S : System) (m : AsyncNode) : Prop where
  table : InTable S m.shm
  quiet : Quiet m.shm
  fresh : m.shm.initialized = false → m.pending = [] ∧ ∀ p, m.phase p = .out
  off : m.shm.queuesEnabled = false → m.pending = [] ∧ ∀ p, (m.phase p).async = false
  left : ∀ p, p ≠ 0 → ∀ async, m.phase p = .left async → ∀ x, (m.shm.nodeInfo x).owner ≠ p

theorem sound_start : Sound S {} :=
  ⟨inTable_zero, .inr ⟨rfl, fun _ _ => not_mem_nil, fun _ => not_mem_nil⟩, fun _ => ⟨rfl, fun _ => rfl⟩,
    fun _ => ⟨rfl, fun _ => rfl⟩, fun _ _ _ h => nomatch h⟩

theorem Sound.hasMemory (h : m.Sound S) (hallowed : op.allowed (m.phase q) = true) : op.HasMemory m.shm := by
  cases hi : m.shm.initialized with
  | true => cases op <;> trivial
  | false =>
    rw [(h.fresh hi).2 q] at hallowed
    cases op with
    | init _ _ => trivial
    | lewiInit _ | lewi _ | removeRequests | checkCpuAvailability _ _ | updateOwnership _ _ | deregister | finalize =>
      cases hallowed

theorem phase_async {failed : Bool} {phase : Phase} (h : (op.phase failed phase).async = true) :
    phase.async = true ∨ op = .lewiInit true := by
  cases op with
  | init _ _ => cases failed <;> cases h
  | lewiInit async => exact .inr (congrArg _ h)
  | finalize => cases h
  | lewi _ | removeRequests | checkCpuAvailability _ _ | updateOwnership _ _ | deregister => exact .inl h

theorem phase_left {failed async : Bool} {phase : Phase} (hallowed : op.allowed phase = true)
    (h : op.phase failed phase = .left async) : op = .deregister := by
  cases op with
  | init _ _ => cases failed <;> cases h
  | lewiInit _ | finalize => cases h
  | deregister => rfl
  | lewi _ | removeRequests | checkCpuAvailability _ _ | updateOwnership _ _ =>
    obtain rfl : phase = .left async := h
    cases hallowed

theorem Sound.perform (h : m.Sound S) (hq0 : q ≠ 0) (hnode : (Act.own op).InNode S)
    (hallowed : op.allowed (m.phase q) = true) (co : Caller) : (m.perform S co q op).Sound S := by
  have hm : op.HasMemory m.shm := h.hasMemory hallowed
  obtain ⟨hinit, hquiet⟩ := exec_quiet (S := S) (q := q) hm h.quiet co
  refine ⟨exec_inTable h.table hq0 co hnode, hquiet, fun hno => ?_, fun hoff => ?_, fun p hp0 async hphase x => ?_⟩
  · rw [show (m.perform S co q op).shm.initialized = true from hinit] at hno
    cases hno
  · -- an operation never disables the queues
    have hpast : m.pending = [] ∧ ∀ p, (m.phase p).async = false := by
      by_cases hi : m.shm.initialized = true
      · refine h.off ?_
        by_contra hon
        have hon' := exec_queues (S := S) (q := q) hi (by simpa using hon) co op
        rw [show (op.exec S co q m.shm).1.queuesEnabled = false from hoff] at hon'
        cases hon'
      · obtain ⟨hpending, hout⟩ := h.fresh (by simpa using hi)
        exact ⟨hpending, fun p => by rw [hout p]; rfl⟩
    refine ⟨?_, fun p => ?_⟩
    · show m.pending ++ _ = []
      rw [hpast.1, hpast.2 q]
      rfl
    · by_contra hasync
      have hasync : ((m.perform S co q op).phase p).async = true := by simpa using hasync
      by_cases hpq : p = q
      · subst hpq
        unfold AsyncNode.perform at hasync
        dsimp only at hasync
        rw [update_self] at hasync
        rcases phase_async hasync with hasync | rfl
        · rw [hpast.2 p] at hasync
          cases hasync
        · cases hoff
      · unfold AsyncNode.perform at hasync
        dsimp only at hasync
        rw [update_of_ne hpq, hpast.2 p] at hasync
        cases hasync
  · unfold AsyncNode.perform at hphase
    dsimp only at hphase
    by_cases hpq : p = q
    · subst hpq
      rw [update_self] at hphase
      obtain rfl := phase_left hallowed hphase
      have htable : InTable S { m.shm with tasks := [] } := h.table
      exact shmemDeregister_owner htable hp0 x
    · rw [update_of_ne hpq] at hphase
      exact (exec_owned hm co).ne hpq hp0 (h.left p hp0 async hphase x)

theorem Sound.resolve (h : m.Sound S) (i : ℕ) : (m.next S (.resolve i)).Sound S := by
  unfold AsyncNode.next
  dsimp only
  cases hgroup : m.pending[i]? with
  | none => exact h
  | some group =>
    have hne : m.pending ≠ [] := fun hnil => by simp [hnil] at hgroup
    have hflags : SameFlags m.shm (returnAsyncCpuMask S group.1 m.shm group.2) := returnAsyncs_flags _ _ _
    have hon : m.shm.queuesEnabled = true := by
      by_contra hoff
      exact hne (h.off (by simpa using hoff)).1
    have hi : m.shm.initialized = true := by
      by_contra hno
      exact hne (h.fresh (by simpa using hno)).1
    have hinfo : ∀ x, (returnAsyncCpuMask S group.1 m.shm group.2).nodeInfo x =
        if x ∈ nodeCpus S group.2 then (returned (m.shm.nodeInfo x)).ask group.1 else m.shm.nodeInfo x :=
      fun x => returnAsyncs_info group.1 x _ m.shm (nodeCpus_nodup group.2)
    refine ⟨fun x hx => ?_, .inl (hflags.queues.trans hon), fun hno => ?_, fun hoff => ?_, fun p hp0 async hphase x => ?_⟩
    · dsimp only
      rw [hinfo, if_neg fun hmem => absurd (mem_nodeCpus.mp hmem).1 (by omega)]
      exact h.table x hx
    · rw [show (returnAsyncCpuMask S group.1 m.shm group.2).initialized = true from hflags.initialized.trans hi] at hno
      cases hno
    · rw [show (returnAsyncCpuMask S group.1 m.shm group.2).queuesEnabled = true from hflags.queues.trans hon] at hoff
      cases hoff
    · dsimp only
      rw [hinfo]
      split
      · exact h.left p hp0 async hphase x
      · exact h.left p hp0 async hphase x

theorem Sound.memory (h : m.Sound S) (ht : InTable S d1) (hq : Quiet d1)
    (hflags : SameFlags m.shm d1 ∨ (m.shm.initialized = false ∧ d1.initialized = true))
    (hleft : ∀ p, p ≠ 0 → ∀ async, m.phase p = .left async → ∀ x, (d1.nodeInfo x).owner ≠ p) :
    ({ m with shm := d1 } : AsyncNode).Sound S := by
  refine ⟨ht, hq, fun hno => ?_, fun hoff => ?_, hleft⟩
  · rcases hflags with hflags | ⟨-, hi⟩
    · exact h.fresh (hflags.initialized.symm.trans hno)
    · exact absurd hi (by simp [show d1.initialized = false from hno])
  · rcases hflags with hflags | ⟨hno, -⟩
    · exact h.off (hflags.queues.symm.trans hoff)
    · obtain ⟨hpending, hout⟩ := h.fresh hno
      exact ⟨hpending, fun p => by rw [show m.phase p = .out from hout p]; rfl⟩

theorem Sound.out (h : m.Sound S) (q : Pid) : ({ m with phase := update m.phase q .out } : AsyncNode).Sound S := by
  have hphase : ∀ p, update m.phase q .out p = .out ∨ update m.phase q .out p = m.phase p := by
    intro p
    by_cases hp : p = q
    · rw [hp, update_self]
      exact .inl rfl
    · rw [update_of_ne hp]
      exact .inr rfl
  refine ⟨h.table, h.quiet, fun hno => ⟨(h.fresh hno).1, fun p => ?_⟩, fun hoff => ⟨(h.off hoff).1, fun p => ?_⟩,
    fun p hp0 async hleft => ?_⟩
  · exact (hphase p).elim id fun hsame => hsame.trans ((h.fresh hno).2 p)
  · dsimp only
    rcases hphase p with hout | hsame
    · rw [hout]
      rfl
    · rw [hsame]
      exact (h.off hoff).2 p
  · dsimp only at hleft
    rcases hphase p with hout | hsame
    · rw [hout] at hleft
      cases hleft
    · exact h.left p hp0 async (hsame.symm.trans hleft)

theorem Sound.clear (h : m.Sound S) : ({ m with shm := { m.shm with tasks := [] } } : AsyncNode).Sound S :=
  h.memory h.table (h.quiet.imp id fun hs => ⟨hs.queues, hs.own, hs.global⟩) (.inl ⟨rfl, rfl, rfl⟩) h.left

theorem Sound.preinit (h : m.Sound S) (hout : m.phase q = .out) (co : Caller) (mask : CpuSet) (steal : Bool) :
    ({ m with shm := (extPreinit S co m.shm q mask steal).1 } : AsyncNode).Sound S := by
  have hasks : Asks q (initShmem S co m.shm) (extPreinit S co m.shm q mask steal).1 := registerProcess_asks 0 mask steal
  have howned : Owned q m.shm (extPreinit S co m.shm q mask steal).1 :=
    initShmem_owned.trans (registerProcess_owned 0 mask steal)
  refine h.memory (registerProcess_inTable 0 mask steal (initShmem_inTable co h.table))
    (hasks.quiet (initShmem_quiet h.quiet)) ?_ fun p hp0 async hleft x => ?_
  · by_cases hi : m.shm.initialized = true
    · rw [initShmem_of_initialized hi] at hasks
      exact .inl hasks.flags
    · exact .inr ⟨by simpa using hi, hasks.flags.initialized.trans initShmem_initialized⟩
  · refine howned.ne (fun hp => ?_) hp0 (h.left p hp0 async hleft x)
    rw [hp, hout] at hleft
    cases hleft

theorem Sound.postfinalize (h : m.Sound S) (co : Caller) :
    ({ m with shm := (extPostfinalize S co m.shm q).1 } : AsyncNode).Sound S := by
  have hasks : Asks q m.shm (extPostfinalize S co m.shm q).1 := finalize_asks
  have howned : Owned q m.shm (extPostfinalize S co m.shm q).1 := (finalize_respects co).owned
  refine h.memory ((deregisterProcess_inTable co h.table).congr rfl) (hasks.quiet h.quiet) (.inl hasks.flags)
    fun p hp0 async hleft x => ?_
  by_cases hpq : p = q
  · subst hpq
    exact (deregisterProcess_absent h.table h.quiet hp0 (h.left p hp0 async hleft)).owner x
  · exact howned.ne hpq hp0 (h.left p hp0 async hleft x)

theorem Sound.cleanup (h : m.Sound S) (co : Caller) :
    ({ m with shm := cleanupShmem S co m.shm q } : AsyncNode).Sound S := by
  have hasks : Asks q m.shm (cleanupShmem S co m.shm q) := Asks.foldl (fun _ _ => deregisterCpu_asks) _ _
  have howned : Owned q m.shm (cleanupShmem S co m.shm q) :=
    (Respects.foldl (fun _ _ => deregisterCpu_respects co) _ _).owned
  refine h.memory (foldl_inTable (fun _ _ h hc => deregisterCpu_inTable co h hc) (fun _ => mem_range.mp) h.table)
    (hasks.quiet h.quiet) (.inl hasks.flags) fun p hp0 async hleft x => ?_
  by_cases hpq : p = q
  · subst hpq
    exact cleanupShmem_owner h.table hp0 x
  · exact howned.ne hpq hp0 (h.left p hp0 async hleft x)

end AsyncNode

namespace MortalNode

variable {m : MortalNode} {e : Deed}

/-- The processes that have left are not there, and their return is awaited by nobody. -/
structure Sound (S : System) (m : MortalNode) : Prop where
  node : m.node.Sound S
  gone : ∀ p ∈ m.departed, p ≠ 0 ∧ m.node.phase p = .out

/-- The processes that have left own and guest no CPU, and are in no queue. -/
def Clean (S : System) (m : MortalNode) : Prop := ∀ p ∈ m.departed, Absent S p m.node.shm

/-- What is done without a trace of a process that has left: a cleanup finds no request of it, neither a global one nor
one in the queue of an own CPU that becomes public; a return on its behalf finds the queue of the CPU full. -/
def Purged (S : System) (m : MortalNode) : Deed → Prop
  | .cleanup co pid => m.node.phase pid ≠ .out → (∀ it ∈ m.node.shm.lewiMaskRequests.items, it.pid ≠ pid) ∧
      ∀ c < S.size, (m.node.shm.nodeInfo c).owner = pid → co.public → pid ∉ (m.node.shm.nodeInfo c).requests.items
  | .event (.resolve i) => ∀ group ∈ m.node.pending[i]?, group.1 ∈ m.departed →
      ∀ c ∈ nodeCpus S group.2, (m.node.shm.nodeInfo c).requests.hasSpace queuePidSize = false
  | _ => True

instance (e : Deed) : Decidable (m.Purged S e) := by
  unfold Purged
  split
  · infer_instance
  · infer_instance
  · infer_instance

theorem mem_departing {op : Op} (hallowed : op.allowed (m.node.phase q) = true)
    (hp : p ∈ m.node.departing S m.departed (.op co q op)) :
    p ∈ m.departed ∧ (p = q → op.phase (op.exec S co q m.node.shm).2 (m.node.phase q) = .out) ∨
      p = q ∧ op.departs (m.node.phase q) = true := by
  unfold AsyncNode.departing at hp
  dsimp only at hp
  rw [if_pos hallowed] at hp
  split at hp
  · rename_i hdeparts
    by_cases hpq : p = q
    · exact .inr ⟨hpq, hdeparts⟩
    · exact .inl ⟨(Finset.mem_insert.mp hp).resolve_left hpq, fun h => absurd h hpq⟩
  split at hp
  · rename_i hout
    exact .inl ⟨hp, fun _ => hout⟩
  · obtain ⟨hpq, hp⟩ := Finset.mem_erase.mp hp
    exact .inl ⟨hp, fun h => absurd h hpq⟩

theorem departs_iff {op : Op} {phase : Phase} : op.departs phase = true ↔ op = .finalize ∧ ∃ async, phase = .left async := by
  unfold Op.departs
  split
  · simp
  · rename_i hno
    refine iff_of_false Bool.false_ne_true ?_
    rintro ⟨rfl, async, rfl⟩
    exact hno async rfl rfl

theorem Sound.next (h : m.Sound S) (he : e.Valid S) : (m.next S e).Sound S := by
  cases e with
  | event e =>
    cases e with
    | resolve i =>
      refine ⟨h.node.resolve i, fun p hp => ⟨(h.gone p hp).1, ?_⟩⟩
      have hphase : (m.node.next S (.resolve i)).phase = m.node.phase := by
        unfold AsyncNode.next
        dsimp only
        split
        · rfl
        · rfl
      show (m.node.next S (.resolve i)).phase p = .out
      rw [hphase]
      exact (h.gone p hp).2
    | op co q op =>
      obtain ⟨hq0, hnode⟩ := he
      by_cases hallowed : op.allowed (m.node.phase q) = true
      · have hperform : m.node.next S (.op co q op) = m.node.perform S co q op := if_pos hallowed
        refine ⟨?_, fun p hp => ?_⟩
        · show (m.node.next S (.op co q op)).Sound S
          rw [hperform]
          exact h.node.perform hq0 hnode hallowed co
        · show p ≠ 0 ∧ (m.node.next S (.op co q op)).phase p = .out
          rw [hperform]
          unfold AsyncNode.perform
          dsimp only
          rcases mem_departing hallowed hp with ⟨hp, hout⟩ | ⟨rfl, hdeparts⟩
          · refine ⟨(h.gone p hp).1, ?_⟩
            by_cases hpq : p = q
            · rw [hpq, update_self]
              exact hout hpq
            · rw [update_of_ne hpq]
              exact (h.gone p hp).2
          · obtain ⟨rfl, -⟩ := departs_iff.mp hdeparts
            rw [update_self]
            exact ⟨hq0, rfl⟩
      · have hsame : m.next S (.event (.op co q op)) = m := by
          unfold MortalNode.next AsyncNode.next AsyncNode.departing
          dsimp only
          rw [if_neg hallowed, if_neg hallowed]
        rw [hsame]
        exact h
  | preinit co q mask steal =>
    unfold MortalNode.next
    dsimp only
    split
    · rename_i hout
      refine ⟨h.node.clear.preinit hout co mask steal, fun p hp => h.gone p (Finset.mem_of_mem_erase hp)⟩
    · exact h
  | postfinalize co q => exact ⟨h.node.clear.postfinalize co, h.gone⟩
  | cleanup co q =>
    unfold MortalNode.next
    dsimp only
    split
    · exact h
    · refine ⟨(h.node.clear.cleanup co).out q, fun p hp => ?_⟩
      dsimp only
      by_cases hpq : p = q
      · rw [hpq, update_self]
        exact ⟨he, rfl⟩
      · rw [update_of_ne hpq]
        exact h.gone p ((Finset.mem_insert.mp hp).resolve_left hpq)

theorem clean_op (h : m.Sound S) (hclean : m.Clean S) {op : Op} (he : (Deed.event (.op co q op)).Valid S) :
    (m.next S (.event (.op co q op))).Clean S := by
  obtain ⟨hq0, hnode⟩ := he
  by_cases hallowed : op.allowed (m.node.phase q) = true
  swap
  · intro p hp
    have hsame : m.next S (.event (.op co q op)) = m := by
      unfold MortalNode.next AsyncNode.next AsyncNode.departing
      dsimp only
      rw [if_neg hallowed, if_neg hallowed]
    rw [hsame] at hp ⊢
    exact hclean p hp
  intro p hp
  have hperform : (m.node.next S (.op co q op)).shm = (op.exec S co q m.node.shm).1 := by
    unfold AsyncNode.next
    dsimp only
    rw [if_pos hallowed]
    rfl
  show Absent S p (m.node.next S (.op co q op)).shm
  rw [hperform]
  have htable : InTable S { m.node.shm with tasks := [] } := h.node.clear.table
  rcases mem_departing hallowed hp with ⟨hp, hout⟩ | ⟨rfl, hdeparts⟩
  · obtain ⟨hp0, hphase⟩ := h.gone p hp
    have htraceless : Traceless S p { m.node.shm with tasks := [] } := (hclean p hp).traceless h.node.table
    by_cases hpq : p = q
    · subst hpq
      have hout := hout rfl
      rw [hphase] at hallowed hout
      cases op with
      | init preinitPid mask =>
        exact (init_failed_traceless htraceless hp0 (AsyncNode.init_failed hout)).absent
      | lewiInit _ | lewi _ | removeRequests | checkCpuAvailability _ _ | updateOwnership _ _ | deregister | finalize =>
        cases hallowed
    · exact (exec_traceless hpq hp0 hq0 htraceless co hnode).absent
  · obtain ⟨rfl, async, hleft⟩ := departs_iff.mp hdeparts
    have habsent : Absent S p (deregisterProcess S co { m.node.shm with tasks := [] } p) :=
      deregisterProcess_absent htable h.node.clear.quiet hq0 (h.node.left p hq0 async hleft)
    exact ⟨habsent.owner, habsent.guest, habsent.requests, habsent.global⟩

theorem clean_resolve_iff (h : m.Sound S) (hclean : m.Clean S) (i : ℕ) :
    (m.next S (.event (.resolve i))).Clean S ↔ m.Purged S (.event (.resolve i)) := by
  have hshm : ∀ group, m.node.pending[i]? = some group →
      (m.node.next S (.resolve i)).shm = returnAsyncCpuMask S group.1 m.node.shm group.2 := fun group hgroup => by
    unfold AsyncNode.next
    dsimp only
    rw [hgroup]
  constructor
  · intro hafter group hgroup hgone
    have habsent : Absent S group.1 (m.node.next S (.resolve i)).shm := hafter group.1 hgone
    rw [hshm group hgroup] at habsent
    exact (returnAsyncs_absent_iff (hclean group.1 hgone) (h.gone group.1 hgone).1 group.2).mp habsent rfl
  · intro hpurged p hp
    have hp : p ∈ m.departed := hp
    show Absent S p (m.node.next S (.resolve i)).shm
    cases hgroup : m.node.pending[i]? with
    | none =>
      unfold AsyncNode.next
      dsimp only
      rw [hgroup]
      exact hclean p hp
    | some group =>
      rw [hshm group hgroup]
      refine (returnAsyncs_absent_iff (hclean p hp) (h.gone p hp).1 group.2).mpr fun hpg => ?_
      exact hpurged group hgroup (hpg ▸ hp)

theorem clean_iff (h : m.Sound S) (hclean : m.Clean S) (he : e.Valid S) : (m.next S e).Clean S ↔ m.Purged S e := by
  have htraceless : ∀ p ∈ m.departed, Traceless S p { m.node.shm with tasks := [] } := fun p hp =>
    (hclean p hp).traceless h.node.table
  cases e with
  | event e =>
    cases e with
    | op co q op => exact iff_of_true (clean_op h hclean he) trivial
    | resolve i => exact clean_resolve_iff h hclean i
  | preinit co q mask steal =>
    refine iff_of_true (fun p hp => ?_) trivial
    unfold MortalNode.next at hp ⊢
    dsimp only at hp ⊢
    split at hp
    · rename_i hout
      obtain ⟨hpq, hp⟩ := Finset.mem_erase.mp hp
      rw [if_pos hout]
      exact (registerProcess_traceless hpq (initShmem_traceless (h.gone p hp).1 (htraceless p hp) co) 0 mask steal).absent
    · rename_i hout
      rw [if_neg hout]
      exact hclean p hp
  | postfinalize co q =>
    refine iff_of_true (fun p hp => ?_) trivial
    exact (finalize_traceless (h.gone p hp).1 (htraceless p hp) co).absent
  | cleanup co q =>
    have habsent_iff : Absent S q (cleanupShmem S co { m.node.shm with tasks := [] } q) ↔ _ :=
      cleanupShmem_absent_iff h.node.clear.table h.node.clear.quiet he
    unfold Purged MortalNode.next
    dsimp only
    split
    · rename_i hout
      exact iff_of_true hclean fun hno => absurd hout hno
    · rename_i hin
      refine Iff.trans ?_ (habsent_iff.trans (imp_iff_right hin).symm)
      refine ⟨fun hafter => hafter q (Finset.mem_insert_self q _), fun habsent p hp => ?_⟩
      by_cases hpq : p = q
      · rw [hpq]
        exact habsent
      · have hp := (Finset.mem_insert.mp hp).resolve_left hpq
        refine Traceless.absent (foldlRecOn _ _ (htraceless p hp) fun d hd c hc => ?_)
        exact deregisterCpu_traceless (h.gone p hp).1 hd co (mem_range.mp hc)

end MortalNode

/-- **A process that has left** leaves no trace: along every run of processes that may die, those that have left own and
guest no CPU and are in no queue, if and only if every cleanup finds no request of the dead process that it does not
remove, and no return is made on behalf of a process that has left but for CPUs whose queue is full. -/
theorem departed_absent_iff (S : System) (deeds : List Deed) (hdeeds : ∀ e ∈ deeds, e.Valid S) :
    Lib.Along (MortalNode.next S) (fun m e => (m.next S e).Clean S) {} deeds ↔
      Lib.Along (MortalNode.next S) (MortalNode.Purged S) {} deeds :=
  Lib.Along.congr (R := Deed.Valid S) (I := fun m : MortalNode => m.Sound S ∧ m.Clean S)
    (fun _ _ hm he hpurged => ⟨hm.1.next he, (MortalNode.clean_iff hm.1 hm.2 he).mpr hpurged⟩)
    (fun _ _ hm he => MortalNode.clean_iff hm.1 hm.2 he) {} deeds
    ⟨⟨AsyncNode.sound_start, fun p hp => absurd hp (Finset.notMem_empty p)⟩,
      fun p hp => absurd hp (Finset.notMem_empty p)⟩ hdeeds

/-- `1` deregisters and finalizes. -/
def leaveOnce : List Deed := [.event (.op {} 1 (.init 0 {0})), .event (.op {} 1 (.lewiInit true)),
  .event (.op {} 1 .deregister), .event (.op {} 1 .finalize)]

theorem departed_absent_iff_leaveOnce :
    Lib.Along (MortalNode.next twoCores) (fun m e => (m.next twoCores e).Clean twoCores) {} leaveOnce := by
  refine (departed_absent_iff twoCores leaveOnce ?_).mpr ?_
  · simp [leaveOnce, Deed.Valid, Act.InNode]
  · exact ⟨trivial, trivial, trivial, trivial, trivial⟩

/-- `2` asks for the CPU of `1` by number, and dies. -/
def dieWaiting : List Deed :=
  [.event (.op {} 1 (.init 0 {0})), .event (.op {} 2 (.init 0 ∅)), .event (.op {} 1 (.lewiInit true)),
    .event (.op {} 2 (.lewiInit true)),
    .event (.op {} 2 (.lewi (.acquireNcpusFromCpuSubset { requestedNcpus := some 1, cpusPriorityArray := [0] }
      ({} : Shdata).unlocked))),
    .cleanup {} 2]

/-- When `1` lends its CPU, the dead process becomes the guest. -/
theorem dead_process_guest :
    let lend : Deed := .event (.op {} 1 (.lewi (.lendCpu 0)))
    let m := (dieWaiting ++ [lend]).foldl (MortalNode.next twoCores) {}
    (∀ e ∈ dieWaiting ++ [lend], e.Valid twoCores) ∧ 2 ∈ m.departed ∧ (m.node.shm.nodeInfo 0).guest = 2 ∧
      ¬Lib.Along (MortalNode.next twoCores) (fun m e => (m.next twoCores e).Clean twoCores) {} (dieWaiting ++ [lend]) := by
  intro lend m
  have hgone : 2 ∈ m.departed := by decide
  have hguest : (m.node.shm.nodeInfo 0).guest = 2 := by decide
  refine ⟨by simp [dieWaiting, lend, Deed.Valid, Act.InNode], hgone, hguest, fun hrun => ?_⟩
  rw [Lib.Along.append] at hrun
  have hlast : m = (dieWaiting.foldl (MortalNode.next twoCores) {}).next twoCores lend := by
    show (dieWaiting ++ [lend]).foldl (MortalNode.next twoCores) {} = _
    rfl
  have hclean : m.Clean twoCores := hlast ▸ hrun.2.1
  exact (hclean 2 hgone).guest 0 hguest

end Dlb.Cpuinfo

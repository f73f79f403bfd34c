import Dlb.Cpuinfo.Requests

/-!
# Processes without traces

A process that has not initialized, or that has left, is nowhere in the shared memory: it owns and guests nothing, no
queue has a request of it and no task is for it. The operations of the other processes keep this (`exec_traceless`), and
so do their deferred returns (`returnAsync_traceless`).
-/

namespace Dlb.Cpuinfo

open List

variable {S : System} {p q : Pid} {d d1 : Shdata} {c x : ℕ} {i : CpuInfo}

/-- Nothing in the shared memory names the process. -/
structure Traceless (S : System) (p : Pid) (d : Shdata) : Prop where
  table : InTable S d
  owner : ∀ x, (d.nodeInfo x).owner ≠ p
  guest : ∀ x, (d.nodeInfo x).guest ≠ p
  requests : ∀ x < S.size, p ∉ (d.nodeInfo x).requests.items
  global : ∀ it ∈ d.lewiMaskRequests.items, it.pid ≠ p
  tasks : ∀ t ∈ d.tasks, t.pid ≠ p

/-! ## Changes -/

structure NoTrace (p : Pid) (d d1 : Shdata) : Prop where
  requests : ∀ x, p ∈ (d1.nodeInfo x).requests.items → p ∈ (d.nodeInfo x).requests.items
  global : ∀ it ∈ d1.lewiMaskRequests.items, it.pid = p → ∃ it' ∈ d.lewiMaskRequests.items, it'.pid = p
  tasks : ∀ t ∈ d1.tasks, t.pid = p → t ∈ d.tasks

theorem FewerRequests.noTrace (h : FewerRequests d d1) (ht : ∀ t ∈ d1.tasks, t.pid = p → t ∈ d.tasks) :
    NoTrace p d d1 := by
  refine ⟨fun x => h.own x p, fun it hit hp => ?_, ht⟩
  obtain ⟨it', hit', hpid, -⟩ := h.global it hit
  exact ⟨it', hit', hpid ▸ hp⟩

theorem Traceless.step (h : Traceless S p d) (htable : InTable S d1) (howner : ∀ x, (d1.nodeInfo x).owner ≠ p)
    (hguest : ∀ x, (d1.nodeInfo x).guest ≠ p) (hno : NoTrace p d d1) : Traceless S p d1 := by
  refine ⟨htable, howner, hguest, fun x hx hp => h.requests x hx (hno.requests x hp), fun it hit hp => ?_, fun t ht hp => ?_⟩
  · obtain ⟨it', hit', hp'⟩ := hno.global it hit hp
    exact h.global it' hit' hp'
  · exact h.tasks t (hno.tasks t ht hp) hp

theorem Traceless.only (h : Traceless S p d) (hsame : ∀ x, (d.nodeInfo x).Same (d1.nodeInfo x)) (hno : NoTrace p d d1) :
    Traceless S p d1 := by
  refine h.step (fun x hx => ?_) (fun x => ?_) (fun x => ?_) hno
  · rw [(hsame x).owner, (hsame x).guest, (hsame x).state]
    exact h.table x hx
  · rw [(hsame x).owner]
    exact h.owner x
  · rw [(hsame x).guest]
    exact h.guest x

theorem Traceless.write (h : Traceless S p d) (hinfo : d1.nodeInfo = Function.update d.nodeInfo c i)
    (hglobal : d1.lewiMaskRequests = d.lewiMaskRequests) (htasks : ∀ t ∈ d1.tasks, t.pid = p → t ∈ d.tasks)
    (htable : InTable S d1) (ho : i.owner ≠ p) (hg : i.guest ≠ p)
    (hr : p ∈ i.requests.items → p ∈ (d.nodeInfo c).requests.items) : Traceless S p d1 := by
  refine h.step htable (fun x => ?_) (fun x => ?_) ⟨fun x => ?_, fun it hit hp => ⟨it, hglobal ▸ hit, hp⟩, htasks⟩
  · rw [hinfo]
    by_cases hx : x = c
    · rwa [hx, Function.update_self]
    · rw [Function.update_of_ne hx]
      exact h.owner x
  · rw [hinfo]
    by_cases hx : x = c
    · rwa [hx, Function.update_self]
    · rw [Function.update_of_ne hx]
      exact h.guest x
  · rw [hinfo]
    by_cases hx : x = c
    · rwa [hx, Function.update_self]
    · rw [Function.update_of_ne hx]
      exact id

theorem Traceless.congr (h : Traceless S p d) (hinfo : d1.nodeInfo = d.nodeInfo)
    (hglobal : d1.lewiMaskRequests = d.lewiMaskRequests) (htasks : d1.tasks = d.tasks) : Traceless S p d1 :=
  h.only (fun x => by rw [hinfo]; exact .refl _)
    ((FewerRequests.of_info hinfo hglobal).noTrace fun t ht _ => htasks ▸ ht)

theorem Traceless.push (h : Traceless S p d) (action : CpuinfoAction) {p' : Pid} (hp : p' ≠ p) (c : ℕ) :
    Traceless S p (d.push action p' c) := by
  refine h.only (fun _ => .refl _) ⟨fun _ => id, fun it hit hpid => ⟨it, hit, hpid⟩, fun t ht hpid => ?_⟩
  rcases mem_append.mp ht with hold | hnew
  · exact hold
  · rw [mem_singleton.mp hnew] at hpid
    exact absurd hpid hp

theorem Traceless.enqueue (h : Traceless S p d) (hpq : p ≠ q) {requests : Queue Pid}
    (hr : (d.nodeInfo c).requests.enqueue queuePidSize q = some requests) :
    Traceless S p (d.set c { d.nodeInfo c with requests := requests }) := by
  refine h.write rfl rfl (fun _ ht _ => ht) (h.table.setRequests _) (h.owner c) (h.guest c) fun hp => ?_
  exact ((Queue.enqueue_items hr).mp hp).resolve_right hpq

/-! ## Lend -/

section Lend

theorem findNewGuest_traceless (h : Traceless S p d) : Traceless S p (findNewGuest S d c).1 :=
  h.only findNewGuest_only.same (findNewGuest_fewer.noTrace fun _ ht _ => findNewGuest_tasks ▸ ht)

theorem findNewGuest_ne (h : Traceless S p d) (hp0 : p ≠ 0) (hc : c < S.size) : (findNewGuest S d c).2 ≠ p := by
  by_cases h0 : (findNewGuest S d c).2 = 0
  · rw [h0]
    exact hp0.symm
  · rcases findNewGuest_found h0 with ⟨-, howner⟩ | ⟨-, htaker⟩
    · rw [howner]
      exact h.owner c
    · intro heq
      rcases htaker.requested with hown | ⟨it, hit, -, hpid⟩
      · exact h.requests c hc (heq ▸ hown)
      · exact h.global it hit (hpid.trans heq)

theorem assignGuest_traceless (h : Traceless S p d) (hp0 : p ≠ 0) (hc : c < S.size) :
    Traceless S p (assignGuest S d c).1 := by
  have hfind : Traceless S p (findNewGuest S d c).1 := findNewGuest_traceless h
  have hne : (findNewGuest S d c).2 ≠ p := findNewGuest_ne h hp0 hc
  unfold assignGuest
  dsimp only
  split
  · exact hfind
  · refine Traceless.push ?_ .enableCpu hne c
    exact hfind.write rfl rfl (fun _ ht _ => ht) (hfind.table.write hc rfl) (hfind.owner c) hne id

theorem assignRest_traceless (h : Traceless S p d) (hp0 : p ≠ 0) {cpuid : ℕ} (hc : c < S.size) :
    Traceless S p (assignRest S cpuid d c) := by
  unfold assignRest
  split
  · dsimp only
    split
    · exact assignGuest_traceless h hp0 hc
    · exact (assignGuest_traceless h hp0 hc).congr rfl rfl rfl
  · exact h

theorem findGuests_traceless (h : Traceless S p d) (hp0 : p ≠ 0) (hc : c < S.size) :
    Traceless S p (findGuests S d c) := by
  unfold findGuests
  split
  · dsimp only
    split
    · exact assignGuest_traceless h hp0 hc
    · refine foldlRecOn _ _ (assignGuest_traceless h hp0 hc) fun d hd e he => assignRest_traceless hd hp0 ?_
      exact coreMask_lt_size (of_decide_eq_true (mem_filter.mp he).2)
  · exact h

theorem lendOwned_traceless (h : Traceless S p d) (hc : c < S.size) : Traceless S p (lendOwned d q c) := by
  have htable : InTable S (lendOwned d q c) := lendOwned_inTable h.table hc
  unfold lendOwned at htable ⊢
  dsimp only at htable ⊢
  split at htable
  · rename_i ho
    rw [if_pos ho]
    exact h.write rfl rfl (fun _ ht _ => ht) htable (h.owner c) (h.guest c) id
  rename_i ho
  rw [if_neg ho]
  split at htable
  · rename_i hq
    rw [if_pos hq]
    exact h.write rfl rfl (fun _ ht _ => ht) htable (h.owner c) (h.guest c) fun hp => (Queue.remove_items.mp hp).1
  · rename_i hq
    rwa [if_neg hq]

theorem leave_traceless (h : Traceless S p d) (hp0 : p ≠ 0) (hc : c < S.size) : Traceless S p (leave d q c) := by
  unfold leave
  dsimp only
  split
  · exact h.write rfl rfl (fun _ ht _ => ht) (h.table.write hc rfl) (h.owner c) hp0.symm id
  · exact h

theorem lendCpu_traceless (h : Traceless S p d) (hp0 : p ≠ 0) : Traceless S p (lendCpu S q d c) := by
  unfold lendCpu
  split
  · exact h
  · rename_i hs
    have hc := h.table.lt_of_state hs
    have hfind : Traceless S p (findGuests S (leave (lendOwned d q c) q c) c) :=
      findGuests_traceless (leave_traceless (lendOwned_traceless h hc) hp0 hc) hp0 hc
    dsimp only
    split
    · exact hfind.congr rfl rfl rfl
    · exact hfind.congr rfl rfl rfl

end Lend

/-! ## The other operations on one CPU -/

section Ops

theorem reclaimCpu_traceless (h : Traceless S p d) (hpq : p ≠ q) (hq0 : q ≠ 0) : Traceless S p (reclaimCpu q d c).1 := by
  unfold reclaimCpu
  dsimp only
  split
  · rename_i ho
    have hc := h.table.lt_of_owner (ho ▸ hq0)
    split
    · exact h.write rfl rfl (fun _ ht _ => ht) (h.table.write hc rfl) (h.owner c) (h.guest c) id
    split
    · refine Traceless.congr (d := (d.set c { d.nodeInfo c with state := .busy, guest := q }).push .enableCpu q c) ?_
        rfl rfl rfl
      refine Traceless.push ?_ .enableCpu hpq.symm c
      exact h.write rfl rfl (fun _ ht _ => ht) (h.table.write hc rfl) (h.owner c) hpq.symm id
    · have hbusy : Traceless S p (d.set c { d.nodeInfo c with state := .busy }) :=
        h.write rfl rfl (fun _ ht _ => ht) (h.table.write hc rfl) (h.owner c) (h.guest c) id
      exact (hbusy.push .disableCpu (hbusy.guest c) c).push .enableCpu hpq.symm c
  · exact h

theorem noteOccupied_traceless (h : Traceless S p d) : Traceless S p (noteOccupied S d c) := by
  unfold noteOccupied
  split
  · exact h.congr rfl rfl rfl
  · exact h

theorem noteOccupiedOwned_traceless (h : Traceless S p d) : Traceless S p (noteOccupiedOwned S d c) := by
  unfold noteOccupiedOwned
  split
  · exact noteOccupied_traceless h
  · exact h

theorem acquireCpu_traceless (h : Traceless S p d) (hpq : p ≠ q) (hq0 : q ≠ 0) : Traceless S p (acquireCpu S q d c).1 := by
  unfold acquireCpu
  dsimp only
  split
  · exact h
  split
  · rename_i ho
    have hc := h.table.lt_of_owner (ho ▸ hq0)
    split
    · refine Traceless.congr (d := (d.set c { d.nodeInfo c with state := .busy, guest := q }).push .enableCpu q c) ?_
        rfl rfl rfl
      refine Traceless.push ?_ .enableCpu hpq.symm c
      exact h.write rfl rfl (fun _ ht _ => ht) (h.table.write hc rfl) (h.owner c) hpq.symm id
    · have hbusy : Traceless S p (d.set c { d.nodeInfo c with state := .busy }) :=
        h.write rfl rfl (fun _ ht _ => ht) (h.table.write hc rfl) (h.owner c) (h.guest c) id
      exact noteOccupied_traceless ((hbusy.push .disableCpu (hbusy.guest c) c).push .enableCpu hpq.symm c)
  split
  · rename_i hav
    have hc := h.table.lt_of_state (x := c) (by rw [hav.2.1]; exact nofun)
    have htake : Traceless S p (d.set c { d.nodeInfo c with guest := q }) :=
      h.write rfl rfl (fun _ ht _ => ht) (h.table.write hc rfl) (h.owner c) hpq.symm id
    exact (noteOccupiedOwned_traceless (htake.push .enableCpu hpq.symm c)).congr rfl rfl rfl
  split
  · split
    · rename_i requests hr
      exact h.enqueue hpq hr
    · exact h
  split
  · exact h
  · exact h

theorem borrowCpu_traceless (h : Traceless S p d) (hpq : p ≠ q) : Traceless S p (borrowCpu S q d c).1 := by
  unfold borrowCpu
  dsimp only
  split
  · exact h
  · rename_i hs
    have hc := h.table.lt_of_state hs
    split
    · split
      · have htake : Traceless S p (d.set c { d.nodeInfo c with state := .busy, guest := q }) :=
          h.write rfl rfl (fun _ ht _ => ht) (h.table.write hc rfl) (h.owner c) hpq.symm id
        exact (htake.push .enableCpu hpq.symm c).congr rfl rfl rfl
      split
      · have htake : Traceless S p (d.set c { d.nodeInfo c with guest := q }) :=
          h.write rfl rfl (fun _ ht _ => ht) (h.table.write hc rfl) (h.owner c) hpq.symm id
        have hpush : Traceless S p (((d.set c { d.nodeInfo c with guest := q }).push .enableCpu q c).clrFree c) :=
          (htake.push .enableCpu hpq.symm c).congr rfl rfl rfl
        exact noteOccupiedOwned_traceless hpush
      · exact h
    · exact h

theorem returnCpu_traceless (h : Traceless S p d) (hpq : p ≠ q) (hp0 : p ≠ 0) (hq0 : q ≠ 0) :
    Traceless S p (returnCpu S q d c).1 := by
  have htable : InTable S (returnCpu S q d c).1 := returnCpu_inTable h.table hq0
  unfold returnCpu at htable ⊢
  dsimp only at htable ⊢
  split at htable
  · rename_i hno
    rwa [if_pos hno]
  rename_i hret
  rw [if_neg hret]
  refine Traceless.push ?_ .disableCpu hpq.symm c
  split at htable
  · rename_i hb
    rw [if_pos hb]
    exact h.write rfl rfl (fun _ ht _ => ht) htable (h.owner c) (h.owner c) id
  · rename_i hb
    rw [if_neg hb]
    exact h.write rfl rfl (fun _ ht _ => ht) htable (h.owner c) hp0.symm id

end Ops

/-! ## Calls -/

section Calls

theorem petition_noTrace {request : LewiMaskRequest} (hp : request.pid ≠ p) : NoTrace p d (petition d request).1 := by
  unfold petition
  split
  · rename_i items hitems
    refine ⟨fun _ => id, fun it hit hpid => ?_, fun _ ht _ => ht⟩
    obtain ⟨it', hit', hpid', -⟩ := raiseRequest_mem hitems it hit
    exact ⟨it', hit', hpid'.symm.trans hpid⟩
  split
  · rename_i queue hqueue
    refine ⟨fun _ => id, fun it hit hpid => ?_, fun _ ht _ => ht⟩
    rcases (Queue.enqueue_items hqueue).mp hit with hold | rfl
    · exact ⟨it, hold, hpid⟩
    · exact absurd hpid hp
  · exact ⟨fun _ => id, fun it hit hpid => ⟨it, hit, hpid⟩, fun _ ht _ => ht⟩

theorem petition_traceless (h : Traceless S p d) {request : LewiMaskRequest} (hp : request.pid ≠ p) :
    Traceless S p (petition d request).1 := by
  refine h.only (fun x => ?_) (petition_noTrace hp)
  unfold petition
  split
  · exact .refl _
  split
  · exact .refl _
  · exact .refl _

theorem petitionCpu_traceless (r : Shdata × DlbError) (h : Traceless S p r.1) (hpq : p ≠ q) :
    Traceless S p (petitionCpu q r c).1 := by
  unfold petitionCpu
  dsimp only
  split
  · split
    · split
      · rename_i requests hr
        exact h.enqueue hpq hr
      · exact h
    · exact h
  · exact h

theorem addPetitions_traceless (hpq : p ≠ q) (w : Wish) (r : Shdata × DlbError × ℤ) (h : Traceless S p r.1) :
    Traceless S p (addPetitions w q r).1 := by
  unfold addPetitions
  split
  · split
    · split
      · exact petition_traceless h hpq.symm
      · exact h
    · exact foldl_keeps (fun r _ hr => petitionCpu_traceless r hr hpq) _ _ h
  · exact h

theorem removeRequests_tasks : (removeRequests S d q).tasks = d.tasks := by
  unfold removeRequests
  split
  · rfl
  · rfl

theorem removeRequests_traceless (h : Traceless S p d) : Traceless S p (removeRequests S d q) :=
  h.only removeRequests_only.same (removeRequests_fewer.noTrace fun _ ht _ => removeRequests_tasks ▸ ht)

theorem traceless_kept (hpq : p ≠ q) (hp0 : p ≠ 0) (hq0 : q ≠ 0) : Kept S q (Traceless S p) where
  start _ h := h.only (fun _ => .refl _) ⟨fun _ => id, fun it hit hpid => ⟨it, hit, hpid⟩, nofun⟩
  timestamp _ _ h := h.congr rfl rfl rfl
  lend _ _ h := lendCpu_traceless h hp0
  reclaim _ _ h := reclaimCpu_traceless h hpq hq0
  acquire _ _ h := acquireCpu_traceless h hpq hq0
  borrow _ _ h := borrowCpu_traceless h hpq
  giveBack _ _ h := returnCpu_traceless h hpq hp0 hq0
  disable _ c h := h.push .disableCpu hpq.symm c
  petitions := addPetitions_traceless hpq
  remove _ h := removeRequests_traceless h

theorem call_traceless (hpq : p ≠ q) (hp0 : p ≠ 0) (hq0 : q ≠ 0) (h : Traceless S p d) (co : Caller) (call : Call) :
    Traceless S p (exec S co q d call) := by
  have hkept : Kept S q (Traceless S p) := traceless_kept hpq hp0 hq0
  refine exec_keeps hkept h co call fun cpuid _ => ?_
  refine shmemReclaimCpu_keeps hkept.reclaim (fun d' cpuid c h => ?_) (hkept.start d h) cpuid
  unfold disableRest
  split
  · exact h.push .disableCpu (h.guest c) c
  · exact h

end Calls

/-! ## The other operations -/

section Others

variable (hpq : p ≠ q) (hp0 : p ≠ 0)

include hpq hp0

theorem leaveCpu_traceless (hq0 : q ≠ 0) (h : Traceless S p d) (co : Caller) (hc : c < S.size) :
    Traceless S p (leaveCpu S co q d c) := by
  unfold leaveCpu
  split
  · unfold leaveOwned
    split
    · have hlend : Traceless S p (lendCpu S q d c) := lendCpu_traceless h hp0
      exact hlend.write rfl rfl (fun _ ht _ => ht) (hlend.table.write hc rfl) hp0.symm (hlend.guest c) id
    · have hrec : Traceless S p (reclaimCpu q d c).1 := reclaimCpu_traceless h hpq hq0
      generalize (reclaimCpu q d c).1 = d1 at hrec ⊢
      have hg : (if (d1.nodeInfo c).guest = q then 0 else (d1.nodeInfo c).guest) ≠ p := by
        split
        · exact hp0.symm
        · exact hrec.guest c
      have hleave : Traceless S p ((d1.set c { d1.nodeInfo c with
          guest := if (d1.nodeInfo c).guest = q then 0 else (d1.nodeInfo c).guest, state := .disabled }).clrFree c) :=
        hrec.write rfl rfl (fun _ ht _ => ht) (hrec.table.write hc rfl) (hrec.owner c) hg id
      exact hleave.write rfl rfl (fun _ ht _ => ht) (hleave.table.write hc rfl) hp0.symm (hleave.guest c) id
  split
  · exact lendCpu_traceless h hp0
  · exact h

theorem shmemDeregister_traceless (hq0 : q ≠ 0) (h : Traceless S p d) (co : Caller) :
    Traceless S p (shmemDeregister S co d q).1 := by
  have hrun : Traceless S p ((range S.size).foldl (leaveCpu S co q) (removeRequests S d q)) :=
    foldlRecOn _ _ (removeRequests_traceless h) fun _ hd _ hc =>
      leaveCpu_traceless hpq hp0 hq0 hd co (mem_range.mp hc)
  exact hrun.congr rfl rfl rfl

omit hpq in
theorem deregisterCpu_traceless (h : Traceless S p d) (co : Caller) (hc : c < S.size) :
    Traceless S p (deregisterCpu S co q d c) := by
  have htable : InTable S (deregisterCpu S co q d c) := deregisterCpu_inTable co h.table hc
  have htasks : ∀ t ∈ (deregisterCpu S co q d c).tasks, t.pid = p → t ∈ d.tasks := fun t ht _ => deregisterCpu_tasks co ▸ ht
  unfold deregisterCpu at htable htasks ⊢
  dsimp only at htable htasks ⊢
  split at htable
  · rename_i ho
    rw [if_pos ho] at htasks ⊢
    refine h.write (deregisterOwned_info co) ?_ htasks htable hp0.symm ?_ ?_
    · unfold deregisterOwned
      dsimp only
      split_ifs <;> rfl
    · show (if (d.nodeInfo c).guest = q then 0 else (d.nodeInfo c).guest) ≠ p
      split
      · exact hp0.symm
      · exact h.guest c
    · unfold deregistered
      dsimp only
      split
      · exact id
      · exact nofun
  · have hguest : Traceless S p
        (if (d.nodeInfo c).guest = q then (d.set c { d.nodeInfo c with guest := 0 }).setFree c else d) := by
      split
      · exact h.write rfl rfl (fun _ ht _ => ht) (h.table.write hc rfl) (h.owner c) hp0.symm id
      · exact h
    rename_i ho
    rw [if_neg ho]
    split
    · refine hguest.write rfl rfl (fun _ ht _ => ht) (hguest.table.write hc rfl) (hguest.owner c) (hguest.guest c) ?_
      exact fun hp => (Queue.remove_items.mp hp).1
    · exact hguest

omit hpq in
theorem deregisterProcess_traceless (h : Traceless S p d) (co : Caller) : Traceless S p (deregisterProcess S co d q) := by
  have hrun : Traceless S p ((range S.size).foldl (deregisterCpu S co q) d) :=
    foldlRecOn _ _ h fun _ hd _ hc => deregisterCpu_traceless hp0 hd co (mem_range.mp hc)
  unfold deregisterProcess
  dsimp only
  split
  · refine hrun.only (fun _ => .refl _) ⟨fun _ => id, fun it hit hpid => ?_, fun _ ht _ => ht⟩
    exact ⟨it, (Queue.remove_items.mp hit).1, hpid⟩
  · exact hrun

omit hpq in
theorem finalize_traceless (h : Traceless S p d) (co : Caller) : Traceless S p (finalize S co d q) :=
  (deregisterProcess_traceless hp0 h co).congr rfl rfl rfl

omit hpq in
theorem initShmem_traceless (h : Traceless S p d) (co : Caller) : Traceless S p (initShmem S co d) := by
  have htable : InTable S (initShmem S co d) := initShmem_inTable co h.table
  unfold initShmem at htable ⊢
  split at htable
  · rename_i hi
    rwa [if_pos hi]
  · rename_i hi
    rw [if_neg hi]
    refine ⟨htable, fun x => ?_, fun x => ?_, fun x _ => ?_, nofun, nofun⟩
    all_goals
      dsimp only
      split
    · exact hp0.symm
    · exact hp0.symm
    · exact hp0.symm
    · exact hp0.symm
    · exact nofun
    · exact nofun

omit hp0 in
theorem registerProcess_traceless (h : Traceless S p d) (preinitPid : Pid) (mask : CpuSet) (steal : Bool) :
    Traceless S p (registerProcess S d q preinitPid mask steal).1 := by
  unfold registerProcess
  split
  · exact h
  split
  · exact h
  · refine foldlRecOn _ _ h fun d hd c hc => ?_
    have hg : (if (d.nodeInfo c).guest = 0 ∨ (d.nodeInfo c).guest = preinitPid then q else (d.nodeInfo c).guest) ≠ p := by
      split
      · exact hpq.symm
      · exact hd.guest c
    exact hd.write registerCpu_info rfl (fun _ ht _ => ht) (hd.table.write (mem_nodeCpus.mp hc).1 registerCpu_info)
      hpq.symm hg id

theorem init_traceless (h : Traceless S p d) (co : Caller) (preinitPid : Pid) (mask : CpuSet) :
    Traceless S p (init S co d q preinitPid mask).1 := by
  have hreg : Traceless S p (registerProcess S (initShmem S co d) q preinitPid mask false).1 :=
    registerProcess_traceless hpq (initShmem_traceless hp0 h co) preinitPid mask false
  unfold init
  dsimp only
  split
  · exact finalize_traceless hp0 hreg co
  · exact hreg

omit hpq in
theorem returnAsync_traceless {p' : Pid} (hp : p ≠ p') (h : Traceless S p d) (hc : c < S.size) :
    Traceless S p (returnAsync S p' d c) := by
  have hreturn : Traceless S p (updateOccupiedCores S (returnGuest d c) (d.nodeInfo c).owner c) := by
    have hg : (returned (d.nodeInfo c)).guest ≠ p := by
      unfold returned
      split
      · exact h.owner c
      · exact hp0.symm
    have hback : Traceless S p (returnGuest d c) := by
      refine h.write returnGuest_info ?_ ?_ (h.table.write hc returnGuest_info) (h.owner c) hg id
      · unfold returnGuest
        dsimp only
        split_ifs <;> rfl
      · unfold returnGuest
        dsimp only
        split_ifs <;> exact fun _ ht _ => ht
    exact hback.congr rfl rfl rfl
  unfold returnAsync requestAgain
  split
  · rename_i requests hr
    exact hreturn.enqueue hp hr
  · exact hreturn

theorem shmemUpdateOwnership_traceless (hq0 : q ≠ 0) (h : Traceless S p d) (hasTasks : Bool) (mask : CpuSet) :
    Traceless S p (shmemUpdateOwnership S hasTasks d q mask).1 := by
  refine foldlRecOn (motive := fun r : Shdata × Bool => Traceless S p r.1) _ _ h fun r hr c hc => ?_
  have hc := mem_range.mp hc
  unfold updateOwnershipCpu
  dsimp only
  split
  · exact hr
  split
  · split
    · -- a CPU that is taken over
      have hg : (if (r.1.nodeInfo c).guest = 0 then q else (r.1.nodeInfo c).guest) ≠ p := by
        split
        · exact hpq.symm
        · exact hr.guest c
      refine hr.write (stealCpu_info hasTasks) ?_ (fun t ht hpid => ?_) (hr.table.write hc (stealCpu_info hasTasks))
        hpq.symm hg id
      · unfold stealCpu
        dsimp only
        split_ifs <;> rfl
      · rw [stealCpu_tasks, mem_append] at ht
        rcases ht with hold | hnew
        · exact hold
        have hst : stolenGuest q (r.1.nodeInfo c) ≠ p := hg
        split at hnew
        · rcases mem_append.mp hnew with hnew | hnew
          · split at hnew
            · rw [mem_singleton.mp hnew] at hpid
              exact absurd hpid hst
            · cases hnew
          · rw [mem_singleton.mp hnew] at hpid
            exact absurd hpid hpq.symm
        · cases hnew
    · exact hr
  split
  · unfold releaseCpu
    dsimp only
    split
    · have hrel : Traceless S p (r.1.set c { r.1.nodeInfo c with owner := 0, state := .disabled, guest := 0 }) :=
        hr.write rfl rfl (fun _ ht _ => ht) (hr.table.write hc rfl) hp0.symm hp0.symm id
      split
      · exact (hrel.push .disableCpu hpq.symm c).congr rfl rfl rfl
      · exact hrel.congr rfl rfl rfl
    · exact hr.write rfl rfl (fun _ ht _ => ht) (hr.table.write hc rfl) hp0.symm (hr.guest c) id
  split
  · split
    · exact returnCpu_traceless hr hpq hp0 hq0
    · exact hr
  · exact hr

theorem exec_traceless (hq0 : q ≠ 0) (h : Traceless S p d) (co : Caller) {op : Op} (hop : (Act.own op).InNode S) :
    Traceless S p (op.exec S co q d).1 := by
  have h₀ : Traceless S p { d with tasks := [] } := (traceless_kept hpq hp0 hq0).start d h
  unfold Op.exec
  generalize { d with tasks := [] } = d0 at h₀ ⊢
  cases op with
  | init preinitPid mask => exact init_traceless hpq hp0 h₀ co preinitPid mask
  | lewiInit async =>
    dsimp only
    split
    · exact h₀.congr rfl rfl rfl
    · exact h₀
  | lewi call => exact call_traceless hpq hp0 hq0 h₀ co call
  | removeRequests =>
    show Traceless S p (shmemRemoveRequests S d0 q)
    unfold shmemRemoveRequests
    split
    · refine h₀.only (fun x => ?_) ⟨fun x hp => ?_, fun it hit hpid => ?_, fun _ ht _ => ht⟩
      · dsimp only
        split
        · exact ⟨rfl, rfl, rfl⟩
        · exact .refl _
      · dsimp only at hp
        split at hp
        · exact (Queue.remove_items.mp hp).1
        · exact hp
      · exact ⟨it, (Queue.remove_items.mp hit).1, hpid⟩
    · exact h₀
  | checkCpuAvailability before cpuid =>
    show Traceless S p (checkCpuAvailability before d0 q cpuid).1
    unfold checkCpuAvailability
    split
    · exact h₀
    split
    · exact h₀
    split
    · split
      · have htake : Traceless S p (d0.set cpuid { d0.nodeInfo cpuid with guest := q }) :=
          h₀.write rfl rfl (fun _ ht _ => ht) (h₀.table.write hop rfl) (h₀.owner cpuid) hpq.symm id
        exact htake.congr rfl rfl rfl
      · exact h₀
    split
    · exact h₀
    · exact h₀
  | updateOwnership hasTasks mask => exact shmemUpdateOwnership_traceless hpq hp0 hq0 h₀ hasTasks mask
  | deregister => exact shmemDeregister_traceless hpq hp0 hq0 h₀ co
  | finalize => exact finalize_traceless hp0 h₀ co

end Others

end Dlb.Cpuinfo

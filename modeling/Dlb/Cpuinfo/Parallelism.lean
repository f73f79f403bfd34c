import Dlb.Cpuinfo.Shortcut
import Dlb.Lib.Table

/-!
# The limit of `max_parallelism`

An acquire or a borrow by number takes at most `max_parallelism` CPUs less those that the process guests, but it counts
only the CPUs of the array that it is given. It does not count the CPUs that the process guests elsewhere
(`mask_not_counted`), those that it has claimed and gets when their guest leaves, and those that it has asked for and gets
when somebody lends them. All of these together are the load of the process: the calls of others do not raise it
(`load_kept`), and the process guests no more CPUs than the limit if no attempt of its own raises the load above it
(`guests_le_limit`).
-/

namespace Dlb.Cpuinfo

open Finset Function

variable (S : System)

/-! ## The load -/

/-- The process guests the CPU, or has claimed it for itself. -/
def CpuInfo.Counts (p : Pid) (i : CpuInfo) : Prop := i.guest = p ∨ (i.owner = p ∧ i.state = .busy)

instance (p : Pid) (i : CpuInfo) : Decidable (i.Counts p) := inferInstanceAs (Decidable (_ ∨ _))

/-- What the process has of a CPU: the CPU itself, and its requests. -/
def CpuInfo.load (p : Pid) (i : CpuInfo) : ℕ :=
  (if i.Counts p then 1 else 0) + i.requests.weight fun pid => if pid = p then 1 else 0

/-- The CPUs that a request still gives: `0` wraps around. -/
def LewiMaskRequest.grants (p : Pid) (request : LewiMaskRequest) : ℕ :=
  if request.pid = p then if request.howmany = 0 then 2 ^ 32 else request.howmany else 0

/-- The CPUs that the process guests, has claimed, or has asked for. -/
def load (p : Pid) (d : Shdata) : ℕ :=
  ∑ c ∈ range S.size, (d.nodeInfo c).load p + d.lewiMaskRequests.weight (·.grants p)

/-- The number of CPUs that the process guests. -/
def guests (p : Pid) (d : Shdata) : ℕ := ((range S.size).filter fun c => (d.nodeInfo c).guest = p).card

variable {S} {p q : Pid} {d d1 : Shdata} {c : ℕ} {i : CpuInfo}

theorem guests_le_load : guests S p d ≤ load S p d := by
  unfold guests load
  rw [card_filter]
  refine le_trans (sum_le_sum fun c _ => ?_) (Nat.le_add_right _ _)
  unfold CpuInfo.load
  split
  · rename_i hg
    have hcounts : (d.nodeInfo c).Counts p := .inl hg
    rw [if_pos hcounts]
    exact Nat.le_add_right _ _
  · exact Nat.zero_le _

theorem load_congr (hinfo : d1.nodeInfo = d.nodeInfo) (hglobal : d1.lewiMaskRequests = d.lewiMaskRequests) :
    load S p d1 = load S p d := by
  unfold load
  rw [hinfo, hglobal]

theorem load_write {k : ℕ} (hinfo : d1.nodeInfo = update d.nodeInfo c i)
    (hglobal : d1.lewiMaskRequests.weight (·.grants p) ≤ d.lewiMaskRequests.weight (·.grants p))
    (hi : i.load p ≤ (d.nodeInfo c).load p + k) : load S p d1 ≤ load S p d + k := by
  have hsum := Lib.sum_update_le d.nodeInfo (fun _ i => i.load p) c i S.size hi
  unfold load
  rw [hinfo]
  omega

theorem load_exchange (hinfo : d1.nodeInfo = update d.nodeInfo c i)
    (hglobal : d1.lewiMaskRequests.weight (·.grants p) ≤ d.lewiMaskRequests.weight (·.grants p))
    (hi : i.load p + d1.lewiMaskRequests.weight (·.grants p) ≤
      (d.nodeInfo c).load p + d.lewiMaskRequests.weight (·.grants p)) : load S p d1 ≤ load S p d := by
  have hentry : i.load p ≤ (d.nodeInfo c).load p +
      (d.lewiMaskRequests.weight (·.grants p) - d1.lewiMaskRequests.weight (·.grants p)) := by omega
  have hsum := Lib.sum_update_le d.nodeInfo (fun _ i => i.load p) c i S.size hentry
  unfold load
  rw [hinfo]
  omega

theorem CpuInfo.load_le {j : CpuInfo} (hcounts : j.Counts p → i.Counts p)
    (hrequests : j.requests.weight (fun pid => if pid = p then 1 else 0) ≤
      i.requests.weight fun pid => if pid = p then 1 else 0) : j.load p ≤ i.load p := by
  unfold CpuInfo.load
  split
  · rename_i hj
    rw [if_pos (hcounts hj)]
    omega
  · omega

theorem load_rewrite (hinfo : d1.nodeInfo = update d.nodeInfo c i)
    (hglobal : d1.lewiMaskRequests = d.lewiMaskRequests) (hcounts : i.Counts p → (d.nodeInfo c).Counts p)
    (hrequests : i.requests.weight (fun pid => if pid = p then 1 else 0) ≤
      (d.nodeInfo c).requests.weight fun pid => if pid = p then 1 else 0) : load S p d1 ≤ load S p d := by
  have hi : i.load p ≤ (d.nodeInfo c).load p + 0 := CpuInfo.load_le hcounts hrequests
  exact load_write hinfo (by rw [hglobal]) hi

/-! ## Lending -/

section Lending

theorem popRequest_load (hp0 : p ≠ 0) : ∃ requests,
    (popRequest S d c).1 = d.set c { d.nodeInfo c with requests := requests } ∧
      requests.weight (fun pid => if pid = p then 1 else 0) + (if (popRequest S d c).2 = p then 1 else 0) ≤
        (d.nodeInfo c).requests.weight fun pid => if pid = p then 1 else 0 := by
  refine ⟨_, rfl, Queue.take_weight hp0 (fun pid _ => ?_) _ _ _⟩
  show 0 + (if pid = p then 1 else 0) ≤ if pid = p then 1 else 0
  omega

theorem useOne_grants (request : LewiMaskRequest) :
    ((useOne request).map (·.grants p)).getD 0 + (if request.pid = p then 1 else 0) ≤ request.grants p := by
  unfold useOne LewiMaskRequest.grants
  dsimp only
  by_cases hp : request.pid = p
  · rw [if_pos hp, if_pos hp]
    split
    · dsimp only [Option.map_none, Option.getD_none]
      split
      · omega
      · omega
    · rename_i h0
      dsimp only [Option.map_some, Option.getD_some]
      rw [if_pos hp, if_neg h0]
      split
      · omega
      · omega
  · rw [if_neg hp, if_neg hp]
    split
    · exact Nat.le_refl 0
    · dsimp only [Option.map_some, Option.getD_some]
      rw [if_neg hp]

theorem popGlobalRequest_load (hp0 : p ≠ 0) :
    (popGlobalRequest S d c).1.nodeInfo = d.nodeInfo ∧
      (popGlobalRequest S d c).1.lewiMaskRequests.weight (·.grants p) + (if (popGlobalRequest S d c).2 = p then 1 else 0) ≤
        d.lewiMaskRequests.weight (·.grants p) :=
  ⟨rfl, Queue.take_weight hp0 (fun request _ => useOne_grants request) _ _ _⟩

/-- What the search for a new guest takes from the requests of a process: one, unless the CPU is claimed. -/
structure Sought (p : Pid) (c : ℕ) (d d1 : Shdata) (guest : Pid) : Prop where
  entry : ∃ requests, d1.nodeInfo = update d.nodeInfo c { d.nodeInfo c with requests := requests } ∧
    requests.weight (fun pid => if pid = p then 1 else 0) + d1.lewiMaskRequests.weight (·.grants p) +
        (if guest = p ∧ (d.nodeInfo c).state ≠ .busy then 1 else 0) ≤
      (d.nodeInfo c).requests.weight (fun pid => if pid = p then 1 else 0) + d.lewiMaskRequests.weight (·.grants p)
  global : d1.lewiMaskRequests.weight (·.grants p) ≤ d.lewiMaskRequests.weight (·.grants p)

theorem Sought.nothing {guest : Pid} (h : guest = p → (d.nodeInfo c).state = .busy) : Sought p c d d guest := by
  refine ⟨⟨(d.nodeInfo c).requests, (update_eq_self c d.nodeInfo).symm, ?_⟩, Nat.le_refl _⟩
  rw [if_neg fun hg => hg.2 (h hg.1)]
  exact Nat.le_refl _

theorem findNewGuest_sought (hp0 : p ≠ 0) : Sought p c d (findNewGuest S d c).1 (findNewGuest S d c).2 := by
  unfold findNewGuest
  split
  · rename_i hb
    exact .nothing fun _ => hb
  rename_i hb
  split
  · obtain ⟨requests, hset, hpop⟩ := popRequest_load (S := S) (d := d) (c := c) hp0
    dsimp only
    split
    · -- no request for the CPU: the global ones are served
      obtain ⟨hinfo, hglobal⟩ := popGlobalRequest_load (S := S) (d := (popRequest S d c).1) (c := c) hp0
      have hsame : (popRequest S d c).1.lewiMaskRequests = d.lewiMaskRequests := rfl
      rw [hsame] at hglobal
      refine ⟨⟨requests, hinfo.trans (congrArg Shdata.nodeInfo hset), ?_⟩, by omega⟩
      have hone : (if (popGlobalRequest S (popRequest S d c).1 c).2 = p ∧ (d.nodeInfo c).state ≠ .busy then 1 else 0) ≤
          if (popGlobalRequest S (popRequest S d c).1 c).2 = p then 1 else 0 := by
        rw [if_congr (and_iff_left hb) rfl rfl]
      omega
    · refine ⟨⟨requests, congrArg Shdata.nodeInfo hset, ?_⟩, Nat.le_refl _⟩
      have hsame : (popRequest S d c).1.lewiMaskRequests = d.lewiMaskRequests := rfl
      rw [hsame, if_congr (and_iff_left hb) rfl rfl]
      omega
  · exact .nothing fun h0 => absurd h0.symm hp0

theorem assignGuest_load (hp0 : p ≠ 0) : load S p (assignGuest S d c).1 ≤ load S p d := by
  obtain ⟨⟨requests, hinfo, hentry⟩, hglobal⟩ := findNewGuest_sought (S := S) (d := d) (c := c) hp0
  have hbusy := findNewGuest_busy (S := S) (d := d) (c := c)
  unfold assignGuest
  dsimp only
  generalize findNewGuest S d c = r at hinfo hentry hglobal hbusy ⊢
  split
  · -- nobody takes the CPU
    refine load_exchange hinfo hglobal ?_
    have hcounts : ({ d.nodeInfo c with requests := requests } : CpuInfo).Counts p ↔ (d.nodeInfo c).Counts p := Iff.rfl
    unfold CpuInfo.load
    rw [if_congr hcounts rfl rfl]
    dsimp only
    omega
  · have hinfo' : ((r.1.set c { r.1.nodeInfo c with guest := r.2 }).push .enableCpu r.2 c).nodeInfo =
        update d.nodeInfo c { d.nodeInfo c with requests := requests, guest := r.2 } := by
      show update r.1.nodeInfo c { r.1.nodeInfo c with guest := r.2 } = _
      rw [hinfo, update_idem, update_self]
    refine load_exchange hinfo' hglobal ?_
    show CpuInfo.load p { d.nodeInfo c with requests := requests, guest := r.2 } + r.1.lewiMaskRequests.weight _ ≤ _
    -- the new guest counts once more only if it was served by a request
    have hcounts : (if ({ d.nodeInfo c with requests := requests, guest := r.2 } : CpuInfo).Counts p then 1 else 0) ≤
        (if (d.nodeInfo c).Counts p then 1 else 0) + if r.2 = p ∧ (d.nodeInfo c).state ≠ .busy then 1 else 0 := by
      split
      · rename_i hnew
        by_cases hb : (d.nodeInfo c).state = .busy
        · have hold : (d.nodeInfo c).Counts p := by
            rcases hnew with hg | hown
            · exact .inr ⟨(hbusy hb).symm.trans hg, hb⟩
            · exact .inr hown
          rw [if_pos hold]
          omega
        · have hserved : r.2 = p ∧ (d.nodeInfo c).state ≠ .busy := ⟨hnew.resolve_right fun hown => hb hown.2, hb⟩
          rw [if_pos hserved]
          omega
      · exact Nat.zero_le _
    unfold CpuInfo.load
    dsimp only at hcounts ⊢
    omega

theorem assignRest_load (hp0 : p ≠ 0) {x : ℕ} : load S p (assignRest S x d c) ≤ load S p d := by
  unfold assignRest
  split
  · dsimp only
    split
    · exact assignGuest_load hp0
    · exact (assignGuest_load hp0 : load S p (assignGuest S d c).1 ≤ load S p d)
  · exact Nat.le_refl _

theorem findGuests_load (hp0 : p ≠ 0) : load S p (findGuests S d c) ≤ load S p d := by
  unfold findGuests
  split
  · dsimp only
    split
    · exact assignGuest_load hp0
    · exact List.foldlRecOn (motive := fun d' => load S p d' ≤ load S p d) _ _ (assignGuest_load hp0)
        fun _ h _ _ => (assignRest_load hp0).trans h
  · exact Nat.le_refl _

theorem remove_load (isKey : Pid → Bool) (requests : Queue Pid) :
    (requests.remove queuePidSize isKey).weight (fun pid => if pid = p then 1 else 0) ≤
      requests.weight fun pid => if pid = p then 1 else 0 := Queue.remove_weight _

theorem lendOwned_load : load S p (lendOwned d q c) ≤ load S p d := by
  unfold lendOwned
  dsimp only
  split
  · refine load_rewrite rfl rfl (fun h => ?_) (Nat.le_refl _)
    exact h.imp id fun hown => nomatch hown.2
  split
  · exact load_rewrite rfl rfl (fun h => h) (remove_load _ _)
  · exact Nat.le_refl _

theorem leave_load (hp0 : p ≠ 0) : load S p (leave d q c) ≤ load S p d := by
  unfold leave
  dsimp only
  split
  · refine load_rewrite rfl rfl (fun h => ?_) (Nat.le_refl _)
    exact h.imp (fun h0 => absurd h0.symm hp0) id
  · exact Nat.le_refl _

theorem lendCpu_load (hp0 : p ≠ 0) : load S p (lendCpu S q d c) ≤ load S p d := by
  have hfind : load S p (findGuests S (leave (lendOwned d q c) q c) c) ≤ load S p d :=
    ((findGuests_load hp0).trans (leave_load hp0)).trans lendOwned_load
  unfold lendCpu
  dsimp only
  split
  · exact Nat.le_refl _
  · split
    · exact hfind
    · exact hfind

end Lending

/-! ## The operations of others -/

section Others

theorem returnCpu_load (hp0 : p ≠ 0) : load S p (returnCpu S q d c).1 ≤ load S p d := by
  unfold returnCpu
  dsimp only
  split
  · exact Nat.le_refl _
  split
  · rename_i hb
    refine load_rewrite rfl rfl (fun h => ?_) (Nat.le_refl _)
    exact .inr (h.elim (fun ho => ⟨ho, hb⟩) id)
  · refine load_rewrite rfl rfl (fun h => ?_) (Nat.le_refl _)
    exact h.imp (fun h0 => absurd h0.symm hp0) id

theorem enqueue_load (hqp : q ≠ p) {requests requests' : Queue Pid}
    (h : requests.enqueue queuePidSize q = some requests') :
    requests'.weight (fun pid => if pid = p then 1 else 0) = requests.weight fun pid => if pid = p then 1 else 0 := by
  rw [Queue.enqueue_weight h, if_neg hqp, Nat.add_zero]

theorem returnAsync_load (hp0 : p ≠ 0) (hqp : q ≠ p) : load S p (returnAsync S q d c) ≤ load S p d := by
  have hglobal : (returnAsync S q d c).lewiMaskRequests = d.lewiMaskRequests := by
    unfold returnAsync requestAgain returnGuest
    dsimp only
    split <;> split <;> rfl
  refine load_rewrite returnAsync_info hglobal (fun h => ?_) ?_
  · have h : (returned (d.nodeInfo c)).Counts p := h
    unfold returned at h
    split at h
    · rename_i hb
      exact .inr (h.elim (fun ho => ⟨ho, hb⟩) id)
    · exact h.imp (fun h0 => absurd h0.symm hp0) id
  · unfold CpuInfo.ask
    cases hr : (returned (d.nodeInfo c)).requests.enqueue queuePidSize q with
    | none => exact Nat.le_refl _
    | some requests => exact Nat.le_of_eq (enqueue_load hqp hr)

theorem noteOccupied_load : load S p (noteOccupied S d c) = load S p d := by
  unfold noteOccupied
  split
  · exact load_congr rfl rfl
  · rfl

theorem noteOccupiedOwned_load : load S p (noteOccupiedOwned S d c) = load S p d := by
  unfold noteOccupiedOwned
  split
  · exact noteOccupied_load
  · rfl

theorem load_taken (hqp : q ≠ p) (hinfo : d1.nodeInfo = update d.nodeInfo c i)
    (hglobal : d1.lewiMaskRequests = d.lewiMaskRequests) (ho : i.owner = (d.nodeInfo c).owner)
    (hs : i.owner = q ∨ i.state = (d.nodeInfo c).state) (hg : i.guest = q ∨ i.guest = (d.nodeInfo c).guest)
    (hr : i.requests = (d.nodeInfo c).requests) : load S p d1 ≤ load S p d := by
  refine load_rewrite hinfo hglobal (fun h => ?_) (by rw [hr])
  rcases h with h | ⟨hown, hb⟩
  · exact .inl (hg.elim (fun hq => absurd (hq.symm.trans h) hqp) fun heq => heq.symm.trans h)
  · exact .inr ⟨ho ▸ hown, hs.elim (fun hq => absurd (hq.symm.trans hown) hqp) fun heq => heq ▸ hb⟩

theorem reclaimCpu_load (hqp : q ≠ p) : load S p (reclaimCpu q d c).1 ≤ load S p d := by
  unfold reclaimCpu
  dsimp only
  split
  · rename_i ho
    split
    · exact load_taken hqp rfl rfl rfl (.inl ho) (.inr rfl) rfl
    split
    · exact load_taken hqp rfl rfl rfl (.inl ho) (.inl rfl) rfl
    · exact load_taken hqp rfl rfl rfl (.inl ho) (.inr rfl) rfl
  · exact Nat.le_refl _

theorem acquireCpu_load (hqp : q ≠ p) : load S p (acquireCpu S q d c).1 ≤ load S p d := by
  unfold acquireCpu
  dsimp only
  split
  · exact Nat.le_refl _
  split
  · rename_i ho
    split
    · exact load_taken hqp rfl rfl rfl (.inl ho) (.inl rfl) rfl
    · rw [noteOccupied_load]
      exact load_taken hqp rfl rfl rfl (.inl ho) (.inr rfl) rfl
  split
  · have htake : load S p ((d.set c { d.nodeInfo c with guest := q }).push .enableCpu q c) ≤ load S p d :=
      load_taken hqp rfl rfl rfl (.inr rfl) (.inl rfl) rfl
    exact (Nat.le_of_eq noteOccupiedOwned_load).trans htake
  split
  · split
    · rename_i requests hr
      exact load_rewrite rfl rfl (fun h => h) (Nat.le_of_eq (enqueue_load hqp hr))
    · exact Nat.le_refl _
  split
  · exact Nat.le_refl _
  · exact Nat.le_refl _

theorem borrowCpu_load (hqp : q ≠ p) : load S p (borrowCpu S q d c).1 ≤ load S p d := by
  unfold borrowCpu
  dsimp only
  split
  · exact Nat.le_refl _
  split
  · split
    · rename_i ho
      exact load_taken hqp rfl rfl rfl (.inl ho) (.inl rfl) rfl
    split
    · rw [noteOccupiedOwned_load]
      exact load_taken hqp rfl rfl rfl (.inr rfl) (.inl rfl) rfl
    · exact Nat.le_refl _
  · exact Nat.le_refl _

theorem raiseRequest_grants {request : LewiMaskRequest} : ∀ {l items : List LewiMaskRequest},
    raiseRequest request l = some items →
      (items.map (·.grants p)).sum ≤ (l.map (·.grants p)).sum + request.grants p
  | [], _, h => nomatch h
  | it :: rest, items, h => by
    unfold raiseRequest at h
    split at h
    · rename_i hsame
      obtain rfl := Option.some.inj h
      have hraise : ({ it with howmany := addU32 it.howmany request.howmany } : LewiMaskRequest).grants p ≤
          it.grants p + request.grants p := by
        unfold LewiMaskRequest.grants addU32
        dsimp only
        rw [hsame.1]
        split_ifs <;> omega
      rw [List.map_cons, List.sum_cons, List.map_cons, List.sum_cons]
      omega
    · obtain ⟨items', hitems', rfl⟩ := Option.map_eq_some_iff.mp h
      have hrest := raiseRequest_grants hitems'
      rw [List.map_cons, List.sum_cons, List.map_cons, List.sum_cons]
      omega

theorem petition_load (request : LewiMaskRequest) : load S p (petition d request).1 ≤ load S p d + request.grants p := by
  unfold petition
  split
  · rename_i items hitems
    have hraise := raiseRequest_grants (p := p) hitems
    show ∑ c ∈ range S.size, (d.nodeInfo c).load p + (items.map (·.grants p)).sum ≤ _
    unfold load Queue.weight
    omega
  split
  · rename_i queue hqueue
    have hweight := Queue.enqueue_weight (g := (·.grants p)) hqueue
    show ∑ c ∈ range S.size, (d.nodeInfo c).load p + queue.weight (·.grants p) ≤ _
    unfold load
    omega
  · exact Nat.le_add_right _ _

theorem petitionCpu_load (hqp : q ≠ p) (r : Shdata × DlbError) : load S p (petitionCpu q r c).1 ≤ load S p r.1 := by
  unfold petitionCpu
  dsimp only
  split
  · split
    · split
      · rename_i requests hr
        exact load_rewrite rfl rfl (fun h => h) (Nat.le_of_eq (enqueue_load hqp hr))
      · exact Nat.le_refl _
    · exact Nat.le_refl _
  · exact Nat.le_refl _

theorem addPetitions_load (hqp : q ≠ p) (w : Wish) (r : Shdata × DlbError × ℤ) :
    load S p (addPetitions w q r).1 ≤ load S p r.1 := by
  unfold addPetitions
  split
  · split
    · split
      · have hnone : LewiMaskRequest.grants p ⟨q, r.2.2.toNat, w.cpusPriorityArray.toFinset⟩ = 0 := if_neg hqp
        exact (petition_load _).trans (by rw [hnone, Nat.add_zero])
      · exact Nat.le_refl _
    · exact List.foldlRecOn (motive := fun r' : Shdata × DlbError => load S p r'.1 ≤ load S p r.1) _ _ (Nat.le_refl _)
        fun r' h _ _ => (petitionCpu_load hqp r').trans h
  · exact Nat.le_refl _

theorem removed_load (M : ℕ → Prop) [DecidablePred M] :
    load S p { d with
      lewiMaskRequests := d.lewiMaskRequests.remove queueLewiMaskRequestSize (·.pid = q)
      nodeInfo := fun c => if M c then
        { d.nodeInfo c with requests := (d.nodeInfo c).requests.remove queuePidSize (· = q) } else d.nodeInfo c } ≤
      load S p d := by
  refine Nat.add_le_add (sum_le_sum fun c _ => ?_) (Queue.remove_weight _)
  dsimp only
  split
  · exact CpuInfo.load_le (fun h => h) (remove_load _ _)
  · exact Nat.le_refl _

theorem removeRequests_load : load S p (removeRequests S d q) ≤ load S p d := by
  unfold removeRequests
  split
  · exact removed_load _
  · exact Nat.le_refl _

theorem shmemRemoveRequests_load : load S p (shmemRemoveRequests S d q) ≤ load S p d := by
  unfold shmemRemoveRequests
  split
  · exact removed_load _
  · exact Nat.le_refl _

theorem load_kept (hp0 : p ≠ 0) (hqp : q ≠ p) (n : ℕ) : Kept S q (fun d => load S p d ≤ n) where
  start _ h := h
  timestamp _ _ h := h
  lend _ _ h := (lendCpu_load hp0).trans h
  reclaim _ _ h := (reclaimCpu_load hqp).trans h
  acquire _ _ h := (acquireCpu_load hqp).trans h
  borrow _ _ h := (borrowCpu_load hqp).trans h
  giveBack _ _ h := (returnCpu_load hp0).trans h
  disable _ _ h := h
  petitions w r h := (addPetitions_load hqp w r).trans h
  remove _ h := removeRequests_load.trans h

theorem call_load (hp0 : p ≠ 0) (hqp : q ≠ p) (co : Caller) (call : Call) :
    load S p (exec S co q d call) ≤ load S p d := by
  have hkept : Kept S q (fun d' => load S p d' ≤ load S p d) := load_kept hp0 hqp (load S p d)
  refine exec_keeps hkept (Nat.le_refl _) co call fun cpuid _ => ?_
  refine shmemReclaimCpu_keeps hkept.reclaim (fun d' cpuid c h => ?_) (hkept.start d (Nat.le_refl _)) cpuid
  unfold disableRest
  split
  · exact h
  · exact h

end Others

/-! ## The operations of the process -/

def CpuInfo.Spare (k : Ask) (p : Pid) (i : CpuInfo) : Prop :=
  (i.guest = 0 ∧ i.state = .lent) ∨ (k = .acquire ∧ i.owner = p ∧ ¬i.Counts p)

/-- A CPU of the array that an acquire without a number asks for. -/
def CpuInfo.Asked (p : Pid) (w : Wish) (cpuid : ℕ) (i : CpuInfo) : Prop :=
  cpuid ∈ w.cpusPriorityArray ∧ (i.state = .disabled ∨ (i.owner ≠ p ∧ i.guest ≠ p)) ∧ p ∉ i.requests.items

instance (k : Ask) (p : Pid) (i : CpuInfo) : Decidable (i.Spare k p) := inferInstanceAs (Decidable (_ ∧ _ ∨ _ ∧ _ ∧ ¬_))

instance (p : Pid) (w : Wish) (c : ℕ) (i : CpuInfo) : Decidable (i.Asked p w c) :=
  inferInstanceAs (Decidable (_ ∧ (_ ∨ _ ∧ _) ∧ _))

section Own

variable {k : Ask} {queues : Bool} {j : CpuInfo}

/-- What an operation of the process does to a CPU: it takes or claims one of its own, it takes one that is lent and
idle, or it asks for one. -/
inductive Got (k : Ask) (queues : Bool) (p : Pid) (i : CpuInfo) : CpuInfo → Prop
  | own (guest : Pid) : i.owner = p → (k = .acquire ∨ (i.guest = 0 ∧ i.state ≠ .disabled)) →
      Got k queues p i { i with state := .busy, guest := guest }
  | taken : i.owner ≠ p → i.guest = 0 → i.state = .lent → Got k queues p i { i with guest := p }
  | asked (requests : Queue Pid) : queues = true → i.owner ≠ p → i.requests.enqueue queuePidSize p = some requests →
      Got k queues p i { i with requests := requests }

structure Got.At (k : Ask) (queues : Bool) (p : Pid) (c : ℕ) (d d1 : Shdata) : Prop where
  info : ∃ j, Got k queues p (d.nodeInfo c) j ∧ d1.nodeInfo = update d.nodeInfo c j
  global : d1.lewiMaskRequests = d.lewiMaskRequests

theorem noteOccupied_global : (noteOccupied S d c).lewiMaskRequests = d.lewiMaskRequests := by
  unfold noteOccupied
  split
  · rfl
  · rfl

theorem noteOccupiedOwned_global : (noteOccupiedOwned S d c).lewiMaskRequests = d.lewiMaskRequests := by
  unfold noteOccupiedOwned
  split
  · exact noteOccupied_global
  · rfl

theorem acquireCpu_got (h : done (acquireCpu S p d c).2 = true) :
    Got.At .acquire d.queuesEnabled p c d (acquireCpu S p d c).1 := by
  unfold acquireCpu at h ⊢
  dsimp only at h ⊢
  split
  · rename_i hg
    rw [if_pos hg] at h
    cases h
  rename_i hg
  rw [if_neg hg] at h
  split
  · rename_i ho
    split
    · exact ⟨⟨_, .own p ho (.inl rfl), rfl⟩, rfl⟩
    · refine ⟨⟨_, .own (d.nodeInfo c).guest ho (.inl rfl), ?_⟩, noteOccupied_global⟩
      unfold noteOccupied
      split
      · rfl
      · rfl
  rename_i ho
  rw [if_neg ho] at h
  split
  · rename_i hav
    refine ⟨⟨_, .taken ho hav.1 hav.2.1, ?_⟩, ?_⟩
    · show (noteOccupiedOwned S _ c).nodeInfo = _
      rw [noteOccupiedOwned_info]
      rfl
    · show (noteOccupiedOwned S _ c).lewiMaskRequests = _
      rw [noteOccupiedOwned_global]
      rfl
  rename_i hav
  rw [if_neg hav] at h
  split
  · rename_i hq
    rw [if_pos hq] at h
    split
    · rename_i requests hr
      exact ⟨⟨_, .asked requests hq ho hr, rfl⟩, rfl⟩
    · rename_i hr
      rw [hr] at h
      cases h
  · rename_i hq
    rw [if_neg hq] at h
    split at h
    · cases h
    · cases h

theorem borrowCpu_got (k : Ask) (h : done (borrowCpu S p d c).2 = true) :
    Got.At k false p c d (borrowCpu S p d c).1 := by
  unfold borrowCpu at h ⊢
  dsimp only at h ⊢
  split
  · rename_i hs
    rw [if_pos hs] at h
    cases h
  rename_i hs
  rw [if_neg hs] at h
  split
  · rename_i hg
    rw [if_pos hg] at h
    split
    · rename_i ho
      exact ⟨⟨_, .own p ho (.inr ⟨hg.1, hs⟩), rfl⟩, rfl⟩
    · rename_i ho
      rw [if_neg ho] at h
      split
      · rename_i hl
        refine ⟨⟨_, .taken ho hg.1 hl, ?_⟩, ?_⟩
        · rw [noteOccupiedOwned_info]
          rfl
        · rw [noteOccupiedOwned_global]
          rfl
      · rename_i hl
        rw [if_neg hl] at h
        cases h
  · rename_i hg
    rw [if_neg hg] at h
    cases h

theorem Got.load_le (h : Got k queues p i j) : j.load p ≤ i.load p + 1 := by
  have hone : ∀ i : CpuInfo, (if i.Counts p then 1 else 0) ≤ 1 := fun i => by split <;> omega
  cases h with
  | own guest _ _ =>
    have hj := hone { i with state := .busy, guest := guest }
    unfold CpuInfo.load
    dsimp only
    omega
  | taken _ _ _ =>
    have hj := hone { i with guest := p }
    unfold CpuInfo.load
    dsimp only
    omega
  | asked requests _ _ hr =>
    have hweight := Queue.enqueue_weight (g := fun pid => if pid = p then 1 else 0) hr
    rw [if_pos rfl] at hweight
    have hcounts : ({ i with requests := requests } : CpuInfo).Counts p ↔ i.Counts p := Iff.rfl
    unfold CpuInfo.load
    rw [if_congr hcounts rfl rfl]
    dsimp only
    omega

theorem Got.asked_of (h : Got k queues p i j) {w : Wish} (hj : j.Asked p w c) : i.Asked p w c := by
  obtain ⟨hc, hs, hr⟩ := hj
  cases h with
  | own guest ho _ => exact absurd hs (by simp [ho])
  | taken _ _ hl => exact absurd hs (by simp [hl])
  | asked requests _ _ hq => exact absurd ((Queue.enqueue_items hq).mpr (.inr rfl)) hr

/-- What the process has of a CPU, or could get of it. -/
def CpuInfo.reach (k : Ask) (asks : Bool) (p : Pid) (w : Wish) (cpuid : ℕ) (i : CpuInfo) : ℕ :=
  i.load p + if i.Spare k p ∨ (asks = true ∧ i.Asked p w cpuid) then 1 else 0

theorem Got.reach_le (h : Got k queues p i j) (hp0 : p ≠ 0) (hq : queues = false ∨ i.owner = p) (asks : Bool) (w : Wish)
    (c : ℕ) : j.reach k asks p w c ≤ i.reach k asks p w c := by
  have hj : j.Counts p ∧ ¬j.Spare k p ∧ ¬j.Asked p w c ∧ j.requests = i.requests := by
    cases h with
    | own guest ho _ =>
      refine ⟨.inr ⟨ho, rfl⟩, ?_, fun hasked => ?_, rfl⟩
      · rintro (⟨-, hl⟩ | ⟨-, -, hno⟩)
        · cases hl
        · exact hno (.inr ⟨ho, rfl⟩)
      · rcases hasked.2.1 with hs | ⟨hne, -⟩
        · cases hs
        · exact hne ho
    | taken hne hg hl =>
      refine ⟨.inl rfl, ?_, fun hasked => ?_, rfl⟩
      · rintro (⟨h0, -⟩ | ⟨-, -, hno⟩)
        · exact hp0 h0
        · exact hno (.inl rfl)
      · rcases hasked.2.1 with hs | ⟨-, hne⟩
        · exact absurd (hl.symm.trans hs) nofun
        · exact hne rfl
    | asked requests hen hne _ => exact (hq.elim (fun hno => absurd (hno.symm.trans hen) nofun) fun ho => absurd ho hne)
  obtain ⟨hcounts, hspare, hasked, hr⟩ := hj
  have hi : 1 ≤ (if i.Counts p then 1 else 0) + if i.Spare k p ∨ (asks = true ∧ i.Asked p w c) then 1 else 0 := by
    by_cases hold : i.Counts p
    · rw [if_pos hold]
      exact Nat.le_add_right _ _
    have hgot : i.Spare k p := by
      cases h with
      | own guest ho hk =>
        rcases hk with hk | ⟨hg, hs⟩
        · exact .inr ⟨hk, ho, hold⟩
        · refine .inl ⟨hg, ?_⟩
          cases hstate : i.state with
          | disabled => exact absurd hstate hs
          | busy => exact absurd (.inr ⟨ho, hstate⟩) hold
          | lent => rfl
      | taken hne hg hl => exact .inl ⟨hg, hl⟩
      | asked requests hen hne _ => exact (hq.elim (fun hno => absurd (hno.symm.trans hen) nofun) fun ho => absurd ho hne)
    rw [if_pos (Or.inl hgot : i.Spare k p ∨ _)]
    exact Nat.le_add_left _ _
  have hnone : ¬(j.Spare k p ∨ (asks = true ∧ j.Asked p w c)) := by
    rintro (hs | ⟨-, ha⟩)
    · exact hspare hs
    · exact hasked ha
  unfold CpuInfo.reach CpuInfo.load
  rw [if_pos hcounts, if_neg hnone, hr]
  omega

theorem Got.owner (h : Got k queues p i j) : j.owner = i.owner := by
  cases h with
  | own _ _ _ => rfl
  | taken _ _ _ => rfl
  | asked _ _ _ _ => rfl

end Own

/-! ## The attempts of the process -/

/-- An acquire without a number asks each CPU of its array that it did not get. -/
def Ask.asks (k : Ask) (w : Wish) (d : Shdata) : Bool := k = .acquire ∧ d.queuesEnabled ∧ w.requestedNcpus = none

def Ask.asked (S : System) (k : Ask) (p : Pid) (w : Wish) (d : Shdata) : ℕ :=
  ((range S.size).filter fun c => k.asks w d = true ∧ (d.nodeInfo c).Asked p w c).card

/-- How many other CPUs there are that an attempt could get. -/
def Ask.spare (S : System) (k : Ask) (p : Pid) (w : Wish) (d : Shdata) : ℕ :=
  ((range S.size).filter fun c =>
    (d.nodeInfo c).Spare k p ∧ ¬(k.asks w d = true ∧ (d.nodeInfo c).Asked p w c)).card

/-- How many CPUs an attempt may get or ask for: its number, or less if there are not so many. What an acquire by number
does not get it asks for. With SMT an acquire may also ask for the rest of the core of a CPU. -/
def Ask.most (S : System) (k : Ask) (p : Pid) (w : Wish) (u : Unlocked) (d : Shdata) : ℤ :=
  (if k = .acquire ∧ d.queuesEnabled ∧ (w.requestedNcpus ≠ none ∨ d.hwHasSmt) then w.ncpus S u p
    else min (w.ncpus S u p) (k.spare S p w d)) + k.asked S p w d

section Attempts

variable {k : Ask} {queues asks : Bool} {w : Wish} {u : Unlocked} {co : Caller} {n : ℤ} {T : ℕ}

/-- The load, and the CPUs that the process could get or ask for. -/
def reachable (S : System) (k : Ask) (asks : Bool) (p : Pid) (w : Wish) (d : Shdata) : ℕ :=
  ∑ c ∈ range S.size, (d.nodeInfo c).reach k asks p w c + d.lewiMaskRequests.weight (·.grants p)

theorem reachable_eq : reachable S k (k.asks w d) p w d = load S p d + k.spare S p w d + k.asked S p w d := by
  have hsplit : ∀ c ∈ range S.size, (d.nodeInfo c).reach k (k.asks w d) p w c = (d.nodeInfo c).load p +
      ((if (d.nodeInfo c).Spare k p ∧ ¬(k.asks w d = true ∧ (d.nodeInfo c).Asked p w c) then 1 else 0) +
        if k.asks w d = true ∧ (d.nodeInfo c).Asked p w c then 1 else 0) := by
    intro c _
    unfold CpuInfo.reach
    by_cases ha : k.asks w d = true ∧ (d.nodeInfo c).Asked p w c
    · simp [ha]
    · by_cases hs : (d.nodeInfo c).Spare k p
      · simp [ha, hs]
      · simp [ha, hs]
  unfold reachable load Ask.spare Ask.asked
  rw [sum_congr rfl hsplit, sum_add_distrib, sum_add_distrib, card_filter, card_filter]
  omega

theorem load_le_reachable : load S p d ≤ reachable S k asks p w d :=
  Nat.add_le_add_right (sum_le_sum fun _ _ => Nat.le_add_right _ _) _

theorem Got.At.load_le (h : Got.At k queues p c d d1) : load S p d1 ≤ load S p d + 1 := by
  obtain ⟨⟨j, hj, hinfo⟩, hglobal⟩ := h
  exact load_write hinfo (by rw [hglobal]) hj.load_le

theorem Got.At.reachable_le (h : Got.At k queues p c d d1) (hp0 : p ≠ 0)
    (hq : queues = false ∨ (d.nodeInfo c).owner = p) : reachable S k asks p w d1 ≤ reachable S k asks p w d := by
  obtain ⟨⟨j, hj, hinfo⟩, hglobal⟩ := h
  have hentry : j.reach k asks p w c ≤ (d.nodeInfo c).reach k asks p w c + 0 := hj.reach_le hp0 hq asks w c
  have hsum := Lib.sum_update_le d.nodeInfo (fun c i => i.reach k asks p w c) c j S.size hentry
  unfold reachable
  rw [hinfo, hglobal]
  omega

theorem acquireCpu_gain :
    load S p (acquireCpu S p d c).1 ≤ load S p d + if done (acquireCpu S p d c).2 then 1 else 0 := by
  split
  · rename_i hdone
    exact (acquireCpu_got hdone).load_le
  · rename_i hdone
    rw [acquireCpu_stuck (eq_false_of_ne_true hdone)]
    exact Nat.le_refl _

theorem borrowCpu_gain :
    load S p (borrowCpu S p d c).1 ≤ load S p d + if done (borrowCpu S p d c).2 then 1 else 0 := by
  split
  · rename_i hdone
    exact (borrowCpu_got .borrow hdone).load_le
  · rename_i hdone
    rw [borrowCpu_stuck (eq_false_of_ne_true hdone)]
    exact Nat.le_refl _

theorem acquireCpu_reachable (hp0 : p ≠ 0) (hq : d.queuesEnabled = false ∨ (d.nodeInfo c).owner = p) :
    reachable S .acquire asks p w (acquireCpu S p d c).1 ≤ reachable S .acquire asks p w d := by
  cases hdone : done (acquireCpu S p d c).2 with
  | true => exact (acquireCpu_got hdone).reachable_le hp0 hq
  | false => rw [acquireCpu_stuck hdone]

theorem borrowCpu_reachable (hp0 : p ≠ 0) :
    reachable S k asks p w (borrowCpu S p d c).1 ≤ reachable S k asks p w d := by
  cases hdone : done (borrowCpu S p d c).2 with
  | true => exact (borrowCpu_got k hdone).reachable_le hp0 (.inl rfl)
  | false => rw [borrowCpu_stuck hdone]

/-! ### The loops -/

theorem coreCpus_length (hcores : ∀ core ∈ S.cores, core.card ≤ T) (coreId : Option ℕ) :
    (coreCpus S coreId).length ≤ T := by
  have hmask : ((coreId.bind (muGetCoreMaskByCoreid S)).getD ∅).card ≤ T := by
    cases hm : coreId.bind (muGetCoreMaskByCoreid S) with
    | none => exact Nat.zero_le T
    | some core =>
      obtain ⟨i, -, hi⟩ := Option.bind_eq_some_iff.mp hm
      exact hcores core (List.mem_of_getElem? hi)
  refine le_trans ?_ hmask
  unfold coreCpus muCpus
  rw [← List.toFinset_card_of_nodup (List.nodup_range.filter _)]
  refine card_le_card fun x hx => ?_
  exact of_decide_eq_true (List.mem_filter.mp (List.mem_toFinset.mp hx)).2

theorem acquireCpus_gains (d : Shdata) (l : List ℕ) (n : ℤ) :
    (load S p (acquireCpusInArray S p d l n).1 : ℤ) + (acquireCpusInArray S p d l n).2.2 ≤ load S p d + n :=
  arrayLoop_gains (f := load S p) (fun _ _ => acquireCpu_gain) (fun d _ => core_gains (fun _ _ => acquireCpu_gain) _ d)
    l none d n .noupdt

theorem borrowCpus_gains (d : Shdata) (l : List ℕ) (n : ℤ) :
    (load S p (borrowCpusInArray S p d l n).1 : ℤ) + (borrowCpusInArray S p d l n).2.2 ≤ load S p d + n :=
  arrayLoop_gains (f := load S p) (fun _ _ => borrowCpu_gain) (fun d _ => core_gains (fun _ _ => borrowCpu_gain) _ d)
    l none d n .noupdt

variable {smt : Bool}

theorem smtLoop_left {op : Shdata → ℕ → Shdata × DlbError} (hT : 1 ≤ T)
    (hcores : smt = true → ∀ core ∈ S.cores, core.card ≤ T)
    (hop : ∀ d c, d.hwHasSmt = smt → (op d c).1.hwHasSmt = smt) (l : List ℕ) (n : ℤ) (hsmt : d.hwHasSmt = smt)
    (hn : 1 - (T : ℤ) ≤ n) :
    1 - (T : ℤ) ≤ (arrayLoop S (fun d k => coreLoop op p (coreCpus S k) d .noupdt 0) op l none d n .noupdt).2.2 := by
  refine arrayLoop_left hT (fun d k => coreLoop_keeps hop _ _ _ _) hop (fun d k hd hs => ?_) l none d n .noupdt hsmt hn
  exact (coreLoop_count_le _ _ _ _).trans (by rw [Nat.zero_add]; exact coreCpus_length (hcores (hd.symm.trans hs)) k)

theorem acquireCpus_left (hT : 1 ≤ T) (hcores : smt = true → ∀ core ∈ S.cores, core.card ≤ T) (d : Shdata)
    (l : List ℕ) (n : ℤ) (hsmt : d.hwHasSmt = smt) (hn : 1 - (T : ℤ) ≤ n) :
    1 - (T : ℤ) ≤ (acquireCpusInArray S p d l n).2.2 :=
  smtLoop_left hT hcores (fun d c h => (acquireCpu_asks (S := S) (q := p) (d := d) (c := c)).flags.smt.trans h) l n
    hsmt hn

theorem borrowCpus_left (hT : 1 ≤ T) (hcores : smt = true → ∀ core ∈ S.cores, core.card ≤ T) (d : Shdata)
    (l : List ℕ) (n : ℤ) (hsmt : d.hwHasSmt = smt) (hn : 1 - (T : ℤ) ≤ n) :
    1 - (T : ℤ) ≤ (borrowCpusInArray S p d l n).2.2 :=
  smtLoop_left hT hcores (fun d c h => (borrowCpu_asks (S := S) (q := p) (d := d) (c := c)).flags.smt.trans h) l n
    hsmt hn

/-! ### The calls -/

theorem stages_gains (w : Wish) (d : Shdata) (n : ℤ) :
    (load S p (acquireStages S w d p n).1 : ℤ) + (acquireStages S w d p n).2.2 ≤ load S p d + n := by
  refine (stage_gains borrowCpus_gains _ _).trans ?_
  refine (stage_gains acquireCpus_gains _ _).trans ?_
  exact stage_gains acquireCpus_gains _ _

theorem stages_left (hT : 1 ≤ T) (hcores : d.hwHasSmt = true → ∀ core ∈ S.cores, core.card ≤ T) (w : Wish)
    (hn : 1 - (T : ℤ) ≤ n) : 1 - (T : ℤ) ≤ (acquireStages S w d p n).2.2 := by
  have hsmt : ∀ l r, Asks p d r.1 → Asks p d (stage (acquireCpusInArray S p) l r).1 := fun l r h =>
    stage_keeps (asks_kept d).acquireCpus l r h
  have hflag : ∀ d', Asks p d d' → d'.hwHasSmt = d.hwHasSmt := fun _ h => h.flags.smt
  refine stage_left (P := Asks p d) (fun d' l n h => borrowCpus_left hT hcores d' l n (hflag d' h)) _ _
    (hsmt _ _ (hsmt _ _ (.refl d))) ?_
  refine stage_left (P := Asks p d) (fun d' l n h => acquireCpus_left hT hcores d' l n (hflag d' h)) _ _
    (hsmt _ _ (.refl d)) ?_
  exact stage_left (P := Asks p d) (fun d' l n h => acquireCpus_left hT hcores d' l n (hflag d' h)) _ _ (.refl d) hn

/-- What the stages keep: the owners, the flags, and a bound on what the process could reach. -/
structure Reaching (S : System) (p : Pid) (asks : Bool) (w : Wish) (d d1 : Shdata) : Prop where
  reachable : reachable S .acquire asks p w d1 ≤ reachable S .acquire asks p w d
  owner : ∀ x, (d1.nodeInfo x).owner = (d.nodeInfo x).owner
  flags : SameFlags d d1

theorem Got.At.owner (h : Got.At k queues p c d d1) (x : ℕ) : (d1.nodeInfo x).owner = (d.nodeInfo x).owner := by
  obtain ⟨⟨j, hj, hinfo⟩, -⟩ := h
  rw [hinfo]
  by_cases hx : x = c
  · rw [hx, update_self, hj.owner]
  · rw [update_of_ne hx]

theorem Reaching.acquireCpu (h : Reaching S p asks w d d1) (hp0 : p ≠ 0)
    (hq : d.queuesEnabled = false ∨ (d.nodeInfo c).owner = p) : Reaching S p asks w d (acquireCpu S p d1 c).1 := by
  refine ⟨(acquireCpu_reachable hp0 ?_).trans h.reachable, fun x => ?_, h.flags.trans acquireCpu_asks.flags⟩
  · rwa [h.flags.queues, h.owner]
  · cases hdone : done (Cpuinfo.acquireCpu S p d1 c).2 with
    | true => exact ((acquireCpu_got hdone).owner x).trans (h.owner x)
    | false => rw [acquireCpu_stuck hdone, h.owner]

theorem Reaching.borrowCpu (h : Reaching S p asks w d d1) (hp0 : p ≠ 0) :
    Reaching S p asks w d (borrowCpu S p d1 c).1 := by
  refine ⟨(borrowCpu_reachable hp0).trans h.reachable, fun x => ?_, h.flags.trans borrowCpu_asks.flags⟩
  cases hdone : done (Cpuinfo.borrowCpu S p d1 c).2 with
  | true => exact ((borrowCpu_got .borrow hdone).owner x).trans (h.owner x)
  | false => rw [borrowCpu_stuck hdone, h.owner]

theorem Reaching.acquireCpus (h : Reaching S p asks w d d1) (hp0 : p ≠ 0)
    (hd : d.queuesEnabled = false ∨ d.hwHasSmt = false) {l : List ℕ} (hl : ∀ c ∈ l, (d.nodeInfo c).owner = p) :
    Reaching S p asks w d (acquireCpusInArray S p d1 l n).1 := by
  rcases hd with hq | hsmt
  · have hcpu : ∀ d1 c, Reaching S p asks w d d1 → Reaching S p asks w d (Cpuinfo.acquireCpu S p d1 c).1 := fun _ _ h =>
      h.acquireCpu hp0 (.inl hq)
    exact arrayLoop_keeps (fun _ _ => coreLoop_keeps hcpu _ _ _ _) hcpu l none d1 n .noupdt h
  · exact arrayLoop_keeps_cpus (fun d1 h => h.flags.smt.trans hsmt) l none d1 n .noupdt
      (fun d1 c hc h => h.acquireCpu hp0 (.inr (hl c hc))) h

theorem stages_reaching (hp0 : p ≠ 0) (hd : d.queuesEnabled = false ∨ d.hwHasSmt = false) (asks : Bool) (w : Wish) :
    Reaching S p asks w d (acquireStages S w d p n).1 := by
  have hborrow : ∀ d1 c, Reaching S p asks w d d1 → Reaching S p asks w d (Cpuinfo.borrowCpu S p d1 c).1 :=
    fun _ _ h => h.borrowCpu hp0
  have hstart : Reaching S p asks w d d := ⟨Nat.le_refl _, fun _ => rfl, .refl d⟩
  have howned : ∀ f : CpuInfo → Bool, (∀ i, f i = true → i.owner = p) →
      ∀ c ∈ w.cpusPriorityArray.filter fun c => f (d.nodeInfo c), (d.nodeInfo c).owner = p := fun f hf c hc =>
    hf _ (List.mem_filter.mp hc).2
  refine stage_along (P := Reaching S p asks w d) ?_ (arrayLoop_keeps
    (fun _ _ => coreLoop_keeps hborrow _ _ _ _) hborrow _ none _ _ .noupdt ?_)
  all_goals
    refine stage_along (P := Reaching S p asks w d) ?_ (Reaching.acquireCpus ?_ hp0 hd
      (howned (ownedNonIdle p) fun i hi => (of_decide_eq_true hi).2.1))
    all_goals exact stage_along (P := Reaching S p asks w d) hstart (Reaching.acquireCpus hstart hp0 hd
      (howned (ownedIdle p) fun i hi => (of_decide_eq_true hi).2.1))

/-! ### The petitions -/

/-- The load, and the CPUs that an acquire without a number asks for. -/
def asking (S : System) (p : Pid) (w : Wish) (d : Shdata) : ℕ :=
  ∑ c ∈ range S.size, ((d.nodeInfo c).load p + if (d.nodeInfo c).Asked p w c then 1 else 0) +
    d.lewiMaskRequests.weight (·.grants p)

theorem load_le_asking : load S p d ≤ asking S p w d :=
  Nat.add_le_add_right (sum_le_sum fun _ _ => Nat.le_add_right _ _) _

theorem asking_le_reachable : asking S p w d ≤ reachable S k true p w d := by
  refine Nat.add_le_add_right (sum_le_sum fun c _ => Nat.add_le_add_left ?_ _) _
  by_cases ha : (d.nodeInfo c).Asked p w c
  · rw [if_pos ha, if_pos (.inr ⟨rfl, ha⟩)]
  · rw [if_neg ha]
    exact Nat.zero_le _

theorem petitionCpu_asking (r : Shdata × DlbError) (hc : c ∈ w.cpusPriorityArray) :
    asking S p w (petitionCpu p r c).1 ≤ asking S p w r.1 := by
  unfold petitionCpu
  dsimp only
  split
  · rename_i hs
    split
    · rename_i hr
      split
      · rename_i requests hq
        have hweight := Queue.enqueue_weight (g := fun pid => if pid = p then 1 else 0) hq
        rw [if_pos rfl] at hweight
        have hbefore : (r.1.nodeInfo c).Asked p w c := ⟨hc, hs, hr⟩
        have hafter : ¬({ r.1.nodeInfo c with requests := requests } : CpuInfo).Asked p w c := fun h =>
          h.2.2 ((Queue.enqueue_items hq).mpr (.inr rfl))
        have hcounts : ({ r.1.nodeInfo c with requests := requests } : CpuInfo).Counts p ↔ (r.1.nodeInfo c).Counts p :=
          Iff.rfl
        have hentry : ({ r.1.nodeInfo c with requests := requests } : CpuInfo).load p +
            (if ({ r.1.nodeInfo c with requests := requests } : CpuInfo).Asked p w c then 1 else 0) ≤
              (r.1.nodeInfo c).load p + (if (r.1.nodeInfo c).Asked p w c then 1 else 0) + 0 := by
          rw [if_neg hafter, if_pos hbefore]
          unfold CpuInfo.load
          rw [if_congr hcounts rfl rfl]
          dsimp only
          omega
        have hsum := Lib.sum_update_le r.1.nodeInfo (fun c i => i.load p + if i.Asked p w c then 1 else 0) c
          { r.1.nodeInfo c with requests := requests } S.size hentry
        exact Nat.add_le_add_right hsum _
      · exact Nat.le_refl _
    · exact Nat.le_refl _
  · exact Nat.le_refl _

def AskedBefore (p : Pid) (w : Wish) (d d1 : Shdata) : Prop :=
  ∀ x, (d1.nodeInfo x).Asked p w x → (d.nodeInfo x).Asked p w x

theorem Got.At.askedBefore {d2 : Shdata} (h : Got.At k queues p c d1 d2) (hd : AskedBefore p w d d1) :
    AskedBefore p w d d2 := by
  obtain ⟨⟨j, hj, hinfo⟩, -⟩ := h
  intro x hx
  rw [hinfo] at hx
  by_cases hxc : x = c
  · subst hxc
    rw [update_self] at hx
    exact hd x (hj.asked_of hx)
  · rw [update_of_ne hxc] at hx
    exact hd x hx

theorem stages_asked (hasks : k.asks w d = true) : asking S p w (acquireStages S w d p n).1 ≤
    load S p (acquireStages S w d p n).1 + k.asked S p w d := by
  have hbefore : AskedBefore p w d (acquireStages S w d p n).1 := by
    refine stages_keep (P := AskedBefore p w d) (fun d1 c h => ?_) (fun d1 c h => ?_) (fun _ h => h) w n
    · cases hdone : done (acquireCpu S p d1 c).2 with
      | true => exact (acquireCpu_got hdone).askedBefore h
      | false => rwa [acquireCpu_stuck hdone]
    · cases hdone : done (borrowCpu S p d1 c).2 with
      | true => exact (borrowCpu_got .borrow hdone).askedBefore h
      | false => rwa [borrowCpu_stuck hdone]
  generalize (acquireStages S w d p n).1 = d1 at hbefore ⊢
  have hsum : ∑ c ∈ range S.size, (if (d1.nodeInfo c).Asked p w c then 1 else 0) ≤ k.asked S p w d := by
    unfold Ask.asked
    rw [card_filter]
    refine sum_le_sum fun c _ => ?_
    by_cases ha : (d1.nodeInfo c).Asked p w c
    · rw [if_pos ha, if_pos ⟨hasks, hbefore c ha⟩]
    · rw [if_neg ha]
      exact Nat.zero_le _
  unfold asking load
  rw [sum_add_distrib]
  omega

theorem Ask.ncpus_nonneg (h : ¬w.returnsEarly u p (k.stale w u p) = true) : 0 ≤ w.ncpus S u p := by
  have hnumber : 0 ≤ w.requestedNcpus.getD S.size := by
    cases hr : w.requestedNcpus with
    | none => exact Int.natCast_nonneg _
    | some m => exact (Wish.requested_pos h m hr).le
  unfold Wish.ncpus
  dsimp only
  split
  · omega
  · exact hnumber

theorem acquire_load (hp0 : p ≠ 0) (hT : 1 ≤ T) (hcores : d.hwHasSmt = true → ∀ core ∈ S.cores, core.card ≤ T)
    (hn : 0 ≤ n) (hnumber : n = w.ncpus S u p) :
    (load S p (addPetitions w p (acquireStages S w d p n)).1 : ℤ) ≤ load S p d + Ask.acquire.most S p w u d + (T - 1) := by
  have hgain := stages_gains (S := S) (p := p) w d n
  have hleft : 1 - (T : ℤ) ≤ (acquireStages S w d p n).2.2 := stages_left hT hcores w (by omega)
  have hqueues : (acquireStages S w d p n).1.queuesEnabled = d.queuesEnabled :=
    ((asks_kept d).stages (.refl d) w n).flags.queues
  have hreach : d.queuesEnabled = false ∨ d.hwHasSmt = false →
      reachable S .acquire (Ask.acquire.asks w d) p w (acquireStages S w d p n).1 ≤
        load S p d + Ask.acquire.spare S p w d + Ask.acquire.asked S p w d := fun h =>
    (stages_reaching hp0 h _ w).reachable.trans (Nat.le_of_eq reachable_eq)
  have hasked : Ask.acquire.asks w d = true → asking S p w (acquireStages S w d p n).1 ≤
      load S p (acquireStages S w d p n).1 + Ask.acquire.asked S p w d := fun h => stages_asked h
  have hbelow : ∀ asks, load S p (acquireStages S w d p n).1 ≤ reachable S .acquire asks p w (acquireStages S w d p n).1 :=
    fun _ => load_le_reachable
  have hasking : asking S p w (acquireStages S w d p n).1 ≤ reachable S .acquire true p w (acquireStages S w d p n).1 :=
    asking_le_reachable
  have hmost : Ask.acquire.most S p w u d = n + Ask.acquire.asked S p w d ∨
      ((d.queuesEnabled = false ∨ d.hwHasSmt = false) ∧ (d.queuesEnabled = true → w.requestedNcpus = none) ∧
        Ask.acquire.most S p w u d = min n (Ask.acquire.spare S p w d) + Ask.acquire.asked S p w d) := by
    unfold Ask.most
    rw [← hnumber]
    by_cases hcond : Ask.acquire = .acquire ∧ d.queuesEnabled = true ∧ (w.requestedNcpus ≠ none ∨ d.hwHasSmt = true)
    · exact .inl (by rw [if_pos hcond])
    · refine .inr ⟨?_, fun hq => ?_, by rw [if_neg hcond]⟩
      · by_cases hq : d.queuesEnabled = true
        · exact .inr (eq_false_of_ne_true fun hs => hcond ⟨rfl, hq, .inr hs⟩)
        · exact .inl (eq_false_of_ne_true hq)
      · by_contra hr
        exact hcond ⟨rfl, hq, .inl hr⟩
  unfold addPetitions
  rw [hqueues]
  generalize acquireStages S w d p n = r at hgain hleft hreach hasked hbelow hasking ⊢
  by_cases hq : d.queuesEnabled = true
  · rw [if_pos hq]
    cases hr : w.requestedNcpus with
    | some m =>
      have hall := hmost.resolve_right fun h => nomatch hr.symm.trans (h.2.1 hq)
      dsimp only
      split
      · -- what the stages did not get is asked for
        rename_i hrest
        have hpetition : load S p (petition r.1 ⟨p, r.2.2.toNat, w.cpusPriorityArray.toFinset⟩).1 ≤
            load S p r.1 + LewiMaskRequest.grants p ⟨p, r.2.2.toNat, w.cpusPriorityArray.toFinset⟩ := petition_load _
        have hgrants : LewiMaskRequest.grants p ⟨p, r.2.2.toNat, w.cpusPriorityArray.toFinset⟩ = r.2.2.toNat := by
          have hpos : r.2.2.toNat ≠ 0 := by omega
          unfold LewiMaskRequest.grants
          rw [if_pos rfl, if_neg hpos]
        omega
      · dsimp only
        omega
    | none =>
      have hasks : Ask.acquire.asks w d = true := by
        exact decide_eq_true ⟨rfl, hq, hr⟩
      have hpetitions : load S p (w.cpusPriorityArray.foldl (petitionCpu p) (r.1, r.2.1)).1 ≤ asking S p w r.1 :=
        load_le_asking.trans (List.foldlRecOn (motive := fun r' : Shdata × DlbError => asking S p w r'.1 ≤ asking S p w r.1)
          _ _ (Nat.le_refl _) fun r' h c hc => (petitionCpu_asking r' hc).trans h)
      have hlater := hasked hasks
      dsimp only
      rcases hmost with hall | ⟨hcond, -, hall⟩
      · omega
      · have hfew := hreach hcond
        rw [hasks] at hfew
        omega
  · have hpolling : d.queuesEnabled = false := eq_false_of_ne_true hq
    have hfew := hreach (.inl hpolling)
    have hlow := hbelow (Ask.acquire.asks w d)
    rw [if_neg hq]
    dsimp only
    rcases hmost with hall | ⟨-, -, hall⟩
    · omega
    · omega

theorem borrow_load (hp0 : p ≠ 0) (hT : 1 ≤ T) (hcores : d.hwHasSmt = true → ∀ core ∈ S.cores, core.card ≤ T)
    (hn : 0 ≤ n) (hnumber : n ≤ w.ncpus S u p) :
    (load S p (borrowFreeNodes S w p (borrowCpusInArray S p d w.cpusPriorityArray n)).1 : ℤ) ≤
      load S p d + Ask.borrow.most S p w u d + (T - 1) := by
  have hgain : (load S p (borrowFreeNodes S w p (borrowCpusInArray S p d w.cpusPriorityArray n)).1 : ℤ) +
      (borrowFreeNodes S w p (borrowCpusInArray S p d w.cpusPriorityArray n)).2.2 ≤ load S p d + n := by
    refine le_trans ?_ (borrowCpus_gains d w.cpusPriorityArray n)
    unfold borrowFreeNodes
    split
    · exact stage_gains borrowCpus_gains _ _
    · exact le_refl _
  have hflag : ∀ d', Asks p d d' → d'.hwHasSmt = d.hwHasSmt := fun _ h => h.flags.smt
  have hleft : 1 - (T : ℤ) ≤ (borrowFreeNodes S w p (borrowCpusInArray S p d w.cpusPriorityArray n)).2.2 := by
    have hfirst : 1 - (T : ℤ) ≤ (borrowCpusInArray S p d w.cpusPriorityArray n).2.2 :=
      borrowCpus_left hT hcores d _ n rfl (by omega)
    unfold borrowFreeNodes
    split
    · exact stage_left (P := Asks p d) (fun d' l n h => borrowCpus_left hT hcores d' l n (hflag d' h)) _ _
        ((asks_kept d).borrowCpus d _ n (.refl d)) hfirst
    · exact hfirst
  have hreach : reachable S .borrow (Ask.borrow.asks w d) p w
      (borrowFreeNodes S w p (borrowCpusInArray S p d w.cpusPriorityArray n)).1 ≤
        load S p d + Ask.borrow.spare S p w d + Ask.borrow.asked S p w d := by
    rw [← reachable_eq]
    have hcpu : ∀ d1 c, reachable S .borrow (Ask.borrow.asks w d) p w d1 ≤ reachable S .borrow (Ask.borrow.asks w d) p w d →
        reachable S .borrow (Ask.borrow.asks w d) p w (borrowCpu S p d1 c).1 ≤
          reachable S .borrow (Ask.borrow.asks w d) p w d := fun _ _ h => (borrowCpu_reachable hp0).trans h
    have hcpus : ∀ d1 l n, reachable S .borrow (Ask.borrow.asks w d) p w d1 ≤
        reachable S .borrow (Ask.borrow.asks w d) p w d →
          reachable S .borrow (Ask.borrow.asks w d) p w (borrowCpusInArray S p d1 l n).1 ≤
            reachable S .borrow (Ask.borrow.asks w d) p w d := fun d1 l n h =>
      arrayLoop_keeps (P := fun d1 => reachable S .borrow (Ask.borrow.asks w d) p w d1 ≤
        reachable S .borrow (Ask.borrow.asks w d) p w d) (fun _ _ => coreLoop_keeps hcpu _ _ _ _) hcpu l none d1 n
        .noupdt h
    exact borrowFreeNodes_keeps (P := fun d1 => reachable S .borrow (Ask.borrow.asks w d) p w d1 ≤
      reachable S .borrow (Ask.borrow.asks w d) p w d) hcpus w _ (hcpus _ _ _ (Nat.le_refl _))
  have hlow : load S p (borrowFreeNodes S w p (borrowCpusInArray S p d w.cpusPriorityArray n)).1 ≤
      reachable S .borrow (Ask.borrow.asks w d) p w
        (borrowFreeNodes S w p (borrowCpusInArray S p d w.cpusPriorityArray n)).1 := load_le_reachable
  unfold Ask.most
  omega

theorem Ask.exec_load (hp0 : p ≠ 0) (hT : 1 ≤ T) (hcores : d.hwHasSmt = true → ∀ core ∈ S.cores, core.card ≤ T)
    (hearly : ¬w.returnsEarly u p (k.stale w u p) = true) :
    (load S p (k.exec S co d p w u).1 : ℤ) ≤ load S p d + k.most S p w u d + (T - 1) := by
  have hn : 0 ≤ w.ncpus S u p := Ask.ncpus_nonneg hearly
  cases k with
  | acquire =>
    have hexec : (Ask.acquire.exec S co d p w u).1 = (addPetitions w p (acquireStages S w d p (w.ncpus S u p))).1 :=
      congrArg Prod.fst (if_neg hearly)
    rw [hexec]
    exact acquire_load hp0 hT hcores hn rfl
  | borrow =>
    rw [Ask.borrow_attempt hearly]
    split
    · exact borrow_load hp0 hT hcores (le_refl 0) hn
    · exact borrow_load hp0 hT hcores hn (le_refl _)

end Attempts

/-! ## Runs -/

/-- The process acquires or borrows by number or by mask, or takes its requests back; another process makes a call; what
another process returns later in asynchronous mode. -/
inductive LimitEvent where
  | ask (k : Ask) (co : Caller) (w : Wish) (u : Unlocked)
  | removeRequests
  | call (co : Caller) (pid : Pid) (call : Call)
  | returnAsync (pid : Pid) (cpuid : ℕ)

namespace LimitEvent

variable (S) (p : Pid) (d : Shdata)

def next : LimitEvent → Shdata
  | .ask k co w u => (k.exec S co { d with tasks := [] } p w u).1
  | .removeRequests => shmemRemoveRequests S { d with tasks := [] } p
  | .call co pid operation => exec S co pid d operation
  | .returnAsync pid cpuid => Cpuinfo.returnAsync S pid d cpuid

/-- The attempts of the process have `max_parallelism`, the other events are of other processes. -/
def Limited (p : Pid) (max : ℤ) : LimitEvent → Prop
  | .ask _ _ w _ => w.maxParallelism = max
  | .removeRequests => True
  | .call _ pid _ => pid ≠ p
  | .returnAsync pid _ => pid ≠ p

/-- An attempt returns early, or the load with what it may get or ask for is within the limit. -/
def Safe (limit : ℤ) : LimitEvent → Prop
  | .ask k _ w u => w.returnsEarly u p (k.stale w u p) = true ∨ load S p d + k.most S p w u d ≤ limit
  | _ => True

/-- After the event the process guests no more CPUs than the limit, and with SMT the rest of one core. -/
def Within (T : ℕ) (limit : ℤ) (e : LimitEvent) : Prop := (guests S p (e.next S p d) : ℤ) ≤ limit + (T - 1)

instance (T : ℕ) (limit : ℤ) : DecidablePred (Within S p d T limit) := fun _ => inferInstanceAs (Decidable (_ ≤ _))

end LimitEvent

section Run

variable {T : ℕ} {limit max : ℤ}

structure WithinLimit (S : System) (p : Pid) (T : ℕ) (limit : ℤ) (d : Shdata) : Prop where
  load : (load S p d : ℤ) ≤ limit + (T - 1)
  cores : d.hwHasSmt = true → ∀ core ∈ S.cores, core.card ≤ T

theorem WithinLimit.next (h : WithinLimit S p T limit d) (hp0 : p ≠ 0) (hT : 1 ≤ T) (e : LimitEvent)
    (he : e.Limited p max) (hsafe : e.Safe S p d limit) : WithinLimit S p T limit (e.next S p d) := by
  have hload := h.load
  cases e with
  | ask k co w u =>
    refine ⟨?_, fun hs => h.cores ?_⟩
    · by_cases hearly : w.returnsEarly u p (k.stale w u p) = true
      · show (Cpuinfo.load S p (k.exec S co _ p w u).1 : ℤ) ≤ _
        rw [Ask.exec_early hearly]
        exact hload
      · have hsafe := hsafe.resolve_left hearly
        have hattempt : (Cpuinfo.load S p (k.exec S co { d with tasks := [] } p w u).1 : ℤ) ≤
            Cpuinfo.load S p d + k.most S p w u d + (T - 1) := Ask.exec_load hp0 hT h.cores hearly
        exact hattempt.trans (by omega)
    · have hflags : SameFlags { d with tasks := [] } (k.exec S co { d with tasks := [] } p w u).1 := Ask.exec_flags
      exact hflags.smt.symm.trans hs
  | removeRequests =>
    have hfewer : Cpuinfo.load S p (shmemRemoveRequests S { d with tasks := [] } p) ≤ Cpuinfo.load S p d :=
      shmemRemoveRequests_load
    have hsmt : (shmemRemoveRequests S { d with tasks := [] } p).hwHasSmt = d.hwHasSmt :=
      shmemRemoveRequests_asks.flags.smt
    exact ⟨(Int.ofNat_le.mpr hfewer).trans hload, fun hs => h.cores (hsmt.symm.trans hs)⟩
  | call co pid call =>
    have hfewer : Cpuinfo.load S p (exec S co pid d call) ≤ Cpuinfo.load S p d := call_load hp0 he co call
    exact ⟨(Int.ofNat_le.mpr hfewer).trans hload, fun hs => h.cores ((call_asks co call).flags.smt.symm.trans hs)⟩
  | returnAsync pid cpuid =>
    have hfewer : Cpuinfo.load S p (Cpuinfo.returnAsync S pid d cpuid) ≤ Cpuinfo.load S p d := returnAsync_load hp0 he
    exact ⟨(Int.ofNat_le.mpr hfewer).trans hload, fun hs => h.cores (returnAsync_flags.smt.symm.trans hs)⟩

end Run

/-- **The limit holds** if every attempt counts the whole load. Processes make calls, and one of them, `p`, has
`max_parallelism` and acquires and borrows. If at first the CPUs that it has claimed or asked for are within the limit, and
at every attempt that does not return early its load and what it may get or ask for are, then it never guests more CPUs
than the limit or than at first, and with SMT the rest of one core. -/
theorem guests_le_limit (S : System) {p : Pid} (hp0 : p ≠ 0) {T : ℕ} (hT : 1 ≤ T) {start : Shdata}
    (hcores : start.hwHasSmt = true → ∀ core ∈ S.cores, core.card ≤ T) {M : ℕ}
    (hstart : load S p start ≤ max M (guests S p start)) {events : List LimitEvent}
    (hevents : ∀ e ∈ events, e.Limited p M)
    (hsafe : Lib.Along (LimitEvent.next S p) (fun d e => e.Safe S p d (max M (guests S p start) : ℕ)) start events) :
    Lib.Along (LimitEvent.next S p) (fun d e => e.Within S p d T (max M (guests S p start) : ℕ)) start events := by
  have hfirst : WithinLimit S p T (max M (guests S p start) : ℕ) start := ⟨by omega, hcores⟩
  refine (Lib.Along.invariant (R := fun e : LimitEvent => e.Limited p M)
    (I := WithinLimit S p T (max M (guests S p start) : ℕ)) (fun _ e h he hs => h.next hp0 hT e he hs)
    (fun d e h he hs => ?_) start events hfirst hevents hsafe).1
  have hafter := (h.next hp0 hT e he hs).load
  exact (Int.ofNat_le.mpr guests_le_load).trans hafter

/-- Two processes with a core each run LeWI, and `1` has a new `max_parallelism`. -/
def limitStart (max : ℕ) : Shdata :=
  exec twoCores {} 1 (bothJoined.foldl (AsyncNode.next twoCores) {}).shm (.updateMaxParallelism max)

/-- `2` lends its core, and `1` borrows in an array. -/
def lendThenBorrow (max : ℕ) (cpus : List ℕ) : List LimitEvent :=
  [.call {} 2 (.lendCpu 1), .ask .borrow {} { cpusPriorityArray := cpus, maxParallelism := max }
    (exec twoCores {} 2 (limitStart max) (.lendCpu 1)).unlocked]

theorem guests_le_limit_lend : Lib.Along (LimitEvent.next twoCores 1)
    (fun d e => e.Within twoCores 1 d 1 (max 2 (guests twoCores 1 (limitStart 2)) : ℕ)) (limitStart 2)
    (lendThenBorrow 2 [0, 1]) := by
  refine guests_le_limit twoCores one_ne_zero (le_refl 1) (fun hs => absurd hs (by decide)) (by decide)
    (by simp [lendThenBorrow, LimitEvent.Limited]) ⟨trivial, ?_, trivial⟩
  exact .inr (by decide)

/-- **A mask without the process's own CPUs.** `1` may use one CPU and guests its own; it borrows in a mask of another
CPU, where it guests none, and guests two. -/
theorem mask_not_counted : ¬∀ events : List LimitEvent, (∀ e ∈ events, e.Limited 1 (1 : ℕ)) →
    Lib.Along (LimitEvent.next twoCores 1)
      (fun d e => e.Within twoCores 1 d 1 (max 1 (guests twoCores 1 (limitStart 1)) : ℕ)) (limitStart 1) events := by
  intro hall
  have hrun := hall (lendThenBorrow 1 [1]) (by simp [lendThenBorrow, LimitEvent.Limited])
  exact absurd hrun.2.1 (by decide)

end Dlb.Cpuinfo

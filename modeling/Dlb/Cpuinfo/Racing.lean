import Dlb.Cpuinfo.Shown

/-!
# A borrow that races with a lend

A failed borrow stores the time in `last_borrow`, a lend stores it in `timestamp_cpu_lent`, and a borrow returns early
if `last_borrow` is newer. Both times are read and stored after the lock was released. So a lend that takes place
between the failed attempt of a borrow and its store is missed by the next borrow (`lent_meanwhile`): the next borrow
finds every CPU that is lent and idle if and only if no store of `last_borrow` comes after such a lend
(`borrow_finds_iff`).
-/

namespace Dlb.Cpuinfo

variable (S : System)

def SomeIdle (d : Shdata) : Prop := ∃ c < S.size, (d.nodeInfo c).Idle

instance (d : Shdata) : Decidable (SomeIdle S d) := inferInstanceAs (Decidable (∃ c < S.size, _ ∧ _))

/-! ## The atomic steps -/

/-- The locked part of `shmem_cpuinfo__lend_cpu_mask`, and of `shmem_cpuinfo__lend_cpu` for a mask of one CPU. -/
def lendLocked (d : Shdata) (pid : Pid) (mask : CpuSet) : Shdata :=
  (nodeCpus S mask).foldl (lendCpu S pid) { d with tasks := [] }

/-- The locked part of `shmem_cpuinfo__borrow_ncpus_from_cpu_subset`. -/
def borrowLocked (d : Shdata) (pid : Pid) (w : Wish) (ncpus : ℤ) : Shdata × DlbError :=
  let r := borrowFreeNodes S w pid
    (borrowCpusInArray S pid { d with tasks := [] } w.cpusPriorityArray (if d.freeCpus = ∅ then 0 else ncpus))
  (r.1, r.2.1)

deriving instance DecidableEq for Wish

/-- Where the borrower is: it makes no call, it goes on with so many CPUs after its test, its attempt has failed. -/
inductive Borrower where
  | idle
  | tested (w : Wish) (ncpus : ℤ)
  | failed
deriving DecidableEq

/-- The shared memory, `last_borrow`, the last time that was read, and where the two processes are. A lender has
released the lock and not stored the time yet if `lending`. -/
structure Race where
  shm : Shdata
  lastBorrow : ℤ
  clock : ℤ
  lending : Bool := false
  borrower : Borrower := .idle

/-- The steps of the lender and of the borrower. A clock is read some `ticks` after the last one, and what the borrower
scans for its `max_parallelism` is read without the lock. -/
inductive RaceStep where
  | lend (mask : CpuSet)
  | storeLent (ticks : ℕ)
  | test (w : Wish) (guestScan : ℕ → CpuInfo)
  | attempt
  | storeBorrow (ticks : ℕ)

namespace Race

variable (p q : Pid) (r : Race)

def next : RaceStep → Race
  | .lend mask => if r.lending then r else { r with shm := lendLocked S r.shm p mask, lending := true }
  | .storeLent ticks =>
    if r.lending then
      { r with shm := r.shm.updateShmemTimestamp (r.clock + ticks + 1), clock := r.clock + ticks + 1, lending := false }
    else r
  | .test w guestScan =>
    match r.borrower with
    | .idle =>
      let w := { w with lastBorrow := some r.lastBorrow }
      let u : Unlocked := ⟨r.shm.timestampCpuLent, guestScan, guestScan⟩
      if w.returnsEarly u q (w.stale u) then r else { r with borrower := .tested w (w.ncpus S u q) }
    | _ => r
  | .attempt =>
    match r.borrower with
    | .tested w ncpus =>
      let a := borrowLocked S r.shm q w ncpus
      { r with shm := a.1, borrower := if a.2 = .success then .idle else .failed }
    | _ => r
  | .storeBorrow ticks =>
    match r.borrower with
    | .failed => { r with lastBorrow := r.clock + ticks + 1, clock := r.clock + ticks + 1, borrower := .idle }
    | _ => r

/-- A borrow that asks for CPUs of the array, and may have more. -/
structure Asks (cpus : List ℕ) (w : Wish) : Prop where
  array : w.cpusPriorityArray = cpus
  requested : ∀ n ∈ w.requestedNcpus, 0 < n
  parallelism : w.maxParallelism ≠ 0 → 0 < w.parallelismLeft r.shm.unlocked q

/-- When neither is in a call and a CPU is lent and idle, a borrow takes such a CPU. -/
def Finds (cpus : List ℕ) : Prop :=
  r.lending = false → r.borrower = .idle → SomeIdle S r.shm → ∀ (co : Caller) (w : Wish), Asks q r cpus w →
    ∃ c < S.size, (r.shm.nodeInfo c).Idle ∧
      ((exec S co q r.shm (.borrowNcpusFromCpuSubset { w with lastBorrow := some r.lastBorrow }
        r.shm.unlocked)).nodeInfo c).guest = q

/-- When a failed borrow stores its time, no CPU is lent and idle, or the lender has not stored its own time yet. -/
def Safe : RaceStep → Prop
  | .storeBorrow _ => r.borrower = .failed → r.lending = true ∨ ¬SomeIdle S r.shm
  | _ => True

instance : DecidablePred (r.Safe S)
  | .storeBorrow _ => inferInstanceAs (Decidable (_ → _ ∨ _))
  | .lend _ | .storeLent _ | .test _ _ | .attempt => inferInstanceAs (Decidable True)

end Race

/-! ## The steps make up the calls -/

section Calls

variable {S} {co : Caller} {pid : Pid} {d : Shdata}

theorem shmemBorrowNcpus_eq (w : Wish) (u : Unlocked) :
    shmemBorrowNcpusFromCpuSubset S co { d with tasks := [] } pid w u =
      if w.returnsEarly u pid (w.stale u) then
        ({ d with tasks := [] }, { error := .noupdt, lastBorrow := w.lastBorrow })
      else
        ((borrowLocked S d pid w (w.ncpus S u pid)).1,
          { error := (borrowLocked S d pid w (w.ncpus S u pid)).2
            lastBorrow := if (borrowLocked S d pid w (w.ncpus S u pid)).2 = .success then w.lastBorrow
              else w.lastBorrow.map fun _ => co.now }) := rfl

end Calls

/-! ## Borrowing takes an idle CPU -/

section Takes

variable {S} {co : Caller} {p q : Pid} {d : Shdata} {c : ℕ}

theorem borrowCpu_of_idle (hsmt : d.hwHasSmt = false) (hc : (d.nodeInfo c).Idle) :
    done (borrowCpu S q d c).2 = true ∧ ((borrowCpu S q d c).1.nodeInfo c).guest = q := by
  have heligible : coreIsEligible S d q c = true := by
    unfold coreIsEligible
    simp [hsmt, hc.2]
  unfold borrowCpu
  rw [if_neg (by rw [hc.1]; decide), if_pos ⟨hc.2, heligible⟩]
  split
  · refine ⟨rfl, ?_⟩
    change ((d.set c _).nodeInfo c).guest = q
    rw [set_info]
  · rw [if_pos hc.1]
    refine ⟨rfl, ?_⟩
    rw [noteOccupiedOwned_info]
    change ((d.set c _).nodeInfo c).guest = q
    rw [set_info]

theorem borrowCpu_of_not_idle (hbusy : (d.nodeInfo c).guest = 0 → (d.nodeInfo c).state ≠ .busy)
    (hc : ¬(d.nodeInfo c).Idle) : ∃ e, borrowCpu S q d c = (d, e) ∧ done e = false := by
  unfold borrowCpu
  dsimp only
  split
  · exact ⟨_, rfl, rfl⟩
  rename_i hstate
  split
  · rename_i hguest
    refine absurd ⟨?_, hguest.1⟩ hc
    cases hs : (d.nodeInfo c).state with
    | disabled => exact absurd hs hstate
    | busy => exact absurd hs (hbusy hguest.1)
    | lent => rfl
  · exact ⟨_, rfl, rfl⟩

/-- A process that borrows keeps what it guests, and makes no CPU idle. -/
structure Borrowed (q : Pid) (d d1 : Shdata) : Prop where
  timestamp : d1.timestampCpuLent = d.timestampCpuLent
  idle : ∀ x, (d1.nodeInfo x).Idle → (d.nodeInfo x).Idle
  guest : ∀ x, (d.nodeInfo x).guest = q → (d1.nodeInfo x).guest = q

theorem Borrowed.refl (q : Pid) (d : Shdata) : Borrowed q d d := ⟨rfl, fun _ => id, fun _ => id⟩

theorem Borrowed.trans {d1 d2 : Shdata} (h1 : Borrowed q d d1) (h2 : Borrowed q d1 d2) : Borrowed q d d2 :=
  ⟨h2.timestamp.trans h1.timestamp, fun x h => h1.idle x (h2.idle x h), fun x h => h2.guest x (h1.guest x h)⟩

theorem Borrowed.write {d1 : Shdata} {i : CpuInfo} (hq0 : q ≠ 0) (ht : d1.timestampCpuLent = d.timestampCpuLent)
    (hinfo : d1.nodeInfo = Function.update d.nodeInfo c i) (hi : i.guest = q) : Borrowed q d d1 := by
  refine ⟨ht, fun x hx => ?_, fun x hx => ?_⟩
  · rw [hinfo] at hx
    by_cases hxc : x = c
    · rw [hxc, Function.update_self] at hx
      exact absurd (hi.symm.trans hx.2) hq0
    · rwa [Function.update_of_ne hxc] at hx
  · rw [hinfo]
    by_cases hxc : x = c
    · rw [hxc, Function.update_self, hi]
    · rwa [Function.update_of_ne hxc]

theorem borrowCpu_borrowed (hq0 : q ≠ 0) : Borrowed q d (borrowCpu S q d c).1 := by
  unfold borrowCpu
  dsimp only
  split
  · exact .refl q d
  split
  · split
    · exact .write hq0 rfl rfl rfl
    split
    · refine .write (i := { d.nodeInfo c with guest := q }) hq0 ?_ noteOccupiedOwned_info rfl
      unfold noteOccupiedOwned noteOccupied
      split_ifs <;> rfl
    · exact .refl q d
  · exact .refl q d

theorem borrowLoop_takes (hq0 : q ≠ 0) (hsmt : d.hwHasSmt = false) (hbusy : ∀ x, (d.nodeInfo x).guest = 0 → (d.nodeInfo x).state ≠ .busy)
    (hc : (d.nodeInfo c).Idle) : ∀ (l : List ℕ) (prev : Option ℕ) (ncpus : ℤ) (error : DlbError), c ∈ l → 0 < ncpus →
      ∃ x ∈ l, (d.nodeInfo x).Idle ∧
        ((arrayLoop S (borrowCore S q) (borrowCpu S q) l prev d ncpus error).1.nodeInfo x).guest = q
  | [], _, _, _, hl, _ => absurd hl List.not_mem_nil
  | a :: rest, prev, ncpus, error, hl, hn => by
    unfold arrayLoop
    dsimp only
    rw [if_neg (by omega), hsmt, if_neg Bool.false_ne_true]
    by_cases ha : (d.nodeInfo a).Idle
    · obtain ⟨hdone, hguest⟩ := borrowCpu_of_idle (S := S) (q := q) hsmt ha
      rw [if_pos hdone]
      refine ⟨a, List.mem_cons_self, ha, ?_⟩
      -- the rest of the loop leaves it to the process
      have hcpu : ∀ d' c, (d'.nodeInfo a).guest = q → ((borrowCpu S q d' c).1.nodeInfo a).guest = q :=
        fun _ _ => (borrowCpu_borrowed hq0).guest a
      exact arrayLoop_keeps (P := fun d' => (d'.nodeInfo a).guest = q) (fun _ _ => coreLoop_keeps hcpu _ _ _ _) hcpu
        rest _ _ _ _ hguest
    · obtain ⟨e, heq, hdone⟩ := borrowCpu_of_not_idle (S := S) (q := q) (hbusy a) ha
      rw [heq, hdone, if_neg Bool.false_ne_true]
      have hne : c ≠ a := fun h => ha (h ▸ hc)
      obtain ⟨x, hx, hidle, hguest⟩ := borrowLoop_takes hq0 hsmt hbusy hc rest prev ncpus error
        ((List.mem_cons.mp hl).resolve_left hne) hn
      exact ⟨x, List.mem_cons_of_mem _ hx, hidle, hguest⟩

theorem borrowLocked_keeps {P : Shdata → Prop} (hcpu : ∀ d c, P d → P (borrowCpu S q d c).1)
    (h : P { d with tasks := [] }) (w : Wish) (ncpus : ℤ) : P (borrowLocked S d q w ncpus).1 := by
  have hcpus : ∀ d cpus ncpus, P d → P (borrowCpusInArray S q d cpus ncpus).1 := fun d cpus ncpus hd =>
    arrayLoop_keeps (fun _ _ => coreLoop_keeps hcpu _ _ _ _) hcpu cpus none d ncpus .noupdt hd
  exact borrowFreeNodes_keeps hcpus w _ (hcpus _ _ _ h)

theorem borrowLocked_borrowed (hq0 : q ≠ 0) (w : Wish) (ncpus : ℤ) : Borrowed q d (borrowLocked S d q w ncpus).1 :=
  borrowLocked_keeps (P := Borrowed q d) (fun _ _ h => h.trans (borrowCpu_borrowed hq0)) ⟨rfl, fun _ => id, fun _ => id⟩
    w ncpus

theorem borrowLocked_shown (h : Shown S d) (hq0 : q ≠ 0) (w : Wish) (ncpus : ℤ) :
    Shown S (borrowLocked S d q w ncpus).1 :=
  borrowLocked_keeps (P := Shown S) (fun _ _ h => borrowCpu_shown h hq0) (h.congr rfl rfl rfl) w ncpus

theorem borrowLocked_takes (h : Shown S d) (hS : muSystemHasSmt S = false) (hq0 : q ≠ 0) {w : Wish}
    (hfull : ∀ c < S.size, c ∈ w.cpusPriorityArray) {ncpus : ℤ} (hn : 0 < ncpus) (hidle : SomeIdle S d) :
    ∃ c ∈ w.cpusPriorityArray, (d.nodeInfo c).Idle ∧ ((borrowLocked S d q w ncpus).1.nodeInfo c).guest = q := by
  obtain ⟨c, hlt, hc⟩ := hidle
  have hfree : d.freeCpus ≠ ∅ := Finset.ne_empty_of_mem (h.idle c hc)
  have hbusy : ∀ x, (d.nodeInfo x).guest = 0 → (d.nodeInfo x).state ≠ .busy := fun x hx hb => (h.busy x hb).2 hx
  obtain ⟨x, hmem, hx, hguest⟩ := borrowLoop_takes (S := S) (d := { d with tasks := [] }) hq0 (h.smt hS) hbusy hc
    w.cpusPriorityArray none ncpus .noupdt (hfull c hlt) hn
  have hcpu : ∀ d' c, (d'.nodeInfo x).guest = q → ((borrowCpu S q d' c).1.nodeInfo x).guest = q :=
    fun _ _ => (borrowCpu_borrowed hq0).guest x
  refine ⟨x, hmem, hx, ?_⟩
  unfold borrowLocked
  rw [if_neg hfree]
  exact borrowFreeNodes_keeps (P := fun d' => (d'.nodeInfo x).guest = q)
    (fun _ _ _ hd => arrayLoop_keeps (fun _ _ => coreLoop_keeps hcpu _ _ _ _) hcpu _ none _ _ _ hd) w _ hguest

end Takes

/-! ## The run -/

section Run

variable {S} {p q : Pid} {r : Race} {cpus : List ℕ}

/-- What the steps keep. Outside the window between a failed attempt and its store, and when the lender has stored its
time, a CPU that is lent and idle is newer than the last failed borrow. -/
structure Race.Kept (S : System) (r : Race) : Prop where
  shown : Shown S r.shm
  lastBorrow : r.lastBorrow ≤ r.clock
  timestamp : r.shm.timestampCpuLent ≤ r.clock
  found : r.lending = false → r.borrower ≠ .failed → SomeIdle S r.shm → r.lastBorrow ≤ r.shm.timestampCpuLent

theorem lendLocked_shown {d : Shdata} (h : Shown S d) (mask : CpuSet) : Shown S (lendLocked S d p mask) := by
  have h0 : Shown S { d with tasks := [] } := h.congr rfl rfl rfl
  exact List.foldlRecOn _ _ h0 fun _ hd _ _ => lendCpu_shown hd

theorem assignGuest_timestamp {d : Shdata} {c : ℕ} : (assignGuest S d c).1.timestampCpuLent = d.timestampCpuLent := by
  have hfind : (findNewGuest S d c).1.timestampCpuLent = d.timestampCpuLent := by
    unfold findNewGuest
    dsimp only
    split_ifs <;> rfl
  unfold assignGuest
  dsimp only
  split
  · exact hfind
  · exact hfind

theorem lendCpu_timestamp {d : Shdata} {c : ℕ} : (lendCpu S p d c).timestampCpuLent = d.timestampCpuLent := by
  have hleave : (leave (lendOwned d p c) p c).timestampCpuLent = d.timestampCpuLent := by
    unfold leave lendOwned
    dsimp only
    split_ifs <;> rfl
  have hrest : ∀ (d : Shdata) (e : ℕ), (assignRest S c d e).timestampCpuLent = d.timestampCpuLent := by
    intro d e
    unfold assignRest
    split
    · dsimp only
      split
      · exact assignGuest_timestamp
      · exact assignGuest_timestamp
    · rfl
  have hfind : ∀ d : Shdata, (findGuests S d c).timestampCpuLent = d.timestampCpuLent := by
    intro d
    unfold findGuests
    split
    · dsimp only
      split
      · exact assignGuest_timestamp
      · exact List.foldlRecOn (motive := fun d' : Shdata => d'.timestampCpuLent = d.timestampCpuLent) _ _
          assignGuest_timestamp fun d' hd' e _ => (hrest d' e).trans hd'
    · rfl
  have hall := (hfind (leave (lendOwned d p c) p c)).trans hleave
  unfold lendCpu
  split
  · rfl
  · dsimp only
    split
    · exact hall
    · exact hall

theorem lendLocked_timestamp {d : Shdata} (mask : CpuSet) :
    (lendLocked S d p mask).timestampCpuLent = d.timestampCpuLent :=
  List.foldlRecOn (motive := fun d' : Shdata => d'.timestampCpuLent = d.timestampCpuLent) _ _ rfl
    fun _ hd' _ _ => lendCpu_timestamp.trans hd'

theorem Race.Kept.next (hq0 : q ≠ 0) (h : r.Kept S) (e : RaceStep) (he : r.Safe S e) :
    (r.next S p q e).Kept S := by
  cases e with
  | lend mask =>
    unfold Race.next
    dsimp only
    split
    · exact h
    · exact ⟨lendLocked_shown h.shown mask, h.lastBorrow, (lendLocked_timestamp mask).trans_le h.timestamp, nofun⟩
  | storeLent ticks =>
    unfold Race.next
    dsimp only
    split
    · have hlate := h.lastBorrow
      refine ⟨h.shown.congr rfl rfl rfl, ?_, le_refl _, fun _ _ _ => ?_⟩
      · change r.lastBorrow ≤ r.clock + ticks + 1
        omega
      · change r.lastBorrow ≤ r.clock + ticks + 1
        omega
    · exact h
  | test w guestScan =>
    unfold Race.next
    dsimp only
    split
    · rename_i hidle
      split
      · exact h
      · exact ⟨h.shown, h.lastBorrow, h.timestamp, fun hl _ => h.found hl (by rw [hidle]; exact nofun)⟩
    · exact h
  | attempt =>
    unfold Race.next
    dsimp only
    split
    · rename_i w ncpus htested
      have hborrowed := borrowLocked_borrowed (S := S) (d := r.shm) hq0 w ncpus
      refine ⟨borrowLocked_shown h.shown hq0 w ncpus, h.lastBorrow, hborrowed.timestamp.trans_le h.timestamp,
        fun hl _ hsome => ?_⟩
      obtain ⟨c, hc, hidle⟩ := hsome
      change r.lastBorrow ≤ (borrowLocked S r.shm q w ncpus).1.timestampCpuLent
      rw [hborrowed.timestamp]
      exact h.found hl (by rw [htested]; exact nofun) ⟨c, hc, hborrowed.idle c hidle⟩
    · exact h
  | storeBorrow ticks =>
    unfold Race.next
    dsimp only
    split
    · rename_i hfailed
      have hearly := h.timestamp
      refine ⟨h.shown, le_refl _, ?_, fun hl _ hsome => ?_⟩
      · change r.shm.timestampCpuLent ≤ r.clock + ticks + 1
        omega
      · rcases he hfailed with hlending | hnone
        · exact absurd (hl.symm.trans hlending) Bool.false_ne_true
        · exact absurd hsome hnone
    · exact h

theorem Race.finds_iff (h : Shown S r.shm) (hS : muSystemHasSmt S = false) (hq0 : q ≠ 0)
    (hfull : ∀ c, c ∈ cpus ↔ c < S.size) :
    r.Finds S q cpus ↔
      (r.lending = false → r.borrower = .idle → SomeIdle S r.shm → r.lastBorrow ≤ r.shm.timestampCpuLent) := by
  have hexec : ∀ (co : Caller) (w : Wish), exec S co q r.shm (.borrowNcpusFromCpuSubset w r.shm.unlocked) =
      (shmemBorrowNcpusFromCpuSubset S co { r.shm with tasks := [] } q w r.shm.unlocked).1 := fun _ _ => rfl
  refine forall₂_congr fun hl hb => forall_congr' fun hsome => ⟨fun hfinds => ?_, fun hle co w hw => ?_⟩
  · by_contra hlt
    -- a borrow of the whole array returns early
    obtain ⟨c, -, hc, hguest⟩ := hfinds {} { cpusPriorityArray := cpus } ⟨rfl, nofun, fun hmax => absurd rfl hmax⟩
    have hstale : Wish.stale { cpusPriorityArray := cpus, lastBorrow := some r.lastBorrow } r.shm.unlocked = true :=
      decide_eq_true (not_le.mp hlt)
    rw [hexec, shmemBorrowNcpus_eq, if_pos (by unfold Wish.returnsEarly; simp [hstale])] at hguest
    exact hq0 (hguest.symm.trans hc.2)
  · have hearly : ¬Wish.returnsEarly { w with lastBorrow := some r.lastBorrow } r.shm.unlocked q
        (Wish.stale { w with lastBorrow := some r.lastBorrow } r.shm.unlocked) := by
      have hstale : Wish.stale { w with lastBorrow := some r.lastBorrow } r.shm.unlocked = false :=
        decide_eq_false (not_lt.mpr hle)
      have hrequested : w.requestedNcpus.any (· ≤ 0) = false := by
        cases hn : w.requestedNcpus with
        | none => rfl
        | some n =>
          have := hw.requested n (by rw [hn]; exact rfl)
          simpa using this
      unfold Wish.returnsEarly
      rw [hstale]
      simp [hrequested]
      exact fun hmax => hw.parallelism hmax
    have hncpus : 0 < Wish.ncpus S { w with lastBorrow := some r.lastBorrow } r.shm.unlocked q := by
      obtain ⟨c, hlt, -⟩ := hsome
      exact Wish.ncpus_pos hw.requested (Nat.zero_lt_of_lt hlt)
    rw [hexec, shmemBorrowNcpus_eq, if_neg hearly]
    obtain ⟨c, hmem, hc, hguest⟩ := borrowLocked_takes (w := { w with lastBorrow := some r.lastBorrow }) h hS hq0
      (fun c hlt => hw.array ▸ (hfull c).mpr hlt) hncpus hsome
    exact ⟨c, (hfull c).mp (hw.array ▸ hmem), hc, hguest⟩

theorem Race.safe_iff (h : r.Kept S) (hS : muSystemHasSmt S = false) (hq0 : q ≠ 0) (hfull : ∀ c, c ∈ cpus ↔ c < S.size)
    (e : RaceStep) : (r.next S p q e).Finds S q cpus ↔ r.Safe S e := by
  by_cases he : r.Safe S e
  · have hnext : (r.next S p q e).Kept S := h.next hq0 e he
    refine iff_of_true ((finds_iff hnext.shown hS hq0 hfull).mpr fun hl hb => hnext.found hl ?_) he
    rw [hb]
    exact nofun
  · refine iff_of_false (fun hfinds => ?_) he
    cases e with
    | lend _ | storeLent _ | test _ _ | attempt => exact he trivial
    | storeBorrow ticks =>
      unfold Race.Safe at he
      push Not at he
      obtain ⟨hfailed, hl, hsome⟩ := he
      -- the borrower overtakes the lender
      have hnext : r.next S p q (.storeBorrow ticks) =
          { r with lastBorrow := r.clock + ticks + 1, clock := r.clock + ticks + 1, borrower := .idle } := by
        unfold Race.next
        rw [hfailed]
      rw [hnext] at hfinds
      have hearly := h.timestamp
      have hle : r.clock + ticks + 1 ≤ r.shm.timestampCpuLent :=
        (finds_iff (by exact h.shown) hS hq0 hfull).mp hfinds (by simpa using hl) rfl hsome
      omega

end Run

/-- **No lent CPU is missed.** Without SMT, two processes of a node, whatever was done before, lend and borrow; the
borrower uses the array of all CPUs. In the states of their interleaving in which neither is in a call, a further borrow
takes a CPU that is lent and idle, if there is one, if and only if the store of `last_borrow` of a failed borrow never
comes after a lend that has left such a CPU and has stored its own time. -/
theorem borrow_finds_iff {S : System} (hS : muSystemHasSmt S = false) {events : List Event}
    (hevents : ∀ e ∈ events, e.Staying S) {p q : Pid} (hq0 : q ≠ 0) {cpus : List ℕ} (hfull : ∀ c, c ∈ cpus ↔ c < S.size)
    {lastBorrow clock : ℤ} (hlast : lastBorrow ≤ clock) :
    let start : Race := { shm := (events.foldl (AsyncNode.next S) {}).shm, lastBorrow := lastBorrow, clock := clock }
    start.shm.timestampCpuLent ≤ clock → start.Finds S q cpus → ∀ steps : List RaceStep,
      (Lib.Along (Race.next S p q) (fun r e => (r.next S p q e).Finds S q cpus) start steps ↔
        Lib.Along (Race.next S p q) (Race.Safe S) start steps) := by
  intro start hclock hfinds steps
  have hshown : Shown S start.shm := shown_run S hevents
  have hkept : start.Kept S :=
    ⟨hshown, hlast, hclock, fun _ _ => (Race.finds_iff hshown hS hq0 hfull).mp hfinds rfl rfl⟩
  exact Lib.Along.congr (R := fun _ => True) (fun _ e h _ he => h.next hq0 e he)
    (fun _ e h _ => Race.safe_iff h hS hq0 hfull e) start steps hkept fun _ _ => trivial

def bothJoined : List Event :=
  [.op {} 1 (.init 0 {0}), .op {} 2 (.init 0 {1}), .op {} 1 (.lewiInit false), .op {} 2 (.lewiInit false)]

def raceStart : Race := { shm := (bothJoined.foldl (AsyncNode.next twoCores) {}).shm, lastBorrow := 0, clock := 1 }

/-- The borrow fails and has stored its time before `1` lends its CPU. -/
theorem borrow_finds_iff_lentAfter :
    Lib.Along (Race.next twoCores 1 2) (fun r e => (r.next twoCores 1 2 e).Finds twoCores 2 [0, 1]) raceStart
      [.test { cpusPriorityArray := [0, 1] } fun _ => {}, .attempt, .storeBorrow 0, .lend {0}, .storeLent 0] := by
  have hevents : ∀ e ∈ bothJoined, e.Staying twoCores := by
    simp [bothJoined, Event.Staying, Act.InNode]
  refine (borrow_finds_iff (by decide) hevents two_ne_zero (fun c => ?_) zero_le_one (by decide) ?_ _).mpr
    (by decide)
  · show c ∈ [0, 1] ↔ c < 2
    simp
    omega
  · exact fun _ _ hsome => absurd hsome (by decide)

/-- **A lend between the attempt and the store.** The borrow fails, then `1` lends its CPU and stores the time, then the
failed borrow stores a newer one: the next borrow returns early, although the CPU is lent and idle. -/
theorem lent_meanwhile : ¬∀ steps : List RaceStep,
    Lib.Along (Race.next twoCores 1 2) (fun r e => (r.next twoCores 1 2 e).Finds twoCores 2 [0, 1]) raceStart steps := by
  intro hall
  have hlast := (hall [.test { cpusPriorityArray := [0, 1] } fun _ => {}, .attempt, .lend {0}, .storeLent 0,
    .storeBorrow 0]).2.2.2.2.1
  have hfound := hlast (by decide) (by decide) (by decide) {} { cpusPriorityArray := [0, 1] }
    ⟨rfl, nofun, fun hmax => absurd rfl hmax⟩
  exact absurd hfound (by decide)

end Dlb.Cpuinfo

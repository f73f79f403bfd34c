import Dlb.Cpuinfo.Traces

/-!
# The set of free CPUs in asynchronous mode

`free_cpus` is exact as long as the operations only lend what is theirs to lend: a CPU that is idle already must not
find a new guest when it is lent once more, since nobody takes it out of the set, and a CPU that has been disabled must
not be returned, since its guest puts it into the set (`free_exact_run`).
-/

namespace Dlb.Cpuinfo

open List

variable {S : System} {co : Caller} {p q : Pid} {d d1 : Shdata} {c x : ℕ} {i : CpuInfo}

/-- `free_cpus` has the idle CPUs, and a busy CPU has an owner. -/
structure FreeOk (d : Shdata) : Prop where
  free : ∀ x, x ∈ d.freeCpus ↔ (d.nodeInfo x).Idle
  busy : ∀ x, (d.nodeInfo x).state = .busy → (d.nodeInfo x).owner ≠ 0

/-! ## Changes -/

theorem FreeOk.only (h : FreeOk d) (hsame : ∀ x, (d.nodeInfo x).Same (d1.nodeInfo x))
    (hfree : d1.freeCpus = d.freeCpus) : FreeOk d1 := by
  refine ⟨fun x => ?_, fun x => ?_⟩
  · rw [hfree, h.free, (hsame x).idle]
  · rw [(hsame x).state, (hsame x).owner]
    exact h.busy x

theorem FreeOk.congr (h : FreeOk d) (hinfo : d1.nodeInfo = d.nodeInfo) (hfree : d1.freeCpus = d.freeCpus) :
    FreeOk d1 := h.only (fun x => by rw [hinfo]; exact .refl _) hfree

theorem FreeOk.write (h : FreeOk d) (hinfo : d1.nodeInfo = Function.update d.nodeInfo c i)
    (hrest : ∀ x, x ≠ c → (x ∈ d1.freeCpus ↔ x ∈ d.freeCpus)) (hbit : c ∈ d1.freeCpus ↔ i.Idle)
    (hbusy : i.state = .busy → i.owner ≠ 0) : FreeOk d1 := by
  refine ⟨fun x => ?_, fun x => ?_⟩
  · rw [hinfo]
    by_cases hx : x = c
    · rw [hx, Function.update_self, hbit]
    · rw [Function.update_of_ne hx, hrest x hx, h.free]
  · rw [hinfo]
    by_cases hx : x = c
    · rw [hx, Function.update_self]
      exact hbusy
    · rw [Function.update_of_ne hx]
      exact h.busy x

theorem FreeOk.guested (h : FreeOk d) (hinfo : d1.nodeInfo = Function.update d.nodeInfo c i)
    (hfree : d1.freeCpus = d.freeCpus) (hold : (d.nodeInfo c).guest ≠ 0) (hnew : i.guest ≠ 0)
    (hbusy : i.state = .busy → i.owner ≠ 0) : FreeOk d1 := by
  refine h.write hinfo (fun x _ => by rw [hfree]) ?_ hbusy
  rw [hfree, h.free]
  exact iff_of_false (fun hidle => hold hidle.2) fun hidle => hnew hidle.2

theorem FreeOk.taken (h : FreeOk d) (hinfo : d1.nodeInfo = Function.update d.nodeInfo c i)
    (hfree : d1.freeCpus = d.freeCpus.erase c) (hnew : i.guest ≠ 0) (hbusy : i.state = .busy → i.owner ≠ 0) :
    FreeOk d1 := by
  refine h.write hinfo (fun x hx => ?_) ?_ hbusy
  · rw [hfree, Finset.mem_erase, and_iff_right hx]
  · rw [hfree]
    exact iff_of_false (Finset.notMem_erase c _) fun hidle => hnew hidle.2

/-! ## Operations on one CPU -/

/-- An idle CPU that has a process waiting for it, when `pid` lends it once more. -/
def Waited (S : System) (pid : Pid) (d : Shdata) (cpuid : ℕ) : Prop :=
  (d.nodeInfo cpuid).Idle ∧ ∃ p, Taker S (leave (lendOwned d pid cpuid) pid cpuid) cpuid p

theorem lendCpu_free (h : FreeOk d) (hw : ¬Waited S q d c) : FreeOk (lendCpu S q d c) := by
  by_cases hs : (d.nodeInfo c).state = .disabled
  · unfold lendCpu
    rwa [if_pos hs]
  have hl : Lent S q c d (lendCpu S q d c) := lendCpu_lent hs
  have hstate : (lentInfo q (d.nodeInfo c)).state = .busy → (d.nodeInfo c).state = .busy := lentInfo_busy
  refine ⟨hl.free_exact h.free (fun hidle => ?_) (fun hg => ?_), fun x hb => ?_⟩
  · by_contra hnew
    refine hw ⟨hidle, _, lendCpu_taken hs ?_ (fun hb => ?_) hnew⟩
    · unfold lentInfo
      rw [hidle.2, ite_self]
    · have hb0 := hstate hb
      rw [hidle.1] at hb0
      cases hb0
  · have hself : ((lendCpu S q d c).nodeInfo c).state = (lentInfo q (d.nodeInfo c)).state := by
      rw [hl.state, if_pos rfl]
    cases hst : ((lendCpu S q d c).nodeInfo c).state with
    | disabled => exact absurd (hself.symm.trans hst) (lentInfo_state _ hs)
    | busy =>
      -- a claimed CPU goes back to its owner
      have hlent : (lentInfo q (d.nodeInfo c)).guest = 0 := by
        by_contra hg0
        exact hg0 ((hl.guest hg0).symm.trans hg)
      have hown := hl.busy hlent hst
      exact absurd (hown.symm.trans hg) (h.busy c (hstate (hself.symm.trans hst)))
    | lent => rfl
  · rw [hl.owner]
    rw [hl.state] at hb
    split at hb
    · rename_i hx
      rw [hx]
      exact h.busy c (hstate hb)
    · exact h.busy x hb

theorem noteOccupied_free (h : FreeOk d) : FreeOk (noteOccupied S d c) := by
  unfold noteOccupied
  split
  · exact h.congr rfl rfl
  · exact h

theorem reclaimCpu_free (h : FreeOk d) (hq0 : q ≠ 0) : FreeOk (reclaimCpu q d c).1 := by
  unfold reclaimCpu
  dsimp only
  split
  · rename_i ho
    split
    · rename_i hg
      exact h.guested rfl rfl (hg ▸ hq0) (hg ▸ hq0) fun _ => ho ▸ hq0
    split
    · exact h.taken rfl rfl hq0 fun _ => ho ▸ hq0
    · rename_i hg
      exact h.guested rfl rfl hg hg fun _ => ho ▸ hq0
  · exact h

theorem acquireCpu_free (h : FreeOk d) (hq0 : q ≠ 0) : FreeOk (acquireCpu S q d c).1 := by
  unfold acquireCpu
  dsimp only
  split
  · exact h
  split
  · rename_i ho
    split
    · exact h.taken rfl rfl hq0 fun _ => ho ▸ hq0
    · rename_i hg
      exact noteOccupied_free (h.guested rfl rfl hg hg fun _ => ho ▸ hq0)
  split
  · rename_i hav
    refine h.taken (c := c) (i := { d.nodeInfo c with guest := q }) ?_ ?_ hq0 (h.busy c)
    · show (noteOccupiedOwned S _ c).nodeInfo = _
      rw [noteOccupiedOwned_info]
      rfl
    · show (noteOccupiedOwned S _ c).freeCpus.erase c = _
      rw [noteOccupiedOwned_free]
      rfl
  split
  · split
    · exact h.only (OnlyRequests.setRequests _).same rfl
    · exact h
  split
  · exact h
  · exact h

theorem borrowCpu_free (h : FreeOk d) (hq0 : q ≠ 0) : FreeOk (borrowCpu S q d c).1 := by
  unfold borrowCpu
  dsimp only
  split
  · exact h
  split
  · split
    · rename_i ho
      exact h.taken rfl rfl hq0 fun _ => ho ▸ hq0
    split
    · have htake : FreeOk (((d.set c { d.nodeInfo c with guest := q }).push .enableCpu q c).clrFree c) :=
        h.taken rfl rfl hq0 (h.busy c)
      exact htake.congr noteOccupiedOwned_info noteOccupiedOwned_free
    · exact h
  · exact h

theorem returnAsync_free (h : FreeOk d) (hs : (d.nodeInfo c).state ≠ .disabled) : FreeOk (returnAsync S p d c) := by
  have hguest : FreeOk (returnGuest d c) := by
    have hinfo : (returnGuest d c).nodeInfo = _ := returnGuest_info
    refine h.write hinfo (fun x hx => ?_) ?_ (h.busy c)
    · unfold returnGuest
      dsimp only
      split
      · rfl
      · simp [Shdata.setFree, Shdata.set, hx]
    · unfold returnGuest returned CpuInfo.Idle
      dsimp only
      split
      · rename_i hb
        refine iff_of_false (fun hmem => ?_) fun hidle => ?_
        · have hl := ((h.free c).mp hmem).1
          rw [hb] at hl
          cases hl
        · rw [hb] at hidle
          cases hidle.1
      · rename_i hb
        refine iff_of_true (Finset.mem_insert_self c _) ⟨?_, rfl⟩
        cases hst : (d.nodeInfo c).state with
        | disabled => exact absurd hst hs
        | busy => exact absurd hst hb
        | lent => rfl
  have hupdate : FreeOk (updateOccupiedCores S (returnGuest d c) (d.nodeInfo c).owner c) := hguest.congr rfl rfl
  unfold returnAsync requestAgain
  split
  · exact hupdate.only (OnlyRequests.setRequests _).same rfl
  · exact hupdate

/-! ## Calls -/

theorem free_takes (hq0 : q ≠ 0) : Takes S q FreeOk where
  start _ h := h.congr rfl rfl
  reclaim _ _ h := reclaimCpu_free h hq0
  acquire _ _ h := acquireCpu_free h hq0
  borrow _ _ h := borrowCpu_free h hq0

theorem petition_free {request : LewiMaskRequest} (h : FreeOk d) : FreeOk (petition d request).1 := by
  unfold petition
  split
  · exact h.congr rfl rfl
  split
  · exact h.congr rfl rfl
  · exact h

theorem petitionCpu_free (r : Shdata × DlbError) (h : FreeOk r.1) : FreeOk (petitionCpu q r c).1 := by
  unfold petitionCpu
  dsimp only
  split
  · split
    · split
      · exact h.only (OnlyRequests.setRequests _).same rfl
      · exact h
    · exact h
  · exact h

theorem removeRequests_free (h : FreeOk d) : FreeOk (removeRequests S d q) :=
  h.only removeRequests_only.same removeRequests_only.free

theorem lendGuest_free (h : FreeOk d) (hq0 : q ≠ 0) (hg : (d.nodeInfo c).guest = q) : FreeOk (lendCpu S q d c) :=
  lendCpu_free h fun hw => hq0 (hg.symm.trans hw.1.2)

theorem shmemReset_free (h : FreeOk d) (hq0 : q ≠ 0) : FreeOk (shmemReset S co d q).1 := by
  have hrun : FreeOk ((range S.size).foldl (resetCpu S q) (removeRequests S d q)) := by
    refine foldlRecOn _ _ (removeRequests_free h) fun d hd c _ => ?_
    unfold resetCpu
    split
    · exact reclaimCpu_free hd hq0
    split
    · rename_i hg
      exact (lendGuest_free hd hq0 hg).congr rfl rfl
    · exact hd
  exact hrun.congr rfl rfl

theorem lendCpu_guest_of_ne (hx : x ≠ c) (hg : (d.nodeInfo x).guest ≠ 0) :
    ((lendCpu S q d c).nodeInfo x).guest = (d.nodeInfo x).guest := by
  by_cases hs : (d.nodeInfo c).state = .disabled
  · unfold lendCpu
    rw [if_pos hs]
  · have hl : Lent S q c d (lendCpu S q d c) := lendCpu_lent hs
    rcases hl.rest x hx with hk | ⟨-, hh⟩
    · exact hk.1
    · exact absurd hh.before hg

theorem lendGuested_free {max : ℕ} (hq0 : q ≠ 0) : ∀ (l : List ℕ) (count : ℕ) (d : Shdata), l.Nodup →
    (∀ c ∈ l, (d.nodeInfo c).guest = q) → FreeOk d → FreeOk (lendGuested S q max l count d)
  | [], _, _, _, _, h => h
  | c :: rest, count, d, hl, hg, h => by
    obtain ⟨hc, hrest⟩ := nodup_cons.mp hl
    unfold lendGuested
    split
    · have hlend : FreeOk ((lendCpu S q d c).push .disableCpu q c) :=
        (lendGuest_free h hq0 (hg c mem_cons_self)).congr rfl rfl
      refine lendGuested_free hq0 rest _ _ hrest (fun e he => ?_) hlend
      have hge := hg e (mem_cons_of_mem c he)
      show ((lendCpu S q d c).nodeInfo e).guest = q
      rw [lendCpu_guest_of_ne (fun hec : e = c => hc (hec ▸ he)) (hge ▸ hq0), hge]
    · exact lendGuested_free hq0 rest _ _ hrest (fun e he => hg e (mem_cons_of_mem c he)) h

/-- The lends of the first loop of `update_max_parallelism` find nobody waiting for an idle CPU. -/
def BeyondFresh (S : System) (pid : Pid) (max : ℕ) (r : Shdata × ℕ × List ℕ) (cpuid : ℕ) : Prop :=
  (r.1.nodeInfo cpuid).owner = pid → max < r.2.1 + 1 → ¬Waited S pid r.1 cpuid

/-- The state of that loop: the guested CPUs so far are of other owners. -/
structure Beyond (q : Pid) (r : Shdata × ℕ × List ℕ) (n : ℕ) : Prop where
  ok : FreeOk r.1
  nodup : r.2.2.Nodup
  guest : ∀ e ∈ r.2.2, e < n ∧ (r.1.nodeInfo e).guest = q

theorem lendBeyond_free {max n : ℕ} {r : Shdata × ℕ × List ℕ} (hq0 : q ≠ 0) (h : Beyond q r n)
    (hf : BeyondFresh S q max r n) : Beyond q (lendBeyond S q max r n) (n + 1) := by
  have hold : ∀ e ∈ r.2.2, e < n + 1 ∧ (r.1.nodeInfo e).guest = q := fun e he =>
    ⟨(h.guest e he).1.trans (Nat.lt_succ_self n), (h.guest e he).2⟩
  unfold lendBeyond
  split
  · rename_i ho
    split
    · rename_i hmax
      refine ⟨(lendCpu_free h.ok (hf ho hmax)).congr rfl rfl, h.nodup, fun e he => ⟨(hold e he).1, ?_⟩⟩
      have hge := (hold e he).2
      have hne : e ≠ n := (h.guest e he).1.ne
      show ((lendCpu S q r.1 n).nodeInfo e).guest = q
      rw [lendCpu_guest_of_ne hne (hge ▸ hq0), hge]
    · exact ⟨h.ok, h.nodup, hold⟩
  split
  · rename_i hg
    refine ⟨h.ok, ?_, fun e he => ?_⟩
    · refine nodup_append.mpr ⟨h.nodup, nodup_singleton n, fun e he e' he' => ?_⟩
      rw [mem_singleton.mp he']
      exact (h.guest e he).1.ne
    · rcases mem_append.mp he with he | he
      · exact hold e he
      · rw [mem_singleton.mp he]
        exact ⟨Nat.lt_succ_self n, hg⟩
  · exact ⟨h.ok, h.nodup, hold⟩

theorem lendBeyond_run {max : ℕ} (hq0 : q ≠ 0) (h : FreeOk d) : ∀ n,
    Lib.Along (lendBeyond S q max) (BeyondFresh S q max) (d, 0, []) (range n) →
      Beyond q ((range n).foldl (lendBeyond S q max) (d, 0, [])) n
  | 0, _ => ⟨h, nodup_nil, nofun⟩
  | n + 1, hf => by
    rw [range_succ, Lib.Along.append] at hf
    rw [range_succ, foldl_append]
    exact lendBeyond_free hq0 (lendBeyond_run hq0 h n hf.1) hf.2.1

theorem shmemUpdateMaxParallelism_free {max : ℕ} (h : FreeOk d) (hq0 : q ≠ 0)
    (hf : Lib.Along (lendBeyond S q max) (BeyondFresh S q max) (d, 0, []) (range S.size)) :
    FreeOk (shmemUpdateMaxParallelism S co d q max).1 := by
  have hrun := lendBeyond_run hq0 h S.size hf
  unfold shmemUpdateMaxParallelism
  generalize (range S.size).foldl (lendBeyond S q max) (d, 0, []) = r at hrun ⊢
  have hguested : FreeOk (lendGuested S q max r.2.2 r.2.1 r.1) :=
    lendGuested_free hq0 _ _ _ hrun.nodup (fun e he => (hrun.guest e he).2) hrun.ok
  exact hguested.congr rfl rfl

/-! ## Deregister -/

/-- The lends of `deregister` find nobody waiting for an idle CPU. -/
def LeaveFresh (S : System) (co : Caller) (pid : Pid) (d : Shdata) (cpuid : ℕ) : Prop :=
  (d.nodeInfo cpuid).owner = pid → co.public → ¬Waited S pid d cpuid

theorem disown_free (h : FreeOk d) (hs : (d.nodeInfo c).state ≠ .busy) : FreeOk (disown d c) := by
  refine h.write (c := c) (i := { d.nodeInfo c with owner := 0 }) rfl (fun _ _ => Iff.rfl) (h.free c) fun hb => ?_
  exact absurd hb hs

theorem leaveCpu_free (h : FreeOk d) (hq0 : q ≠ 0) (hf : LeaveFresh S co q d c) : FreeOk (leaveCpu S co q d c) := by
  have hstep : LeaveStep S co q d c (leaveCpu S co q d c) := leaveCpu_step
  generalize leaveCpu S co q d c = d1 at hstep ⊢
  cases hstep with
  | kept => exact h
  | left _ hg _ => exact lendGuest_free h hq0 hg
  | dropped d1 ho _ hd =>
    have hd1 : FreeOk d1 := by
      refine ⟨fun x => ?_, fun x => ?_⟩
      · by_cases hx : x = c
        · subst hx
          refine iff_of_false (fun hmem => ?_) fun hidle => ?_
          · obtain ⟨hold, hs⟩ := hd.free hmem
            rw [((h.free x).mp hold).1] at hs
            cases hs
          · have hs := hd.state
            rw [hidle.1] at hs
            cases hs
        · rw [(hd.rest x hx).1, (hd.rest x hx).2, h.free]
      · by_cases hx : x = c
        · rw [hx, hd.state]
          exact nofun
        · rw [(hd.rest x hx).1]
          exact h.busy x
    exact disown_free hd1 (by rw [hd.state]; exact nofun)
  | lent ho hpublic hs =>
    have hl : Lent S q c d (lendCpu S q d c) := lendCpu_lent hs
    refine disown_free (lendCpu_free h (hf ho hpublic)) ?_
    rw [hl.state, if_pos rfl, show (lentInfo q (d.nodeInfo c)).state = .lent from if_pos ho]
    exact nofun

theorem shmemDeregister_free (h : FreeOk d) (hq0 : q ≠ 0)
    (hf : Lib.Along (leaveCpu S co q) (LeaveFresh S co q) (removeRequests S d q) (range S.size)) :
    FreeOk (shmemDeregister S co d q).1 := by
  have hrun := (Lib.Along.invariant (R := fun _ => True) (P := fun _ _ => True) (I := FreeOk)
    (fun d c hd _ hf => leaveCpu_free hd hq0 hf) (fun _ _ _ _ _ => trivial) _ _ (removeRequests_free h)
    (fun _ _ => trivial) hf).2
  exact hrun.congr rfl rfl

/-! ## Init -/

theorem initShmem_free (h : FreeOk d) : FreeOk (initShmem S co d) := by
  unfold initShmem
  split
  · exact h
  · refine ⟨fun x => ?_, fun x => ?_⟩
    · unfold CpuInfo.Idle
      cases co.respectCpuset with
      | true => by_cases hx : x < S.size <;> simp [hx]
      | false => by_cases hx : x < S.size <;> simp [hx]
    · dsimp only
      split
      · split
        · exact nofun
        · exact nofun
      · exact nofun

theorem registerProcess_free (h : FreeOk d) (hq0 : q ≠ 0) (preinitPid : Pid) (mask : CpuSet) (steal : Bool) :
    FreeOk (registerProcess S d q preinitPid mask steal).1 := by
  unfold registerProcess
  split
  · exact h
  split
  · exact h
  · refine foldlRecOn _ _ h fun d hd c _ => ?_
    refine hd.taken registerCpu_info rfl ?_ fun _ => hq0
    unfold registered
    split
    · exact hq0
    · rename_i hg
      exact fun h0 => hg (.inl h0)

theorem finalize_free (h : FreeOk d) (ht : Traceless S q d) (hq0 : q ≠ 0) : FreeOk (finalize S co d q) := by
  have hrun : FreeOk ((range S.size).foldl (deregisterCpu S co q) d) := by
    refine (foldlRecOn (motive := fun r => FreeOk r ∧ Traceless S q r) _ _ ⟨h, ht⟩ fun d hd c hc => ?_).1
    refine ⟨?_, deregisterCpu_traceless hq0 hd.2 co (mem_range.mp hc)⟩
    unfold deregisterCpu
    rw [if_neg (hd.2.owner c), if_neg (hd.2.guest c)]
    split
    · exact hd.1.only (OnlyRequests.setRequests _).same rfl
    · exact hd.1
  unfold finalize deregisterProcess
  dsimp only
  split
  · exact hrun.congr rfl rfl
  · exact hrun.congr rfl rfl

theorem registerProcess_failed {preinitPid : Pid} {mask : CpuSet} {steal : Bool}
    (hr : (registerProcess S d q preinitPid mask steal).2 ≠ .success) :
    (registerProcess S d q preinitPid mask steal).1 = d := by
  unfold registerProcess at hr ⊢
  split at hr
  · exact absurd rfl hr
  rename_i hmask
  rw [if_neg hmask]
  split at hr
  · rename_i hperm
    rw [if_pos hperm]
  · exact absurd rfl hr

theorem init_free (h : FreeOk d) (ht : Traceless S q d) (hq0 : q ≠ 0) (preinitPid : Pid) (mask : CpuSet) :
    FreeOk (init S co d q preinitPid mask).1 := by
  have hstart : FreeOk (initShmem S co d) := initShmem_free h
  have htrace : Traceless S q (initShmem S co d) := initShmem_traceless hq0 ht co
  unfold init
  dsimp only
  split
  · rename_i hfail
    rw [registerProcess_failed hfail]
    exact finalize_free hstart htrace hq0
  · exact registerProcess_free hstart hq0 preinitPid mask false

theorem init_failed_traceless (ht : Traceless S q d) (hq0 : q ≠ 0) {preinitPid : Pid} {mask : CpuSet}
    (hfail : (init S co d q preinitPid mask).2 ≠ .success) : Traceless S q (init S co d q preinitPid mask).1 := by
  have htrace : Traceless S q (initShmem S co d) := initShmem_traceless hq0 ht co
  unfold init at hfail ⊢
  dsimp only at hfail ⊢
  split at hfail
  · rename_i hperm
    rw [if_pos hperm, registerProcess_failed hperm]
    exact finalize_traceless hq0 htrace co
  · rename_i hok
    exact absurd hfail hok

/-! ## Runs -/

def Call.Returning : Call → Prop
  | .returnAll | .returnCpu _ | .returnCpuMask _ => True
  | _ => False

/-- What a process does in asynchronous mode: it initializes, lends, reclaims, acquires, borrows, resets, changes its
maximum and deregisters. -/
def Op.Deferring : Op → Prop
  | .init _ _ | .lewiInit _ | .deregister => True
  | .lewi call => ¬call.Returning
  | _ => False

def Event.Deferring : Event → Prop
  | .op _ pid operation => pid ≠ 0 ∧ operation.Deferring
  | .resolve _ => True

/-- An operation for CPUs of the node of a process that stays: it does not finalize. -/
def Event.Staying (S : System) : Event → Prop
  | .op _ pid operation => pid ≠ 0 ∧ (Act.own operation).InNode S ∧ operation ≠ .finalize
  | .resolve _ => True

theorem Event.Deferring.staying {e : Event} (he : e.Deferring) : e.Staying S := by
  cases e with
  | op co q op =>
    obtain ⟨hq0, hop⟩ := he
    cases op with
    | init _ _ | lewiInit _ | lewi _ | deregister => exact ⟨hq0, trivial, nofun⟩
    | removeRequests | checkCpuAvailability _ _ | updateOwnership _ _ | finalize => cases hop
  | resolve i => trivial

/-- No lend of the operation finds a process waiting for a CPU that is idle already; each lend of a loop is looked at in
the state that the loop has reached. -/
def Op.LendsFresh (S : System) (co : Caller) (pid : Pid) (d : Shdata) : Op → Prop
  | .lewi (.lendCpu cpuid) => ¬Waited S pid d cpuid
  | .lewi (.lendCpuMask mask) => Lib.Along (lendCpu S pid) (fun d c => ¬Waited S pid d c) d (nodeCpus S mask)
  | .lewi (.updateMaxParallelism max) =>
    Lib.Along (lendBeyond S pid max) (BeyondFresh S pid max) (d, 0, []) (range S.size)
  | .deregister => Lib.Along (leaveCpu S co pid) (LeaveFresh S co pid) (Cpuinfo.removeRequests S d pid) (range S.size)
  | _ => True

theorem call_free (h : FreeOk d) (hq0 : q ≠ 0) {call : Call} (hcall : ¬call.Returning)
    (hf : (Op.lewi call).LendsFresh S co q { d with tasks := [] }) : FreeOk (exec S co q d call) := by
  by_cases htaking : call.Taking
  · exact (free_takes hq0).exec h co htaking
  have h₀ : FreeOk { d with tasks := [] } := h.congr rfl rfl
  unfold exec
  generalize { d with tasks := [] } = d0 at h₀ hf ⊢
  cases call with
  | lendCpu cpuid =>
    unfold shmemLendCpu
    dsimp only
    split
    · exact h₀
    · exact (lendCpu_free h₀ hf).congr rfl rfl
  | lendCpuMask mask =>
    have hrun := (Lib.Along.invariant (R := fun _ => True) (P := fun _ _ => True) (I := FreeOk)
      (fun d c hd _ hf => lendCpu_free hd hf) (fun _ _ _ _ _ => trivial) d0 (nodeCpus S mask) h₀ (fun _ _ => trivial) hf).2
    exact hrun.congr rfl rfl
  | reclaimCpu cpuid =>
    refine shmemReclaimCpu_keeps (fun d c hd => reclaimCpu_free hd hq0) (fun d cpuid c hd => ?_) h₀ cpuid
    unfold disableRest
    split
    · exact hd.congr rfl rfl
    · exact hd
  | acquireNcpusFromCpuSubset wish unlocked =>
    unfold shmemAcquireNcpusFromCpuSubset
    dsimp only
    split
    · exact h₀
    · exact addPetitions_keeps (fun _ _ hd => petition_free hd) (fun r _ hr => petitionCpu_free r hr) _ _
        ((free_takes hq0).stages h₀ wish _)
  | reset => exact shmemReset_free h₀ hq0
  | updateMaxParallelism max => exact shmemUpdateMaxParallelism_free h₀ hq0 hf
  | returnAll | returnCpu _ | returnCpuMask _ => exact absurd trivial hcall
  | reclaimAll | reclaimCpus _ | reclaimCpuMask _ | acquireCpu _ | acquireFromCpuSubset _ | borrowCpu _
  | borrowFromCpuSubset _ | borrowNcpusFromCpuSubset _ _ => exact absurd trivial htaking

theorem exec_free (h : FreeOk d) (hq0 : q ≠ 0) {op : Op} (ht : ∀ preinitPid mask, op = .init preinitPid mask →
    Traceless S q d) (hop : op.Deferring) (hf : op.LendsFresh S co q { d with tasks := [] }) :
    FreeOk (op.exec S co q d).1 := by
  have h₀ : FreeOk { d with tasks := [] } := h.congr rfl rfl
  unfold Op.exec
  cases op with
  | init preinitPid mask =>
    have htrace : Traceless S q d := ht preinitPid mask rfl
    have htrace₀ : Traceless S q { d with tasks := [] } :=
      htrace.only (fun _ => .refl _) ⟨fun _ => id, fun it hit hpid => ⟨it, hit, hpid⟩, nofun⟩
    exact init_free h₀ htrace₀ hq0 preinitPid mask
  | lewiInit async =>
    dsimp only
    split
    · exact h₀.congr rfl rfl
    · exact h₀
  | lewi call => exact call_free h₀ hq0 hop hf
  | deregister => exact shmemDeregister_free h₀ hq0 hf
  | removeRequests | checkCpuAvailability _ _ | updateOwnership _ _ | finalize => cases hop

namespace AsyncNode

variable {n : AsyncNode} {e : Event}

/-- An event whose lends are fresh, and whose returns are of CPUs that are not disabled. -/
def Fresh (S : System) (n : AsyncNode) : Event → Prop
  | .op co pid op => op.allowed (n.phase pid) → op.LendsFresh S co pid { n.shm with tasks := [] }
  | .resolve i => n.Returns S (fun _ d c => (d.nodeInfo c).state ≠ .disabled) (.resolve i)

/-- Processes that have not initialized have no traces. -/
def OutTraceless (S : System) (n : AsyncNode) : Prop :=
  ∀ p ≠ 0, n.phase p = .out → Traceless S p n.shm ∧ ∀ g ∈ n.pending, g.1 ≠ p

theorem returnAsyncs_traceless {p' : Pid} (hp0 : p ≠ 0) (hp : p ≠ p') (h : Traceless S p d) (mask : CpuSet) :
    Traceless S p (returnAsyncCpuMask S p' d mask) :=
  foldlRecOn _ _ h fun _ hd _ hc => returnAsync_traceless hp0 hp hd (mem_nodeCpus.mp hc).1

theorem outTraceless_zero : OutTraceless S {} := fun _ hp0 _ =>
  ⟨⟨inTable_zero, fun _ => hp0.symm, fun _ => hp0.symm, fun _ _ => nofun, nofun, nofun⟩, nofun⟩

theorem init_failed {preinitPid : Pid} {mask : CpuSet} {phase : Phase}
    (hout : (Op.init preinitPid mask).phase (Op.exec S co p d (.init preinitPid mask)).2 phase = .out) :
    (Cpuinfo.init S co { d with tasks := [] } p preinitPid mask).2 ≠ .success := by
  intro hok
  have hno : (Op.exec S co p d (.init preinitPid mask)).2 = false := by
    show decide ((Cpuinfo.init S co { d with tasks := [] } p preinitPid mask).2 ≠ .success) = false
    rw [hok]
    rfl
  rw [Op.phase, hno] at hout
  cases hout

theorem OutTraceless.next (h : n.OutTraceless S) (he : e.Staying S) : (n.next S e).OutTraceless S := by
  cases e with
  | op co q op =>
    obtain ⟨hq0, hnode, hop⟩ := he
    unfold AsyncNode.next
    dsimp only
    split
    swap
    · exact h
    rename_i hallowed
    intro p hp0 hout
    have htrace : Traceless S p (op.exec S co q n.shm).1 ∧ ∀ g ∈ n.pending, g.1 ≠ p := by
      by_cases hpq : p = q
      · subst hpq
        -- only an `init` that fails leaves its process out
        have hphase : op.phase (op.exec S co p n.shm).2 (n.phase p) = .out := by
          simpa [AsyncNode.perform] using hout
        cases op with
        | init preinitPid mask =>
          have hbefore : n.phase p = .out := by
            cases hph : n.phase p with
            | out => rfl
            | joined | active _ | left _ =>
              rw [hph] at hallowed
              cases hallowed
          obtain ⟨ht, hpend⟩ := h p hp0 hbefore
          refine ⟨init_failed_traceless ?_ hp0 ?_, hpend⟩
          · exact ht.only (fun _ => .refl _) ⟨fun _ => id, fun it hit hpid => ⟨it, hit, hpid⟩, nofun⟩
          · exact init_failed hphase
        | lewi _ | removeRequests | checkCpuAvailability _ _ | updateOwnership _ _ =>
          have hphase' : n.phase p = .out := hphase
          rw [hphase'] at hallowed
          cases hallowed
        | lewiInit _ | deregister => cases hphase
        | finalize => exact absurd rfl hop
      · have hphase : n.phase p = .out := by
          simpa [AsyncNode.perform, Function.update_of_ne hpq] using hout
        obtain ⟨ht, hpend⟩ := h p hp0 hphase
        exact ⟨exec_traceless hpq hp0 hq0 ht co hnode, hpend⟩
    refine ⟨htrace.1, fun g hg => ?_⟩
    rcases mem_append.mp hg with hold | hnew
    · exact htrace.2 g hold
    · split at hnew
      · obtain ⟨t, ht, hpid⟩ := mem_pending_tasks hnew
        exact hpid ▸ htrace.1.tasks t ht
      · cases hnew
  | resolve i =>
    unfold AsyncNode.next
    dsimp only
    cases hgroup : n.pending[i]? with
    | none => exact h
    | some group =>
      intro p hp0 hout
      obtain ⟨ht, hpend⟩ := h p hp0 hout
      refine ⟨returnAsyncs_traceless hp0 (hpend group (mem_of_getElem? hgroup)).symm ht group.2, fun g hg => ?_⟩
      exact hpend g (mem_of_mem_eraseIdx hg)

theorem free_next (h : FreeOk n.shm) (ht : n.OutTraceless S) (he : e.Deferring) (hf : n.Fresh S e) :
    FreeOk (n.next S e).shm := by
  cases e with
  | op co q op =>
    obtain ⟨hq0, hop⟩ := he
    unfold AsyncNode.next
    dsimp only
    split
    · rename_i hallowed
      refine exec_free h hq0 (fun preinitPid mask hinit => ?_) hop (hf hallowed)
      subst hinit
      refine (ht q hq0 ?_).1
      cases hph : n.phase q with
      | out => rfl
      | joined | active _ | left _ =>
        rw [hph] at hallowed
        cases hallowed
    · exact h
  | resolve i =>
    unfold AsyncNode.next
    dsimp only
    cases hgroup : n.pending[i]? with
    | none => exact h
    | some group =>
      exact (Lib.Along.invariant (R := fun _ => True) (P := fun _ _ => True) (I := FreeOk)
        (fun d c hd _ hs => returnAsync_free hd hs) (fun _ _ _ _ _ => trivial) n.shm (nodeCpus S group.2) h
        (fun _ _ => trivial) (hf group hgroup)).2

end AsyncNode

/-- **The set of free CPUs**: in every run of processes in asynchronous mode whose lends find nobody waiting for a CPU
that is idle already, and whose deferred returns are of CPUs that are not disabled, `free_cpus` has the CPUs that are
lent and have no guest, and no others. -/
theorem free_exact_run (S : System) (events : List Event) (hevents : ∀ e ∈ events, e.Deferring)
    (hfresh : Lib.Along (AsyncNode.next S) (AsyncNode.Fresh S) {} events) :
    let d := (events.foldl (AsyncNode.next S) {}).shm
    ∀ c, c ∈ d.freeCpus ↔ (d.nodeInfo c).state = .lent ∧ (d.nodeInfo c).guest = 0 := by
  have hstart : FreeOk ({} : AsyncNode).shm ∧ AsyncNode.OutTraceless S {} := by
    refine ⟨⟨fun x => iff_of_false (Finset.notMem_empty x) fun hidle => ?_, fun x => nofun⟩,
      AsyncNode.outTraceless_zero⟩
    cases hidle.1
  have hrun := (Lib.Along.invariant (R := Event.Deferring) (P := fun _ _ => True)
    (I := fun n : AsyncNode => FreeOk n.shm ∧ n.OutTraceless S)
    (fun n e hn he hf => ⟨AsyncNode.free_next hn.1 hn.2 he hf, hn.2.next he.staying⟩) (fun _ _ _ _ _ => trivial) {} events hstart
    hevents hfresh).2
  exact hrun.1.free

/-- `1` lends its CPU. -/
def lendOnce : List Event := [.op {} 1 (.init 0 {0}), .op {} 1 (.lewiInit true), .op {} 1 (.lewi (.lendCpu 0))]

/-- It is busy when it is lent, so the run is fresh, and the CPU is in the set. -/
theorem free_exact_run_lendOnce : 0 ∈ (lendOnce.foldl (AsyncNode.next twoCores) {}).shm.freeCpus := by
  refine (free_exact_run twoCores lendOnce ?_ ?_ 0).mpr (by decide)
  · simp [lendOnce, Event.Deferring, Op.Deferring, Call.Returning]
  · refine ⟨fun _ => trivial, fun _ => trivial, fun _ hw => absurd hw.1 (by decide), trivial⟩

/-- `2` guests the CPU of `1`, which deregisters. -/
def leaveGuested : List Event :=
  [.op {} 1 (.init 0 {0}), .op {} 2 (.init 0 ∅), .op {} 1 (.lewiInit true), .op {} 2 (.lewiInit true),
    .op {} 1 (.lewi (.lendCpu 0)), .op {} 2 (.lewi (.borrowCpu 0)), .op {} 1 .deregister, .resolve 0]

/-- `2` has asked for an idle CPU of the core of `1` when the other one is lent as well. -/
def lendTwice : List Event :=
  [.op {} 1 (.init 0 {0, 1}), .op {} 2 (.init 0 ∅), .op {} 1 (.lewiInit true), .op {} 2 (.lewiInit true),
    .op {} 1 (.lewi (.lendCpu 0)), .op {} 2 (.lewi (.acquireCpu 0)), .op {} 1 (.lewi (.lendCpu 1)),
    .op {} 1 (.lewi (.lendCpu 0))]

/-- The return of the disabled CPU puts it into the set; a CPU that is lent twice stays there with its new guest. -/
theorem disabled_cpu_freed :
    let n := leaveGuested.foldl (AsyncNode.next twoCores) {}
    let m := lendTwice.foldl (AsyncNode.next oneCore) {}
    (∀ e ∈ leaveGuested ++ lendTwice, e.Deferring) ∧
      0 ∈ n.shm.freeCpus ∧ (n.shm.nodeInfo 0).state = .disabled ∧ n.pending = [] ∧
      0 ∈ m.shm.freeCpus ∧ (m.shm.nodeInfo 0).guest = 2 ∧
      ¬∀ (S : System) (events : List Event), (∀ e ∈ events, e.Deferring) →
        ∀ c, c ∈ (events.foldl (AsyncNode.next S) {}).shm.freeCpus ↔
          ((events.foldl (AsyncNode.next S) {}).shm.nodeInfo c).state = .lent ∧
            ((events.foldl (AsyncNode.next S) {}).shm.nodeInfo c).guest = 0 := by
  intro n m
  have hevents : ∀ e ∈ leaveGuested ++ lendTwice, e.Deferring := by
    simp [leaveGuested, lendTwice, Event.Deferring, Op.Deferring, Call.Returning]
  have hfree : 0 ∈ n.shm.freeCpus := by decide
  have hstate : (n.shm.nodeInfo 0).state = .disabled := by decide
  refine ⟨hevents, hfree, hstate, by decide, by decide, by decide, fun hall => ?_⟩
  have hlent := ((hall twoCores leaveGuested (fun e he => hevents e (mem_append_left _ he)) 0).mp hfree).1
  have hno : (n.shm.nodeInfo 0).state = .lent := hlent
  cases hno

end Dlb.Cpuinfo

import Dlb.LewiAsync.Conservation

/-!
# An owner gets its CPUs back

Since CPUs are conserved, the surplus of the other processes covers what one process lacks, so a reclaim never fails
in a run of orderly calls (`owner_gets_back`). With two surpluses more than `2 ^ 31` apart it does
(`owner_left_waiting`).
-/

namespace Dlb.LewiAsync

/-- The assertions of `reclaim_from_shmem` hold and it does not take the `DLB_ERR_REQST` branch. -/
def ReclaimSucceeds (E : Env) (c : Caller) (s : Shdata) (i n maxreqs : ℕ) : Prop :=
  addU32 (s.processes i).currentNcpus n ≤ (s.processes i).initialNcpus ∧ s.idleCpus = 0 ∧ 0 < n ∧
    ∃ s' out, reclaimFromShmem E c s i n maxreqs = some (s', .success, out)

/-- The CPUs that the process in slot `i` lacks. -/
def lack (s : Shdata) (i : ℕ) : ℕ := (s.processes i).initialNcpus - (s.processes i).currentNcpus

section Owner

variable {E : Env} {c : Caller} {s : Shdata} {pid : Pid} {i maxreqs : ℕ}

theorem reclaim_succeeds (hv : Inv s) (hm : (registered s).card ≤ maxreqs)
    (hs : Lacks s i → Spread (surplusQueue s)) (hi : (s.processes i).pid ≠ 0) {ncpus n : ℕ} (hn : 0 < n)
    (h1 : n ≤ ncpus - (borrowFirst s i ncpus).2)
    (h2 : n ≤ (s.processes i).initialNcpus - ((s.processes i).currentNcpus + (borrowFirst s i ncpus).2)) :
    ReclaimSucceeds E c (borrowFirst s i ncpus).1 i n maxreqs := by
  obtain ⟨s', out, he, -, -, hzero, hle⟩ := reclaimAfterBorrow_spec (E := E) (c := c) hv.1 hv.2 hm
    (fun _ => hs) hi hn h1 h2
  exact ⟨hle, hzero, hn, s', out, he⟩

theorem reclaim_gets_back (hv : Inv s) (hc : c.shmHandler = true) (hget : getProcess c s pid = some i) (hp : pid ≠ 0)
    (hm : (registered s).card ≤ maxreqs) (hs : Lacks s i → Spread (surplusQueue s)) (prevRequested : ℕ) :
    ∃ s' o, reclaim E c s pid maxreqs prevRequested = some (s', o) ∧ o.error ≠ .errReqst ∧
      (s.processes i).initialNcpus ≤ (s'.processes i).currentNcpus ∧
      ∀ j, j ≠ i → ((s'.processes j).currentNcpus < (s.processes j).currentNcpus →
          (s.processes j).initialNcpus ≤ (s'.processes j).currentNcpus) ∧
        (QueueFits s → (s.processes j).pid ≠ 0 → queueLewiReqsGet s'.requests (s.processes j).pid =
          queueLewiReqsGet s.requests (s.processes j).pid +
            ((s.processes j).currentNcpus - (s'.processes j).currentNcpus)) := by
  obtain ⟨g, hr⟩ := hv
  have hi := getProcess_pid hget
  subst hi
  unfold reclaim
  simp only [hc, hget, Bool.not_true, Bool.false_eq_true, if_false]
  split
  · rename_i hlt
    obtain ⟨s1, e, out, he, hne, g1, hrec⟩ := borrowAndReclaim_spec (E := E) (c := c)
      (k := (s.processes i).initialNcpus - (s.processes i).currentNcpus) g hr hm
      (fun _ => hs) hp (by omega)
    have hf := hrec.frame
    have hown := hrec.own
    rw [he]
    refine ⟨_, _, rfl, hne, ?_⟩
    obtain ⟨s2, ha, g2, -, hown2, hcur2, hreq2⟩ := attendPrevRequested_spec (k := prevRequested) (i := i) g1
      (by rw [hf.registered]; exact hr) (by rw [hf.pid]; exact hp)
    rw [hf.pid] at ha
    rw [ha]
    split
    · refine ⟨by omega, fun j hj => ⟨fun hlt' => ?_, fun hfits hj0 => ?_⟩⟩
      · rw [hcur2 j hj] at hlt' ⊢
        exact hrec.keeps j hj hlt'
      · have hrq2 := hreq2 j hj (by rw [hf.pid]; exact hj0)
        rw [hf.pid] at hrq2
        rw [get_eq_amount g2.nodup hj0, get_eq_amount g.nodup hj0, hcur2 j hj, hrq2]
        exact hrec.requests hfits j hj0
    · refine ⟨show _ ≤ (s1.processes i).currentNcpus by omega, fun j hj => ⟨hrec.keeps j hj, fun hfits hj0 => ?_⟩⟩
      rw [get_eq_amount g1.nodup hj0, get_eq_amount g.nodup hj0]
      exact hrec.requests hfits j hj0
  · refine ⟨_, _, rfl, nofun, by omega, fun j _ => ⟨fun h => absurd h (lt_irrefl _), fun _ _ => by omega⟩⟩

/-- **An owner gets its CPUs back** in every state of a run of orderly calls: the reclaim of
`shmem_lewi_async__reclaim`, of `shmem_lewi_async__acquire_cpus` and of a reset succeeds with its assertions; a reclaim
gives the process its initial CPUs, takes surplus only, and queues for each victim what it took. -/
theorem owner_gets_back (h : Reachable E (fun c s op => Admitted s op ∧ Orderly c s op) s) (hc : c.shmHandler = true)
    (hget : getProcess c s pid = some i) (hp : pid ≠ 0) (hm : (registered s).card ≤ maxreqs)
    (hs : Lacks s i → Spread (surplusQueue s)) :
    (0 < lack s i - (borrowFirst s i (lack s i)).2 → ReclaimSucceeds E c (borrowFirst s i (lack s i)).1 i
      (lack s i - (borrowFirst s i (lack s i)).2) maxreqs) ∧
    (∀ ncpus, 0 < ncpusToReclaim ((borrowFirst s i ncpus).1.processes i) (ncpus - (borrowFirst s i ncpus).2) →
      ReclaimSucceeds E c (borrowFirst s i ncpus).1 i
        (ncpusToReclaim ((borrowFirst s i ncpus).1.processes i) (ncpus - (borrowFirst s i ncpus).2)) maxreqs) ∧
    (∀ s1, s1 = { s with requests := (queueLewiReqsRemove s.requests pid).2 } →
      0 < lack s i - (borrowFirst s1 i (lack s i)).2 → ReclaimSucceeds E c (borrowFirst s1 i (lack s i)).1 i
        (lack s i - (borrowFirst s1 i (lack s i)).2) maxreqs) ∧
    ∀ prevRequested, ∃ s' o, reclaim E c s pid maxreqs prevRequested = some (s', o) ∧ o.error ≠ .errReqst ∧
      (s.processes i).initialNcpus ≤ (s'.processes i).currentNcpus ∧
      ∀ j, j ≠ i → ((s'.processes j).currentNcpus < (s.processes j).currentNcpus →
          (s.processes j).initialNcpus ≤ (s'.processes j).currentNcpus) ∧
        (QueueFits s → (s.processes j).pid ≠ 0 → queueLewiReqsGet s'.requests (s.processes j).pid =
          queueLewiReqsGet s.requests (s.processes j).pid +
            ((s.processes j).currentNcpus - (s'.processes j).currentNcpus)) := by
  have hv := reachable_inv h
  have hi : (s.processes i).pid ≠ 0 := by rw [getProcess_pid hget]; exact hp
  refine ⟨fun hn => ?_, fun ncpus hn => ?_, fun s1 hs1 hn => ?_, reclaim_gets_back hv hc hget hp hm hs⟩
  · exact reclaim_succeeds hv hm hs hi hn le_rfl (by unfold lack; omega)
  · obtain ⟨-, hb⟩ := borrowFirst_spec hv.1 hi ncpus
    exact reclaim_succeeds hv hm hs hi hn (Nat.min_le_left _ _) (hb.ncpusToReclaim_le _)
  · subst hs1
    have hv1 : Inv { s with requests := (queueLewiReqsRemove s.requests pid).2 } := ⟨remove_good hv.1 hp, hv.2⟩
    exact reclaim_succeeds hv1 hm hs hi hn le_rfl (by unfold lack; dsimp only; omega)

end Owner

/-- Process 1 has lent three of its four CPUs; process 2 has two of them, and the third one is idle. -/
theorem owner_gets_back_run : ∃ s, replay release (fun c s op => Admitted s op ∧ Orderly c s op)
    (calls [.init 1 4, .init 2 2, .lendCpus 1 3 4, .borrowCpus 2 2]) {} = some s ∧
    ∃ s' o, reclaim release { maxProcesses := 4 } s 1 4 0 = some (s', o) ∧ o.error ≠ .errReqst ∧
      (s.processes 0).initialNcpus ≤ (s'.processes 0).currentNcpus := by
  obtain ⟨s, hs, hok⟩ := Option.map_eq_some_iff.mp (by decide : ((replay release
    (fun c s op => Admitted s op ∧ Orderly c s op) (calls [.init 1 4, .init 2 2, .lendCpus 1 3 4, .borrowCpus 2 2])
      {}).map fun s => decide (getProcess { maxProcesses := 4 } s 1 = some 0 ∧ (registered s).card ≤ 4 ∧
        (Lacks s 0 → Spread (surplusQueue s)))) = some true)
  obtain ⟨hget, hm, hspread⟩ := of_decide_eq_true hok
  obtain ⟨s', o, h, he, hown, -⟩ := (owner_gets_back (replay_run hs) rfl hget (by decide) hm hspread).2.2.2 0
  exact ⟨s, hs, s', o, h, he, hown⟩

/-- **A reclaim can fail.** The surplus of process 3 and the surplus of process 4 are more than `2 ^ 31` apart. -/
theorem owner_left_waiting : ¬∀ s c pid i maxreqs, Reachable release (fun _ s op => Admitted s op) s →
    c.shmHandler = true → getProcess c s pid = some i → pid ≠ 0 → (registered s).card ≤ maxreqs →
    ∃ s' o, reclaim release c s pid maxreqs 0 = some (s', o) ∧ o.error ≠ .errReqst ∧
      (s.processes i).initialNcpus ≤ (s'.processes i).currentNcpus := by
  intro h
  have hrun : ((replay release (fun _ s op => Admitted s op) (calls [.init 1 (2 ^ 31), .init 2 3, .init 3 1, .init 4 1,
      .lendCpus 1 (2 ^ 31) 4, .lendCpus 2 3 4, .borrowCpus 3 (2 ^ 31 + 2), .borrowCpus 4 1]) {}).map fun s =>
      (decide (getProcess { maxProcesses := 4 } s 1 = some 0 ∧ (registered s).card ≤ 4),
        (reclaim release { maxProcesses := 4 } s 1 4 0).map fun r => r.2.error)) =
      some (true, some .errReqst) := by decide
  obtain ⟨s, hs, hp⟩ := Option.map_eq_some_iff.mp hrun
  obtain ⟨hpre, hfail⟩ := Prod.mk.inj hp
  obtain ⟨hget, hm⟩ := of_decide_eq_true hpre
  obtain ⟨s', o, ho, hne, -⟩ := h s { maxProcesses := 4 } 1 0 4 (replay_run hs) rfl hget (by decide) hm
  rw [ho] at hfail
  exact hne (Option.some.inj hfail)

end Dlb.LewiAsync

import Dlb.Cpuinfo.Shmem

/-!
# What the calls keep

Every call is made of loops over operations on one CPU. A loop keeps what its operation keeps (`coreLoop_keeps`,
`arrayLoop_keeps`, ...), so a property of the shared data that the operations of a process on one CPU keep (`Kept`) is
kept by every call of the process (`exec_keeps`); for the calls that take CPUs those that take one are enough
(`Takes.exec`).
-/

namespace Dlb.Cpuinfo

open List

variable {S : System}

/-! ## Loops -/

theorem mem_nodeCpus {mask : CpuSet} {x : ℕ} : x ∈ nodeCpus S mask ↔ x < S.size ∧ x ∈ mask := by
  simp [nodeCpus]

theorem nodeCpus_nodup (mask : CpuSet) : (nodeCpus S mask).Nodup := List.Nodup.filter _ nodup_range

section Loops

variable {P : Shdata → Prop} {op : Shdata → ℕ → Shdata × DlbError} {pid : Pid}

theorem foldl_keeps {α : Type} {f : Shdata × α → ℕ → Shdata × α} (hf : ∀ r c, P r.1 → P (f r c).1) (l : List ℕ)
    (r : Shdata × α) (h : P r.1) : P (l.foldl f r).1 := by
  induction l generalizing r with
  | nil => exact h
  | cons c rest ih => exact ih _ (hf r c h)

theorem coreLoop_keeps (hop : ∀ d c, P d → P (op d c).1) :
    ∀ (l : List ℕ) (d : Shdata) (error : DlbError) (n : ℕ), P d → P (coreLoop op pid l d error n).1
  | [], _, _, _, h => h
  | c :: rest, d, error, n, h => by
    have hc := hop d c h
    unfold coreLoop
    dsimp only
    split
    · exact coreLoop_keeps hop rest _ _ _ hc
    · split
      · exact coreLoop_keeps hop rest _ _ _ hc
      · exact hc

theorem arrayLoop_keeps {core : Shdata → Option ℕ → Shdata × DlbError × ℕ} (hcore : ∀ d k, P d → P (core d k).1)
    (hop : ∀ d c, P d → P (op d c).1) :
    ∀ (l : List ℕ) (prev : Option ℕ) (d : Shdata) (ncpus : ℤ) (error : DlbError), P d →
      P (arrayLoop S core op l prev d ncpus error).1
  | [], _, _, _, _, h => h
  | c :: rest, prev, d, ncpus, error, h => by
    have hk := hcore d (muGetCoreId S c) h
    have hc := hop d c h
    unfold arrayLoop
    dsimp only
    split
    · exact h
    split
    · split
      · split
        · exact arrayLoop_keeps hcore hop rest _ _ _ _ hk
        · exact arrayLoop_keeps hcore hop rest _ _ _ _ hk
      · exact arrayLoop_keeps hcore hop rest _ _ _ _ h
    · split
      · exact arrayLoop_keeps hcore hop rest _ _ _ _ hc
      · exact arrayLoop_keeps hcore hop rest _ _ _ _ hc

theorem arrayLoop_keeps_cpus {core : Shdata → Option ℕ → Shdata × DlbError × ℕ} (hsmt : ∀ d, P d → d.hwHasSmt = false) :
    ∀ (l : List ℕ) (prev : Option ℕ) (d : Shdata) (ncpus : ℤ) (error : DlbError),
      (∀ d, ∀ c ∈ l, P d → P (op d c).1) → P d → P (arrayLoop S core op l prev d ncpus error).1
  | [], _, _, _, _, _, h => h
  | c :: rest, prev, d, ncpus, error, hop, h => by
    have hc := hop d c mem_cons_self h
    have hrest : ∀ d, ∀ c ∈ rest, P d → P (op d c).1 := fun d e he => hop d e (mem_cons_of_mem c he)
    unfold arrayLoop
    dsimp only
    rw [hsmt d h, if_neg Bool.false_ne_true]
    split
    · exact h
    split
    · exact arrayLoop_keeps_cpus hsmt rest _ _ _ _ hrest hc
    · exact arrayLoop_keeps_cpus hsmt rest _ _ _ _ hrest hc

theorem arrayLoop_keeps_cores {core : Shdata → Option ℕ → Shdata × DlbError × ℕ} (hsmt : ∀ d, P d → d.hwHasSmt = true)
    (hcore : ∀ d k, P d → P (core d k).1) :
    ∀ (l : List ℕ) (prev : Option ℕ) (d : Shdata) (ncpus : ℤ) (error : DlbError), P d →
      P (arrayLoop S core op l prev d ncpus error).1
  | [], _, _, _, _, h => h
  | c :: rest, prev, d, ncpus, error, h => by
    have hk := hcore d (muGetCoreId S c) h
    unfold arrayLoop
    dsimp only
    rw [hsmt d h, if_pos rfl]
    split
    · exact h
    split
    · split
      · exact arrayLoop_keeps_cores hsmt hcore rest _ _ _ _ hk
      · exact arrayLoop_keeps_cores hsmt hcore rest _ _ _ _ hk
    · exact arrayLoop_keeps_cores hsmt hcore rest _ _ _ _ h

theorem stage_keeps {loop : Shdata → List ℕ → ℤ → Shdata × DlbError × ℤ} (hloop : ∀ d l n, P d → P (loop d l n).1)
    (l : List ℕ) (r : Shdata × DlbError × ℤ) (h : P r.1) : P (stage loop l r).1 := by
  unfold stage
  split
  · exact h
  · exact hloop _ _ _ h

theorem borrowFreeNodes_keeps (hloop : ∀ d l n, P d → P (borrowCpusInArray S pid d l n).1) (w : Wish)
    (r : Shdata × DlbError × ℤ) (h : P r.1) : P (borrowFreeNodes S w pid r).1 := by
  unfold borrowFreeNodes
  split
  · exact stage_keeps hloop _ _ h
  · exact h

theorem reclaimCores_keeps (hop : ∀ d k, P d → P (reclaimCore S pid d k).1) :
    ∀ (l : List ℕ) (d : Shdata) (ncpus : ℤ) (error : DlbError), P d → P (reclaimCores S pid l d ncpus error).1
  | [], _, _, _, h => h
  | k :: rest, d, ncpus, error, h => by
    unfold reclaimCores
    split
    · exact h
    · exact reclaimCores_keeps hop rest _ _ _ (hop d k h)

theorem lendGuested_keeps {max : ℕ} (hop : ∀ d c, P d → P ((lendCpu S pid d c).push .disableCpu pid c)) :
    ∀ (l : List ℕ) (count : ℕ) (d : Shdata), P d → P (lendGuested S pid max l count d)
  | [], _, _, h => h
  | c :: rest, count, d, h => by
    unfold lendGuested
    split
    · exact lendGuested_keeps hop rest _ _ (hop d c h)
    · exact lendGuested_keeps hop rest _ _ h

end Loops

/-! ## Loops that do something, or nothing -/

section Doing

variable {op : Shdata → ℕ → Shdata × DlbError} {core : Shdata → Option ℕ → Shdata × DlbError × ℕ} {pid : Pid} {d : Shdata}

theorem done_mergeDone {error error' : DlbError} (h : done error' = true) : done (mergeDone error error') = true := by
  unfold mergeDone
  split
  · rename_i hnoted
    rw [hnoted]
    rfl
  · exact h

theorem mergeDone_ne_noted {error error' : DlbError} (h : error ≠ .noted) (h' : error' ≠ .noted) :
    mergeDone error error' ≠ .noted := by
  unfold mergeDone
  rwa [if_neg h]

theorem coreLoop_ne_noted (hop : ∀ d c, (op d c).2 ≠ .noted) : ∀ (l : List ℕ) (d : Shdata) (error : DlbError) (n : ℕ),
    error ≠ .noted → (coreLoop op pid l d error n).2.1 ≠ .noted
  | [], _, _, _, h => h
  | c :: rest, d, error, n, h => by
    unfold coreLoop
    dsimp only
    split
    · exact coreLoop_ne_noted hop rest _ _ _ (mergeDone_ne_noted h (hop d c))
    split
    · exact coreLoop_ne_noted hop rest _ _ _ h
    · exact h

theorem arrayLoop_ne_noted (hop : ∀ d c, (op d c).2 ≠ .noted) (hcore : ∀ d k, (core d k).2.1 ≠ .noted) :
    ∀ (l : List ℕ) (prev : Option ℕ) (d : Shdata) (ncpus : ℤ) (error : DlbError), error ≠ .noted →
      (arrayLoop S core op l prev d ncpus error).2.1 ≠ .noted
  | [], _, _, _, _, h => h
  | c :: rest, prev, d, ncpus, error, h => by
    unfold arrayLoop
    dsimp only
    split
    · exact h
    split
    · split
      · split
        · exact arrayLoop_ne_noted hop hcore rest _ _ _ _ (mergeDone_ne_noted h (hcore _ _))
        · exact arrayLoop_ne_noted hop hcore rest _ _ _ _ h
      · exact arrayLoop_ne_noted hop hcore rest _ _ _ _ h
    · split
      · exact arrayLoop_ne_noted hop hcore rest _ _ _ _ (mergeDone_ne_noted h (hop d c))
      · exact arrayLoop_ne_noted hop hcore rest _ _ _ _ h

theorem coreLoop_of_done : ∀ (l : List ℕ) (d : Shdata) (error : DlbError) (n : ℕ), done error = true →
    done (coreLoop op pid l d error n).2.1 = true
  | [], _, _, _, h => h
  | c :: rest, d, error, n, h => by
    unfold coreLoop
    dsimp only
    split
    · rename_i hc
      exact coreLoop_of_done rest _ _ _ (done_mergeDone hc)
    split
    · exact coreLoop_of_done rest _ _ _ h
    · exact h

theorem coreLoop_done (hstuck : ∀ c, done (op d c).2 = false → (op d c).1 = d) {c : ℕ} (hc : done (op d c).2 = true) :
    ∀ (l : List ℕ) (error : DlbError) (n : ℕ), c ∈ l →
      (∀ e ∈ l, (d.nodeInfo e).guest = pid ∨ done (op d e).2 = true) → done (coreLoop op pid l d error n).2.1 = true
  | [], _, _, hmem, _ => absurd hmem not_mem_nil
  | a :: rest, error, n, hmem, hl => by
    unfold coreLoop
    dsimp only
    split
    · rename_i ha
      exact coreLoop_of_done rest _ _ _ (done_mergeDone ha)
    · rename_i ha
      have hne : c ≠ a := fun heq => ha (heq ▸ hc)
      rw [hstuck a (by simpa using ha), if_pos ((hl a mem_cons_self).resolve_right ha)]
      exact coreLoop_done hstuck hc rest _ _ ((mem_cons.mp hmem).resolve_left hne)
        fun e he => hl e (mem_cons_of_mem a he)

theorem coreLoop_stuck (hstuck : ∀ c, done (op d c).2 = false → (op d c).1 = d) :
    ∀ (l : List ℕ) (error : DlbError) (n : ℕ), done (coreLoop op pid l d error n).2.1 = false →
      (coreLoop op pid l d error n).1 = d
  | [], _, _, _ => rfl
  | a :: rest, error, n, h => by
    unfold coreLoop at h ⊢
    dsimp only at h ⊢
    split
    · rename_i ha
      rw [if_pos ha, coreLoop_of_done rest _ _ _ (done_mergeDone ha)] at h
      cases h
    · rename_i ha
      rw [if_neg ha] at h
      rw [hstuck a (by simpa using ha)] at h ⊢
      split
      · rename_i hg
        rw [if_pos hg] at h
        exact coreLoop_stuck hstuck rest _ _ h
      · rfl

theorem coreLoop_nothing (hstuck : ∀ c, done (op d c).2 = false → (op d c).1 = d) :
    ∀ (l : List ℕ) (error : DlbError) (n : ℕ), (∀ c ∈ l, done (op d c).2 = false) →
      coreLoop op pid l d error n = (d, error, n)
  | [], _, _, _ => rfl
  | a :: rest, error, n, hl => by
    have ha := hl a mem_cons_self
    unfold coreLoop
    dsimp only
    rw [hstuck a ha, ha, if_neg Bool.false_ne_true, coreLoop_nothing hstuck rest error n fun c hc =>
      hl c (mem_cons_of_mem a hc), ite_self]

variable (S op core d) in
/-- What the loop over an array does at a CPU: its core with SMT, else the CPU alone. -/
def visit (c : ℕ) : Shdata × DlbError :=
  if d.hwHasSmt then ((core d (muGetCoreId S c)).1, (core d (muGetCoreId S c)).2.1) else op d c

theorem arrayLoop_of_done : ∀ (l : List ℕ) (prev : Option ℕ) (d : Shdata) (ncpus : ℤ) (error : DlbError),
    done error = true → done (arrayLoop S core op l prev d ncpus error).2.1 = true
  | [], _, _, _, _, h => h
  | a :: rest, prev, d, ncpus, error, h => by
    unfold arrayLoop
    dsimp only
    split
    · exact h
    split
    · split
      · split
        · rename_i hk
          exact arrayLoop_of_done rest _ _ _ _ (done_mergeDone hk)
        · exact arrayLoop_of_done rest _ _ _ _ h
      · exact arrayLoop_of_done rest _ _ _ _ h
    · split
      · rename_i ha
        exact arrayLoop_of_done rest _ _ _ _ (done_mergeDone ha)
      · exact arrayLoop_of_done rest _ _ _ _ h

theorem arrayLoop_done (hstuck : ∀ c, done (visit S op core d c).2 = false → (visit S op core d c).1 = d) {c : ℕ}
    (hc : done (visit S op core d c).2 = true) (hcore : d.hwHasSmt = true → muGetCoreId S c ≠ none) :
    ∀ (l : List ℕ) (prev : Option ℕ) (ncpus : ℤ) (error : DlbError), c ∈ l → 0 < ncpus →
      (d.hwHasSmt = true → prev = none ∨ done (core d prev).2.1 = false) →
      done (arrayLoop S core op l prev d ncpus error).2.1 = true
  | [], _, _, _, hmem, _, _ => absurd hmem not_mem_nil
  | a :: rest, prev, ncpus, error, hmem, hn, hprev => by
    have hrest : ¬done (visit S op core d a).2 = true → c ∈ rest := fun ha =>
      (mem_cons.mp hmem).resolve_left fun heq => ha (heq ▸ hc)
    have hstay : ¬done (visit S op core d a).2 = true → (visit S op core d a).1 = d := fun ha =>
      hstuck a (by simpa using ha)
    unfold visit at hrest hstay
    unfold arrayLoop
    dsimp only
    rw [if_neg (by omega)]
    by_cases hsmt : d.hwHasSmt = true
    · rw [if_pos hsmt] at hrest hstay ⊢
      split
      · split
        · rename_i hk
          exact arrayLoop_of_done rest _ _ _ _ (done_mergeDone hk)
        · rename_i hk
          rw [hstay hk]
          exact arrayLoop_done hstuck hc hcore rest _ _ _ (hrest hk) hn fun _ => .inr (by simpa using hk)
      · rename_i heq
        have heq : prev = muGetCoreId S a := by simpa using heq
        -- the core before was the same one, and nothing was done there
        refine arrayLoop_done hstuck hc hcore rest _ _ _ ((mem_cons.mp hmem).resolve_left fun hca => ?_) hn hprev
        subst hca
        rcases hprev hsmt with hnone | hno
        · exact hcore hsmt (heq.symm.trans hnone)
        · unfold visit at hc
          rw [if_pos hsmt, ← heq] at hc
          rw [hc] at hno
          cases hno
    · rw [if_neg hsmt] at hrest hstay ⊢
      split
      · rename_i ha
        exact arrayLoop_of_done rest _ _ _ _ (done_mergeDone ha)
      · rename_i ha
        rw [hstay ha]
        exact arrayLoop_done hstuck hc hcore rest _ _ _ (hrest ha) hn hprev

theorem arrayLoop_nothing (hstuck : ∀ c, done (visit S op core d c).2 = false → (visit S op core d c).1 = d) :
    ∀ (l : List ℕ) (prev : Option ℕ) (ncpus : ℤ) (error : DlbError), (∀ c ∈ l, done (visit S op core d c).2 = false) →
      arrayLoop S core op l prev d ncpus error = (d, error, ncpus)
  | [], _, _, _, _ => rfl
  | a :: rest, prev, ncpus, error, hl => by
    have ha := hl a mem_cons_self
    have hstay := hstuck a ha
    have hrest : ∀ prev, arrayLoop S core op rest prev d ncpus error = (d, error, ncpus) := fun prev =>
      arrayLoop_nothing hstuck rest prev ncpus error fun c hc => hl c (mem_cons_of_mem a hc)
    unfold visit at ha hstay
    unfold arrayLoop
    dsimp only
    by_cases hsmt : d.hwHasSmt = true
    · rw [if_pos hsmt] at ha hstay ⊢
      rw [ha, hstay, if_neg Bool.false_ne_true]
      split_ifs
      · rfl
      · exact hrest _
      · exact hrest _
    · rw [if_neg hsmt] at ha hstay ⊢
      rw [ha, hstay, if_neg Bool.false_ne_true, hrest, ite_self]

theorem arrayLoop_stuck (hstuck : ∀ c, done (visit S op core d c).2 = false → (visit S op core d c).1 = d) :
    ∀ (l : List ℕ) (prev : Option ℕ) (ncpus : ℤ) (error : DlbError),
      done (arrayLoop S core op l prev d ncpus error).2.1 = false →
      (arrayLoop S core op l prev d ncpus error).1 = d ∧ (arrayLoop S core op l prev d ncpus error).2.2 = ncpus
  | [], _, _, _, _ => ⟨rfl, rfl⟩
  | a :: rest, prev, ncpus, error, h => by
    have hstay := hstuck a
    unfold visit at hstay
    unfold arrayLoop at h ⊢
    dsimp only at h ⊢
    by_cases hn : ncpus ≤ 0
    · rw [if_pos hn]
      exact ⟨rfl, rfl⟩
    rw [if_neg hn] at h ⊢
    by_cases hsmt : d.hwHasSmt = true
    · rw [if_pos hsmt] at h hstay ⊢
      by_cases hk : prev ≠ muGetCoreId S a
      · rw [if_pos hk] at h ⊢
        cases hdone : done (core d (muGetCoreId S a)).2.1 with
        | true =>
          rw [hdone, if_pos rfl, arrayLoop_of_done rest _ _ _ _ (done_mergeDone hdone)] at h
          cases h
        | false =>
          rw [hdone, if_neg Bool.false_ne_true, hstay hdone] at h
          rw [if_neg Bool.false_ne_true, hstay hdone]
          exact arrayLoop_stuck hstuck rest _ _ _ h
      · rw [if_neg hk] at h ⊢
        exact arrayLoop_stuck hstuck rest _ _ _ h
    · rw [if_neg hsmt] at h hstay ⊢
      cases hdone : done (op d a).2 with
      | true =>
        rw [hdone, if_pos rfl, arrayLoop_of_done rest _ _ _ _ (done_mergeDone hdone)] at h
        cases h
      | false =>
        rw [hdone, if_neg Bool.false_ne_true, hstay hdone] at h
        rw [if_neg Bool.false_ne_true, hstay hdone]
        exact arrayLoop_stuck hstuck rest _ _ _ h

end Doing

/-! ## What the loops gain -/

section Gains

variable {op : Shdata → ℕ → Shdata × DlbError} {core : Shdata → Option ℕ → Shdata × DlbError × ℕ} {pid : Pid}
  {f : Shdata → ℕ} {T : ℕ}

theorem coreLoop_count_le : ∀ (l : List ℕ) (d : Shdata) (error : DlbError) (n : ℕ),
    (coreLoop op pid l d error n).2.2 ≤ n + l.length
  | [], _, _, _ => Nat.le_refl _
  | c :: rest, d, error, n => by
    unfold coreLoop
    dsimp only
    rw [length_cons]
    split
    · have hrest := coreLoop_count_le rest (op d c).1 (mergeDone error (op d c).2) (n + 1)
      omega
    split
    · have hrest := coreLoop_count_le rest (op d c).1 error n
      omega
    · dsimp only
      omega

theorem coreLoop_count_of_not_done : ∀ (l : List ℕ) (d : Shdata) (error : DlbError) (n : ℕ),
    done (coreLoop op pid l d error n).2.1 = false → (coreLoop op pid l d error n).2.2 = n
  | [], _, _, _, _ => rfl
  | c :: rest, d, error, n, h => by
    unfold coreLoop at h ⊢
    dsimp only at h ⊢
    split
    · rename_i hc
      rw [if_pos hc, coreLoop_of_done rest _ _ _ (done_mergeDone hc)] at h
      cases h
    · rename_i hc
      rw [if_neg hc] at h
      split
      · rename_i hg
        rw [if_pos hg] at h
        exact coreLoop_count_of_not_done rest _ _ _ h
      · rfl

theorem coreLoop_gains (hop : ∀ d c, f (op d c).1 ≤ f d + if done (op d c).2 then 1 else 0) :
    ∀ (l : List ℕ) (d : Shdata) (error : DlbError) (n : ℕ),
      f (coreLoop op pid l d error n).1 + n ≤ f d + (coreLoop op pid l d error n).2.2
  | [], _, _, _ => Nat.le_refl _
  | c :: rest, d, error, n => by
    have hc := hop d c
    unfold coreLoop
    dsimp only
    split
    · rename_i hdone
      rw [if_pos hdone] at hc
      have hrest := coreLoop_gains hop rest (op d c).1 (mergeDone error (op d c).2) (n + 1)
      omega
    · rename_i hdone
      rw [if_neg hdone] at hc
      split
      · have hrest := coreLoop_gains hop rest (op d c).1 error n
        omega
      · dsimp only
        omega

theorem core_gains (hop : ∀ d c, f (op d c).1 ≤ f d + if done (op d c).2 then 1 else 0) (l : List ℕ) (d : Shdata) :
    f (coreLoop op pid l d .noupdt 0).1 ≤
      f d + if done (coreLoop op pid l d .noupdt 0).2.1 then (coreLoop op pid l d .noupdt 0).2.2 else 0 := by
  have hgain : f (coreLoop op pid l d .noupdt 0).1 + 0 ≤ f d + (coreLoop op pid l d .noupdt 0).2.2 :=
    coreLoop_gains hop l d .noupdt 0
  split
  · exact hgain
  · rename_i hdone
    have hnone := coreLoop_count_of_not_done l d .noupdt 0 (eq_false_of_ne_true hdone)
    omega

theorem arrayLoop_gains (hop : ∀ d c, f (op d c).1 ≤ f d + if done (op d c).2 then 1 else 0)
    (hcore : ∀ d k, f (core d k).1 ≤ f d + if done (core d k).2.1 then (core d k).2.2 else 0) :
    ∀ (l : List ℕ) (prev : Option ℕ) (d : Shdata) (ncpus : ℤ) (error : DlbError),
      (f (arrayLoop S core op l prev d ncpus error).1 : ℤ) + (arrayLoop S core op l prev d ncpus error).2.2 ≤ f d + ncpus
  | [], _, _, _, _ => le_refl _
  | c :: rest, prev, d, ncpus, error => by
    have hk := hcore d (muGetCoreId S c)
    have hc := hop d c
    unfold arrayLoop
    dsimp only
    split
    · exact le_refl _
    split
    · split
      · split
        · rename_i hdone
          rw [if_pos hdone] at hk
          have hrest := arrayLoop_gains hop hcore rest (muGetCoreId S c) (core d (muGetCoreId S c)).1
            (ncpus - (core d (muGetCoreId S c)).2.2) (mergeDone error (core d (muGetCoreId S c)).2.1)
          omega
        · rename_i hdone
          rw [if_neg hdone] at hk
          have hrest := arrayLoop_gains hop hcore rest (muGetCoreId S c) (core d (muGetCoreId S c)).1 ncpus error
          omega
      · exact arrayLoop_gains hop hcore rest prev d ncpus error
    · split
      · rename_i hdone
        rw [if_pos hdone] at hc
        have hrest := arrayLoop_gains hop hcore rest prev (op d c).1 (ncpus - 1) (mergeDone error (op d c).2)
        omega
      · rename_i hdone
        rw [if_neg hdone] at hc
        have hrest := arrayLoop_gains hop hcore rest prev (op d c).1 ncpus error
        omega

theorem arrayLoop_left {P : Shdata → Prop} (hT : 1 ≤ T) (hkeep : ∀ d k, P d → P (core d k).1)
    (hop : ∀ d c, P d → P (op d c).1) (hcore : ∀ d k, P d → d.hwHasSmt = true → (core d k).2.2 ≤ T) :
    ∀ (l : List ℕ) (prev : Option ℕ) (d : Shdata) (ncpus : ℤ) (error : DlbError), P d → 1 - (T : ℤ) ≤ ncpus →
      1 - (T : ℤ) ≤ (arrayLoop S core op l prev d ncpus error).2.2
  | [], _, _, _, _, _, h => h
  | c :: rest, prev, d, ncpus, error, hd, h => by
    have hk := hkeep d (muGetCoreId S c) hd
    have hc := hop d c hd
    unfold arrayLoop
    dsimp only
    split
    · exact h
    split
    · rename_i hsmt
      have hcount := hcore d (muGetCoreId S c) hd hsmt
      split
      · split
        · exact arrayLoop_left hT hkeep hop hcore rest _ _ _ _ hk (by omega)
        · exact arrayLoop_left hT hkeep hop hcore rest _ _ _ _ hk h
      · exact arrayLoop_left hT hkeep hop hcore rest _ _ _ _ hd h
    · split
      · exact arrayLoop_left hT hkeep hop hcore rest _ _ _ _ hc (by omega)
      · exact arrayLoop_left hT hkeep hop hcore rest _ _ _ _ hc h

theorem stage_gains {loop : Shdata → List ℕ → ℤ → Shdata × DlbError × ℤ}
    (hloop : ∀ d l n, (f (loop d l n).1 : ℤ) + (loop d l n).2.2 ≤ f d + n) (l : List ℕ) (r : Shdata × DlbError × ℤ) :
    (f (stage loop l r).1 : ℤ) + (stage loop l r).2.2 ≤ f r.1 + r.2.2 := by
  unfold stage
  split
  · exact le_refl _
  · exact hloop _ _ _

theorem stage_left {P : Shdata → Prop} {loop : Shdata → List ℕ → ℤ → Shdata × DlbError × ℤ}
    (hloop : ∀ d l n, P d → 1 - (T : ℤ) ≤ n → 1 - (T : ℤ) ≤ (loop d l n).2.2) (l : List ℕ)
    (r : Shdata × DlbError × ℤ) (h : P r.1) (hr : 1 - (T : ℤ) ≤ r.2.2) : 1 - (T : ℤ) ≤ (stage loop l r).2.2 := by
  unfold stage
  split
  · exact hr
  · exact hloop _ _ _ h hr

end Gains

/-! ## Conditions along the loops -/

section Along

variable (op : Shdata → ℕ → Shdata × DlbError) (pid : Pid) (Q : Shdata → ℕ → Prop)

/-- `Q` holds of every operation of `coreLoop`, at the state in which it is done. -/
def CoreAlong : List ℕ → Shdata → Prop
  | [], _ => True
  | c :: rest, d => Q d c ∧ (done (op d c).2 ∨ ((op d c).1.nodeInfo c).guest = pid → CoreAlong rest (op d c).1)

/-- `Q` holds of every operation of `arrayLoop`, with `coreLoop` on the cores. -/
def ArrayAlong (S : System) (core : Shdata → Option ℕ → Shdata × DlbError × ℕ) :
    List ℕ → Option ℕ → Shdata → ℤ → Prop
  | [], _, _, _ => True
  | c :: rest, prevCoreId, d, ncpus =>
    0 < ncpus →
      if d.hwHasSmt then
        if prevCoreId ≠ muGetCoreId S c then
          CoreAlong op pid Q (coreCpus S (muGetCoreId S c)) d ∧
            ArrayAlong S core rest (muGetCoreId S c) (core d (muGetCoreId S c)).1
              (if done (core d (muGetCoreId S c)).2.1 then ncpus - (core d (muGetCoreId S c)).2.2 else ncpus)
        else ArrayAlong S core rest prevCoreId d ncpus
      else Q d c ∧ ArrayAlong S core rest prevCoreId (op d c).1 (if done (op d c).2 then ncpus - 1 else ncpus)

variable {op pid Q} {P : Shdata → Prop}

theorem coreLoop_along (hop : ∀ d c, P d → Q d c → P (op d c).1) :
    ∀ (l : List ℕ) (d : Shdata) (error : DlbError) (n : ℕ), P d → CoreAlong op pid Q l d →
      P (coreLoop op pid l d error n).1
  | [], _, _, _, h, _ => h
  | c :: rest, d, error, n, h, hq => by
    have hc := hop d c h hq.1
    unfold coreLoop
    dsimp only
    split
    · rename_i hdone
      exact coreLoop_along hop rest _ _ _ hc (hq.2 (.inl hdone))
    · split
      · rename_i hguest
        exact coreLoop_along hop rest _ _ _ hc (hq.2 (.inr hguest))
      · exact hc

theorem arrayLoop_along {core : Shdata → Option ℕ → Shdata × DlbError × ℕ}
    (hcore : ∀ d k, P d → CoreAlong op pid Q (coreCpus S k) d → P (core d k).1)
    (hop : ∀ d c, P d → Q d c → P (op d c).1) :
    ∀ (l : List ℕ) (prev : Option ℕ) (d : Shdata) (ncpus : ℤ) (error : DlbError), P d →
      ArrayAlong op pid Q S core l prev d ncpus → P (arrayLoop S core op l prev d ncpus error).1
  | [], _, _, _, _, h, _ => h
  | c :: rest, prev, d, ncpus, error, h, hq => by
    unfold arrayLoop
    dsimp only
    split
    · exact h
    rename_i hpos
    have hq := hq (by omega)
    split
    · rename_i hsmt
      rw [if_pos hsmt] at hq
      split
      · rename_i hprev
        rw [if_pos hprev] at hq
        have hk := hcore d _ h hq.1
        split
        · rename_i hdone
          rw [if_pos hdone] at hq
          exact arrayLoop_along hcore hop rest _ _ _ _ hk hq.2
        · rename_i hdone
          rw [if_neg hdone] at hq
          exact arrayLoop_along hcore hop rest _ _ _ _ hk hq.2
      · rename_i hprev
        rw [if_neg hprev] at hq
        exact arrayLoop_along hcore hop rest _ _ _ _ h hq
    · rename_i hsmt
      rw [if_neg hsmt] at hq
      have hc := hop d c h hq.1
      split
      · rename_i hdone
        rw [if_pos hdone] at hq
        exact arrayLoop_along hcore hop rest _ _ _ _ hc hq.2
      · rename_i hdone
        rw [if_neg hdone] at hq
        exact arrayLoop_along hcore hop rest _ _ _ _ hc hq.2

theorem stage_along {loop : Shdata → List ℕ → ℤ → Shdata × DlbError × ℤ} {l : List ℕ} {r : Shdata × DlbError × ℤ}
    (h : P r.1) (hloop : P (loop r.1 l r.2.2).1) : P (stage loop l r).1 := by
  unfold stage
  split
  · exact h
  · exact hloop

end Along

/-! ## The number of CPUs -/

section Number

variable {w : Wish} {u : Unlocked} {pid : Pid} {stale : Bool}

theorem Wish.requested_pos (h : ¬w.returnsEarly u pid stale = true) : ∀ n ∈ w.requestedNcpus, 0 < n := by
  intro n hn
  unfold Wish.returnsEarly at h
  rw [decide_eq_true_eq, not_or] at h
  have hpos : ¬n ≤ 0 := by simpa [Option.mem_def.mp hn] using h.1
  exact not_le.mp hpos

theorem Wish.ncpus_pos (hrequested : ∀ n ∈ w.requestedNcpus, 0 < n) (hsize : 0 < S.size) : 0 < w.ncpus S u pid := by
  have hnumber : 0 < w.requestedNcpus.getD S.size := by
    cases hn : w.requestedNcpus with
    | none => exact Int.natCast_pos.mpr hsize
    | some n => exact hrequested n hn
  unfold Wish.ncpus
  split
  · rename_i hleft
    exact lt_min hnumber hleft
  · exact hnumber

end Number

/-! ## Calls -/

/-- The operations of process `pid` that take CPUs keep `P`. The tasks of a call start from none. -/
structure Takes (S : System) (pid : Pid) (P : Shdata → Prop) : Prop where
  start : ∀ d, P d → P { d with tasks := [] }
  reclaim : ∀ d c, P d → P (reclaimCpu pid d c).1
  acquire : ∀ d c, P d → P (acquireCpu S pid d c).1
  borrow : ∀ d c, P d → P (borrowCpu S pid d c).1

/-- The operations of process `pid` keep `P`. What `shmem_cpuinfo__reclaim_cpu` says to the rest of the core is not among
them. -/
structure Kept (S : System) (pid : Pid) (P : Shdata → Prop) : Prop extends Takes S pid P where
  timestamp : ∀ d now, P d → P (d.updateShmemTimestamp now)
  lend : ∀ d c, P d → P (lendCpu S pid d c)
  giveBack : ∀ d c, P d → P (returnCpu S pid d c).1
  disable : ∀ d c, P d → P (d.push .disableCpu pid c)
  petitions : ∀ w r, P r.1 → P (addPetitions w pid r).1
  remove : ∀ d, P d → P (removeRequests S d pid)

/-- The calls that take CPUs, but for `shmem_cpuinfo__reclaim_cpu`, which tells the rest of the core to leave, and the
acquire by number, which may ask for more. -/
def Call.Taking : Call → Prop
  | .reclaimAll | .reclaimCpus _ | .reclaimCpuMask _ | .acquireCpu _ | .acquireFromCpuSubset _ | .borrowCpu _
  | .borrowFromCpuSubset _ | .borrowNcpusFromCpuSubset _ _ => True
  | _ => False

section Calls

variable {pid : Pid} {P : Shdata → Prop}

theorem acquireCpus_keep (hop : ∀ d c, P d → P (acquireCpu S pid d c).1) (d : Shdata) (l : List ℕ) (n : ℤ) (hd : P d) :
    P (acquireCpusInArray S pid d l n).1 :=
  arrayLoop_keeps (fun _ _ => coreLoop_keeps hop _ _ _ _) hop l none d n .noupdt hd

theorem borrowCpus_keep (hop : ∀ d c, P d → P (borrowCpu S pid d c).1) (d : Shdata) (l : List ℕ) (n : ℤ) (hd : P d) :
    P (borrowCpusInArray S pid d l n).1 :=
  arrayLoop_keeps (fun _ _ => coreLoop_keeps hop _ _ _ _) hop l none d n .noupdt hd

theorem stages_keep (hacquire : ∀ d c, P d → P (acquireCpu S pid d c).1)
    (hborrow : ∀ d c, P d → P (borrowCpu S pid d c).1) {d : Shdata} (hd : P d) (w : Wish) (n : ℤ) :
    P (acquireStages S w d pid n).1 := by
  apply stage_keeps (borrowCpus_keep hborrow)
  apply stage_keeps (acquireCpus_keep hacquire)
  exact stage_keeps (acquireCpus_keep hacquire) _ _ hd

theorem Takes.acquireCpus (h : Takes S pid P) (d : Shdata) (l : List ℕ) (n : ℤ) (hd : P d) :
    P (acquireCpusInArray S pid d l n).1 :=
  acquireCpus_keep h.acquire d l n hd

theorem Takes.borrowCpus (h : Takes S pid P) (d : Shdata) (l : List ℕ) (n : ℤ) (hd : P d) :
    P (borrowCpusInArray S pid d l n).1 :=
  borrowCpus_keep h.borrow d l n hd

theorem Takes.stages (h : Takes S pid P) {d : Shdata} (hd : P d) (w : Wish) (n : ℤ) :
    P (acquireStages S w d pid n).1 :=
  stages_keep h.acquire h.borrow hd w n

theorem Takes.borrowNcpus (h : Takes S pid P) {d : Shdata} (hd : P d) (c : Caller) (w : Wish) (u : Unlocked) :
    P (shmemBorrowNcpusFromCpuSubset S c d pid w u).1 := by
  unfold shmemBorrowNcpusFromCpuSubset
  split
  · exact hd
  · exact borrowFreeNodes_keeps h.borrowCpus w _ (h.borrowCpus _ _ _ hd)

theorem Takes.exec (h : Takes S pid P) {d : Shdata} (hd : P d) (c : Caller) {call : Call} (hcall : call.Taking) :
    P (exec S c pid d call) := by
  have h0 := h.start d hd
  unfold Cpuinfo.exec
  generalize { d with tasks := [] } = d0 at h0 ⊢
  cases call with
  | reclaimAll =>
    refine foldl_keeps (fun r c hr => ?_) _ _ h0
    split
    · exact h.reclaim _ _ hr
    · exact hr
  | reclaimCpus ncpus => exact reclaimCores_keeps (fun _ _ => coreLoop_keeps h.reclaim _ _ _ _) _ _ _ _ h0
  | reclaimCpuMask mask =>
    refine foldl_keeps (fun r c hr => ?_) _ _ h0
    exact h.reclaim _ _ hr
  | acquireCpu cpuid =>
    unfold shmemAcquireCpu
    dsimp only
    split
    · exact h0
    · exact h.acquire _ _ h0
  | acquireFromCpuSubset cpus => exact h.acquireCpus _ _ _ h0
  | borrowCpu cpuid =>
    unfold shmemBorrowCpu
    dsimp only
    split
    · exact h0
    · exact h.borrow _ _ h0
  | borrowFromCpuSubset cpus => exact h.borrowCpus _ _ _ h0
  | borrowNcpusFromCpuSubset wish unlocked => exact h.borrowNcpus h0 c wish unlocked
  | lendCpu _ | lendCpuMask _ | reclaimCpu _ | acquireNcpusFromCpuSubset _ _ | returnAll | returnCpu _
  | returnCpuMask _ | reset | updateMaxParallelism _ => cases hcall

theorem Kept.acquireNcpus (h : Kept S pid P) {d : Shdata} (hd : P d) (c : Caller) (w : Wish) (u : Unlocked) :
    P (shmemAcquireNcpusFromCpuSubset S c d pid w u).1 := by
  unfold shmemAcquireNcpusFromCpuSubset
  split
  · exact hd
  · exact h.petitions _ _ (h.stages hd w _)

theorem Kept.reset (h : Kept S pid P) {d : Shdata} (hd : P d) (c : Caller) : P (shmemReset S c d pid).1 := by
  refine h.timestamp _ _ (foldlRecOn _ _ (h.remove d hd) fun d hd c _ => ?_)
  unfold resetCpu
  split
  · exact h.reclaim d c hd
  split
  · exact h.disable _ _ (h.lend d c hd)
  · exact hd

theorem Kept.updateMaxParallelism (h : Kept S pid P) {d : Shdata} (hd : P d) (c : Caller) (max : ℕ) :
    P (shmemUpdateMaxParallelism S c d pid max).1 := by
  have hlend : ∀ d c, P d → P ((lendCpu S pid d c).push .disableCpu pid c) := fun d c hd => h.disable _ _ (h.lend d c hd)
  refine h.timestamp _ _ (lendGuested_keeps hlend _ _ _ (foldl_keeps (fun r c hr => ?_) _ _ hd))
  unfold lendBeyond
  split
  · split
    · exact hlend _ _ hr
    · exact hr
  split
  · exact hr
  · exact hr

theorem exec_keeps (h : Kept S pid P) {d : Shdata} (hd : P d) (c : Caller) (call : Call)
    (hreclaim : ∀ cpuid, call = .reclaimCpu cpuid → P (shmemReclaimCpu S { d with tasks := [] } pid cpuid).1) :
    P (exec S c pid d call) := by
  by_cases htaking : call.Taking
  · exact h.exec hd c htaking
  have h0 := h.start d hd
  unfold exec
  generalize { d with tasks := [] } = d0 at h0 hreclaim ⊢
  cases call with
  | lendCpu cpuid =>
    unfold shmemLendCpu
    dsimp only
    split
    · exact h0
    · exact h.timestamp _ _ (h.lend _ _ h0)
  | lendCpuMask mask => exact h.timestamp _ _ (foldlRecOn _ _ h0 fun d hd c _ => h.lend d c hd)
  | reclaimCpu cpuid => exact hreclaim cpuid rfl
  | acquireNcpusFromCpuSubset wish unlocked => exact h.acquireNcpus h0 c wish unlocked
  | returnAll =>
    refine foldl_keeps (fun r c hr => ?_) _ _ h0
    split
    · exact h.giveBack _ _ hr
    · exact hr
  | returnCpu cpuid =>
    unfold shmemReturnCpu
    dsimp only
    split
    · exact h0
    split
    · exact h0
    · exact h.giveBack _ _ h0
  | returnCpuMask mask =>
    refine foldl_keeps (fun r c hr => ?_) _ _ h0
    exact h.giveBack _ _ hr
  | reset => exact h.reset h0 c
  | updateMaxParallelism max => exact h.updateMaxParallelism h0 c max
  | reclaimAll | reclaimCpus _ | reclaimCpuMask _ | acquireCpu _ | acquireFromCpuSubset _ | borrowCpu _
  | borrowFromCpuSubset _ | borrowNcpusFromCpuSubset _ _ => exact absurd trivial htaking

theorem shmemReclaimCpu_keeps (hop : ∀ d c, P d → P (reclaimCpu pid d c).1)
    (hrest : ∀ d cpuid c, P d → P (disableRest pid cpuid d c)) {d : Shdata} (hd : P d) (cpuid : ℕ) :
    P (shmemReclaimCpu S d pid cpuid).1 := by
  unfold shmemReclaimCpu
  dsimp only
  split
  · exact hd
  split
  · exact foldlRecOn _ _ (hop d cpuid hd) fun d hd c _ => hrest d cpuid c hd
  · exact hop d cpuid hd

theorem addPetitions_keeps (hglobal : ∀ d request, P d → P (petition d request).1)
    (hcpu : ∀ r c, P r.1 → P (petitionCpu pid r c).1) (w : Wish) (r : Shdata × DlbError × ℤ) (hr : P r.1) :
    P (addPetitions w pid r).1 := by
  unfold addPetitions
  split
  · split
    · split
      · exact hglobal _ _ hr
      · exact hr
    · exact foldl_keeps hcpu _ _ hr
  · exact hr

end Calls

end Dlb.Cpuinfo

import Dlb.Cpuinfo.Regain

/-!
# What a borrow takes

`shmem_cpuinfo__borrow_from_cpu_subset` gives a process the CPUs that its loops come to and that the process can take. With
SMT the loop over a core ends at a CPU that the process neither takes nor guests: after one CPU of the core that it takes
this can only be a disabled one (`mem_coreTaken`). The code is success if any CPU was taken (`borrow_took`).
-/

namespace Dlb.Cpuinfo

open List

variable {S : System} {p : Pid} {d0 d : Shdata} {c x m : ℕ} {P : Set ℕ} {T : ℕ}

/-! ## One CPU -/

theorem borrowCpu_acquires :
    Acquires p d (borrowCpu S p d c).1 ∧ ∀ x, x ≠ c → (borrowCpu S p d c).1.nodeInfo x = d.nodeInfo x := by
  have hsame : Acquires p d d ∧ ∀ x, x ≠ c → d.nodeInfo x = d.nodeInfo x :=
    ⟨⟨.refl d, fun _ => .refl _⟩, fun _ _ => rfl⟩
  unfold borrowCpu
  dsimp only
  split
  · exact hsame
  split
  · rename_i hg
    split
    · rename_i ho
      exact Acquires.write ⟨rfl, rfl, rfl⟩ rfl ⟨rfl, .inr ⟨hg.1, rfl⟩, .inr ⟨ho, rfl⟩⟩
    split
    · have hnote := noteOccupiedOwned_same (S := S) (c := c)
        (d := ((d.set c { d.nodeInfo c with guest := p }).push .enableCpu p c).clrFree c)
      exact Acquires.write ⟨hnote.1.initialized, hnote.1.queues, hnote.1.smt⟩ hnote.2 ⟨rfl, .inr ⟨hg.1, rfl⟩, .inl rfl⟩
    · exact hsame
  · exact hsame

theorem borrowCpu_guest (h : Takeable S p d c) : ((borrowCpu S p d c).1.nodeInfo c).guest = p := by
  obtain ⟨hs, hg, hel, htake⟩ := h
  unfold borrowCpu
  rw [if_neg hs, if_pos ⟨hg, hel⟩]
  split
  · simp [Shdata.set, Shdata.push, Shdata.clrFree]
  · rename_i ho
    rw [if_pos (htake.resolve_left ho), noteOccupiedOwned_same.2]
    simp [Shdata.set, Shdata.push, Shdata.clrFree]

/-- The process has taken the CPUs `P`, and nothing else has changed. -/
structure Took (S : System) (p : Pid) (d0 : Shdata) (P : Set ℕ) (d : Shdata) : Prop where
  acquires : Acquires p d0 d
  other : ∀ x, x ∉ P → d.nodeInfo x = d0.nodeInfo x
  taken : ∀ x ∈ P, Takeable S p d0 x ∧ (d.nodeInfo x).guest = p

theorem Took.refl (d : Shdata) : Took S p d ∅ d := ⟨⟨.refl d, fun _ => .refl _⟩, fun _ _ => rfl, fun _ => False.elim⟩

theorem Took.congr {Q : Set ℕ} (h : Took S p d0 P d) (hPQ : ∀ x, x ∈ Q ↔ x ∈ P) : Took S p d0 Q d := by
  rwa [Set.ext hPQ]

theorem Took.guest_iff (h : Took S p d0 P d) : (d.nodeInfo x).guest = p ↔ (d0.nodeInfo x).guest = p ∨ x ∈ P := by
  by_cases hx : x ∈ P
  · exact iff_of_true (h.taken x hx).2 (.inr hx)
  · rw [h.other x hx, or_iff_left hx]

theorem Took.takeable_iff (h : Took S p d0 P d) (hp0 : p ≠ 0) : Takeable S p d x ↔ Takeable S p d0 x ∧ x ∉ P := by
  by_cases hx : x ∈ P
  · exact iff_of_false (fun ht => hp0 ((h.taken x hx).2.symm.trans ht.2.1)) fun ht => ht.2 hx
  · unfold Takeable
    rw [h.other x hx, h.acquires.eligible, and_iff_left hx]

theorem Took.borrow (h : Took S p d0 P d) (hp0 : p ≠ 0) (ht : Takeable S p d0 c) (hc : c ∉ P) :
    Took S p d0 (insert c P) (borrowCpu S p d c).1 where
  acquires := h.acquires.trans borrowCpu_acquires.1
  other x hx := by
    obtain ⟨hne, hx⟩ := not_or.mp hx
    exact (borrowCpu_acquires.2 x hne).trans (h.other x hx)
  taken x hx := by
    by_cases hxc : x = c
    · rw [hxc]
      exact ⟨ht, borrowCpu_guest ((h.takeable_iff hp0).mpr ⟨ht, hc⟩)⟩
    · obtain ⟨ht', hg⟩ := h.taken x (hx.resolve_left hxc)
      exact ⟨ht', by rwa [borrowCpu_acquires.2 x hxc]⟩

/-! ## The loop over a core -/

def coreTaken (S : System) (p : Pid) (d : Shdata) : List ℕ → List ℕ
  | [] => []
  | c :: rest =>
    if Takeable S p d c then c :: coreTaken S p d rest
    else if (d.nodeInfo c).guest = p then coreTaken S p d rest
    else []

theorem coreLoop_took (hp0 : p ≠ 0) : ∀ (l : List ℕ) {P : Set ℕ} {d : Shdata} (error : DlbError) (n : ℕ),
    Took S p d0 P d →
      Took S p d0 (P ∪ {x | x ∈ coreTaken S p d0 l}) (coreLoop (borrowCpu S p) p l d error n).1 ∧
        (done (coreLoop (borrowCpu S p) p l d error n).2.1 = true ↔
          done error = true ∨ ∃ x ∈ coreTaken S p d0 l, x ∉ P)
  | [], P, d, error, n, h => by
    constructor
    · exact h.congr fun x => by simp [coreTaken]
    · simp [coreTaken, coreLoop]
  | c :: rest, P, d, error, n, h => by
    unfold coreLoop coreTaken
    dsimp only
    by_cases hnew : Takeable S p d0 c ∧ c ∉ P
    · obtain ⟨ht, hc⟩ := hnew
      have hdone : done (borrowCpu S p d c).2 = true := borrowCpu_done.mpr ((h.takeable_iff hp0).mpr ⟨ht, hc⟩)
      obtain ⟨htook, -⟩ := coreLoop_took hp0 rest (mergeDone error (borrowCpu S p d c).2) (n + 1) (h.borrow hp0 ht hc)
      rw [if_pos ht, if_pos hdone]
      constructor
      · exact htook.congr fun x => by simp; tauto
      · exact iff_of_true (coreLoop_of_done rest _ _ _ (done_mergeDone hdone)) (.inr ⟨c, mem_cons_self, hc⟩)
    · have hno : done (borrowCpu S p d c).2 = false :=
        eq_false_of_ne_true fun hdone => hnew ((h.takeable_iff hp0).mp (borrowCpu_done.mp hdone))
      rw [hno, if_neg Bool.false_ne_true, borrowCpu_stuck hno]
      by_cases hg : (d.nodeInfo c).guest = p
      · obtain ⟨htook, hcode⟩ := coreLoop_took hp0 rest error n h
        rw [if_pos hg]
        by_cases ht : Takeable S p d0 c
        · have hc : c ∈ P := by
            by_contra hc
            exact hnew ⟨ht, hc⟩
          rw [if_pos ht]
          constructor
          · refine htook.congr fun x => ?_
            have : x = c → x ∈ P := fun hx => hx ▸ hc
            simp
            tauto
          · rw [hcode]
            refine or_congr_right ⟨fun ⟨x, hx, hxP⟩ => ⟨x, mem_cons_of_mem c hx, hxP⟩, fun ⟨x, hx, hxP⟩ => ?_⟩
            exact ⟨x, (mem_cons.mp hx).resolve_left fun hxc => hxP (hxc ▸ hc), hxP⟩
        · have hg0 : (d0.nodeInfo c).guest = p := (h.guest_iff.mp hg).resolve_right fun hc => ht (h.taken c hc).1
          rw [if_neg ht, if_pos hg0]
          exact ⟨htook, hcode⟩
      · have hc : c ∉ P := fun hc => hg (h.taken c hc).2
        have ht : ¬Takeable S p d0 c := fun ht => hnew ⟨ht, hc⟩
        have hg0 : (d0.nodeInfo c).guest ≠ p := fun hg0 => hg (h.guest_iff.mpr (.inl hg0))
        rw [if_neg hg, if_neg ht, if_neg hg0]
        constructor
        · exact h.congr fun x => by simp
        · simp

theorem coreTaken_sublist (l : List ℕ) : (coreTaken S p d l).Sublist l := by
  induction l with
  | nil => exact .slnil
  | cons c rest ih =>
    unfold coreTaken
    split_ifs
    · exact ih.cons_cons c
    · exact ih.cons c
    · exact nil_sublist _

theorem mem_coreTaken_iff {l : List ℕ} (hsorted : l.Pairwise (· < ·)) : x ∈ coreTaken S p d l ↔
    Takeable S p d x ∧ x ∈ l ∧ ∀ e ∈ l, e < x → Takeable S p d e ∨ (d.nodeInfo e).guest = p := by
  induction l with
  | nil => simp [coreTaken]
  | cons c rest ih =>
    obtain ⟨hc, hsorted⟩ := pairwise_cons.mp hsorted
    have hrest (hx : x ∈ rest) : c < x := hc x hx
    unfold coreTaken
    split_ifs with ht hg
    · rw [mem_cons, mem_cons, ih hsorted, forall_mem_cons]
      constructor
      · rintro (rfl | ⟨htx, hx, hbefore⟩)
        · exact ⟨ht, .inl rfl, fun hlt => absurd hlt (lt_irrefl x), fun e he hlt => absurd (hc e he) hlt.not_gt⟩
        · exact ⟨htx, .inr hx, fun _ => .inl ht, hbefore⟩
      · rintro ⟨htx, rfl | hx, -, hbefore⟩
        · exact .inl rfl
        · exact .inr ⟨htx, hx, hbefore⟩
    · rw [mem_cons, ih hsorted, forall_mem_cons]
      constructor
      · rintro ⟨htx, hx, hbefore⟩
        exact ⟨htx, .inr hx, fun _ => .inr hg, hbefore⟩
      · rintro ⟨htx, rfl | hx, -, hbefore⟩
        · exact absurd htx ht
        · exact ⟨htx, hx, hbefore⟩
    · refine iff_of_false not_mem_nil ?_
      rintro ⟨htx, hx, hbefore⟩
      obtain rfl | hx := mem_cons.mp hx
      · exact ht htx
      · exact (hbefore c mem_cons_self (hrest hx)).elim ht hg

/-! ## The loop over an array -/

/-- The CPUs that the loop over an array takes. -/
def arrayTaken (S : System) (p : Pid) (d : Shdata) (cpus : List ℕ) : List ℕ :=
  cpus.flatMap fun m => coreTaken S p d (reached S d m)

theorem borrowCore_count_le (hcores : ∀ core ∈ S.cores, core.card ≤ T) (k : Option ℕ) :
    (borrowCore S p d k).2.2 ≤ T := by
  refine (coreLoop_count_le _ _ _ _).trans ?_
  rw [Nat.zero_add]
  exact coreCpus_length hcores k

theorem visit_took (hp0 : p ≠ 0) (h : Took S p d0 P d) (m : ℕ) :
    Took S p d0 (P ∪ {x | x ∈ coreTaken S p d0 (reached S d0 m)}) (visit S (borrowCpu S p) (borrowCore S p) d m).1 ∧
      (done (visit S (borrowCpu S p) (borrowCore S p) d m).2 = true ↔
        ∃ x ∈ coreTaken S p d0 (reached S d0 m), x ∉ P) := by
  have hsame : reached S d0 m = reached S d m := reached_congr h.acquires.flags.smt.symm m
  have hloop := coreLoop_took hp0 (reached S d m) .noupdt 0 h
  have hnone : ¬done .noupdt = true := Bool.false_ne_true
  rw [or_iff_right hnone] at hloop
  rw [hsame]
  unfold visit
  unfold reached at hloop ⊢
  split
  · rename_i hsmt
    rw [if_pos hsmt] at hloop
    exact hloop
  · rename_i hsmt
    rw [if_neg hsmt] at hloop
    -- the loop over this CPU alone
    have hone : (coreLoop (borrowCpu S p) p [m] d .noupdt 0).1 = (borrowCpu S p d m).1 ∧
        done (coreLoop (borrowCpu S p) p [m] d .noupdt 0).2.1 = done (borrowCpu S p d m).2 := by
      unfold coreLoop
      dsimp only
      cases hd : done (borrowCpu S p d m).2 with
      | true =>
        have hmerge : done (mergeDone .noupdt (borrowCpu S p d m).2) = true := done_mergeDone hd
        exact ⟨rfl, hmerge⟩
      | false =>
        rw [if_neg Bool.false_ne_true]
        split
        · exact ⟨rfl, rfl⟩
        · exact ⟨rfl, rfl⟩
    rwa [hone.1, hone.2] at hloop

theorem arrayLoop_took (hp0 : p ≠ 0) (hT : 1 ≤ T) (hcores : ∀ core ∈ S.cores, core.card ≤ T) :
    ∀ (l : List ℕ) {P : Set ℕ} {d : Shdata} (prev : Option ℕ) (ncpus : ℤ) (error : DlbError),
      ((T * l.length : ℕ) : ℤ) < ncpus → Took S p d0 P d →
      (d0.hwHasSmt = true → ∀ x ∈ coreTaken S p d0 (coreCpus S prev), x ∈ P) →
      Took S p d0 (P ∪ {x | x ∈ arrayTaken S p d0 l})
          (arrayLoop S (borrowCore S p) (borrowCpu S p) l prev d ncpus error).1 ∧
        (done (arrayLoop S (borrowCore S p) (borrowCpu S p) l prev d ncpus error).2.1 = true ↔
          done error = true ∨ ∃ x ∈ arrayTaken S p d0 l, x ∉ P)
  | [], P, d, prev, ncpus, error, _, h, _ => by
    constructor
    · exact h.congr fun x => by simp [arrayTaken]
    · simp [arrayTaken, arrayLoop]
  | m :: rest, P, d, prev, ncpus, error, hn, h, hprev => by
    rw [length_cons, Nat.mul_succ] at hn
    have hpos : ¬ncpus ≤ 0 := by omega
    have hcount := borrowCore_count_le (p := p) (d := d) hcores (muGetCoreId S m)
    have hsmt : d.hwHasSmt = d0.hwHasSmt := h.acquires.flags.smt
    obtain ⟨htook, hdone⟩ := visit_took hp0 h m
    have hmem (x : ℕ) : x ∈ arrayTaken S p d0 (m :: rest) ↔
        x ∈ coreTaken S p d0 (reached S d0 m) ∨ x ∈ arrayTaken S p d0 rest := by
      unfold arrayTaken
      rw [flatMap_cons, mem_append]
    -- the rest of the array, after the CPUs of the visit
    have hrest {d1 : Shdata} {error1 : DlbError} (h1 : Took S p d0 (P ∪ {x | x ∈ coreTaken S p d0 (reached S d0 m)}) d1)
        (herror : done error1 = true ↔ done error = true ∨ ∃ x ∈ coreTaken S p d0 (reached S d0 m), x ∉ P)
        (prev1 : Option ℕ) (n : ℤ) (hn1 : ((T * rest.length : ℕ) : ℤ) < n)
        (hprev1 : d0.hwHasSmt = true → ∀ x ∈ coreTaken S p d0 (coreCpus S prev1),
          x ∈ P ∪ {x | x ∈ coreTaken S p d0 (reached S d0 m)}) :
        Took S p d0 (P ∪ {x | x ∈ arrayTaken S p d0 (m :: rest)})
            (arrayLoop S (borrowCore S p) (borrowCpu S p) rest prev1 d1 n error1).1 ∧
          (done (arrayLoop S (borrowCore S p) (borrowCpu S p) rest prev1 d1 n error1).2.1 = true ↔
            done error = true ∨ ∃ x ∈ arrayTaken S p d0 (m :: rest), x ∉ P) := by
      obtain ⟨htook', hdone'⟩ := arrayLoop_took hp0 hT hcores rest prev1 n error1 hn1 h1 hprev1
      refine ⟨htook'.congr fun x => ?_, ?_⟩
      · change x ∈ P ∨ x ∈ arrayTaken S p d0 (m :: rest) ↔ (x ∈ P ∨ _) ∨ _
        rw [hmem, or_assoc]
        rfl
      · rw [hdone', herror, or_assoc]
        refine or_congr_right ⟨?_, fun ⟨x, hx, hxP⟩ => ?_⟩
        · rintro (⟨x, hx, hxP⟩ | ⟨x, hx, hxP⟩)
          · exact ⟨x, (hmem x).mpr (.inl hx), hxP⟩
          · exact ⟨x, (hmem x).mpr (.inr hx), fun hx' => hxP (.inl hx')⟩
        · by_cases hx' : x ∈ coreTaken S p d0 (reached S d0 m)
          · exact .inl ⟨x, hx', hxP⟩
          · exact .inr ⟨x, ((hmem x).mp hx).resolve_left hx', fun h => h.elim hxP hx'⟩
    unfold visit at htook hdone
    unfold arrayLoop
    dsimp only
    rw [if_neg hpos]
    split
    · rename_i hd
      have hreached : reached S d0 m = coreCpus S (muGetCoreId S m) := if_pos (hsmt ▸ hd)
      rw [if_pos hd] at htook hdone
      split
      · have hvisited : d0.hwHasSmt = true → ∀ x ∈ coreTaken S p d0 (coreCpus S (muGetCoreId S m)),
            x ∈ P ∪ {x | x ∈ coreTaken S p d0 (reached S d0 m)} := fun _ x hx => .inr (hreached ▸ hx)
        split
        · rename_i hk
          exact hrest htook (iff_of_true (done_mergeDone hk) (.inr (hdone.mp hk))) _ _ (by omega) hvisited
        · rename_i hk
          exact hrest htook (or_iff_left (mt hdone.mpr hk)).symm _ _ (by omega) hvisited
      · -- the core of the CPU before
        rename_i hcore
        rw [not_not] at hcore
        have hold : ∀ x ∈ coreTaken S p d0 (reached S d0 m), x ∈ P := by
          rw [hreached, ← hcore]
          exact hprev (hsmt ▸ hd)
        refine hrest (h.congr fun x => or_iff_left_of_imp (hold x)) (or_iff_left ?_).symm _ _ (by omega) fun hs x hx =>
          .inl (hprev hs x hx)
        rintro ⟨x, hx, hxP⟩
        exact hxP (hold x hx)
    · rename_i hd
      have hno : ¬d0.hwHasSmt = true := hsmt ▸ hd
      rw [if_neg hd] at htook hdone
      split
      · rename_i hk
        exact hrest htook (iff_of_true (done_mergeDone hk) (.inr (hdone.mp hk))) _ _ (by omega) fun hs => absurd hs hno
      · rename_i hk
        exact hrest htook (or_iff_left (mt hdone.mpr hk)).symm _ _ (by omega) fun hs => absurd hs hno

/-! ## The call -/

/-- Borrowing the CPUs of a mask takes a CPU: it is of the mask or, with SMT, of a core of the mask, and the loop gets to
it. -/
def Borrows (S : System) (p : Pid) (d : Shdata) (mask : CpuSet) (x : ℕ) : Prop :=
  Takeable S p d x ∧ ∃ m ∈ mask, x ∈ reached S d m ∧
    ∀ e ∈ reached S d m, e < x → (d.nodeInfo e).state = .disabled → (d.nodeInfo e).guest = p

instance (mask : CpuSet) : DecidablePred (Borrows S p d mask) := fun _ => inferInstanceAs (Decidable (_ ∧ _))

theorem reached_sorted (m : ℕ) : (reached S d m).Pairwise (· < ·) := by
  unfold reached
  split
  · exact coreCpus_sorted _
  · exact pairwise_singleton _ m

theorem mem_coreTaken : x ∈ coreTaken S p d (reached S d m) ↔ Takeable S p d x ∧ x ∈ reached S d m ∧
    ∀ e ∈ reached S d m, e < x → (d.nodeInfo e).state = .disabled → (d.nodeInfo e).guest = p := by
  rw [mem_coreTaken_iff (reached_sorted m)]
  refine and_congr_right fun ht => and_congr_right fun hx => forall₃_congr fun e he hlt => ?_
  constructor
  · rintro (hte | hg) hs
    · exact absurd hs hte.1
    · exact hg
  · intro h
    by_cases hs : (d.nodeInfo e).state = .disabled
    · exact .inr (h hs)
    cases hsmt : d.hwHasSmt with
    | true => exact (ht.core hsmt (mem_reached_smt hsmt hx) (mem_reached_smt hsmt he) hs).symm
    | false =>
      have hone : reached S d m = [m] := if_neg (by rw [hsmt]; exact Bool.false_ne_true)
      rw [hone, mem_singleton] at hx he
      omega

theorem mem_arrayTaken {mask : CpuSet} (hmask : mask ⊆ S.sysMask) :
    x ∈ arrayTaken S p d (muCpus S mask) ↔ Borrows S p d mask x := by
  have hmem (m : ℕ) : m ∈ muCpus S mask ↔ m ∈ mask := by
    unfold muCpus
    rw [mem_filter, decide_eq_true_iff, and_iff_right_of_imp]
    exact fun hm => mem_range.mpr (System.lt_bits (hmask hm))
  unfold arrayTaken Borrows
  rw [mem_flatMap]
  constructor
  · rintro ⟨m, hm, hx⟩
    obtain ⟨ht, hx⟩ := mem_coreTaken.mp hx
    exact ⟨ht, m, (hmem m).mp hm, hx⟩
  · rintro ⟨ht, m, hm, hx⟩
    exact ⟨m, (hmem m).mpr hm, mem_coreTaken.mpr ⟨ht, hx⟩⟩

theorem borrow_took (hp0 : p ≠ 0) (hS : S.size ≤ cpuSetsize) {mask : CpuSet} (hmask : mask ⊆ S.sysMask) (d : Shdata) :
    Took S p d {x | Borrows S p d mask x} (shmemBorrowFromCpuSubset S d p (muCpus S mask)).1 ∧
      ((shmemBorrowFromCpuSubset S d p (muCpus S mask)).2 = .success ↔ ∃ x, Borrows S p d mask x) := by
  have hcores : ∀ core ∈ S.cores, core.card ≤ cpuSetsize := fun core hcore =>
    (card_le_size (S.covered core hcore)).trans hS
  have hprev : d.hwHasSmt = true → ∀ x ∈ coreTaken S p d (coreCpus S none), x ∈ (∅ : Set ℕ) := fun _ x hx =>
    absurd ((coreTaken_sublist _).subset hx) (by simp [coreCpus, muCpus])
  obtain ⟨htook, hdone⟩ := arrayLoop_took hp0 (by decide) hcores (muCpus S mask) none intMax .noupdt
    (enough_wanted hS hmask) (Took.refl d) hprev
  constructor
  · refine htook.congr fun x => ?_
    rw [Set.empty_union]
    exact (mem_arrayTaken hmask).symm
  · have hsuccess : (shmemBorrowFromCpuSubset S d p (muCpus S mask)).2 = .success ↔
        done (shmemBorrowFromCpuSubset S d p (muCpus S mask)).2 = true :=
      ⟨fun h => h ▸ rfl, borrowCpus_success⟩
    have hnone : ¬done .noupdt = true := Bool.false_ne_true
    rw [hsuccess]
    refine hdone.trans ((or_iff_right hnone).trans (exists_congr fun x => ?_))
    rw [mem_arrayTaken hmask]
    exact and_iff_left (Set.notMem_empty x)

end Dlb.Cpuinfo

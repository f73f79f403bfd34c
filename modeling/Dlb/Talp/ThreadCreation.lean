import Dlb.Talp.ForkJoinRuns

/-!
# Threads created in open regions

The sample of a new thread starts at the innermost open region, and `update_serialization_in_nested_regions` gives the
outer ones the rest of their time. But the timestamp of the sample is not read again: the next update or aggregation
counts from the beginning of the current generation. What is between the start of the innermost region and the beginning
of the generation is lost in every region (`account_eq_elapsed_iff`), as when an inner region has been opened and closed
before the thread was created (`account_ne_elapsed`).
-/

namespace Dlb.Talp

section Book

variable {τ ρ : Type*} [DecidableEq τ] [DecidableEq ρ] {b : RegionBook τ ρ}

/-- What the open regions owe to a new thread: they have measured since their start, the sample of the thread counts
from the beginning of the generation on, and the correction ends at the start of the innermost region. -/
theorem RegionBook.enroll_debt_self {innermost : ρ} {rest : List ρ} (hopen : b.openRegions = innermost :: rest) {r : ρ}
    (hr : r ∈ b.openRegions) (t : τ) :
    (b.enroll t (b.monitors innermost).startTime).debt r t =
      (b.monitors r).elapsedTime + (b.generation - (b.monitors innermost).startTime) := by
  unfold RegionBook.debt RegionBook.enroll
  dsimp only
  rw [if_pos hr, if_pos rfl]
  by_cases htail : r ∈ b.openRegions.tail
  · rw [if_pos htail, if_pos htail]
    dsimp only
    omega
  · obtain rfl : r = innermost := by
      rw [hopen] at hr htail
      exact (List.mem_cons.mp hr).resolve_right htail
    rw [if_neg htail, if_neg htail]
    omega

end Book

/-- The samples have not been aggregated since the innermost region was started. -/
def TalpInfo.GenerationAtStart {τ ρ : Type*} (d : TalpInfo τ ρ) : Prop :=
  ∀ innermost ∈ d.openRegions.head?, d.currentGenerationTs = (d.monitors innermost).startTime

namespace ForkJoinState

variable {τ ρ π : Type*} [DecidableEq τ] [DecidableEq ρ] [DecidableEq π] {main : τ} {s : ForkJoinState τ ρ π}

theorem next_book_admit (h : Conserved main s) {e : ForkJoinEvent τ ρ π} (hordered : s.Ordered main e) {t : τ}
    (hop : e.op = .threadBegin t) (ht : t ∉ s.talp.threads) :
    (s.next main e).book = s.book.enroll t (s.talp.initialTs (s.readings e)) := by
  obtain ⟨hsample, hprof, -⟩ := h.onTime.outside t ht
  have hopenmp : s.talp.flags.haveOpenmp = true := by
    unfold Ordered at hordered
    rw [hop] at hordered
    exact hordered
  unfold ForkJoinState.next exec
  rw [hop]
  dsimp only
  rw [TalpInfo.threadBegin_new hopenmp hsample hprof h.onTime.openNodup, if_pos hsample]
  rfl

/-- A region is open and owes a thread the debt `lost` next to its elapsed time so far. -/
structure Owes (main t : τ) (r : ρ) (elapsed lost : ℤ) (s : ForkJoinState τ ρ π) : Prop extends Conserved main s where
  mem_threads : t ∈ s.talp.threads
  mem_open : r ∈ s.talp.openRegions
  elapsedTime : (s.talp.monitors r).elapsedTime = elapsed
  debt : s.book.debt r t = elapsed + lost

theorem owes_created (h : Conserved main s) {e : ForkJoinEvent τ ρ π} (hordered : s.Ordered main e) {t : τ}
    (hop : e.op = .threadBegin t) (ht : t ∉ s.talp.threads) {innermost : ρ} {rest : List ρ}
    (hopen : s.talp.openRegions = innermost :: rest) {r : ρ} (hr : r ∈ s.talp.openRegions) :
    Owes main t r (s.talp.monitors r).elapsedTime (s.talp.currentGenerationTs - (s.talp.monitors innermost).startTime)
      (s.next main e) := by
  have hbook := next_book_admit h hordered hop ht
  have hinitial : s.talp.initialTs (s.readings e) = (s.talp.monitors innermost).startTime := by
    rw [TalpInfo.initialTs, hopen]
  rw [hinitial] at hbook
  have hthreads : (s.next main e).talp.threads = s.talp.threads ++ [t] := congrArg RegionBook.threads hbook
  have hregions : (s.next main e).talp.openRegions = s.talp.openRegions := congrArg RegionBook.openRegions hbook
  refine
    { toConserved := h.next hordered
      mem_threads := by rw [hthreads]; exact List.mem_append_right _ (List.mem_singleton_self t)
      mem_open := by rwa [hregions]
      elapsedTime := ?_
      debt := ?_ }
  · change ((s.next main e).book.monitors r).elapsedTime = _
    rw [hbook]
    unfold RegionBook.enroll
    dsimp only
    split <;> rfl
  · rw [hbook]
    exact RegionBook.enroll_debt_self (b := s.book) hopen hr t

theorem Owes.next {t : τ} {r : ρ} {elapsed lost : ℤ} (h : Owes main t r elapsed lost s) {e : ForkJoinEvent τ ρ π}
    (hordered : s.Ordered main e) (hopen : r ∈ (s.next main e).talp.openRegions) :
    Owes main t r elapsed lost (s.next main e) := by
  have hstep := (h.onTime.next hordered).bookStep
  have hthreads : (s.next main e).talp.threads = s.talp.threads ++ s.newThreads e := hstep.threads_eq
  refine
    { toConserved := h.toConserved.next hordered
      mem_threads := by rw [hthreads]; exact List.mem_append_left _ h.mem_threads
      mem_open := hopen
      elapsedTime := (hstep.measures h.onTime.openNodup h.mem_open hopen).1.trans h.elapsedTime
      debt := ?_ }
  rcases hstep.debt_eq h.onTime.openNodup r with hkeep | ⟨hclosed, -⟩
  · exact (hkeep t h.mem_threads).trans h.debt
  · exact absurd hopen hclosed

theorem Owes.stopped {t : τ} {r : ρ} {elapsed lost : ℤ} (h : Owes main t r elapsed lost s) {e : ForkJoinEvent τ ρ π}
    (hordered : s.Ordered main e) {arg : RegionArg ρ} (hop : e.op = .sequential (.stop arg))
    (hclosed : r ∉ (s.next main e).talp.openRegions) :
    (s.next main e).ledger.account t r =
      ((s.next main e).talp.monitors r).stopTime - ((s.next main e).talp.monitors r).startTime - lost := by
  have hstop : Stopped s.book (s.next main e).book := by
    have hclock : s.clock ≤ s.now e := Int.le_add_of_nonneg_right (Int.natCast_nonneg _)
    unfold Ordered at hordered
    unfold ForkJoinState.next exec
    rw [hop] at hordered ⊢
    exact (h.onTime.stop (r := s.readings e) hordered hclock arg).2
  have hdebt := (hstop.debt_eq h.onTime.openNodup r h.mem_threads).trans h.debt
  obtain ⟨helapsed, -⟩ := hstop.measures (r := r) h.mem_open hclosed
  unfold RegionBook.debt at hdebt
  rw [if_neg (show r ∉ (s.next main e).book.openRegions from hclosed)] at hdebt
  have hbefore : (s.book.monitors r).elapsedTime = elapsed := h.elapsedTime
  dsimp only [book] at hdebt helapsed hbefore
  omega

/-- **Charged from the start.** A thread that is created while regions are open has given to a region, when it is closed,
the time since its start, if and only if the generation at the creation began with the innermost region. -/
theorem account_eq_elapsed_iff (main : τ) (numCpus : ℕ) (haveHwc haveGpu : Bool) (global : ρ) (enabled : ρ → Bool)
    (clock : ℕ) (cpuid : ℕ) (before events : List (ForkJoinEvent τ ρ π)) (create stop : ForkJoinEvent τ ρ π) (t : τ)
    (arg : RegionArg ρ) (r : ρ) :
    let s0 : ForkJoinState τ ρ π := init main numCpus haveHwc haveGpu global enabled clock cpuid
    let s := before.foldl (ForkJoinState.next main) s0
    let s1 := events.foldl (ForkJoinState.next main) (s.next main create)
    let s2 := s1.next main stop
    Lib.Along (ForkJoinState.next main) (Ordered main) s0 (before ++ create :: events ++ [stop]) →
    create.op = .threadBegin t → t ∉ s.talp.threads → stop.op = .sequential (.stop arg) →
    r ∈ s.talp.openRegions →
    Lib.Along (ForkJoinState.next main) (fun s e => r ∈ (s.next main e).talp.openRegions) (s.next main create) events →
    r ∉ s2.talp.openRegions →
    (s2.ledger.account t r = (s2.talp.monitors r).stopTime - (s2.talp.monitors r).startTime ↔
      s.talp.GenerationAtStart) := by
  intro s0 s s1 s2 hordered hcreate hnew hstop hr hopen hclosed
  obtain ⟨hordered, hlast⟩ := (Lib.Along.append s0 (before ++ create :: events) [stop]).mp hordered
  obtain ⟨hbefore, hcreated, hevents⟩ := (Lib.Along.append s0 before (create :: events)).mp hordered
  rw [List.foldl_append, List.foldl_cons] at hlast
  have hs : Conserved main s :=
    conserved_run (conserved_init main numCpus haveHwc haveGpu global enabled clock cpuid).1 hbefore
  obtain ⟨innermost, rest, hinner⟩ := List.exists_cons_of_ne_nil (List.ne_nil_of_mem hr)
  have howes1 : Owes main t r (s.talp.monitors r).elapsedTime
      (s.talp.currentGenerationTs - (s.talp.monitors innermost).startTime) s1 :=
    (Lib.Along.invariant (P := fun _ _ => True) (R := fun _ => True)
      (fun _ _ howes _ he => howes.next he.1 he.2) (fun _ _ _ _ _ => trivial) (s.next main create) events
      (owes_created hs hcreated hcreate hnew hinner hr) (fun _ _ => trivial)
      ((Lib.Along.and _ _).mpr ⟨hevents, hopen⟩)).2
  have hgeneration : s.talp.GenerationAtStart ↔
      s.talp.currentGenerationTs = (s.talp.monitors innermost).startTime := by
    unfold TalpInfo.GenerationAtStart
    rw [hinner]
    simp
  have haccount : s2.ledger.account t r = (s2.talp.monitors r).stopTime - (s2.talp.monitors r).startTime -
      (s.talp.currentGenerationTs - (s.talp.monitors innermost).startTime) := howes1.stopped hlast.1 hstop hclosed
  rw [hgeneration, haccount]
  constructor <;> intro h <;> omega

/-- The region `true` is opened; the global region has been open. -/
def regionOpened : List (ForkJoinEvent Bool Bool Unit) :=
  [{ op := .openmpInit, delay := 1 }, { op := .sequential (.start (.region true)), delay := 3 }]

/-- The worker is charged from the start of both regions if they have just been opened. -/
theorem account_eq_elapsed_regionOpened :
    let s : ForkJoinState Bool Bool Unit :=
      regionOpened.foldl (ForkJoinState.next false) (init false 2 false false false (fun _ => true) 10 0)
    let s2 := (teamParallel.foldl (ForkJoinState.next false) (s.next false { op := .threadBegin true, delay := 2 })).next
      false { op := .sequential (.stop (.region true)), delay := 3 }
    s2.ledger.account true true = (s2.talp.monitors true).stopTime - (s2.talp.monitors true).startTime ↔
      s.talp.GenerationAtStart :=
  account_eq_elapsed_iff false 2 false false false (fun _ => true) 10 0 regionOpened teamParallel
    { op := .threadBegin true, delay := 2 } { op := .sequential (.stop (.region true)), delay := 3 } true (.region true)
    true (by decide) rfl (by decide) rfl (by decide) (by decide) (by decide)

/-- A thread that is created after an inner region has been opened and closed is not charged from the start. -/
theorem account_ne_elapsed : ¬ ∀ (before events : List (ForkJoinEvent Bool (Fin 3) Unit))
    (create stop : ForkJoinEvent Bool (Fin 3) Unit) (t : Bool) (arg : RegionArg (Fin 3)) (r : Fin 3),
    let s0 : ForkJoinState Bool (Fin 3) Unit := init false 2 false false 0 (fun _ => true) 10 0
    let s := before.foldl (ForkJoinState.next false) s0
    let s1 := events.foldl (ForkJoinState.next false) (s.next false create)
    let s2 := s1.next false stop
    Lib.Along (ForkJoinState.next false) (Ordered false) s0 (before ++ create :: events ++ [stop]) →
    create.op = .threadBegin t → t ∉ s.talp.threads → stop.op = .sequential (.stop arg) →
    r ∈ s.talp.openRegions →
    Lib.Along (ForkJoinState.next false) (fun s e => r ∈ (s.next false e).talp.openRegions) (s.next false create)
      events →
    r ∉ s2.talp.openRegions →
    s2.ledger.account t r = (s2.talp.monitors r).stopTime - (s2.talp.monitors r).startTime := by
  intro h
  have := h
    [{ op := .openmpInit, delay := 1 }, { op := .sequential (.start (.region 1)), delay := 10 },
      { op := .sequential (.start (.region 2)), delay := 10 }, { op := .sequential (.stop (.region 2)), delay := 10 }]
    [] { op := .threadBegin true, delay := 10 } { op := .sequential (.stop (.region 1)), delay := 10 } true (.region 1) 1
    (by decide) rfl (by decide) rfl (by decide) trivial (by decide)
  exact absurd this (by decide)

end ForkJoinState

end Dlb.Talp

import Dlb.Lib.Table

/-!
# Episodes of a barrier

`shmem_barrier__barrier` with a fixed set of participants, in any interleaving of their steps. A participant increments
`count`, waits on the pthread barrier until all do, and decrements `count`; it is the last one in where the incremented
count is the number of participants, and the others go through a blocking call meanwhile.

The count does not separate the episodes: a participant may enter the next one while another has not decremented the
count after the last one.

* `Counted`: what the counters say in terms of where the participants are, kept by every step (`Counted.exec`).
-/

namespace Dlb.Barrier

open Finset Lib

/-- Where a participant is in `shmem_barrier__barrier`: not in it, with `count` incremented (and `into_sync_call` done
unless it is the last one), waiting on the pthread barrier, released from it, or about to decrement `count`. -/
inductive Participant where
  | outside
  | entered (lastIn : Bool)
  | waiting (lastIn : Bool)
  | released (lastIn : Bool)
  | leaving
deriving DecidableEq

namespace Participant

def inside : Participant → ℕ
  | .outside => 0
  | _ => 1

def current : Participant → ℕ
  | .entered _ | .waiting _ => 1
  | _ => 0

/-- It takes part in the current episode as the last one. -/
def lastNow : Participant → ℕ
  | .entered true | .waiting true => 1
  | _ => 0

/-- It has been the last one of the previous episode, and `ntimes` does not count that yet. -/
def lastPending : Participant → ℕ
  | .released true => 1
  | _ => 0

def isPrevious : Participant → Bool
  | .released _ | .leaving => true
  | _ => false

def isWaiting : Participant → Bool
  | .waiting _ => true
  | _ => false

def release : Participant → Participant
  | .waiting lastIn => .released lastIn
  | p => p

end Participant

/-- The participants and the counters of a barrier. Besides, for each episode, how many of its participants were the
last one in, how many made a blocking call, and how many entered it early: as the last one, with another participant
still leaving the previous episode. -/
structure BarrierState (π : Type*) where
  phase : π → Participant := fun _ => .outside
  count : ℕ := 0
  ntimes : ℕ := 0
  episodes : ℕ := 0
  lastIns : ℕ → ℕ := fun _ => 0
  syncCalls : ℕ → ℕ := fun _ => 0
  early : ℕ → ℕ := fun _ => 0

inductive BarrierStep where
  | enter | wait | finish | leave

variable {π : Type*} [Fintype π] [DecidableEq π]

def bump (f : ℕ → ℕ) (e : ℕ) (cond : Bool) : ℕ → ℕ := Function.update f e (f e + cond.toNat)

namespace BarrierState

variable (s : BarrierState π) (p : π)

def move (x : Participant) : BarrierState π := { s with phase := Function.update s.phase p x }

/-- The incremented count is that of all participants. -/
def isLast : Bool := s.count + 1 = Fintype.card π

/-- A participant enters early: as the last one, while another one is still leaving the previous episode. -/
def isEarly : Bool := s.isLast ∧ ∃ q, (s.phase q).isPrevious = true

/-- `count` is incremented. -/
def enter : BarrierState π :=
  { s.move p (.entered s.isLast) with
    count := s.count + 1
    lastIns := bump s.lastIns s.episodes s.isLast
    syncCalls := bump s.syncCalls s.episodes !s.isLast
    early := bump s.early s.episodes s.isEarly }

/-- `pthread_barrier_wait` has the number of participants: all are released. -/
def releaseAll : BarrierState π :=
  { s with phase := fun p => (s.phase p).release, episodes := s.episodes + 1 }

omit [Fintype π] [DecidableEq π] in
theorem releaseAll_phase (q : π) : s.releaseAll.phase q = (s.phase q).release := rfl

def wait (lastIn : Bool) : BarrierState π :=
  if ∀ q, ((s.move p (.waiting lastIn)).phase q).isWaiting = true then (s.move p (.waiting lastIn)).releaseAll
  else s.move p (.waiting lastIn)

/-- The last one increments `ntimes`; for the others the blocking call ends. -/
def finish (lastIn : Bool) : BarrierState π := { s.move p .leaving with ntimes := s.ntimes + lastIn.toNat }

/-- `count` is decremented. -/
def leave : BarrierState π := { s.move p .outside with count := s.count - 1 }

/-- One step of a participant, which does nothing where the participant is not at that step. -/
def exec : π × BarrierStep → BarrierState π
  | (p, .enter) =>
    match s.phase p with
    | .outside => s.enter p
    | _ => s
  | (p, .wait) =>
    match s.phase p with
    | .entered lastIn => s.wait p lastIn
    | _ => s
  | (p, .finish) =>
    match s.phase p with
    | .released lastIn => s.finish p lastIn
    | _ => s
  | (p, .leave) =>
    match s.phase p with
    | .leaving => s.leave p
    | _ => s

end BarrierState

/-- Each completed episode had one last participant, and all others made a blocking call; with no participant inside,
`ntimes` is the number of the episodes and `count` is zero. -/
structure EpisodesOk (s : BarrierState π) : Prop where
  lastIn : ∀ e < s.episodes, s.lastIns e = 1
  others : ∀ e < s.episodes, s.syncCalls e = Fintype.card π - 1
  quiet : (∀ p, s.phase p = .outside) → s.ntimes = s.episodes ∧ s.count = 0

/-! ## The invariant -/

/-- What the counters say. The last participant to enter an episode is the last one in, and so is everyone who enters it
early. -/
structure Counted (s : BarrierState π) : Prop where
  count : s.count = ∑ p, (s.phase p).inside
  lastNow : s.lastIns s.episodes = ∑ p, (s.phase p).lastNow
  current : s.syncCalls s.episodes + s.lastIns s.episodes = ∑ p, (s.phase p).current
  complete : (∀ p, (s.phase p).current = 1) → s.lastIns s.episodes = s.early s.episodes + 1
  incomplete : (¬ ∀ p, (s.phase p).current = 1) → s.lastIns s.episodes = s.early s.episodes
  pending : ∑ e ∈ range s.episodes, s.lastIns e = s.ntimes + ∑ p, (s.phase p).lastPending
  past : ∀ e < s.episodes, s.lastIns e = s.early e + 1 ∧ s.syncCalls e + s.lastIns e = Fintype.card π
  fresh : ∀ e, s.episodes < e → s.lastIns e = 0 ∧ s.syncCalls e = 0 ∧ s.early e = 0

section Steps

variable {s : BarrierState π} {p : π} {lastIn : Bool} {x : Participant}

omit [DecidableEq π] in
theorem sum_eq_card_iff {f : π → ℕ} (hf : ∀ p, f p ≤ 1) : ∑ p, f p = Fintype.card π ↔ ∀ p, f p = 1 := by
  have hcard : Fintype.card π = ∑ _p : π, 1 := by simp
  rw [hcard, sum_eq_sum_iff_of_le fun p _ => hf p]
  simp

omit [Fintype π] in
@[simp] theorem bump_self (f : ℕ → ℕ) (e : ℕ) (cond : Bool) : bump f e cond e = f e + cond.toNat :=
  Function.update_self _ _ _

omit [Fintype π] in
theorem bump_of_ne (f : ℕ → ℕ) {e e' : ℕ} (h : e' ≠ e) (cond : Bool) : bump f e cond e' = f e' :=
  Function.update_of_ne h _ _

theorem sum_move (g : Participant → ℕ) : ∑ q, g ((s.move p x).phase q) + g (s.phase p) = ∑ q, g (s.phase q) + g x :=
  sum_update_mem univ s.phase g x (mem_univ p)

omit [DecidableEq π] in
theorem Counted.init [Nonempty π] : Counted (π := π) {} where
  count := by simp [Participant.inside]
  lastNow := by simp [Participant.lastNow]
  current := by simp [Participant.current]
  complete := fun h => nomatch h (Classical.arbitrary π)
  incomplete := fun _ => rfl
  pending := by simp [Participant.lastPending]
  past := nofun
  fresh := fun _ _ => ⟨rfl, rfl, rfl⟩

theorem Participant.inside_eq_one (x : Participant) : x.inside = 1 ↔ x.current = 1 ∨ x.isPrevious = true := by
  cases x <;> simp [Participant.inside, Participant.current, Participant.isPrevious]

theorem Participant.isPrevious_of_current {x : Participant} (h : x.current = 1) : x.isPrevious = false := by
  cases x with
  | outside => rfl
  | entered lastIn => rfl
  | waiting lastIn => rfl
  | released lastIn => exact nomatch h
  | leaving => exact nomatch h

omit [Fintype π] in
theorem BarrierState.move_self : (s.move p x).phase p = x := Function.update_self _ _ _

omit [Fintype π] in
theorem BarrierState.move_of_ne {q : π} (h : q ≠ p) : (s.move p x).phase q = s.phase q := Function.update_of_ne h _ _

theorem Counted.isLast_iff (h : Counted s) (hp : s.phase p = .outside) :
    s.isLast = true ↔ ∀ q, ((s.move p (.entered lastIn)).phase q).inside = 1 := by
  have hsum := sum_move (s := s) (p := p) (x := .entered lastIn) Participant.inside
  rw [hp] at hsum
  have hle : ∀ q, ((s.move p (.entered lastIn)).phase q).inside ≤ 1 := by
    intro q
    cases (s.move p (.entered lastIn)).phase q <;> simp [Participant.inside]
  rw [← sum_eq_card_iff hle, BarrierState.isLast, decide_eq_true_iff, h.count]
  simp only [Participant.inside] at hsum ⊢
  omega

theorem Counted.all_current_iff (h : Counted s) (hp : s.phase p = .outside) :
    (∀ q, ((s.move p (.entered lastIn)).phase q).current = 1) ↔ s.isLast = true ∧ s.isEarly = false := by
  have hearly : s.isLast = true → (s.isEarly = false ↔ ¬ ∃ q, (s.phase q).isPrevious = true) := by
    intro hlast
    rw [BarrierState.isEarly, decide_eq_false_iff_not]
    simp [hlast]
  constructor
  · intro hall
    have hlast : s.isLast = true :=
      (h.isLast_iff hp).mpr fun q => (Participant.inside_eq_one _).mpr (.inl (hall q))
    refine ⟨hlast, (hearly hlast).mpr ?_⟩
    rintro ⟨q, hq⟩
    obtain rfl | hne := eq_or_ne q p
    · rw [hp] at hq
      exact nomatch hq
    · have hcur := hall q
      rw [BarrierState.move_of_ne hne] at hcur
      exact nomatch (Participant.isPrevious_of_current hcur).symm.trans hq
  · rintro ⟨hlast, hno⟩ q
    obtain rfl | hne := eq_or_ne q p
    · rw [BarrierState.move_self]
      rfl
    · have hin : ((s.move p (.entered lastIn)).phase q).inside = 1 := (h.isLast_iff hp).mp hlast q
      rw [BarrierState.move_of_ne hne] at hin ⊢
      obtain hcur | hprev := (Participant.inside_eq_one _).mp hin
      · exact hcur
      · exact absurd ⟨q, hprev⟩ ((hearly hlast).mp hno)

omit [DecidableEq π] in
theorem Counted.incomplete_of_outside (h : Counted s) (hp : s.phase p = .outside) :
    s.lastIns s.episodes = s.early s.episodes := by
  refine h.incomplete fun hall => ?_
  have hcur := hall p
  rw [hp] at hcur
  exact nomatch hcur

theorem Counted.enter (h : Counted s) (hp : s.phase p = .outside) : Counted (s.enter p) where
  count := by
    have hsum := sum_move (s := s) (p := p) (x := .entered s.isLast) Participant.inside
    rw [hp] at hsum
    have hcount := h.count
    change s.count + 1 = ∑ q, ((s.move p (.entered s.isLast)).phase q).inside
    simp only [Participant.inside] at hsum hcount ⊢
    omega
  lastNow := by
    have hsum := sum_move (s := s) (p := p) (x := .entered s.isLast) Participant.lastNow
    rw [hp] at hsum
    have hlast : (Participant.entered s.isLast).lastNow = s.isLast.toNat := by cases s.isLast <;> rfl
    have hnow := h.lastNow
    change bump s.lastIns s.episodes s.isLast s.episodes = ∑ q, ((s.move p (.entered s.isLast)).phase q).lastNow
    rw [bump_self]
    simp only [Participant.lastNow] at hsum hnow hlast ⊢
    omega
  current := by
    have hsum := sum_move (s := s) (p := p) (x := .entered s.isLast) Participant.current
    rw [hp] at hsum
    have hone : (!s.isLast).toNat + s.isLast.toNat = 1 := by cases s.isLast <;> rfl
    have hcurrent := h.current
    change bump s.syncCalls s.episodes (!s.isLast) s.episodes + bump s.lastIns s.episodes s.isLast s.episodes =
      ∑ q, ((s.move p (.entered s.isLast)).phase q).current
    rw [bump_self, bump_self]
    simp only [Participant.current] at hsum hcurrent ⊢
    omega
  complete := by
    intro hall
    obtain ⟨hlast, hearly⟩ := (h.all_current_iff hp).mp hall
    change bump s.lastIns s.episodes s.isLast s.episodes = bump s.early s.episodes s.isEarly s.episodes + 1
    rw [bump_self, bump_self, h.incomplete_of_outside hp, hlast, hearly]
    rfl
  incomplete := by
    intro hnot
    change bump s.lastIns s.episodes s.isLast s.episodes = bump s.early s.episodes s.isEarly s.episodes
    rw [bump_self, bump_self, h.incomplete_of_outside hp]
    have hboth : s.isLast = s.isEarly := by
      cases hearly : s.isEarly with
      | true => exact (of_decide_eq_true hearly).1
      | false =>
        by_contra hlast
        exact hnot ((h.all_current_iff hp).mpr ⟨by simpa using hlast, hearly⟩)
    rw [hboth]
  pending := by
    have hsum := sum_move (s := s) (p := p) (x := .entered s.isLast) Participant.lastPending
    rw [hp] at hsum
    have hpast : ∑ e ∈ range s.episodes, bump s.lastIns s.episodes s.isLast e =
        ∑ e ∈ range s.episodes, s.lastIns e :=
      sum_congr rfl fun e he => bump_of_ne _ (Nat.ne_of_lt (mem_range.mp he)) _
    have hpending := h.pending
    change ∑ e ∈ range s.episodes, bump s.lastIns s.episodes s.isLast e =
      s.ntimes + ∑ q, ((s.move p (.entered s.isLast)).phase q).lastPending
    simp only [Participant.lastPending] at hsum hpending ⊢
    omega
  past := by
    intro e he
    have hne : e ≠ s.episodes := Nat.ne_of_lt he
    change bump s.lastIns s.episodes s.isLast e = bump s.early s.episodes s.isEarly e + 1 ∧
      bump s.syncCalls s.episodes (!s.isLast) e + bump s.lastIns s.episodes s.isLast e = Fintype.card π
    rw [bump_of_ne _ hne, bump_of_ne _ hne, bump_of_ne _ hne]
    exact h.past e he
  fresh := by
    intro e he
    have hne : e ≠ s.episodes := Nat.ne_of_gt he
    change bump s.lastIns s.episodes s.isLast e = 0 ∧ bump s.syncCalls s.episodes (!s.isLast) e = 0 ∧
      bump s.early s.episodes s.isEarly e = 0
    rw [bump_of_ne _ hne, bump_of_ne _ hne, bump_of_ne _ hne]
    exact h.fresh e he

theorem Counted.move (h : Counted s) (hcurrent : x.current = (s.phase p).current)
    (hlast : x.lastNow = (s.phase p).lastNow) {count ntimes : ℕ}
    (hcount : count + (s.phase p).inside = s.count + x.inside)
    (hpending : ntimes + x.lastPending = s.ntimes + (s.phase p).lastPending) :
    Counted { s.move p x with count := count, ntimes := ntimes } := by
  have hsame : ∀ q, ((s.move p x).phase q).current = (s.phase q).current := by
    intro q
    obtain rfl | hne := eq_or_ne q p
    · rw [BarrierState.move_self, hcurrent]
    · rw [BarrierState.move_of_ne hne]
  have hall : (∀ q, ((s.move p x).phase q).current = 1) ↔ ∀ q, (s.phase q).current = 1 :=
    forall_congr' fun q => by rw [hsame q]
  exact
    { count := by
        have hsum := sum_move (s := s) (p := p) (x := x) Participant.inside
        have hbefore := h.count
        change count = ∑ q, ((s.move p x).phase q).inside
        omega
      lastNow := by
        have hsum := sum_move (s := s) (p := p) (x := x) Participant.lastNow
        have hbefore := h.lastNow
        change s.lastIns s.episodes = ∑ q, ((s.move p x).phase q).lastNow
        omega
      current := h.current.trans (sum_congr rfl fun q _ => (hsame q).symm)
      complete := fun hcur => h.complete (hall.mp hcur)
      incomplete := fun hcur => h.incomplete fun hbefore => hcur (hall.mpr hbefore)
      pending := by
        have hsum := sum_move (s := s) (p := p) (x := x) Participant.lastPending
        have hbefore := h.pending
        change ∑ e ∈ range s.episodes, s.lastIns e = ntimes + ∑ q, ((s.move p x).phase q).lastPending
        omega
      past := h.past
      fresh := h.fresh }

omit [DecidableEq π] in
theorem Counted.releaseAll [Nonempty π] (h : Counted s) (hall : ∀ q, (s.phase q).isWaiting = true) :
    Counted s.releaseAll := by
  have hwaiting : ∀ q, ∃ lastIn, s.phase q = .waiting lastIn := by
    intro q
    have hq := hall q
    cases hphase : s.phase q with
    | waiting lastIn => exact ⟨lastIn, rfl⟩
    | _ => rw [hphase] at hq; exact nomatch hq
  have hcurrent : ∀ q, (s.phase q).current = 1 := by
    intro q
    obtain ⟨lastIn, hq⟩ := hwaiting q
    rw [hq]
    rfl
  have hnone : ∀ q, (s.releaseAll.phase q).current = 0 ∧ (s.releaseAll.phase q).lastNow = 0 := by
    intro q
    obtain ⟨lastIn, hq⟩ := hwaiting q
    rw [BarrierState.releaseAll_phase, hq]
    exact ⟨rfl, rfl⟩
  have hpend : ∀ q, (s.releaseAll.phase q).lastPending = (s.phase q).lastNow ∧ (s.phase q).lastPending = 0 ∧
      (s.releaseAll.phase q).inside = (s.phase q).inside := by
    intro q
    obtain ⟨lastIn, hq⟩ := hwaiting q
    rw [BarrierState.releaseAll_phase, hq]
    cases lastIn <;> exact ⟨rfl, rfl, rfl⟩
  have hfresh := h.fresh (s.episodes + 1) (Nat.lt_succ_self _)
  exact
    { count := h.count.trans (sum_congr rfl fun q _ => (hpend q).2.2.symm)
      lastNow := hfresh.1.trans (sum_eq_zero fun q _ => (hnone q).2).symm
      current := by
        rw [sum_eq_zero fun q _ => (hnone q).1]
        exact Nat.add_eq_zero_iff.mpr ⟨hfresh.2.1, hfresh.1⟩
      complete := fun hcur => nomatch (hnone (Classical.arbitrary π)).1.symm.trans (hcur _)
      incomplete := fun _ => hfresh.1.trans hfresh.2.2.symm
      pending := by
        have hnow := h.lastNow
        have hbefore := h.pending
        rw [sum_eq_zero fun q _ => (hpend q).2.1] at hbefore
        change ∑ e ∈ range (s.episodes + 1), s.lastIns e = s.ntimes + _
        rw [sum_range_succ, hbefore, hnow, Nat.add_zero]
        exact congrArg _ (sum_congr rfl fun q _ => (hpend q).1.symm)
      past := by
        intro e he
        obtain he | rfl := Nat.lt_succ_iff_lt_or_eq.mp he
        · exact h.past e he
        · refine ⟨h.complete hcurrent, h.current.trans ?_⟩
          exact (sum_eq_card_iff fun q => Nat.le_of_eq (hcurrent q)).mpr hcurrent
      fresh := fun e he => h.fresh e (Nat.lt_of_succ_lt he) }

theorem Counted.wait [Nonempty π] (h : Counted s) (hp : s.phase p = .entered lastIn) : Counted (s.wait p lastIn) := by
  have hmove : Counted (s.move p (.waiting lastIn)) :=
    h.move (by rw [hp]; rfl) (by rw [hp]; cases lastIn <;> rfl) (by rw [hp]; rfl) (by rw [hp]; rfl)
  rw [BarrierState.wait]
  split
  · exact hmove.releaseAll ‹_›
  · exact hmove

theorem Counted.finish (h : Counted s) (hp : s.phase p = .released lastIn) : Counted (s.finish p lastIn) :=
  h.move (by rw [hp]; rfl) (by rw [hp]; rfl) (by rw [hp]; rfl) (by rw [hp]; cases lastIn <;> rfl)

theorem Counted.leave (h : Counted s) (hp : s.phase p = .leaving) : Counted (s.leave p) := by
  have hpos : 0 < s.count := by
    have hle := single_le_sum (f := fun q => (s.phase q).inside) (fun q _ => Nat.zero_le _) (mem_univ p)
    rw [← h.count, hp] at hle
    exact hle
  refine h.move (by rw [hp]; rfl) (by rw [hp]; rfl) ?_ (by rw [hp]; rfl)
  rw [hp]
  exact Nat.succ_pred_eq_of_pos hpos

theorem Counted.exec [Nonempty π] (h : Counted s) (e : π × BarrierStep) : Counted (s.exec e) := by
  obtain ⟨p, step⟩ := e
  cases step with
  | enter =>
    rw [BarrierState.exec]
    split
    · exact h.enter ‹_›
    · exact h
  | wait =>
    rw [BarrierState.exec]
    split
    · exact h.wait ‹_›
    · exact h
  | finish =>
    rw [BarrierState.exec]
    split
    · exact h.finish ‹_›
    · exact h
  | leave =>
    rw [BarrierState.exec]
    split
    · exact h.leave ‹_›
    · exact h

omit [DecidableEq π] in
theorem Counted.quiet (h : Counted s) (hout : ∀ p, s.phase p = .outside) :
    s.count = 0 ∧ s.ntimes = ∑ e ∈ range s.episodes, s.lastIns e := by
  have hinside : ∑ p, (s.phase p).inside = 0 := sum_eq_zero fun p _ => by rw [hout p]; rfl
  have hnone : ∑ p, (s.phase p).lastPending = 0 := sum_eq_zero fun p _ => by rw [hout p]; rfl
  exact ⟨h.count.trans hinside, by rw [h.pending, hnone, Nat.add_zero]⟩

omit [DecidableEq π] in
theorem Counted.episodesOk_iff (h : Counted s) : EpisodesOk s ↔ ∀ e < s.episodes, s.early e = 0 := by
  constructor
  · intro hok e he
    have hpast := (h.past e he).1
    have hone := hok.lastIn e he
    omega
  · intro hearly
    have hlast : ∀ e < s.episodes, s.lastIns e = 1 := fun e he => by rw [(h.past e he).1, hearly e he]
    refine ⟨hlast, fun e he => ?_, fun hout => ?_⟩
    · have hpast := (h.past e he).2
      rw [hlast e he] at hpast
      omega
    · obtain ⟨hcount, hntimes⟩ := h.quiet hout
      refine ⟨hntimes.trans ?_, hcount⟩
      rw [sum_congr rfl fun e he => hlast e (mem_range.mp he)]
      simp

end Steps

/-- **After any run, each completed episode had exactly one last participant, the others made a blocking call, and
`ntimes` counts the episodes once all are outside, exactly when no participant entered a completed episode early**: as
the last one counted, while another one had not decremented `count` after the previous episode. -/
theorem barrier_episodes_iff (steps : List (π × BarrierStep)) :
    EpisodesOk (steps.foldl BarrierState.exec {}) ↔
      ∀ e < (steps.foldl BarrierState.exec {}).episodes, (steps.foldl BarrierState.exec {}).early e = 0 := by
  cases steps with
  | nil => exact ⟨fun _ => nofun, fun _ => ⟨nofun, nofun, fun _ => ⟨rfl, rfl⟩⟩⟩
  | cons e rest =>
    have : Nonempty π := ⟨e.1⟩
    exact (List.foldlRecOn (e :: rest) BarrierState.exec Counted.init fun _ h e _ => h.exec e).episodesOk_iff

/-- The steps of one participant through the barrier, from the pthread barrier on. -/
def finishAndLeave {π : Type*} (p : π) : List (π × BarrierStep) := [(p, .finish), (p, .leave)]

/-- Of two participants, the faster one enters the second episode while the slower one has not left the first: both are
the last one in, and `ntimes` counts three episodes. -/
theorem both_last_in : ¬ EpisodesOk (List.foldl BarrierState.exec {}
    ([(0, .enter), (1, .enter), (0, .wait), (1, .wait)] ++ finishAndLeave 0 ++ [(0, .enter)] ++ finishAndLeave 1 ++
      [(1, .enter), (0, .wait), (1, .wait)] ++ finishAndLeave 0 ++ finishAndLeave 1) : BarrierState (Fin 2)) := by
  intro hok
  exact absurd (hok.lastIn 1 (by decide)) (by decide)

end Dlb.Barrier

import Dlb.Lib.Run
import Dlb.Talp.ForkJoinTime

/-!
# Ordered fork-join runs

Every event of an ordered run keeps the invariant `OnTime` and is one step in the books of the regions (`OnTime.next`),
and the process has the invariant after `talp_init` (`OnTime.init`). So the time of a region is always what its threads
have given to it (`balanced_run`), and a region that is opened when all threads have their samples receives its elapsed
time from each of them (`threadTime_eq_elapsedTime`).
-/

namespace Dlb.Talp.ForkJoinState

open List

variable {τ ρ π : Type*} [DecidableEq τ] [DecidableEq ρ] {main : τ} {exact : Prop} {s s' : ForkJoinState τ ρ π}
  {r : Readings}

/-- What an event does that creates the threads `new`: it keeps the invariant, where the time is exact as long as a
region is open, and it is one step in the books. -/
structure Keeps (main : τ) (new : List τ) (s s' : ForkJoinState τ ρ π) : Prop where
  onTime : OnTime main (s'.talp.openRegions ≠ []) s'
  bookStep : BookStep s.book new s'.book

theorem Keeps.congr {new : List τ} (h : Keeps main new s s') {s'' : ForkJoinState τ ρ π}
    (h' : OnTime main (s'.talp.openRegions ≠ []) s'') (hbook : s''.book = s'.book) : Keeps main new s s'' where
  onTime := h'.weaken (by rw [show s''.talp.openRegions = _ from congrArg RegionBook.openRegions hbook]; exact id)
  bookStep := hbook ▸ h.bookStep

theorem Keeps.refl (h : OnTime main (s.talp.openRegions ≠ []) s) : Keeps main [] s s := ⟨h, BookStep.keep⟩

omit [DecidableEq ρ] in
theorem taskOp_exec_eq {d : TalpInfo τ ρ} {t : τ} {sample : Sample} (hs : d.samples t = some sample) (op : TaskOp) :
    ∃ new, op.exec d t r = d.setSample t new := by
  have hkeep : ∃ new, d = d.setSample t new := by
    refine ⟨sample, ?_⟩
    rw [TalpInfo.setSample, ← hs, Function.update_eq_self]
  have hupdate : ∀ state, ∃ new, d.updateThenSetState t r state = d.setSample t new := by
    intro state
    by_cases hopenmp : d.flags.haveOpenmp = true
    · exact ⟨_, TalpInfo.updateThenSetState_eq hopenmp hs state⟩
    · rw [TalpInfo.updateThenSetState, if_neg hopenmp]
      exact hkeep
  cases op with
  | intoSync | outofSync | taskComplete | taskSwitch | implicitBarrierBegin => exact hupdate _
  | taskCreate =>
    change ∃ new, d.talpOpenmpTaskCreate t = d.setSample t new
    unfold TalpInfo.talpOpenmpTaskCreate
    split
    · exact ⟨_, TalpInfo.modifySample_eq hs _⟩
    · exact hkeep
  | implicitTaskEnd =>
    change ∃ new, d.talpOpenmpOutofParallelFunction t r = d.setSample t new
    unfold TalpInfo.talpOpenmpOutofParallelFunction
    split
    · exact ⟨_, TalpInfo.talpSampleSetState_eq hs _⟩
    · exact hkeep

namespace OnTime

/-! ## Sequential code -/

omit [DecidableEq τ] [DecidableEq ρ] in
theorem setFlags (h : OnTime main exact s) (flags : TalpFlags)
    (hopenmp : s.talp.flags.haveOpenmp = true → flags.haveOpenmp = true) :
    OnTime main exact { s with talp := { s.talp with flags := flags } } :=
  { h with
    teams := { h.teams with }
    openmp := fun p hp => hopenmp (h.openmp p hp) }

theorem stop (h : OnTime main (s.talp.openRegions ≠ []) s) (hseq : s.IsSequential) (hclock : s.clock ≤ r.now)
    (arg : RegionArg ρ) :
    OnTime main ((SequentialOp.exec main s.talp r (.stop arg)).openRegions ≠ []) { s with
      talp := SequentialOp.exec main s.talp r (.stop arg)
      ledger := SequentialOp.follow s.ledger main s.talp r (.stop arg)
      clock := r.now } ∧
    Stopped s.book (book { s with
      talp := SequentialOp.exec main s.talp r (.stop arg)
      ledger := SequentialOp.follow s.ledger main s.talp r (.stop arg)
      clock := r.now }) := by
  unfold SequentialOp.exec SequentialOp.follow
  dsimp only
  rw [TalpInfo.regionStop_sequential (h.sequential hseq).1]
  cases s.talp.stopTarget arg with
  | none => exact ⟨h.tick hclock, Or.inl rfl⟩
  | some r' => exact h.stopSequential hseq hclock r'

theorem start (h : OnTime main (s.talp.openRegions ≠ []) s) (hseq : s.IsSequential) (hclock : s.clock ≤ r.now)
    (arg : RegionArg ρ) :
    Keeps main [] s { s with
      talp := SequentialOp.exec main s.talp r (.start arg)
      ledger := SequentialOp.follow s.ledger main s.talp r (.start arg)
      clock := r.now } := by
  unfold SequentialOp.exec SequentialOp.follow
  dsimp only
  rw [TalpInfo.regionStart_sequential (h.sequential hseq).1]
  cases s.talp.startTarget arg with
  | none => exact ⟨h.tick hclock, BookStep.keep⟩
  | some r' =>
    obtain ⟨hstart, hbook⟩ := h.startSequential hseq hclock r'
    exact ⟨hstart, hbook⟩

theorem sequentialOp (h : OnTime main (s.talp.openRegions ≠ []) s) (hseq : s.IsSequential) (hclock : s.clock ≤ r.now)
    (op : SequentialOp ρ) :
    Keeps main [] s { s with
      talp := op.exec main s.talp r
      ledger := op.follow s.ledger main s.talp r
      clock := r.now } := by
  cases op with
  | update =>
    obtain ⟨hupdate, -, hbook⟩ := h.update hseq hclock
    exact (Keeps.refl h).congr hupdate hbook
  | change state =>
    obtain ⟨hupdate, -, hbook⟩ := h.update hseq hclock
    have hkeeps := (Keeps.refl h).congr hupdate hbook
    obtain ⟨hchange, hbook'⟩ := hkeeps.onTime.change (r := r) hseq state
    exact hkeeps.congr hchange hbook'
  | aggregate =>
    obtain ⟨hflush, hcollected, -⟩ := h.flush (r := r) (s.talp.openRegions ≠ []) hseq id fun hexact => Or.inl hexact
    refine ⟨(hflush.tick hclock).weaken ?_, BookStep.collect hcollected⟩
    rw [← show (book _).openRegions = s.talp.openRegions from hcollected.openRegions]
    exact id
  | start arg => exact h.start hseq hclock arg
  | stop arg =>
    obtain ⟨hstop, hbook⟩ := h.stop hseq hclock arg
    exact ⟨hstop, hbook.bookStep⟩
  | reset monitor =>
    obtain ⟨hreset, numResets, data, hbook⟩ := h.reset monitor
    have hopen : (s.talp.regionReset monitor).1.openRegions = s.talp.openRegions.erase (monitor.getD s.talp.monitor) :=
      congrArg RegionBook.openRegions hbook
    refine ⟨(hreset.tick hclock).weaken fun hne hnil => hne ?_, hbook ▸ BookStep.reset _ numResets data⟩
    change (s.talp.regionReset monitor).1.openRegions = []
    rw [hopen, hnil]
    rfl

theorem openmpInit (h : OnTime main (s.talp.openRegions ≠ []) s) (hseq : s.IsSequential) (hclock : s.clock ≤ r.now) :
    Keeps main [] s { s with
      talp := s.talp.talpOpenmpInit main r
      ledger := SequentialOp.follow s.ledger main
        { s.talp with flags := { s.talp.flags with haveOpenmp := true } } r (.start .global)
      clock := r.now } := by
  have hflags := h.setFlags { s.talp.flags with haveOpenmp := true } fun _ => rfl
  have hstart := start (s := { s with talp := { s.talp with flags := { s.talp.flags with haveOpenmp := true } } }) hflags
    hseq hclock .global
  obtain ⟨hchange, hbook⟩ := hstart.onTime.change (r := r) hseq .useful
  have hkeeps := hstart.congr hchange hbook
  exact ⟨hkeeps.onTime, hkeeps.bookStep⟩

/-! ## A new thread -/

theorem threadBegin (h : OnTime main (s.talp.openRegions ≠ []) s) (hopenmp : s.talp.flags.haveOpenmp = true)
    (hclock : s.clock ≤ r.now) (hcreated : r.created ≤ r.now) (t : τ) :
    Keeps main (if t ∈ s.talp.threads then [] else [t]) s { s with
      talp := s.talp.talpOpenmpThreadBegin t r
      ledger := if s.talp.samples t = none then s.ledger.enroll s.talp t r else s.ledger
      clock := r.now } := by
  by_cases ht : t ∈ s.talp.threads
  · obtain ⟨sample, hs, -⟩ := h.thread t ht
    have heq : s.talp.talpOpenmpThreadBegin t r = s.talp := by
      rw [TalpInfo.talpOpenmpThreadBegin, if_pos hopenmp, TalpInfo.talpSampleGet_eq hs]
    rw [heq, if_pos ht, if_neg (by rw [hs]; exact Option.some_ne_none _)]
    exact (Keeps.refl h).congr (h.tick hclock) rfl
  · obtain ⟨hsample, hprof, hnil, hshare⟩ := h.outside t ht
    rw [TalpInfo.threadBegin_new hopenmp hsample hprof h.openNodup, if_neg ht, if_pos hsample]
    refine ⟨?_, BookStep.enroll t (s.talp.initialTs r) ht⟩
    obtain ⟨mainSample, hmain, hlast, hle, hbusy⟩ := h.main_sample
    have hgeneration := h.generation
    have hnow : s.talp.currentGenerationTs ≤ r.now := (hle.trans hbusy.before).trans hclock
    have hne : main ≠ t := fun heq => ht (heq ▸ h.main_mem)
    have hlast' : TalpInfo.lastUpdatedTs { s.talp with
        samples := Function.update s.talp.samples t (some (s.talp.workerSample r)) } main =
        s.talp.lastUpdatedTs main := by
      unfold TalpInfo.lastUpdatedTs
      dsimp only
      rw [Function.update_of_ne hne]
    -- the timestamp of the new sample is the start of the innermost region
    have hinitial : s.talp.initialTs r ≤ r.now ∧
        (s.talp.openRegions ≠ [] → s.talp.initialTs r ≤ s.talp.currentGenerationTs) := by
      unfold TalpInfo.initialTs
      have hsince := h.since
      cases hopen : s.talp.openRegions with
      | nil => exact ⟨hcreated, fun hne => absurd rfl hne⟩
      | cons innermost rest =>
        rw [hopen] at hsince
        have hinner := hsince innermost mem_cons_self
        exact ⟨hinner.trans hnow, fun _ => hinner⟩
    have hidle : Idle s.talp.currentGenerationTs r.now (s.talp.openRegions ≠ []) 0 (s.talp.workerSample r) :=
      { state := Or.inr rfl
        before := hinitial.1
        timers := SampleTimers.nonneg_zero
        share_nonneg := le_rfl
        time := by
          rcases hgeneration.eq_or_lt with hzero | hpos
          · rw [← hzero] at hinitial ⊢
            exact Or.inl ⟨rfl, le_rfl, le_rfl, fun hexact => ⟨rfl, hinitial.2 hexact⟩⟩
          · exact Or.inr ⟨hpos, hgeneration, rfl⟩ }
    refine
      { teams := { h.teams with }
        main_mem := mem_append_left _ h.main_mem
        nodup := by
          refine nodup_append.mpr ⟨h.nodup, nodup_singleton t, ?_⟩
          rintro u hu v hv rfl
          exact ht (mem_singleton.mp hv ▸ hu)
        openNodup := h.openNodup
        started := fun r' => ?_
        since := fun r' hr' => ?_
        generation := hgeneration
        outside := fun u hu => ?_
        sequential := fun hseq => ?_
        openmp := h.openmp
        primary := h.primary
        forked := h.forked
        thread := fun u hu => ?_
        shares := ?_ }
    · refine Iff.trans ?_ (h.started r')
      dsimp only
      split <;> exact Iff.rfl
    · dsimp only
      have := h.since r' hr'
      split <;> exact this
    · obtain ⟨hno, hno'⟩ := not_or.mp fun hor => hu (mem_append.mpr hor)
      have hu' : u ≠ t := fun heq => hno' (mem_singleton.mpr heq)
      obtain ⟨hsample', hprof', hrest⟩ := h.outside u hno
      refine ⟨(Function.update_of_ne hu' _ _).trans hsample', ?_, hrest⟩
      dsimp only
      rwa [Function.update_of_ne hu']
    · obtain ⟨hrole, hends⟩ := h.sequential hseq
      refine ⟨(Function.update_of_ne hne _ _).trans hrole, fun u sample hu => ?_⟩
      refine le_trans ?_ hlast'.ge
      dsimp only at hu
      by_cases heq : u = t
      · subst heq
        rw [Function.update_self] at hu
        cases hu
        exact hgeneration.trans (hle.trans hlast.ge)
      · rw [Function.update_of_ne heq] at hu
        exact hends u sample hu
    · dsimp only
      by_cases heq : u = t
      · subst heq
        rw [Function.update_self, hnil, TimeLedger.enroll, hshare]
        exact ⟨_, rfl,
          { ended := hgeneration.trans hnow
            saved := by intros; contradiction
            idle := fun _ _ => hidle
            busy := fun hb => hb.elim (fun hne => absurd rfl hne) fun hm => absurd hm.symm hne
            isOver := by intros; contradiction }⟩
      · rw [Function.update_of_ne heq]
        obtain ⟨sample, hs, htime⟩ :=
          h.thread u ((mem_append.mp hu).resolve_right fun hm => heq (mem_singleton.mp hm))
        exact ⟨sample, hs, htime.weaken hclock id⟩
    · have hshared : ∀ u ∈ s.talp.threads, TalpInfo.shared { s.talp with
          samples := Function.update s.talp.samples t (some (s.talp.workerSample r)) } u = s.talp.shared u := by
        intro u hu
        have hu' : u ≠ t := fun heq => ht (heq ▸ hu)
        unfold TalpInfo.shared
        dsimp only
        rw [Function.update_of_ne hu']
      have hnew : TalpInfo.shared { s.talp with
          samples := Function.update s.talp.samples t (some (s.talp.workerSample r)) } t = 0 := by
        unfold TalpInfo.shared Sample.shared
        dsimp only
        rw [Function.update_self]
        dsimp only [Option.map_some, Option.getD_some]
        split <;> rfl
      change ((s.talp.threads ++ [t]).map s.ledger.share).sum =
        ((s.talp.threads ++ [t]).map (TalpInfo.shared { s.talp with
          samples := Function.update s.talp.samples t (some (s.talp.workerSample r)) })).sum
      rw [map_append, map_append, sum_append, sum_append, h.shares,
        map_congr_left hshared, map_singleton, map_singleton, hshare, hnew]

end OnTime

/-! ## One event -/

def newThreads (s : ForkJoinState τ ρ π) (e : ForkJoinEvent τ ρ π) : List τ :=
  match e.op with
  | .threadBegin t => if t ∈ s.talp.threads then [] else [t]
  | _ => []

variable [DecidableEq π]

namespace OnTime

theorem next (h : OnTime main (s.talp.openRegions ≠ []) s) {e : ForkJoinEvent τ ρ π} (hordered : s.Ordered main e) :
    Keeps main (s.newThreads e) s (s.next main e) := by
  have hclock : s.clock ≤ s.now e := Int.le_add_of_nonneg_right (Int.natCast_nonneg _)
  unfold ForkJoinState.next exec newThreads
  unfold Ordered at hordered
  cases hop : e.op with
  | openmpInit =>
    rw [hop] at hordered
    exact h.openmpInit hordered hclock
  | sequential op =>
    rw [hop] at hordered
    exact h.sequentialOp hordered hclock op
  | threadBegin t =>
    rw [hop] at hordered
    exact h.threadBegin hordered hclock le_rfl t
  | parallelBegin t p requested actual =>
    rw [hop] at hordered
    obtain ⟨hopenmp, -, -, hp, hstack⟩ := hordered
    have ht : t ∈ s.talp.threads := by
      rcases hs : s.stack t with - | ⟨frame, rest⟩
      · rw [hs] at hstack
        exact hstack.1 ▸ h.main_mem
      · exact h.mem_threads (by rw [hs]; exact cons_ne_nil _ _)
    obtain ⟨sample, hs, -⟩ := h.thread t ht
    have hbook : (s.beginParallel t p requested actual).book = s.book := by
      unfold ForkJoinState.beginParallel
      rw [TalpInfo.parallelBegin_eq hopenmp hs]
      rfl
    exact (Keeps.refl h).congr (h.beginParallel e requested actual hopenmp hp hstack) hbook
  | implicitTaskBegin t p index =>
    rw [hop] at hordered
    obtain ⟨ht, hfree, parallel, hp, hlt, hstack⟩ := hordered
    dsimp only
    rw [hp]
    have hlevel := h.teams.leveled p parallel hp
    obtain ⟨sample, hs, -⟩ := h.thread t ht
    have hopenmp : s.talp.flags.haveOpenmp = true := h.openmp p (by rw [hp]; exact Option.some_ne_none _)
    have hbook : (s.beginTask e t p index parallel).book = s.book := by
      unfold ForkJoinState.beginTask omptoolImplicitTaskBegin
      rw [TalpInfo.intoParallelFunction_eq hopenmp hs]
      rfl
    exact (Keeps.refl h).congr (h.beginTask e ht hfree hp hlt hstack hlevel) hbook
  | task t op =>
    rw [hop] at hordered
    change Innermost _ _ (s.stack t) at hordered
    dsimp only
    have ht : t ∈ s.talp.threads := by
      rcases hs : s.stack t with - | ⟨frame, rest⟩
      · rw [hs] at hordered
        exact hordered.2.2
      · exact h.mem_threads (by rw [hs]; exact cons_ne_nil _ _)
    obtain ⟨sample, hs, -⟩ := h.thread t ht
    obtain ⟨new, hnew⟩ := taskOp_exec_eq (r := s.readings e) hs op
    refine (Keeps.refl h).congr ?_ (by rw [hnew]; rfl)
    cases hstack : s.stack t with
    | nil =>
      rw [hstack] at hordered
      obtain ⟨rfl, hmain, -⟩ := hordered
      rw [← hstack]
      exact h.idleTaskEnd e ht hmain hstack
    | cons frame rest =>
      rw [hstack] at hordered
      rw [← hstack]
      exact h.task e hstack hordered.1
  | parallelEnd t =>
    rw [hop] at hordered
    change Innermost _ _ (s.stack t) at hordered
    obtain ⟨frame, rest, hstack, hindex, parallel, hp, hover, -⟩ := innermost_false.mp hordered
    have he : s.Ends t frame rest parallel := ⟨hstack, hindex, hp, fun index hlt => by
      obtain ⟨u, hu⟩ := hover index hlt
      obtain ⟨member, more, hmore, hmember⟩ := innermost_false.mp hu
      exact ⟨u, member, more, hmore, hmember⟩⟩
    dsimp only
    rw [hstack]
    dsimp only
    rw [hp]
    obtain ⟨sample, hs, -⟩ := h.thread t (h.mem_threads (ne_nil_of_mem he.mem_stack))
    have hbook : (s.endParallel e t frame.parallel parallel).book = s.book := by
      unfold ForkJoinState.endParallel
      rw [he.talp_eq h hs]
      rfl
    exact (Keeps.refl h).congr (h.endParallel e he) hbook

end OnTime

/-! ## Runs -/

/-- The invariant of ordered runs: the threads are on time, and every region has what they have given to it. -/
structure Conserved (main : τ) (s : ForkJoinState τ ρ π) : Prop where
  onTime : OnTime main (s.talp.openRegions ≠ []) s
  balanced : ∀ r, s.book.Balanced r

omit [DecidableEq ρ] [DecidableEq π] in
theorem onTime_created (main : τ) {d : TalpInfo τ ρ} {sample : Sample} {clock : ℕ} (hthreads : d.threads = [main])
    (hopen : d.openRegions = []) (hmonitors : ∀ r, (d.monitors r).data.started = false)
    (hgeneration : d.currentGenerationTs = 0)
    (hsamples : d.samples = Function.update (fun _ => none) main (some sample))
    (hrole : d.role = fun u => if u = main then .mainSequential else .unknown)
    (hsample : sample.generationTs = 0 ∧ sample.timers = {} ∧ sample.lastParallelEndTs = 0 ∧
      sample.lastUpdatedTs = clock ∧ sample.state = .useful) :
    OnTime main (d.openRegions ≠ []) ({ talp := d, clock := clock } : ForkJoinState τ ρ π) := by
  obtain ⟨hgen, htimers, hend, hlast, hstate⟩ := hsample
  have hmain : d.samples main = some sample := by rw [hsamples, Function.update_self]
  have hother : ∀ {u}, u ≠ main → d.samples u = none := by
    intro u hu
    rw [hsamples, Function.update_of_ne hu]
  have hclock : (0 : ℤ) ≤ clock := Int.natCast_nonneg _
  have hown : sample.timers.own = 0 := by rw [htimers]; rfl
  exact
    { teams := ⟨by intros; contradiction, fun _ => trivial, by intros; contradiction⟩
      main_mem := by rw [hthreads]; exact mem_singleton_self main
      nodup := by rw [hthreads]; exact nodup_singleton main
      openNodup := by rw [hopen]; exact nodup_nil
      started := fun r => by rw [hmonitors, hopen]; simp
      since := by rw [hopen]; intros; contradiction
      generation := hgeneration.ge
      outside := fun u hu => by
        rw [hthreads, mem_singleton] at hu
        exact ⟨hother hu, by rw [hrole]; simp [hu, ThreadRole.isProfiled], rfl, rfl⟩
      sequential := fun _ => by
        refine ⟨by rw [hrole]; exact if_pos rfl, fun u other hu => ?_⟩
        by_cases heq : u = main
        · subst heq
          rw [hmain] at hu
          cases hu
          rw [TalpInfo.lastUpdatedTs, hmain, hend]
          exact hclock.trans_eq hlast.symm
        · rw [hother heq] at hu
          cases hu
      openmp := by intros; contradiction
      primary := by intros; contradiction
      forked := by intros; contradiction
      thread := fun u hu => by
        rw [hthreads, mem_singleton] at hu
        subst hu
        refine ⟨sample, hmain,
          { ended := hend.trans_le hclock
            saved := by intros; contradiction
            idle := fun _ hno => absurd rfl hno
            busy := fun _ => ?_
            isOver := by intros; contradiction }⟩
        exact
          { current := hgen.trans hgeneration.symm
            before := hlast.le
            timers := htimers ▸ SampleTimers.nonneg_zero
            share_nonneg := le_rfl
            enabled := by rw [hstate]; simp
            outside := fun _ => by rw [hstate]; simp
            le := by
              change sample.timers.own + 0 + 0 ≤ sample.lastUpdatedTs - d.currentGenerationTs
              omega
            eq := fun hne => absurd hopen hne }
      shares := by
        rw [hthreads, map_singleton, map_singleton, TalpInfo.shared, hmain]
        change _ = [sample.shared d.currentGenerationTs].sum
        rw [Sample.shared, htimers]
        simp }

omit [DecidableEq π] in
theorem conserved_init (main : τ) (numCpus : ℕ) (haveHwc haveGpu : Bool) (global : ρ) (enabled : ρ → Bool) (clock : ℕ)
    (cpuid : ℕ) :
    Conserved main (init main numCpus haveHwc haveGpu global enabled clock cpuid : ForkJoinState τ ρ π) ∧
      ∀ r, r ∉ (init main numCpus haveHwc haveGpu global enabled clock cpuid :
        ForkJoinState τ ρ π).talp.openRegions →
        ((init main numCpus haveHwc haveGpu global enabled clock cpuid :
          ForkJoinState τ ρ π).talp.monitors r).Unmeasured := by
  unfold init TalpInfo.talpInit
  dsimp only
  generalize hd : TalpInfo.talpSampleSetState _ main _ _ = d
  have hget : ∃ sample : Sample, d =
      { flags := { haveHwc := haveHwc }
        numCpus := numCpus
        monitor := global
        monitors := fun r => { data := { enabled := enabled r } }
        role := fun u => if u = main then .mainSequential else .unknown
        threads := [main]
        samples := Function.update (fun _ => none) main (some sample) } ∧
      sample.generationTs = 0 ∧ sample.timers = {} ∧ sample.lastParallelEndTs = 0 ∧
      sample.lastUpdatedTs = clock ∧ sample.state = .useful := by
    refine ⟨{ recordCpuid { lastUpdatedTs := clock } cpuid with state := .useful }, ?_, rfl, rfl, rfl, rfl, rfl⟩
    subst hd
    simp only [TalpInfo.talpSampleGet, ThreadRole.isProfiled, TalpInfo.talpSampleSetState, TalpInfo.setSample, if_true,
      Function.update_self, decide_true, reduceCtorEq, or_false, Function.update_idem, nil_append]
    rfl
  obtain ⟨sample, hd', hsample⟩ := hget
  have hcreated : OnTime main (d.openRegions ≠ []) ({ talp := d, clock := clock } : ForkJoinState τ ρ π) := by
    subst hd'
    exact onTime_created main rfl rfl (fun _ => rfl) rfl rfl rfl hsample
  have hrole : d.role main = .mainSequential := by rw [hd']; exact if_pos rfl
  have hopen : d.openRegions = [] := by rw [hd']
  have hmonitors : ∀ r, d.monitors r = { data := { enabled := enabled r } } := by
    intro r
    rw [hd']
  have hs : d.samples main = some sample := by rw [hd']; dsimp only; rw [Function.update_self]
  rw [TalpInfo.regionStart_sequential hrole]
  -- no region is open, so the ledger stays as it is
  have hflush : ∀ e : Readings, ({} : TimeLedger τ ρ).flush main (d.talpSampleUpdate main e) = {} := by
    intro e
    rw [TimeLedger.flush, TalpInfo.talpSampleUpdate_eq hs, TalpInfo.setSample, hopen]
    simp
  obtain ⟨hstart, hbook⟩ := OnTime.startSequential (s := { talp := d, clock := clock })
    (r := { created := clock, now := clock, cpuid := cpuid }) hcreated (fun _ => rfl) le_rfl d.monitor
  rw [hflush, ite_self] at hstart hbook
  have hflags := hstart.setFlags
    { (d.startSequential main { created := clock, now := clock, cpuid := cpuid } d.monitor).1.flags with
      haveGpu := haveGpu } id
  refine ⟨⟨hflags, fun r => hbook.balanced ?_⟩, fun r hr => hbook.unmeasured ?_ hr ?_⟩
  · change (d.monitors r).threadTime = (d.threads.map fun _ => (0 : ℤ)).sum
    rw [hmonitors]
    simp [Monitor.threadTime]
  · change r ∉ d.openRegions
    rw [hopen]
    exact not_mem_nil
  · change (d.monitors r).Unmeasured
    rw [hmonitors]
    constructor <;> rfl

theorem Conserved.next (h : Conserved main s) {e : ForkJoinEvent τ ρ π} (hordered : s.Ordered main e) :
    Conserved main (s.next main e) where
  onTime := (h.onTime.next hordered).onTime
  balanced := fun r => (h.onTime.next hordered).bookStep.balanced (h.balanced r)

theorem conserved_run {events : List (ForkJoinEvent τ ρ π)} (h : Conserved main s)
    (hordered : Lib.Along (ForkJoinState.next main) (Ordered main) s events) :
    Conserved main (events.foldl (ForkJoinState.next main) s) :=
  (Lib.Along.invariant (P := Ordered main) (R := fun _ => True) (fun _ _ hs _ he => hs.next he)
    (fun _ _ _ _ he => he) s events h (fun _ _ => trivial) hordered).2

/-! ## The time of a region -/

/-- As long as no thread is created, a region owes to all threads together what it has owed to them, and none of its
times gets negative. -/
structure Repaid (main : τ) (r : ρ) (team : List τ) (s : ForkJoinState τ ρ π) : Prop extends Conserved main s where
  threads : s.talp.threads = team
  debt : (team.map fun u => s.book.debt r u).sum = 0
  nonneg : (s.talp.monitors r).Nonneg

theorem Repaid.next {r : ρ} {team : List τ} (h : Repaid main r team s) {e : ForkJoinEvent τ ρ π}
    (hordered : s.Ordered main e) (hnew : ∀ t, e.op = .threadBegin t → t ∈ team) :
    Repaid main r team (s.next main e) := by
  have hstep := (h.onTime.next hordered).bookStep
  have hnone : s.newThreads e = [] := by
    unfold newThreads
    split
    · rename_i t hop
      exact if_pos (h.threads.symm ▸ hnew t hop)
    · rfl
  rw [hnone] at hstep
  refine
    { toConserved := h.toConserved.next hordered
      threads := (hstep.threads_eq.trans (append_nil _)).trans h.threads
      debt := ?_
      nonneg := hstep.nonneg h.nonneg }
  rcases hstep.debt_eq h.onTime.openNodup r with hkeep | ⟨-, hzero⟩
  · have hteam : ∀ u ∈ team, (s.next main e).book.debt r u = s.book.debt r u := h.threads ▸ hkeep
    rw [map_congr_left hteam]
    exact h.debt
  · simp [hzero]

omit [DecidableEq τ] [DecidableEq π] in
theorem Repaid.threadTime {r : ρ} {team : List τ} (h : Repaid main r team s) (hr : r ∉ s.talp.openRegions) :
    (s.talp.monitors r).threadTime = (s.talp.monitors r).elapsedTime * s.talp.threads.length := by
  have hsum := (h.balanced r).sum_debt hr
  rw [show s.book.threads = team from h.threads, h.debt, ← show s.book.threads = team from h.threads] at hsum
  exact (sub_eq_zero.mp hsum.symm).symm

/-- **Conservation of time.** If all threads have their samples before a region is opened, then whenever it is closed,
its times add up to its elapsed time for each of the threads, and none of them is negative. -/
theorem threadTime_eq_elapsedTime (main : τ) (numCpus : ℕ) (haveHwc haveGpu : Bool) (global : ρ) (enabled : ρ → Bool)
    (clock : ℕ) (cpuid : ℕ) (before events : List (ForkJoinEvent τ ρ π)) (r : ρ) :
    let s0 : ForkJoinState τ ρ π := init main numCpus haveHwc haveGpu global enabled clock cpuid
    let s := before.foldl (ForkJoinState.next main) s0
    let s' := events.foldl (ForkJoinState.next main) s
    Lib.Along (ForkJoinState.next main) (Ordered main) s0 (before ++ events) →
    (∀ e ∈ events, ∀ t, e.op = .threadBegin t → t ∈ s.talp.threads) →
    r ∉ s.talp.openRegions → (s.talp.monitors r).Unmeasured → r ∉ s'.talp.openRegions →
    (s'.talp.monitors r).usefulTime + (s'.talp.monitors r).mpiTime + (s'.talp.monitors r).gpuRuntimeTime +
        (s'.talp.monitors r).ompLoadImbalanceTime + (s'.talp.monitors r).ompSchedulingTime +
        (s'.talp.monitors r).ompSerializationTime =
      (s'.talp.monitors r).elapsedTime * s'.talp.threads.length ∧
    (s'.talp.monitors r).Nonneg := by
  intro s0 s s' hordered hnew hr hunmeasured hclosed
  obtain ⟨hbefore, hevents⟩ := (Lib.Along.append s0 before events).mp hordered
  have hs : Conserved main s :=
    conserved_run (conserved_init main numCpus haveHwc haveGpu global enabled clock cpuid).1 hbefore
  -- a region without time owes nothing
  have hdebt : (s.talp.threads.map fun u => s.book.debt r u).sum = 0 := by
    refine ((hs.balanced r).sum_debt hr).trans ?_
    change (s.talp.monitors r).elapsedTime * _ - (s.talp.monitors r).threadTime = 0
    rw [hunmeasured.elapsedTime, hunmeasured.threadTime, zero_mul, sub_zero]
  have hrepaid : Repaid main r s.talp.threads s' :=
    (Lib.Along.invariant (P := Ordered main) (fun _ _ hs he hordered => hs.next hordered he) (fun _ _ _ _ he => he) s
      events ⟨hs, rfl, hdebt, hunmeasured.nonneg⟩ hnew hevents).2
  exact ⟨hrepaid.threadTime hclosed, hrepaid.nonneg⟩

def teamSetup : List (ForkJoinEvent Bool Bool Unit) :=
  [{ op := .openmpInit, delay := 1 }, { op := .threadBegin true, delay := 2 }]

/-- A parallel of two threads; the worker waits for the main thread, and ends its implicit task late. -/
def teamParallel : List (ForkJoinEvent Bool Bool Unit) :=
  [{ op := .parallelBegin false () 2 2, delay := 4 },
    { op := .implicitTaskBegin true () 1, delay := 1 },
    { op := .implicitTaskBegin false () 0, delay := 1 },
    { op := .task true .implicitBarrierBegin, delay := 5 },
    { op := .task false .implicitBarrierBegin, delay := 6 },
    { op := .parallelEnd false, delay := 1 },
    { op := .task true .implicitTaskEnd, delay := 2 }]

def teamRun : List (ForkJoinEvent Bool Bool Unit) :=
  { op := .sequential (.start (.region true)), delay := 3 } :: teamParallel ++
    [{ op := .sequential (.stop (.region true)), delay := 3 }]

theorem threadTime_eq_elapsedTime_teamRun :
    let s := teamRun.foldl (ForkJoinState.next false) (teamSetup.foldl (ForkJoinState.next false)
      (init false 2 false false false (fun _ => true) 10 0))
    (s.talp.monitors true).usefulTime + (s.talp.monitors true).mpiTime + (s.talp.monitors true).gpuRuntimeTime +
        (s.talp.monitors true).ompLoadImbalanceTime + (s.talp.monitors true).ompSchedulingTime +
        (s.talp.monitors true).ompSerializationTime = (s.talp.monitors true).elapsedTime * s.talp.threads.length ∧
      (s.talp.monitors true).Nonneg :=
  threadTime_eq_elapsedTime false 2 false false false (fun _ => true) 10 0 teamSetup teamRun true (by decide)
    (by simp [teamRun, teamParallel]) (by decide) (by constructor <;> decide) (by decide)

end Dlb.Talp.ForkJoinState

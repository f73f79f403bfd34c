import Dlb.Lib.Table
import Dlb.Talp.RegionBook
import Dlb.Talp.Teams

/-!
# Where the time is

The invariant of fork-join runs (`OnTime`): every thread is busy or idle as `ThreadTime` says, and what the primary
threads have written as load imbalance and scheduling is what the members have waited. This module has the events of a
single thread; all of them but the end of a parallel leave the other threads alone (`OnTime.thread_step`).
-/

namespace Dlb.Talp

open List

/-- A thread that is in a parallel, or the main thread, is busy, and another one is idle. -/
structure Timely {π : Type*} (generation clock : ℤ) (exact : Prop) (share : ℤ) (isMain : Prop)
    (stack : List (TaskFrame π)) (sample : Sample) : Prop where
  ended : sample.lastParallelEndTs ≤ clock
  saved : ∀ frame ∈ stack, 0 ≤ frame.saved
  idle : stack = [] → ¬ isMain → Idle generation clock exact share sample
  busy : stack ≠ [] ∨ isMain → Busy generation clock exact share (held stack) sample
  isOver : ∀ frame ∈ stack.head?, frame.phase.IsOver →
    sample.state = .notUsefulOmpIn ∨ sample.state = .notUsefulOmpOut

section Timely

variable {π : Type*} {generation clock now share : ℤ} {exact exact' isMain : Prop} {stack : List (TaskFrame π)}
  {sample : Sample}

namespace Timely

theorem idle_or_busy (h : Timely generation clock exact share isMain stack sample) :
    Idle generation clock exact share sample ∨ Busy generation clock exact share (held stack) sample := by
  by_cases hstack : stack ≠ [] ∨ isMain
  · exact Or.inr (h.busy hstack)
  · obtain ⟨hnil, hmain⟩ := not_or.mp hstack
    exact Or.inl (h.idle (not_not.mp hnil) hmain)

theorem timers (h : Timely generation clock exact share isMain stack sample) : sample.timers.Nonneg :=
  h.idle_or_busy.elim (·.timers) (·.timers)

theorem share_nonneg (h : Timely generation clock exact share isMain stack sample) : 0 ≤ share :=
  h.idle_or_busy.elim (·.share_nonneg) (·.share_nonneg)

theorem weaken (h : Timely generation clock exact share isMain stack sample) (hclock : clock ≤ now)
    (hexact : exact' → exact) : Timely generation now exact' share isMain stack sample :=
  { h with
    ended := h.ended.trans hclock
    idle := fun hnil hmain => (h.idle hnil hmain).weaken hclock hexact
    busy := fun hbusy => (h.busy hbusy).weaken hclock hexact }

theorem held_nonneg (h : ∀ frame ∈ stack, 0 ≤ frame.saved) : 0 ≤ (held stack).getD 0 := by
  induction stack with
  | nil => exact le_rfl
  | cons frame rest ih =>
    obtain ⟨hframe, hrest⟩ := forall_mem_cons.mp h
    exact add_nonneg hframe (ih hrest)

theorem generation_le (h : Timely generation clock exact share isMain stack sample) (hbusy : stack ≠ [] ∨ isMain) :
    generation ≤ sample.lastUpdatedTs := by
  have hb := h.busy hbusy
  have hle := hb.le
  have hown := hb.timers.own
  have hshare := hb.share_nonneg
  have hpending : 0 ≤ sample.pending (held stack) := by
    rcases stack with - | ⟨frame, rest⟩
    · exact le_rfl
    · exact add_nonneg hb.timers.notUsefulOmpIn (held_nonneg h.saved)
  omega

theorem mapPhase (h : Timely generation clock exact share isMain stack sample) {f : TaskPhase → TaskPhase}
    (hover : ∀ frame ∈ stack.head?, (f frame.phase).IsOver →
      sample.state = .notUsefulOmpIn ∨ sample.state = .notUsefulOmpOut) :
    Timely generation clock exact share isMain (Talp.mapPhase f stack) sample where
  ended := h.ended
  saved := fun frame hframe => by
    obtain ⟨phase, hmem⟩ := mem_mapPhase hframe
    have := h.saved _ hmem
    exact this
  idle := fun hnil => h.idle (mapPhase_eq_nil.mp hnil)
  busy := fun hb => by
    rw [held_mapPhase]
    exact h.busy (hb.imp_left fun hne hnil => hne (mapPhase_eq_nil.mpr hnil))
  isOver := by
    rcases stack with - | ⟨frame, rest⟩
    · exact nofun
    · rintro _ ⟨⟩ hphase
      exact hover frame rfl hphase

/-! ## The events of a thread -/

section Events

variable {τ ρ : Type*} {d : TalpInfo τ ρ} {t : τ} {e : Readings}

theorem shared_updatedSample (h : sample.generationTs = d.currentGenerationTs) :
    (d.updatedSample t e sample).shared d.currentGenerationTs = sample.shared d.currentGenerationTs := by
  obtain ⟨htimers, hgen⟩ := d.updatedSample_current (t := t) (e := e) h.ge
  have hadd : ∀ (timers : SampleTimers) (state : SampleState) (duration : ℤ) (unused : Option ℤ),
      (timers.add state duration unused).notUsefulOmpInLb = timers.notUsefulOmpInLb ∧
        (timers.add state duration unused).notUsefulOmpInSched = timers.notUsefulOmpInSched := by
    intro timers state duration unused
    cases state <;> exact ⟨rfl, rfl⟩
  unfold Sample.shared
  rw [hgen, htimers, (hadd _ _ _ _).1, (hadd _ _ _ _).2]

theorem updateThenSetState {frame : TaskFrame π} {rest : List (TaskFrame π)}
    (h : Timely d.currentGenerationTs clock exact share isMain (frame :: rest) sample) (hclock : clock ≤ e.now)
    {f : TaskPhase → TaskPhase} {state : SampleState} (henabled : state ≠ .disabled)
    (hover : (f frame.phase).IsOver → state = .notUsefulOmpIn) :
    Timely d.currentGenerationTs e.now exact share isMain (Talp.mapPhase f (frame :: rest))
        { d.updatedSample t e sample with state := state } where
  ended := by
    rw [d.updatedSample_lastParallelEndTs]
    exact h.ended.trans hclock
  saved := forall_mem_cons.mpr (forall_mem_cons.mp h.saved)
  idle := fun hnil => absurd hnil (cons_ne_nil _ _)
  busy := fun _ => ((h.busy (Or.inl (cons_ne_nil _ _))).update hclock).setState state henabled nofun
  isOver := by
    rintro _ ⟨⟩ hphase
    exact Or.inl (hover hphase)

variable [DecidableEq τ]

theorem task {frame : TaskFrame π} {rest : List (TaskFrame π)} (hopenmp : d.flags.haveOpenmp = true)
    (hs : d.samples t = some sample)
    (h : Timely d.currentGenerationTs clock exact share isMain (frame :: rest) sample) (hclock : clock ≤ e.now)
    {op : TaskOp} (hallowed : op.Allowed frame.phase) : ∃ new : Sample,
      op.exec d t e = d.setSample t new ∧ new.lastParallelEndTs = sample.lastParallelEndTs ∧
        sample.lastUpdatedTs ≤ new.lastUpdatedTs ∧
        new.shared d.currentGenerationTs = sample.shared d.currentGenerationTs ∧
        Timely d.currentGenerationTs e.now exact share isMain (Talp.mapPhase op.next (frame :: rest)) new := by
  have hbusy := h.busy (Or.inl (cons_ne_nil _ _))
  have hlast : sample.lastUpdatedTs ≤ (d.updatedSample t e sample).lastUpdatedTs := by
    rw [d.updatedSample_lastUpdatedTs]
    exact hbusy.before.trans hclock
  have hshared := shared_updatedSample (t := t) (e := e) hbusy.current
  -- the events that update the sample
  have hupdate : ∀ (state : SampleState) (f : TaskPhase → TaskPhase), state ≠ .disabled →
      ((f frame.phase).IsOver → state = .notUsefulOmpIn) → ∃ new : Sample,
      d.updateThenSetState t e state = d.setSample t new ∧ new.lastParallelEndTs = sample.lastParallelEndTs ∧
        sample.lastUpdatedTs ≤ new.lastUpdatedTs ∧
        new.shared d.currentGenerationTs = sample.shared d.currentGenerationTs ∧
        Timely d.currentGenerationTs e.now exact share isMain (Talp.mapPhase f (frame :: rest)) new :=
    fun state f henabled hover =>
      ⟨{ d.updatedSample t e sample with state := state }, TalpInfo.updateThenSetState_eq hopenmp hs state,
        d.updatedSample_lastParallelEndTs t e sample, hlast, hshared,
        h.updateThenSetState hclock henabled hover⟩
  cases op with
  | intoSync => exact hupdate .notUsefulOmpIn _ nofun fun _ => rfl
  | outofSync =>
    obtain ⟨inBarrier, hphase⟩ := hallowed
    refine hupdate .useful (fun phase => TaskOp.next phase .outofSync) nofun fun hover => ?_
    rw [hphase] at hover
    rcases hover with hover | hover <;> cases hover
  | taskCreate =>
    refine ⟨{ sample with stats := { sample.stats with numOmpTasks := sample.stats.numOmpTasks + 1 } }, ?_, rfl, le_rfl,
      rfl, ?_⟩
    · change d.talpOpenmpTaskCreate t = _
      rw [TalpInfo.talpOpenmpTaskCreate, if_pos hopenmp, TalpInfo.modifySample_eq hs]
    · obtain ⟨inBarrier, hphase⟩ := hallowed
      have hlater := (h.weaken hclock (id : exact → exact)).mapPhase (f := fun phase => TaskOp.next phase .taskCreate)
        fun _ hmem hover => by
          obtain rfl := Option.some.inj hmem
          rw [hphase] at hover
          rcases hover with hover | hover <;> cases hover
      exact { hlater with busy := fun hb => { hlater.busy hb with }, idle := fun hnil => absurd hnil nofun }
  | taskComplete => exact hupdate .notUsefulOmpIn _ nofun fun _ => rfl
  | taskSwitch =>
    refine hupdate .useful (fun phase => TaskOp.next phase .taskSwitch) nofun fun hover => ?_
    rcases hallowed with ⟨inBarrier, hphase⟩ | hphase <;> rw [hphase] at hover <;>
      rcases hover with hover | hover <;> cases hover
  | implicitBarrierBegin => exact hupdate .notUsefulOmpIn _ nofun fun _ => rfl
  | implicitTaskEnd =>
    refine ⟨{ sample with state := .notUsefulOmpOut }, ?_, rfl, le_rfl, rfl, ?_⟩
    · change d.talpOpenmpOutofParallelFunction t e = _
      rw [TalpInfo.talpOpenmpOutofParallelFunction, if_pos hopenmp, TalpInfo.talpSampleSetState_eq hs]
    · have hlater := h.weaken hclock (id : exact → exact)
      exact
        { ended := hlater.ended
          saved := forall_mem_cons.mpr (forall_mem_cons.mp hlater.saved)
          idle := fun hnil => absurd hnil (cons_ne_nil _ _)
          busy := fun _ => (hlater.busy (Or.inl (cons_ne_nil _ _))).setState .notUsefulOmpOut nofun nofun
          isOver := fun _ _ _ => Or.inr rfl }

omit [DecidableEq τ] in
theorem shared_begunSample (index : ℕ) (hgen : sample.generationTs ≤ d.currentGenerationTs) :
    (d.begunSample t e index sample).shared d.currentGenerationTs = sample.shared d.currentGenerationTs := by
  -- only the timestamp and the waiting time of the sample are changed before the update
  have hbegun : ∀ s : Sample, s.generationTs = sample.generationTs →
      s.timers.notUsefulOmpInLb = sample.timers.notUsefulOmpInLb →
      s.timers.notUsefulOmpInSched = sample.timers.notUsefulOmpInSched →
      (d.updatedSample t e s).shared d.currentGenerationTs = sample.shared d.currentGenerationTs := by
    intro s hs hlb hsched
    rcases hgen.lt_or_eq with hlt | heq
    · obtain ⟨htimers, hgen'⟩ := TalpInfo.updatedSample_older (d := d) (t := t) (e := e) (hs.trans_lt hlt)
      have hzero : ∀ (state : SampleState) (duration : ℤ) (unused : Option ℤ),
          (({} : SampleTimers).add state duration unused).notUsefulOmpInLb = 0 ∧
            (({} : SampleTimers).add state duration unused).notUsefulOmpInSched = 0 := by
        intro state duration unused
        cases state <;> exact ⟨rfl, rfl⟩
      unfold Sample.shared
      rw [hgen', if_neg (lt_irrefl _), if_pos hlt, htimers, (hzero _ _ _).1, (hzero _ _ _).2]
      rfl
    · rw [shared_updatedSample (hs.trans heq), Sample.shared, Sample.shared, hs, hlb, hsched]
  have hfixed := hbegun
    { (if 0 < index then fixLastUpdatedTs sample else sample) with
      timers := { (if 0 < index then fixLastUpdatedTs sample else sample).timers with notUsefulOmpIn := 0 } }
    (by split <;> rfl) (by split <;> rfl) (by split <;> rfl)
  exact hfixed

omit [DecidableEq τ] in
theorem beginTask (h : Timely d.currentGenerationTs clock exact share isMain stack sample) (hclock : clock ≤ e.now)
    (hgeneration : d.currentGenerationTs ≤ clock) {frame : TaskFrame π} (hphase : frame.phase = .running false)
    (hsaved : 0 ≤ frame.saved)
    (hframe : if frame.index = 0 then
        (stack ≠ [] ∨ isMain) ∧ held (frame :: stack) = some (sample.pending (held stack))
      else ¬ isMain ∧ stack = [] ∧ frame.saved = 0) :
    Timely d.currentGenerationTs e.now exact share isMain (frame :: stack)
      (d.begunSample t e frame.index sample) where
  ended := (TalpInfo.begunSample_lastParallelEndTs d t e _ sample).trans_le (h.ended.trans hclock)
  saved := forall_mem_cons.mpr ⟨hsaved, h.saved⟩
  idle := fun hnil => absurd hnil (cons_ne_nil _ _)
  busy := fun _ => by
    by_cases h0 : frame.index = 0
    · rw [if_pos h0] at hframe
      rw [hframe.2, h0]
      exact (h.busy hframe.1).begin hclock
    · rw [if_neg h0] at hframe
      obtain ⟨hmain, rfl, hzero⟩ := hframe
      have hbusy := (h.idle rfl hmain).begin (t := t) hclock h.ended hgeneration (Nat.pos_of_ne_zero h0)
      rw [held, hzero]
      exact hbusy
  isOver := by
    rintro _ ⟨⟩ hover
    rw [hphase] at hover
    rcases hover with hover | hover <;> cases hover

end Events

end Timely

end Timely

/-! ## All threads -/

namespace ForkJoinState

variable {τ ρ π : Type*}

/-- The time of every thread, the regions that are open, and where the primary threads are. Where the time is exact,
nothing of the current generation has been lost. -/
structure OnTime (main : τ) (exact : Prop) (s : ForkJoinState τ ρ π) : Prop where
  teams : s.Teams
  main_mem : main ∈ s.talp.threads
  nodup : s.talp.threads.Nodup
  openNodup : s.talp.openRegions.Nodup
  started : ∀ r, (s.talp.monitors r).data.started = true ↔ r ∈ s.talp.openRegions
  since : ∀ r ∈ s.talp.openRegions, (s.talp.monitors r).startTime ≤ s.talp.currentGenerationTs
  generation : 0 ≤ s.talp.currentGenerationTs
  outside : ∀ u, u ∉ s.talp.threads → s.talp.samples u = none ∧ (s.talp.role u).isProfiled = false ∧
    s.stack u = [] ∧ s.ledger.share u = 0
  sequential : s.IsSequential → s.talp.role main = .mainSequential ∧
    ∀ u sample, s.talp.samples u = some sample → sample.lastParallelEndTs ≤ s.talp.lastUpdatedTs main
  openmp : ∀ p, s.parallels p ≠ none → s.talp.flags.haveOpenmp = true
  primary : ∀ u, ∀ frame ∈ s.stack u, if frame.index = 0 then frame.level = 1 → u = main else u ≠ main
  forked : ∀ u, ∀ frame ∈ (s.stack u).tail, ∃ inBarrier, frame.phase = .forked inBarrier
  thread : ∀ u ∈ s.talp.threads, ∃ sample, s.talp.samples u = some sample ∧
    Timely s.talp.currentGenerationTs s.clock exact (s.ledger.share u) (u = main) (s.stack u) sample
  shares : (s.talp.threads.map s.ledger.share).sum = (s.talp.threads.map s.talp.shared).sum

variable {main : τ} {exact exact' : Prop} {s : ForkJoinState τ ρ π}

namespace OnTime

theorem weaken (h : OnTime main exact s) (hexact : exact' → exact) : OnTime main exact' s :=
  { h with
    thread := fun u hu => by
      obtain ⟨sample, hs, ht⟩ := h.thread u hu
      exact ⟨sample, hs, ht.weaken le_rfl hexact⟩ }

theorem tick (h : OnTime main exact s) {clock : ℤ} (hclock : s.clock ≤ clock) :
    OnTime main exact { s with clock := clock } :=
  { h with
    teams := { h.teams with }
    thread := fun u hu => by
      obtain ⟨sample, hs, ht⟩ := h.thread u hu
      exact ⟨sample, hs, ht.weaken hclock id⟩ }

theorem main_sample (h : OnTime main exact s) : ∃ sample, s.talp.samples main = some sample ∧
    s.talp.lastUpdatedTs main = sample.lastUpdatedTs ∧ s.talp.currentGenerationTs ≤ sample.lastUpdatedTs ∧
    Busy s.talp.currentGenerationTs s.clock exact (s.ledger.share main) (held (s.stack main)) sample := by
  obtain ⟨sample, hs, ht⟩ := h.thread main h.main_mem
  refine ⟨sample, hs, ?_, ht.generation_le (Or.inr rfl), ht.busy (Or.inr rfl)⟩
  rw [TalpInfo.lastUpdatedTs, hs]
  rfl

theorem mem_threads (h : OnTime main exact s) {u : τ} (hu : s.stack u ≠ []) : u ∈ s.talp.threads := by
  by_contra hno
  exact hu (h.outside u hno).2.2.1

variable [DecidableEq τ]

theorem thread_step (h : OnTime main exact s) {t : τ} {old new : Sample} {role : τ → ThreadRole}
    {parallels : π → Option (ActiveParallel τ)} {stack : List (TaskFrame π)} {l1 : TalpParallelData τ} {clock : ℤ}
    (hold : s.talp.samples t = some old)
    (hclock : s.clock ≤ clock)
    (hteams : Teams { s with
      talp := { s.talp.setSample t new with role := role }
      talpParallelDataL1 := l1, parallels := parallels, stack := Function.update s.stack t stack, clock := clock })
    (hrole : ∀ u, u ≠ main → role u = s.talp.role u)
    (hsequential : (∀ p, parallels p = none) → s.IsSequential ∧ role main = s.talp.role main)
    (hopenmp : ∀ p, parallels p ≠ none → s.talp.flags.haveOpenmp = true)
    (hprimary : ∀ frame ∈ stack, if frame.index = 0 then frame.level = 1 → t = main else t ≠ main)
    (hforked : ∀ frame ∈ stack.tail, ∃ inBarrier, frame.phase = .forked inBarrier)
    (hended : new.lastParallelEndTs = old.lastParallelEndTs) (hlast : old.lastUpdatedTs ≤ new.lastUpdatedTs)
    (hshared : new.shared s.talp.currentGenerationTs = old.shared s.talp.currentGenerationTs)
    (htimely : Timely s.talp.currentGenerationTs clock exact (s.ledger.share t) (t = main) stack new) :
    OnTime main exact { s with
      talp := { s.talp.setSample t new with role := role }
      talpParallelDataL1 := l1, parallels := parallels, stack := Function.update s.stack t stack, clock := clock } := by
  have ht : t ∈ s.talp.threads := by
    by_contra hno
    rw [(h.outside t hno).1] at hold
    cases hold
  have hself : ∀ {u : τ}, u ∉ s.talp.threads → u ≠ t := fun hu heq => hu (heq ▸ ht)
  refine
    { teams := hteams
      main_mem := h.main_mem
      nodup := h.nodup
      openNodup := h.openNodup
      started := h.started
      since := h.since
      generation := h.generation
      outside := fun u hu => ?_
      sequential := fun hs => ?_
      openmp := hopenmp
      primary := fun u frame hframe => ?_
      forked := fun u frame hframe => ?_
      thread := fun u hu => ?_
      shares := ?_ }
  · obtain ⟨hsample, hprof, hstack, hshare⟩ := h.outside u hu
    have hmain : u ≠ main := fun heq => hu (heq ▸ h.main_mem)
    exact ⟨(Function.update_of_ne (hself hu) _ _).trans hsample, by dsimp only; rwa [hrole u hmain],
      (Function.update_of_ne (hself hu) _ _).trans hstack, hshare⟩
  · obtain ⟨hseq, hmain⟩ := hsequential hs
    obtain ⟨hrole', hends⟩ := h.sequential hseq
    refine ⟨hmain.trans hrole', fun u sample hsample => ?_⟩
    -- the last update of the main thread does not go back
    have hlater : s.talp.lastUpdatedTs main ≤ (s.talp.setSample t new).lastUpdatedTs main := by
      unfold TalpInfo.lastUpdatedTs TalpInfo.setSample
      dsimp only
      by_cases heq : main = t
      · subst heq
        rw [Function.update_self, hold]
        exact hlast
      · rw [Function.update_of_ne heq]
    refine le_trans ?_ hlater
    have hsample' : Function.update s.talp.samples t (some new) u = some sample := hsample
    by_cases hu : u = t
    · subst hu
      rw [Function.update_self] at hsample'
      cases hsample'
      rw [hended]
      exact hends u old hold
    · rw [Function.update_of_ne hu] at hsample'
      exact hends u sample hsample'
  · dsimp only at hframe
    by_cases hu : u = t
    · subst hu
      rw [Function.update_self] at hframe
      exact hprimary frame hframe
    · rw [Function.update_of_ne hu] at hframe
      exact h.primary u frame hframe
  · dsimp only at hframe
    by_cases hu : u = t
    · subst hu
      rw [Function.update_self] at hframe
      exact hforked frame hframe
    · rw [Function.update_of_ne hu] at hframe
      exact h.forked u frame hframe
  · dsimp only [TalpInfo.setSample]
    by_cases heq : u = t
    · subst heq
      rw [Function.update_self, Function.update_self]
      exact ⟨new, rfl, htimely⟩
    · rw [Function.update_of_ne heq, Function.update_of_ne heq]
      obtain ⟨sample, hsample, htime⟩ := h.thread u hu
      exact ⟨sample, hsample, htime.weaken hclock id⟩
  · refine h.shares.trans (congrArg sum (map_congr_left fun u hu => ?_))
    unfold TalpInfo.shared TalpInfo.setSample
    dsimp only
    by_cases heq : u = t
    · subst heq
      rw [Function.update_self, hold]
      exact hshared.symm
    · rw [Function.update_of_ne heq]

theorem sample_step (h : OnTime main exact s) {t : τ} {old new : Sample} {clock : ℤ} (hold : s.talp.samples t = some old)
    (hclock : s.clock ≤ clock) (hended : new.lastParallelEndTs = old.lastParallelEndTs)
    (hlast : old.lastUpdatedTs ≤ new.lastUpdatedTs)
    (hshared : new.shared s.talp.currentGenerationTs = old.shared s.talp.currentGenerationTs)
    (htimely : Timely s.talp.currentGenerationTs clock exact (s.ledger.share t) (t = main) (s.stack t) new) :
    OnTime main exact { s with talp := s.talp.setSample t new, clock := clock } := by
  have hstack : Function.update s.stack t (s.stack t) = s.stack := Function.update_eq_self _ _
  have hstep : OnTime main exact { s with
      talp := { s.talp.setSample t new with role := s.talp.role }
      talpParallelDataL1 := s.talpParallelDataL1
      parallels := s.parallels
      stack := Function.update s.stack t (s.stack t)
      clock := clock } :=
    h.thread_step hold hclock (by rw [hstack]; exact { h.teams with }) (fun _ _ => rfl) (fun hp => ⟨hp, rfl⟩) h.openmp
      (h.primary t) (fun frame hframe => h.forked t frame hframe) hended hlast hshared htimely
  rw [hstack] at hstep
  exact hstep

end OnTime

end ForkJoinState

end Dlb.Talp

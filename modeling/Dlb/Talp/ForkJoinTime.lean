import Dlb.Talp.ParallelEnd

/-!
# Conservation of time in fork-join runs

The main thread in sequential code: an update and a change of its state (`OnTime.update`, `OnTime.change`), the
aggregation of all samples (`OnTime.flush`), and the starts, stops and resets of the regions, in the sample of every
thread and in the books of the regions.
-/

namespace Dlb.Talp

open List

section Targets

variable {τ ρ : Type*} [DecidableEq τ] [DecidableEq ρ] {d : TalpInfo τ ρ} {t : τ} {e : Readings}

theorem TalpInfo.regionStart_sequential (hrole : d.role t = .mainSequential) (arg : RegionArg ρ) :
    (d.regionStart t e arg).1 =
      match d.startTarget arg with
      | some r => (d.startSequential t e r).1
      | none => d := by
  unfold TalpInfo.regionStart
  rw [hrole, if_neg (by decide)]
  cases arg <;> rfl

theorem TalpInfo.regionStop_sequential (hrole : d.role t = .mainSequential) (arg : RegionArg ρ) :
    (d.regionStop t e arg).1 =
      match d.stopTarget arg with
      | some r => (d.stopSequential t e r).1
      | none => d := by
  unfold TalpInfo.regionStop
  rw [hrole, if_neg (by decide), if_neg (by decide)]
  cases arg with
  | global => rfl
  | region r => rfl
  | lastOpen =>
    unfold TalpInfo.stopTarget
    cases d.openRegions <;> rfl

end Targets

namespace ForkJoinState

variable {τ ρ π : Type*}

def book (s : ForkJoinState τ ρ π) : RegionBook τ ρ where
  threads := s.talp.threads
  monitors := s.talp.monitors
  openRegions := s.talp.openRegions
  generation := s.talp.currentGenerationTs
  account := s.ledger.account

variable [DecidableEq τ] {main : τ} {exact exact' : Prop} {s : ForkJoinState τ ρ π} {r : Readings}

namespace OnTime

/-! ## The main thread in sequential code -/

theorem setSample (h : OnTime main exact s) (hseq : s.IsSequential) {clock : ℤ} {old new : Sample}
    (hold : s.talp.samples main = some old) (hclock : s.clock ≤ clock)
    (hended : new.lastParallelEndTs = old.lastParallelEndTs) (hlast : old.lastUpdatedTs ≤ new.lastUpdatedTs)
    (hshared : new.shared s.talp.currentGenerationTs = old.shared s.talp.currentGenerationTs)
    (hbusy : Busy s.talp.currentGenerationTs clock exact (s.ledger.share main) none new) :
    OnTime main exact { s with talp := s.talp.setSample main new, clock := clock } := by
  have hnil := h.teams.stack_eq_nil hseq main
  obtain ⟨sample, hs, htime⟩ := h.thread main h.main_mem
  rw [hold] at hs
  cases hs
  refine h.sample_step hold hclock hended hlast hshared ?_
  rw [hnil]
  exact
    { ended := by rw [hended]; exact htime.ended.trans hclock
      saved := nofun
      idle := fun _ hmain => absurd rfl hmain
      busy := fun _ => hbusy
      isOver := nofun }

theorem update (h : OnTime main exact s) (hseq : s.IsSequential) (hclock : s.clock ≤ r.now) :
    OnTime main exact { s with talp := s.talp.talpSampleUpdate main r, clock := r.now } ∧
      (s.talp.talpSampleUpdate main r).lastUpdatedTs main = r.now ∧
      book { s with talp := s.talp.talpSampleUpdate main r, clock := r.now } = s.book := by
  obtain ⟨sample, hs, -, -, hbusy⟩ := h.main_sample
  rw [h.teams.stack_eq_nil hseq main] at hbusy
  rw [TalpInfo.talpSampleUpdate_eq hs]
  refine ⟨h.setSample hseq hs hclock (s.talp.updatedSample_lastParallelEndTs main r sample) ?_
    (Timely.shared_updatedSample hbusy.current) (hbusy.update hclock), ?_, rfl⟩
  · rw [s.talp.updatedSample_lastUpdatedTs]
    exact hbusy.before.trans hclock
  · rw [TalpInfo.lastUpdatedTs, TalpInfo.setSample_samples_self]
    exact s.talp.updatedSample_lastUpdatedTs main r sample

theorem change (h : OnTime main exact s) (hseq : s.IsSequential) (state : CodeState) :
    OnTime main exact { s with talp := s.talp.talpSampleSetState main r state.toSampleState } ∧
      book { s with talp := s.talp.talpSampleSetState main r state.toSampleState } = s.book := by
  obtain ⟨sample, hs, -, -, hbusy⟩ := h.main_sample
  rw [h.teams.stack_eq_nil hseq main] at hbusy
  rw [TalpInfo.talpSampleSetState_eq hs]
  have hstate := hbusy.setState state.toSampleState (by cases state <;> nofun)
    (fun _ => by cases state <;> nofun)
  exact ⟨h.setSample hseq hs le_rfl rfl le_rfl rfl hstate, rfl⟩

/-! ## The aggregation -/

theorem charge_eq (h : OnTime main exact s) (hseq : s.IsSequential) (hexact : exact) {u : τ}
    (hu : u ∈ s.talp.threads) :
    s.talp.charge main u + s.ledger.share u = s.talp.lastUpdatedTs main - s.talp.currentGenerationTs := by
  obtain ⟨sample, hs, htime⟩ := h.thread u hu
  rw [h.teams.stack_eq_nil hseq u] at htime
  unfold TalpInfo.charge
  rw [hs]
  dsimp only
  split
  · rename_i heq
    subst heq
    have heq := (htime.busy (Or.inr rfl)).eq hexact
    dsimp only [held, Sample.pending] at heq
    rw [TalpInfo.lastUpdatedTs, hs]
    dsimp only [Option.map_some, Option.getD_some]
    omega
  · rename_i hne
    exact (htime.idle rfl hne).charge_eq hexact

theorem share_eq_zero (h : OnTime main exact s) (hseq : s.IsSequential)
    (hzero : s.talp.lastUpdatedTs main = s.talp.currentGenerationTs) {u : τ} (hu : u ∈ s.talp.threads) :
    s.ledger.share u = 0 := by
  obtain ⟨sample, hs, htime⟩ := h.thread u hu
  have hown := htime.timers.own
  have hshare := htime.share_nonneg
  rw [h.teams.stack_eq_nil hseq u] at htime
  by_cases heq : u = main
  · subst heq
    have hle := (htime.busy (Or.inr rfl)).le
    rw [TalpInfo.lastUpdatedTs, hs] at hzero
    dsimp only [held, Sample.pending, Option.map_some, Option.getD_some] at hle hzero
    omega
  · have hend := (h.sequential hseq).2 u sample hs
    rcases (htime.idle rfl heq).time with ⟨-, -, hle, -⟩ | ⟨-, -, hzero'⟩
    · omega
    · exact hzero'

theorem shared_eq_zero (h : OnTime main exact s) (hseq : s.IsSequential)
    (hzero : s.talp.lastUpdatedTs main = s.talp.currentGenerationTs) {u : τ} (hu : u ∈ s.talp.threads) :
    s.talp.shared u = 0 := by
  have hnonneg : ∀ v ∈ s.talp.threads, 0 ≤ s.talp.shared v := by
    intro v hv
    obtain ⟨sample, hs, htime⟩ := h.thread v hv
    rw [TalpInfo.shared, hs]
    dsimp only [Option.map_some, Option.getD_some, Sample.shared]
    split
    · exact le_rfl
    · exact add_nonneg htime.timers.notUsefulOmpInLb htime.timers.notUsefulOmpInSched
  have hsum : (s.talp.threads.map s.talp.shared).sum = 0 := by
    rw [← h.shares]
    refine sum_eq_zero fun x hx => ?_
    obtain ⟨v, hv, rfl⟩ := mem_map.mp hx
    exact h.share_eq_zero hseq hzero hv
  refine le_antisymm ?_ (hnonneg u hu)
  rw [← hsum]
  refine single_le_sum (fun x hx => ?_) _ (mem_map_of_mem hu)
  obtain ⟨v, hv, rfl⟩ := mem_map.mp hx
  exact hnonneg v hv

variable [DecidableEq ρ]

theorem flush (h : OnTime main exact s) (exact' : Prop) (hseq : s.IsSequential) (hopen : s.talp.openRegions ≠ [] → exact)
    (hexact : exact' → exact ∨ s.talp.lastUpdatedTs main = s.clock) :
    OnTime main exact' { s with
      talp := (s.talp.talpAggregateSamplesToRegions main r).1
      ledger := s.ledger.flush main s.talp } ∧
    Collected s.book (book { s with
      talp := (s.talp.talpAggregateSamplesToRegions main r).1
      ledger := s.ledger.flush main s.talp }) ∧
    (s.talp.talpAggregateSamplesToRegions main r).1.lastUpdatedTs main = s.talp.lastUpdatedTs main ∧
    (s.talp.talpAggregateSamplesToRegions main r).1.currentGenerationTs = s.talp.lastUpdatedTs main ∧
    (∀ r', ((s.talp.talpAggregateSamplesToRegions main r).1.monitors r').data.enabled =
      (s.talp.monitors r').data.enabled) := by
  obtain ⟨sample, hs, hlast, hle, hbusy⟩ := h.main_sample
  rw [h.teams.stack_eq_nil hseq main] at hbusy
  obtain ⟨hrole, hends⟩ := h.sequential hseq
  have hprof : (s.talp.role main).isProfiled = true := by rw [hrole]; rfl
  obtain ⟨macrosample, htimers, heq⟩ := talpAggregateSamplesToRegions_eq r hprof hs h.openNodup
  rw [← hlast] at htimers heq
  have hlast' : (s.talp.talpAggregateSamplesToRegions main r).1.lastUpdatedTs main = s.talp.lastUpdatedTs main := by
    rw [heq, TalpInfo.lastUpdatedTs]
    dsimp only
    rw [Function.update_self, hlast]
    rfl
  have htotal := macrosample_total hs hbusy.current.ge
  rw [← htimers, sum_map_add, ← h.shares, ← sum_map_add] at htotal
  have hnonneg : macrosample.timers.Nonneg := by
    rw [htimers]
    refine macrosample_nonneg (hle.trans hlast.ge) fun u other hother => ⟨?_, hends u other hother⟩
    have hu : u ∈ s.talp.threads := by
      by_contra hno
      rw [(h.outside u hno).1] at hother
      cases hother
    obtain ⟨other', hother', htime⟩ := h.thread u hu
    rw [hother] at hother'
    cases hother'
    exact htime.timers
  refine ⟨?_, ?_, hlast', by rw [heq], fun r' => by rw [heq]; dsimp only; split <;> rfl⟩
  · rw [heq]
    refine
      { teams := { h.teams with }
        main_mem := h.main_mem
        nodup := h.nodup
        openNodup := h.openNodup
        started := fun r' => ?_
        since := fun r' hr' => ?_
        generation := (h.generation.trans hle).trans hlast.ge
        outside := fun u hu => ?_
        sequential := fun _ => ⟨hrole, fun u other hother => ?_⟩
        openmp := h.openmp
        primary := h.primary
        forked := h.forked
        thread := fun u hu => ?_
        shares := ?_ }
    · refine Iff.trans ?_ (h.started r')
      dsimp only
      split <;> exact Iff.rfl
    · dsimp only at hr' ⊢
      rw [if_pos hr']
      exact (h.since r' hr').trans (hle.trans hlast.ge)
    · obtain ⟨hsample, hprof', hnil, -⟩ := h.outside u hu
      have hne : u ≠ main := fun heq' : u = main => hu (heq' ▸ h.main_mem)
      exact ⟨(Function.update_of_ne hne _ _).trans hsample, hprof', hnil, rfl⟩
    · rw [heq] at hlast'
      refine le_trans ?_ hlast'.ge
      dsimp only at hother
      by_cases hu : u = main
      · subst hu
        rw [Function.update_self] at hother
        cases hother
        exact hends u sample hs
      · rw [Function.update_of_ne hu] at hother
        exact hends u other hother
    · obtain ⟨other, hother, htime⟩ := h.thread u hu
      dsimp only
      rw [h.teams.stack_eq_nil hseq u] at htime ⊢
      by_cases heq' : u = main
      · subst heq'
        rw [hs] at hother
        cases hother
        rw [Function.update_self]
        refine ⟨_, rfl,
          { ended := htime.ended
            saved := by intros; contradiction
            idle := fun _ hno => absurd rfl hno
            busy := fun _ => ?_
            isOver := by intros; contradiction }⟩
        have hflush := (hbusy.flush r.cpuid).weaken le_rfl (fun _ : exact' => trivial)
        rw [← hlast] at hflush
        exact hflush
      · rw [Function.update_of_ne heq']
        refine ⟨other, hother,
          { ended := htime.ended
            saved := by intros; contradiction
            idle := fun _ _ => ?_
            busy := fun hb => hb.elim (fun hne => absurd rfl hne) fun hm => absurd hm heq'
            isOver := by intros; contradiction }⟩
        exact (htime.idle rfl heq').flush (hle.trans hlast.ge) (hends u other hother) hexact
    · -- neither are there shares, nor is there load imbalance in the new generation
      have hshared : ∀ u ∈ s.talp.threads, TalpInfo.shared { s.talp with
          currentGenerationTs := s.talp.lastUpdatedTs main
          samples := Function.update s.talp.samples main
            (some { resetSample sample r.cpuid with generationTs := s.talp.lastUpdatedTs main })
          monitors := fun r' =>
            if r' ∈ s.talp.openRegions then TalpInfo.updateRegion s.talp.flags.haveOpenmp macrosample (s.talp.monitors r')
            else s.talp.monitors r' } u = 0 := by
        intro u hu
        unfold TalpInfo.shared
        dsimp only
        by_cases heq' : u = main
        · subst heq'
          rw [Function.update_self]
          dsimp only [Option.map_some, Option.getD_some, Sample.shared]
          rw [if_neg (lt_irrefl _)]
          rfl
        · rw [Function.update_of_ne heq']
          by_cases hsame : s.talp.lastUpdatedTs main = s.talp.currentGenerationTs
          · rw [hsame]
            exact h.shared_eq_zero hseq hsame hu
          · obtain ⟨other, hother, htime⟩ := h.thread u hu
            rw [h.teams.stack_eq_nil hseq u] at htime
            have hgen : other.generationTs ≤ s.talp.currentGenerationTs := by
              rcases (htime.idle rfl heq').time with ⟨hgen, -⟩ | ⟨hgen, -⟩
              · exact hgen.le
              · exact hgen.le
            rw [hother]
            dsimp only [Option.map_some, Option.getD_some, Sample.shared]
            rw [if_pos (by omega)]
      dsimp only [TimeLedger.flush]
      rw [map_congr_left hshared]
  · rw [heq]
    refine
      { threads := rfl
        openRegions := rfl
        given := ⟨fun u => s.talp.charge main u + s.ledger.share u, fun u r' => ?_, fun r' hr' => ?_,
          fun hne u hu => h.charge_eq hseq (hopen hne) hu⟩
        closed := fun r' hr' => if_neg hr'
        elapsedTime := fun r' => ?_
        startTime := fun r' => ?_
        nonneg := fun r' hr' => ?_ }
    · change (if r' ∈ s.talp.openRegions then s.ledger.account u r' + (s.talp.charge main u + s.ledger.share u)
        else s.ledger.account u r') =
        s.ledger.account u r' + if r' ∈ s.talp.openRegions then s.talp.charge main u + s.ledger.share u else 0
      by_cases hr' : r' ∈ s.talp.openRegions
      · rw [if_pos hr', if_pos hr']
      · rw [if_neg hr', if_neg hr', add_zero]
    · dsimp only [book] at hr' ⊢
      rw [if_pos hr', updateRegion_threadTime, htotal]
    · dsimp only [book]
      split <;> rfl
    · dsimp only [book]
      split <;> rfl
    · dsimp only [book] at hr' ⊢
      split
      · exact updateRegion_nonneg _ hr' hnonneg
      · exact hr'

/-! ## Starts, stops and resets -/

omit [DecidableEq τ] in
theorem setMonitor (h : OnTime main exact s) {r' : ρ} {m : Monitor} {openRegions : List ρ} (hnodup : openRegions.Nodup)
    (hothers : ∀ r1, r1 ≠ r' → (r1 ∈ openRegions ↔ r1 ∈ s.talp.openRegions))
    (hstarted : m.data.started = true ↔ r' ∈ openRegions)
    (hsince : r' ∈ openRegions → m.startTime ≤ s.talp.currentGenerationTs) :
    OnTime main exact { s with
      talp := { s.talp with
        monitors := Function.update s.talp.monitors r' m
        openRegions := openRegions } } :=
  { h with
    teams := { h.teams with }
    openNodup := hnodup
    started := fun r1 => by
      dsimp only
      by_cases heq : r1 = r'
      · subst heq
        rwa [Function.update_self]
      · rw [Function.update_of_ne heq, h.started, hothers r1 heq]
    since := fun r1 hr1 => by
      dsimp only at hr1 ⊢
      by_cases heq : r1 = r'
      · subst heq
        rw [Function.update_self]
        exact hsince hr1
      · rw [Function.update_of_ne heq]
        exact h.since r1 ((hothers r1 heq).mp hr1) }

omit [DecidableEq τ] in
theorem push (h : OnTime main exact s) {now : ℤ} (hnow : s.talp.currentGenerationTs = now) {r' : ρ}
    (hr : r' ∉ s.talp.openRegions) :
    OnTime main exact { s with
      talp := { s.talp.modifyMonitor r' fun m =>
          { m with startTime := now, stopTime := 0, data := { m.data with started := true } } with
        openRegions := r' :: s.talp.openRegions } } :=
  h.setMonitor (nodup_cons.mpr ⟨hr, h.openNodup⟩) (fun r1 heq => by simp [heq])
    (iff_of_true rfl mem_cons_self) fun _ => hnow.ge

omit [DecidableEq τ] in
theorem pop (h : OnTime main exact s) (now : ℤ) (r' : ρ) :
    OnTime main exact { s with
      talp := { s.talp.modifyMonitor r' fun m =>
          { m with
            stopTime := now
            elapsedTime := m.elapsedTime + (now - m.startTime)
            numMeasurements := m.numMeasurements + 1
            data := { m.data with started := false } } with
        openRegions := s.talp.openRegions.erase r' } } :=
  h.setMonitor (h.openNodup.erase r') (fun _ heq => mem_erase_of_ne heq)
    (iff_of_false Bool.false_ne_true h.openNodup.not_mem_erase) fun hmem => absurd hmem h.openNodup.not_mem_erase

omit [DecidableEq τ] in
theorem reset (h : OnTime main exact s) (monitor : Option ρ) :
    OnTime main exact { s with
      talp := (s.talp.regionReset monitor).1, ledger := s.ledger.reset (monitor.getD s.talp.monitor) } ∧
    ∃ numResets data, book { s with
      talp := (s.talp.regionReset monitor).1, ledger := s.ledger.reset (monitor.getD s.talp.monitor) } =
        s.book.reset (monitor.getD s.talp.monitor) numResets data := by
  obtain ⟨numResets, data, hstarted, -, heq⟩ := regionReset_eq monitor (h.started _)
  rw [heq]
  generalize monitor.getD s.talp.monitor = r' at *
  refine ⟨?_, numResets, data, rfl⟩
  have hregion : OnTime main exact { s with
      talp := { s.talp with
        monitors := Function.update s.talp.monitors r' { numResets := numResets, data := data }
        openRegions := s.talp.openRegions.erase r' } } :=
    h.setMonitor (h.openNodup.erase r') (fun _ heq => mem_erase_of_ne heq)
      (iff_of_false (by rw [hstarted]; exact Bool.false_ne_true) h.openNodup.not_mem_erase)
      fun hmem => absurd hmem h.openNodup.not_mem_erase
  exact { hregion with teams := { hregion.teams with } }

theorem updateFlush (h : OnTime main (s.talp.openRegions ≠ []) s) (hseq : s.IsSequential) (hclock : s.clock ≤ r.now) :
    OnTime main True { s with
      talp := ((s.talp.talpSampleUpdate main r).talpAggregateSamplesToRegions main r).1
      ledger := s.ledger.flush main (s.talp.talpSampleUpdate main r)
      clock := r.now } ∧
    Collected s.book (book { s with
      talp := ((s.talp.talpSampleUpdate main r).talpAggregateSamplesToRegions main r).1
      ledger := s.ledger.flush main (s.talp.talpSampleUpdate main r)
      clock := r.now }) ∧
    ((s.talp.talpSampleUpdate main r).talpAggregateSamplesToRegions main r).1.lastUpdatedTs main =
      ((s.talp.talpSampleUpdate main r).talpAggregateSamplesToRegions main r).1.currentGenerationTs := by
  obtain ⟨hupdate, hnow, hbook⟩ := h.update hseq hclock
  obtain ⟨hflush, hcollected, hlast, hgen, -⟩ := hupdate.flush (r := r) True hseq
    (fun hne => (congrArg RegionBook.openRegions hbook).symm.trans_ne hne) (fun _ => Or.inr hnow)
  rw [hbook] at hcollected
  exact ⟨hflush, hcollected, hlast.trans hgen.symm⟩

theorem startSequential (h : OnTime main (s.talp.openRegions ≠ []) s) (hseq : s.IsSequential)
    (hclock : s.clock ≤ r.now) (r' : ρ) :
    OnTime main ((s.talp.startSequential main r r').1.openRegions ≠ []) { s with
      talp := (s.talp.startSequential main r r').1
      ledger := if ¬ (s.talp.monitors r').data.started ∧ (s.talp.monitors r').data.enabled then
        s.ledger.flush main (s.talp.talpSampleUpdate main r) else s.ledger
      clock := r.now } ∧
    BookStep s.book [] (book { s with
      talp := (s.talp.startSequential main r r').1
      ledger := if ¬ (s.talp.monitors r').data.started ∧ (s.talp.monitors r').data.enabled then
        s.ledger.flush main (s.talp.talpSampleUpdate main r) else s.ledger
      clock := r.now }) := by
  unfold TalpInfo.startSequential
  split
  · rename_i hcond
    obtain ⟨hflush, hcollected, hlast⟩ := h.updateFlush hseq hclock
    have hr : r' ∉ s.talp.openRegions := fun hmem => hcond.1 ((h.started r').mpr hmem)
    have hr' := hr
    rw [← show (book _).openRegions = s.talp.openRegions from hcollected.openRegions] at hr'
    dsimp only
    rw [hlast]
    exact ⟨(hflush.push rfl hr').weaken fun _ => trivial, BookStep.start hcollected r' hr⟩
  · exact ⟨h.tick hclock, BookStep.keep⟩

theorem stopSequential (h : OnTime main (s.talp.openRegions ≠ []) s) (hseq : s.IsSequential)
    (hclock : s.clock ≤ r.now) (r' : ρ) :
    OnTime main ((s.talp.stopSequential main r r').1.openRegions ≠ []) { s with
      talp := (s.talp.stopSequential main r r').1
      ledger := if (s.talp.monitors r').data.started then
        s.ledger.flush main (s.talp.talpSampleUpdate main r) else s.ledger
      clock := r.now } ∧
    Stopped s.book (book { s with
      talp := (s.talp.stopSequential main r r').1
      ledger := if (s.talp.monitors r').data.started then
        s.ledger.flush main (s.talp.talpSampleUpdate main r) else s.ledger
      clock := r.now }) := by
  unfold TalpInfo.stopSequential
  split
  · rename_i hstarted
    obtain ⟨hflush, hcollected, hlast⟩ := h.updateFlush hseq hclock
    dsimp only
    rw [hlast]
    exact ⟨(hflush.pop _ r').weaken fun _ => trivial, Or.inr ⟨_, r', hcollected, (h.started r').mp hstarted, rfl⟩⟩
  · exact ⟨h.tick hclock, Or.inl rfl⟩

end OnTime

end ForkJoinState

end Dlb.Talp

import Dlb.Talp.ForkJoin

/-!
# The time of one thread

Where the time of a thread is since the current generation began. A thread that executes code (`Busy`) has it in its own
sample, up to the last update. An idle worker (`Idle`) has it there, or in its share of what the primary threads have
written, up to the end of the last parallel that it was a member of; the rest is left to the aggregation, which
reconstructs it from the timestamps.

* `Busy.update`, `Busy.begin`, `Idle.begin`, `Busy.finish`, `Busy.finishPrimary`: the events of a thread;
* `Idle.charge_eq`: what the aggregation adds for an idle worker is all its time;
* `Busy.flush`, `Idle.flush`: the next generation.
-/

namespace Dlb.Talp

/-- No timer that the regions receive is negative. -/
structure SampleTimers.Nonneg (timers : SampleTimers) : Prop where
  useful : 0 ≤ timers.useful
  notUsefulMpi : 0 ≤ timers.notUsefulMpi
  notUsefulOmpIn : 0 ≤ timers.notUsefulOmpIn
  notUsefulOmpInLb : 0 ≤ timers.notUsefulOmpInLb
  notUsefulOmpInSched : 0 ≤ timers.notUsefulOmpInSched
  notUsefulOmpOut : 0 ≤ timers.notUsefulOmpOut
  notUsefulGpu : 0 ≤ timers.notUsefulGpu

theorem SampleTimers.nonneg_zero : ({} : SampleTimers).Nonneg := by constructor <;> exact le_rfl

theorem SampleTimers.Nonneg.add {timers : SampleTimers} (h : timers.Nonneg) (state : SampleState) {duration : ℤ}
    (hd : 0 ≤ duration) (unused : Option ℤ) : (timers.add state duration unused).Nonneg := by
  cases state with
  | disabled => exact h
  | useful => exact { h with useful := add_nonneg h.useful hd }
  | notUsefulMpi => exact { h with notUsefulMpi := add_nonneg h.notUsefulMpi hd }
  | notUsefulOmpIn => exact { h with notUsefulOmpIn := add_nonneg h.notUsefulOmpIn hd }
  | notUsefulOmpOut => exact { h with notUsefulOmpOut := add_nonneg h.notUsefulOmpOut hd }
  | notUsefulGpu => exact { h with notUsefulGpu := add_nonneg h.notUsefulGpu hd }

theorem SampleTimers.Nonneg.own {timers : SampleTimers} (h : timers.Nonneg) : 0 ≤ timers.own :=
  add_nonneg (add_nonneg (add_nonneg h.useful h.notUsefulMpi) h.notUsefulOmpOut) h.notUsefulGpu

theorem SampleTimers.own_add (timers : SampleTimers) {state : SampleState} (hstate : state ≠ .disabled) (duration : ℤ)
    (unused : Option ℤ) :
    (timers.add state duration unused).own =
        timers.own + (if state = .notUsefulOmpIn then 0 else duration) ∧
      (timers.add state duration unused).notUsefulOmpIn =
        timers.notUsefulOmpIn + if state = .notUsefulOmpIn then duration else 0 := by
  cases state with
  | disabled => exact absurd rfl hstate
  | useful | notUsefulMpi | notUsefulOmpIn | notUsefulOmpOut | notUsefulGpu =>
    constructor <;> simp only [SampleTimers.add, SampleTimers.own, reduceCtorEq, if_true, if_false] <;> omega

/-- The time that a thread has waited in its parallel and in the enclosing ones, of which `held` is saved; `none` for a
thread outside of parallels, whose timer is left from the last one. -/
def Sample.pending (sample : Sample) : Option ℤ → ℤ
  | none => 0
  | some saved => sample.timers.notUsefulOmpIn + saved

/-- The sample of a thread that executes code. Where the time is exact, nothing has been lost. -/
structure Busy (generation clock : ℤ) (exact : Prop) (share : ℤ) (held : Option ℤ) (sample : Sample) : Prop where
  current : sample.generationTs = generation
  before : sample.lastUpdatedTs ≤ clock
  timers : sample.timers.Nonneg
  share_nonneg : 0 ≤ share
  enabled : sample.state ≠ .disabled
  outside : held = none → sample.state ≠ .notUsefulOmpIn
  le : sample.timers.own + share + sample.pending held ≤ sample.lastUpdatedTs - generation
  eq : exact → sample.timers.own + share + sample.pending held = sample.lastUpdatedTs - generation

/-- The sample of an idle worker: it belongs to the current generation and counts up to the end of the last parallel,
or it belongs to an older one and does not count. -/
structure Idle (generation clock : ℤ) (exact : Prop) (share : ℤ) (sample : Sample) : Prop where
  state : sample.state = .notUsefulOmpIn ∨ sample.state = .notUsefulOmpOut
  before : sample.lastUpdatedTs ≤ clock
  timers : sample.timers.Nonneg
  share_nonneg : 0 ≤ share
  time : sample.generationTs = generation ∧ generation ≤ sample.lastParallelEndTs ∧
      sample.timers.own + share ≤ sample.lastParallelEndTs - generation ∧
      (exact → sample.timers.own + share = sample.lastParallelEndTs - generation ∧
        sample.lastUpdatedTs ≤ sample.lastParallelEndTs) ∨
    sample.generationTs < generation ∧ sample.lastParallelEndTs ≤ generation ∧ share = 0

section Events

variable {τ ρ : Type*} {d : TalpInfo τ ρ} {t : τ} {e : Readings} {sample : Sample}
variable {generation clock now : ℤ} {exact exact' : Prop} {share : ℤ} {held : Option ℤ} {data : OmptoolParallelData τ}

namespace Busy

theorem weaken (h : Busy generation clock exact share held sample) (hclock : clock ≤ now)
    (hexact : exact' → exact) : Busy generation now exact' share held sample :=
  { h with before := h.before.trans hclock, eq := fun h' => h.eq (hexact h') }

theorem setState (h : Busy generation clock exact share held sample) (state : SampleState)
    (henabled : state ≠ .disabled) (houtside : held = none → state ≠ .notUsefulOmpIn) :
    Busy generation clock exact share held { sample with state := state } :=
  { h with enabled := henabled, outside := houtside }

theorem update (h : Busy d.currentGenerationTs clock exact share held sample) (hclock : clock ≤ e.now) :
    Busy d.currentGenerationTs e.now exact share held (d.updatedSample t e sample) := by
  obtain ⟨htimers, hgen⟩ := d.updatedSample_current (t := t) (e := e) h.current.ge
  have hd : 0 ≤ e.now - sample.lastUpdatedTs := sub_nonneg.mpr (h.before.trans hclock)
  obtain ⟨hown, hin⟩ := sample.timers.own_add h.enabled (e.now - sample.lastUpdatedTs) (d.unusedCpus t)
  have hsum : (d.updatedSample t e sample).timers.own + share + (d.updatedSample t e sample).pending held =
      sample.timers.own + share + sample.pending held + (e.now - sample.lastUpdatedTs) := by
    rw [htimers, hown]
    cases held with
    | none =>
      rw [if_neg (h.outside rfl)]
      simp only [Sample.pending]
      omega
    | some saved =>
      simp only [Sample.pending, htimers, hin]
      split <;> omega
  refine
    { current := hgen.trans h.current
      before := (d.updatedSample_lastUpdatedTs t e sample).le
      timers := htimers ▸ h.timers.add _ hd _
      share_nonneg := h.share_nonneg
      enabled := by rw [d.updatedSample_state]; exact h.enabled
      outside := by rw [d.updatedSample_state]; exact h.outside
      le := ?_
      eq := fun hexact => ?_ }
  · have := h.le
    rw [hsum, d.updatedSample_lastUpdatedTs]
    omega
  · have := h.eq hexact
    rw [hsum, d.updatedSample_lastUpdatedTs]
    omega

theorem hold (h : Busy generation clock exact share held sample) :
    Busy generation clock exact share (some (sample.pending held))
      { sample with timers := { sample.timers with notUsefulOmpIn := 0 } } := by
  have hpending : Sample.pending { sample with timers := { sample.timers with notUsefulOmpIn := 0 } }
      (some (sample.pending held)) = sample.pending held := zero_add _
  refine { h with timers := { h.timers with notUsefulOmpIn := le_rfl }, outside := nofun, le := ?_, eq := ?_ }
  · rw [hpending]
    exact h.le
  · rw [hpending]
    exact h.eq

theorem begin (h : Busy d.currentGenerationTs clock exact share held sample) (hclock : clock ≤ e.now) :
    Busy d.currentGenerationTs e.now exact share (some (sample.pending held)) (d.begunSample t e 0 sample) := by
  have := (h.hold.update (t := t) hclock).setState .useful nofun nofun
  exact { this with }

theorem finish (h : Busy generation clock exact share (some 0) sample) (hclock : clock ≤ now)
    (hstate : sample.state = .notUsefulOmpIn ∨ sample.state = .notUsefulOmpOut) :
    0 ≤ sample.waited now ∧
      Idle generation now exact (share + sample.waited now)
        { sample with lastParallelEndTs := now } := by
  have hwaited : sample.waited now = sample.timers.notUsefulOmpIn + (now - sample.lastUpdatedTs) := rfl
  have hpending : sample.pending (some 0) = sample.timers.notUsefulOmpIn := add_zero _
  have hin := h.timers.notUsefulOmpIn
  have hbefore := h.before
  have hle := h.le
  have hown := h.timers.own
  have hshare := h.share_nonneg
  have hlow : generation ≤ now := by omega
  refine ⟨by omega,
    { state := hstate
      before := hbefore.trans hclock
      timers := h.timers
      share_nonneg := by omega
      time := Or.inl ⟨h.current, hlow, by dsimp only; omega, fun hexact => ⟨?_, hbefore.trans hclock⟩⟩ }⟩
  have heq := h.eq hexact
  dsimp only
  omega

theorem finishPrimary {saved : ℤ} (h : Busy generation now exact share (some saved) sample)
    (hlast : sample.lastUpdatedTs = now) {notUseful : ℤ × ℤ} (hnonneg : 0 ≤ notUseful.1 ∧ 0 ≤ notUseful.2)
    (hprevious : data.level = 1 ∨ 0 ≤ data.talpParallelData.previousNotUsefulOmpIn)
    (hheld : if data.level = 1 then held = none ∧ saved = 0
      else ∃ rest, held = some rest ∧ saved = data.talpParallelData.previousNotUsefulOmpIn + rest) :
    Busy generation now exact (share + sample.waited now) held
      (TalpInfo.endedSample data notUseful sample) := by
  have hwaited : sample.waited now = sample.timers.notUsefulOmpIn := by
    rw [Sample.waited, hlast]
    omega
  have hin := h.timers.notUsefulOmpIn
  have hpending : (TalpInfo.endedSample data notUseful sample).pending held = saved := by
    unfold TalpInfo.endedSample
    split at hheld
    · obtain ⟨rfl, rfl⟩ := hheld
      rfl
    · rename_i hlevel
      obtain ⟨rest, rfl, rfl⟩ := hheld
      dsimp only [Sample.pending]
      rw [if_neg hlevel]
  have hsum : (TalpInfo.endedSample data notUseful sample).timers.own + (share + sample.waited now) +
      (TalpInfo.endedSample data notUseful sample).pending held =
      sample.timers.own + share + sample.pending (some saved) := by
    rw [hpending, hwaited]
    simp only [TalpInfo.endedSample, addNotUsefulOmpIn, SampleTimers.own, Sample.pending]
    omega
  refine
    { current := h.current
      before := h.before
      timers :=
        { h.timers with
          notUsefulOmpInLb := add_nonneg h.timers.notUsefulOmpInLb hnonneg.1
          notUsefulOmpInSched := add_nonneg h.timers.notUsefulOmpInSched hnonneg.2
          notUsefulOmpIn := ?_ }
      share_nonneg := by have := h.share_nonneg; omega
      enabled := fun h => by cases h
      outside := fun _ h => by cases h
      le := ?_
      eq := ?_ }
  · dsimp only [TalpInfo.endedSample]
    split
    · exact hin
    · rename_i hlevel
      exact hprevious.resolve_left hlevel
  · rw [hsum]
    exact h.le
  · rw [hsum]
    exact h.eq

theorem flush (h : Busy generation clock exact share none sample) (cpuid : ℕ) :
    Busy sample.lastUpdatedTs clock True 0 none
      { resetSample sample cpuid with generationTs := sample.lastUpdatedTs } :=
  { current := rfl
    before := h.before
    timers := SampleTimers.nonneg_zero
    share_nonneg := le_rfl
    enabled := h.enabled
    outside := h.outside
    le := (sub_self _).ge
    eq := fun _ => (sub_self _).symm }

end Busy

namespace Idle

theorem weaken (h : Idle generation clock exact share sample) (hclock : clock ≤ now)
    (hexact : exact' → exact) : Idle generation now exact' share sample :=
  { h with
    before := h.before.trans hclock
    time := h.time.imp_left fun ⟨hgen, hend, hle, heq⟩ => ⟨hgen, hend, hle, fun h' => heq (hexact h')⟩ }

theorem begin (h : Idle d.currentGenerationTs clock exact share sample) (hclock : clock ≤ e.now)
    (hend : sample.lastParallelEndTs ≤ clock) (hgeneration : d.currentGenerationTs ≤ clock) {index : ℕ}
    (hindex : 0 < index) :
    Busy d.currentGenerationTs e.now exact share (some 0) (d.begunSample t e index sample) := by
  have hdisabled : sample.state ≠ .disabled := by
    rcases h.state with hs | hs <;> rw [hs] <;> nofun
  -- what the sample is before the update
  have hfix : (fixLastUpdatedTs sample).lastUpdatedTs = max sample.lastUpdatedTs sample.lastParallelEndTs := by
    rw [fixLastUpdatedTs, max_def]
    split <;> split <;> dsimp only <;> omega
  suffices hupdate : Busy d.currentGenerationTs e.now exact share (some 0)
      (d.updatedSample t e { fixLastUpdatedTs sample with timers := { sample.timers with notUsefulOmpIn := 0 } }) by
    have := hupdate.setState .useful nofun nofun
    unfold TalpInfo.begunSample
    rw [if_pos hindex]
    exact { this with }
  obtain ⟨hgen, hlow, hle, heq⟩ | ⟨hgen, hlow, hzero⟩ := h.time
  · -- a sample of the current generation is as one of a busy thread that has waited for nothing
    have hbusy : Busy d.currentGenerationTs clock exact share (some 0)
        { fixLastUpdatedTs sample with timers := { sample.timers with notUsefulOmpIn := 0 } } := by
      have hpending : Sample.pending { fixLastUpdatedTs sample with
          timers := { sample.timers with notUsefulOmpIn := 0 } } (some 0) = 0 := rfl
      refine
        { current := hgen
          before := hfix.trans_le (max_le h.before hend)
          timers := { h.timers with notUsefulOmpIn := le_rfl }
          share_nonneg := h.share_nonneg
          enabled := hdisabled
          outside := nofun
          le := ?_
          eq := fun hexact => ?_ }
      · rw [hpending]
        change sample.timers.own + share + 0 ≤ (fixLastUpdatedTs sample).lastUpdatedTs - d.currentGenerationTs
        omega
      · obtain ⟨hsum, hlast⟩ := heq hexact
        change sample.timers.own + share + 0 = (fixLastUpdatedTs sample).lastUpdatedTs - d.currentGenerationTs
        omega
    exact hbusy.update hclock
  · -- an older sample starts from the beginning of the generation
    have holder : ({ fixLastUpdatedTs sample with timers := { sample.timers with notUsefulOmpIn := 0 } } :
        Sample).generationTs < d.currentGenerationTs := hgen
    obtain ⟨htimers, hgen'⟩ := TalpInfo.updatedSample_older (d := d) (t := t) (e := e) holder
    have hd : 0 ≤ e.now - d.currentGenerationTs := by omega
    obtain ⟨hown, hin⟩ := ({} : SampleTimers).own_add hdisabled (e.now - d.currentGenerationTs) (d.unusedCpus t)
    have hzero' : ({} : SampleTimers).own = 0 := rfl
    have hin' : ({} : SampleTimers).notUsefulOmpIn = 0 := rfl
    have hsum : (d.updatedSample t e
        { fixLastUpdatedTs sample with timers := { sample.timers with notUsefulOmpIn := 0 } }).timers.own + share +
        (d.updatedSample t e
          { fixLastUpdatedTs sample with timers := { sample.timers with notUsefulOmpIn := 0 } }).pending (some 0) =
        e.now - d.currentGenerationTs := by
      rw [Sample.pending, htimers]
      change (({} : SampleTimers).add sample.state _ _).own + share +
        ((({} : SampleTimers).add sample.state _ _).notUsefulOmpIn + 0) = _
      rw [hown, hin, hzero, hzero', hin']
      split <;> omega
    exact
      { current := hgen'
        before := (d.updatedSample_lastUpdatedTs t e _).le
        timers := htimers ▸ SampleTimers.nonneg_zero.add _ hd _
        share_nonneg := h.share_nonneg
        enabled := by rw [d.updatedSample_state]; exact hdisabled
        outside := nofun
        le := by rw [hsum, d.updatedSample_lastUpdatedTs]
        eq := fun _ => by rw [hsum, d.updatedSample_lastUpdatedTs] }

theorem charge_eq (h : Idle generation clock exact share sample) (hexact : exact) :
    sample.charge generation now + share = now - generation := by
  rw [Sample.charge, if_pos h.state]
  obtain ⟨hgen, hlow, -, heq⟩ | ⟨hgen, hlow, hzero⟩ := h.time
  · obtain ⟨hsum, -⟩ := heq hexact
    omega
  · rw [if_pos hgen, min_eq_left (by omega)]
    omega

theorem flush (h : Idle generation clock exact share sample) (hnow : generation ≤ now)
    (hend : sample.lastParallelEndTs ≤ now) (hexact : exact' → exact ∨ now = clock) :
    Idle now clock exact' 0 sample := by
  refine { h with share_nonneg := le_rfl, time := ?_ }
  have hown := h.timers.own
  have hshare := h.share_nonneg
  have hbefore := h.before
  obtain ⟨hgen, hlow, hle, heq⟩ | ⟨hgen, hlow, hzero⟩ := h.time
  · by_cases hsame : now = generation
    · refine Or.inl ⟨hgen.trans hsame.symm, by omega, by omega, fun h' => ⟨by omega, ?_⟩⟩
      rcases hexact h' with h' | h'
      · exact (heq h').2
      · omega
    · exact Or.inr ⟨by omega, hend, rfl⟩
  · exact Or.inr ⟨by omega, hend, rfl⟩

end Idle

end Events

end Dlb.Talp

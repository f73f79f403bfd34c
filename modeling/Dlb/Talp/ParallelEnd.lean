import Dlb.Talp.ParallelTime

/-!
# The end of a parallel

At the end of a parallel all its members are in the implicit barrier (`Ends`). Its primary thread reads how long each of
them has waited (`Ends.sum_waited`) and writes it into its own sample, which keeps the invariant
(`OnTime.endParallel`).
-/

namespace Dlb.Talp.ForkJoinState

open List

variable {τ ρ π : Type*} {main t u : τ} {exact : Prop} {s : ForkJoinState τ ρ π} {frame : TaskFrame π}
  {rest : List (TaskFrame π)} {parallel : ActiveParallel τ}

/-- The primary thread of a parallel may end it. -/
structure Ends (s : ForkJoinState τ ρ π) (t : τ) (frame : TaskFrame π) (rest : List (TaskFrame π))
    (parallel : ActiveParallel τ) : Prop where
  stack : s.stack t = frame :: rest
  index : frame.index = 0
  active : s.parallels frame.parallel = some parallel
  allOver : AllOver s frame.parallel parallel.size

namespace Ends

/-! ## The members -/

theorem mem_stack (he : s.Ends t frame rest parallel) : frame ∈ s.stack t := he.stack ▸ mem_cons_self

theorem actualParallelism (he : s.Ends t frame rest parallel) (h : s.Teams) :
    parallel.data.actualParallelism = parallel.size := by
  obtain ⟨parallel', hp, -, -, -, -, hactual, -⟩ := h.linked t frame he.mem_stack
  rw [he.active] at hp
  cases hp
  exact hactual he.index

theorem mem_membersFrom (he : s.Ends t frame rest parallel) (h : s.Teams) (first : ℕ) :
    u ∈ parallel.data.membersFrom first ↔
      ∃ member more, s.stack u = member :: more ∧ member.parallel = frame.parallel ∧ first ≤ member.index :=
  h.mem_membersFrom he.active he.allOver (he.actualParallelism h)

theorem nodup_membersFrom (he : s.Ends t frame rest parallel) (h : s.Teams) (first : ℕ) :
    (parallel.data.membersFrom first).Nodup :=
  h.nodup_membersFrom he.active he.allOver (he.actualParallelism h) first

theorem index_ne_zero (he : s.Ends t frame rest parallel) (h : s.Teams) {member : TaskFrame π}
    {more : List (TaskFrame π)} (hstack : s.stack u = member :: more) (hpar : member.parallel = frame.parallel)
    (hu : u ≠ t) : member.index ≠ 0 := by
  intro h0
  obtain ⟨parallel', hp, -, -, -, hsample, -⟩ := h.linked u member (hstack ▸ mem_cons_self)
  obtain ⟨parallel'', hp', -, -, -, hsample', -⟩ := h.linked t frame he.mem_stack
  rw [hpar, he.active] at hp
  rw [he.active] at hp'
  cases hp
  cases hp'
  rw [h0] at hsample
  rw [he.index, hsample] at hsample'
  exact hu (Option.some.inj hsample')

theorem not_mem_membersFrom_one (he : s.Ends t frame rest parallel) (h : s.Teams) :
    t ∉ parallel.data.membersFrom 1 := by
  intro hmem
  obtain ⟨member, more, hstack, -, hle⟩ := (he.mem_membersFrom h 1).mp hmem
  have hindex := he.index
  rw [he.stack] at hstack
  cases hstack
  omega

theorem mem_members (he : s.Ends t frame rest parallel) (h : s.Teams) : t ∈ parallel.data.members :=
  (he.mem_membersFrom h 0).mpr ⟨frame, rest, he.stack, rfl, Nat.zero_le _⟩

theorem mem_members_iff (he : s.Ends t frame rest parallel) (h : s.Teams) (hu : u ≠ t) :
    u ∈ parallel.data.members ↔ u ∈ parallel.data.membersFrom 1 := by
  refine (he.mem_membersFrom h 0).trans (Iff.trans ?_ (he.mem_membersFrom h 1).symm)
  exact exists₂_congr fun member more => and_congr_right fun hstack => and_congr_right fun hpar =>
    iff_of_true (Nat.zero_le _) (Nat.pos_of_ne_zero (he.index_ne_zero h hstack hpar hu))

/-- A parallel of the first level is the only one of its thread, and an inner one has an enclosing one, for which its
primary thread has saved the waiting time. -/
theorem held_rest (he : s.Ends t frame rest parallel) (h : OnTime main exact s) :
    if parallel.data.level = 1 then t = main ∧ held rest = none ∧ frame.saved + (held rest).getD 0 = 0
    else rest ≠ [] ∧ 0 ≤ parallel.data.talpParallelData.previousNotUsefulOmpIn ∧ ∃ enclosing, held rest = some enclosing ∧
      frame.saved + (held rest).getD 0 = parallel.data.talpParallelData.previousNotUsefulOmpIn + enclosing := by
  obtain ⟨sample, -, htime⟩ := h.thread t (h.mem_threads (ne_nil_of_mem he.mem_stack))
  obtain ⟨parallel', hp, hone, hlevel, -, -, -, hsaved⟩ := h.teams.linked t frame he.mem_stack
  rw [he.active] at hp
  cases hp
  have hnested : frame.level = levelOf rest + 1 := by
    have := (he.stack ▸ h.teams.nested t : WellNested (frame :: rest)).1
    rwa [if_pos he.index] at this
  have hprimary := h.primary t frame he.mem_stack
  rw [if_pos he.index] at hprimary
  rw [hlevel]
  split
  · rename_i hlevel1
    have hnil : rest = [] := by
      rcases rest with - | ⟨next, more⟩
      · rfl
      · obtain ⟨-, -, hone', -⟩ := h.teams.linked t next (he.stack ▸ mem_cons_of_mem _ mem_cons_self)
        dsimp only [levelOf] at hnested
        omega
    subst hnil
    rw [hsaved, if_neg (by omega)]
    exact ⟨hprimary hlevel1, rfl, rfl⟩
  · rename_i hlevel1
    rcases rest with - | ⟨next, more⟩
    · dsimp only [levelOf] at hnested
      omega
    · rw [if_pos ⟨he.index, by omega⟩] at hsaved
      have hnonneg := htime.saved frame he.mem_stack
      rw [hsaved] at hnonneg ⊢
      exact ⟨cons_ne_nil _ _, hnonneg, _, rfl, rfl⟩

theorem level_eq_one (he : s.Ends t frame rest parallel) (h : OnTime main exact s)
    (hseq : ∀ q, q ≠ frame.parallel → s.parallels q = none) : parallel.data.level = 1 := by
  by_contra hlevel
  have hrest := he.held_rest h
  rw [if_neg hlevel] at hrest
  obtain ⟨next, more, rfl⟩ := exists_cons_of_ne_nil hrest.1
  obtain ⟨rest', hrest', -, hother⟩ := h.teams.ended he.active he.allOver he.mem_stack rfl
  rw [he.stack] at hrest'
  cases hrest'
  obtain ⟨outer, houter, -⟩ :=
    h.teams.linked t next (he.stack ▸ mem_cons_of_mem _ mem_cons_self)
  rw [hseq _ (hother next mem_cons_self)] at houter
  cases houter

/-! ## What they have waited -/

theorem finish (he : s.Ends t frame rest parallel) (h : OnTime main exact s) {now : ℤ} (hclock : s.clock ≤ now)
    (hu : u ≠ t) (hmem : u ∈ parallel.data.membersFrom 1) : ∃ worker, s.talp.samples u = some worker ∧ u ≠ main ∧
      (∃ member, s.stack u = [member] ∧ member.parallel = frame.parallel) ∧ 0 ≤ worker.waited now ∧
      Idle s.talp.currentGenerationTs now exact (s.ledger.share u + worker.waited now)
        { worker with lastParallelEndTs := now } := by
  obtain ⟨member, more, hmore, hpar, -⟩ := (he.mem_membersFrom h.teams 1).mp hmem
  have hmem' : member ∈ s.stack u := hmore ▸ mem_cons_self
  have hne := he.index_ne_zero h.teams hmore hpar hu
  obtain ⟨worker, hworker, htime⟩ := h.thread u (h.mem_threads (ne_nil_of_mem hmem'))
  obtain ⟨more', hmore', hphase, -⟩ := h.teams.ended he.active he.allOver hmem' hpar
  obtain rfl : more = [] := by
    have hnested := (hmore ▸ h.teams.nested u : WellNested (member :: more)).1
    rwa [if_neg hne] at hnested
  obtain ⟨_, -, -, -, -, -, -, hsaved⟩ := h.teams.linked u member hmem'
  rw [if_neg fun h' => hne h'.1] at hsaved
  have hprimary := h.primary u member hmem'
  rw [if_neg hne] at hprimary
  rw [hmore] at htime
  have hbusy := htime.busy (Or.inl (cons_ne_nil _ _))
  have hheld : held [member] = some 0 := by rw [held, hsaved]; rfl
  rw [hheld] at hbusy
  obtain ⟨hwaited, hidle⟩ := hbusy.finish hclock (htime.isOver member rfl hphase)
  exact ⟨worker, hworker, hprimary, ⟨member, hmore, hpar⟩, hwaited, hidle⟩

variable [DecidableEq τ] {r : Readings}

/-- What a member has waited, as the primary thread reads it after the update of its own sample. -/
def waited (s : ForkJoinState τ ρ π) (t : τ) (r : Readings) (u : τ) : ℤ :=
  (((s.talp.talpSampleUpdate t r).samples u).map (·.waited r.now)).getD 0

/-- What the primary thread computes: load imbalance and scheduling. -/
def notUseful (s : ForkJoinState τ ρ π) (t : τ) (r : Readings) (data : OmptoolParallelData τ) : ℤ × ℤ :=
  computeParallelNotUseful (data.members.filterMap (s.talp.talpSampleUpdate t r).samples) r.now

theorem waited_self {sample : Sample} (hs : s.talp.samples t = some sample) :
    waited s t r t = (s.talp.updatedSample t r sample).waited r.now := by
  rw [waited, TalpInfo.talpSampleUpdate_eq hs, TalpInfo.setSample_samples_self]
  rfl

theorem waited_of_ne {sample worker : Sample} (hs : s.talp.samples t = some sample) (hu : u ≠ t)
    (hw : s.talp.samples u = some worker) : waited s t r u = worker.waited r.now := by
  rw [waited, TalpInfo.talpSampleUpdate_eq hs, TalpInfo.setSample]
  dsimp only
  rw [Function.update_of_ne hu, hw]
  rfl

theorem sample_waited (he : s.Ends t frame rest parallel) (h : OnTime main exact s) (hclock : s.clock ≤ r.now)
    (hu : u ∈ parallel.data.members) : ∃ worker, (s.talp.talpSampleUpdate t r).samples u = some worker ∧
      0 ≤ worker.waited r.now := by
  obtain ⟨sample, hs, htime⟩ := h.thread t (h.mem_threads (ne_nil_of_mem he.mem_stack))
  rw [TalpInfo.talpSampleUpdate_eq hs]
  by_cases heq : u = t
  · subst heq
    refine ⟨_, TalpInfo.setSample_samples_self, ?_⟩
    have hbusy := (htime.busy (Or.inl (ne_nil_of_mem he.mem_stack))).update (t := u) (e := r) hclock
    rw [Sample.waited, TalpInfo.updatedSample_lastUpdatedTs]
    exact add_nonneg hbusy.timers.notUsefulOmpIn (sub_self _).ge
  · obtain ⟨worker, hw, -, -, hwaited, -⟩ := he.finish h hclock heq ((he.mem_members_iff h.teams heq).mp hu)
    exact ⟨worker, (Function.update_of_ne heq _ _).trans hw, hwaited⟩

theorem notUseful_nonneg (he : s.Ends t frame rest parallel) (h : OnTime main exact s) (hclock : s.clock ≤ r.now) :
    0 ≤ (notUseful s t r parallel.data).1 ∧ 0 ≤ (notUseful s t r parallel.data).2 := by
  refine TalpInfo.computeParallelNotUseful_nonneg fun worker hw => ?_
  obtain ⟨u, hu, hw⟩ := mem_filterMap.mp hw
  obtain ⟨worker', hw', hwaited⟩ := he.sample_waited h hclock hu
  rw [hw] at hw'
  cases hw'
  exact hwaited

theorem sum_waited (data : OmptoolParallelData τ) :
    (notUseful s t r data).1 + (notUseful s t r data).2 = (data.members.map (waited s t r)).sum := by
  rw [notUseful, TalpInfo.computeParallelNotUseful_add, Lib.sum_filterMap]
  rfl

theorem talp_eq (he : s.Ends t frame rest parallel) (h : OnTime main exact s) {sample : Sample}
    (hs : s.talp.samples t = some sample) :
    s.talp.talpOpenmpParallelEnd t r parallel.data =
      s.talp.endedParallel t r parallel.data sample (notUseful s t r parallel.data) :=
  TalpInfo.parallelEnd_eq (h.haveOpenmp he.mem_stack) hs (he.nodup_membersFrom h.teams 1)
    (he.not_mem_membersFrom_one h.teams)

/-! ## The threads after the end -/

theorem primaryTimely (he : s.Ends t frame rest parallel) (h : OnTime main exact s) (hclock : s.clock ≤ r.now)
    {sample : Sample} (hs : s.talp.samples t = some sample) :
    Timely s.talp.currentGenerationTs r.now exact (s.ledger.share t + waited s t r t) (t = main)
      (mapPhase TaskPhase.join rest)
      (TalpInfo.endedSample parallel.data (notUseful s t r parallel.data) (s.talp.updatedSample t r sample)) := by
  obtain ⟨sample', hs', htime⟩ := h.thread t (h.mem_threads (ne_nil_of_mem he.mem_stack))
  rw [hs] at hs'
  cases hs'
  have hrest := he.held_rest h
  have hforked := h.forked t
  have hsaved := htime.saved
  have hbusy := (htime.busy (Or.inl (ne_nil_of_mem he.mem_stack))).update (t := t) (e := r) hclock
  rw [he.stack] at hforked hsaved hbusy
  have hheld : if parallel.data.level = 1 then held rest = none ∧ frame.saved + (held rest).getD 0 = 0
      else ∃ enclosing, held rest = some enclosing ∧ frame.saved + (held rest).getD 0 =
        parallel.data.talpParallelData.previousNotUsefulOmpIn + enclosing := by
    split <;> rename_i hlevel <;> simp only [hlevel, if_true, if_false] at hrest
    · exact hrest.2
    · exact hrest.2.2
  have hprevious : parallel.data.level = 1 ∨ 0 ≤ parallel.data.talpParallelData.previousNotUsefulOmpIn := by
    by_cases hlevel : parallel.data.level = 1
    · exact Or.inl hlevel
    · rw [if_neg hlevel] at hrest
      exact Or.inr hrest.2.1
  have hbusy' := hbusy.finishPrimary (TalpInfo.updatedSample_lastUpdatedTs _ _ _ _) (he.notUseful_nonneg h hclock)
    hprevious hheld
  rw [waited_self hs]
  refine
    { ended := (TalpInfo.updatedSample_lastParallelEndTs s.talp t r sample).trans_le (htime.ended.trans hclock)
      saved := fun member hmem => ?_
      idle := fun hnil hmain => ?_
      busy := fun _ => ?_
      isOver := fun member hmem hphase => ?_ }
  · obtain ⟨phase, hmem'⟩ := mem_mapPhase hmem
    have := hsaved _ (mem_cons_of_mem _ hmem')
    exact this
  · rw [mapPhase_eq_nil] at hnil
    split at hrest
    · exact absurd hrest.1 hmain
    · exact absurd hnil hrest.1
  · rw [held_mapPhase]
    exact hbusy'
  · rcases rest with - | ⟨next, more⟩
    · cases hmem
    · obtain rfl := Option.some.inj hmem
      obtain ⟨inBarrier, hforked'⟩ := hforked next mem_cons_self
      rw [hforked'] at hphase
      rcases hphase with hphase | hphase <;> cases hphase

theorem shared_endedParallel (he : s.Ends t frame rest parallel) (h : OnTime main exact s) {sample : Sample}
    (hs : s.talp.samples t = some sample) (u : τ) :
    (s.talp.endedParallel t r parallel.data sample (notUseful s t r parallel.data)).shared u =
      s.talp.shared u +
        if u ∈ [t] then (notUseful s t r parallel.data).1 + (notUseful s t r parallel.data).2 else 0 := by
  unfold TalpInfo.shared TalpInfo.endedParallel
  dsimp only
  by_cases heq : u = t
  · subst heq
    obtain ⟨sample', hs', htime⟩ := h.thread u (h.mem_threads (ne_nil_of_mem he.mem_stack))
    rw [hs] at hs'
    cases hs'
    have hcurrent := (htime.busy (Or.inl (ne_nil_of_mem he.mem_stack))).current
    have hgen : (s.talp.updatedSample u r sample).generationTs = s.talp.currentGenerationTs :=
      (s.talp.updatedSample_current hcurrent.ge).2.trans hcurrent
    rw [if_pos rfl, if_pos (mem_singleton_self _), hs]
    dsimp only [Option.map_some, Option.getD_some]
    rw [← Timely.shared_updatedSample (t := u) (e := r) hcurrent]
    unfold Sample.shared TalpInfo.endedSample addNotUsefulOmpIn
    dsimp only
    omega
  · rw [if_neg heq, if_neg (fun hm : u ∈ [t] => heq (mem_singleton.mp hm)), add_zero]
    split
    · cases s.talp.samples u <;> rfl
    · rfl

end Ends

namespace OnTime

variable [DecidableEq τ] [DecidableEq π]

theorem endParallel (h : OnTime main exact s) (e : ForkJoinEvent τ ρ π) (he : s.Ends t frame rest parallel) :
    OnTime main exact { s.endParallel e t frame.parallel parallel with clock := s.now e } := by
  have hclock : s.clock ≤ s.now e := Int.le_add_of_nonneg_right (Int.natCast_nonneg _)
  have ht : t ∈ s.talp.threads := h.mem_threads (ne_nil_of_mem he.mem_stack)
  obtain ⟨sample, hs, htime⟩ := h.thread t ht
  have hteams := h.teams.endParallel (t := t) e he.active he.allOver
  unfold ForkJoinState.endParallel TimeLedger.shareOut at hteams ⊢
  rw [he.talp_eq h hs] at hteams ⊢
  refine
    { teams := { hteams with }
      main_mem := h.main_mem
      nodup := h.nodup
      openNodup := h.openNodup
      started := h.started
      since := h.since
      generation := h.generation
      outside := fun u hu => ?_
      sequential := fun hseq => ?_
      openmp := fun q _ => h.haveOpenmp he.mem_stack
      primary := fun u member hmem => ?_
      forked := fun u member hmem => ?_
      thread := fun u hu => ?_
      shares := ?_ }
  · -- a thread without a sample is in no parallel
    obtain ⟨hsample, hprof, hnil, hshare⟩ := h.outside u hu
    have hne : u ≠ t := fun heq => hu (heq ▸ ht)
    have hno : u ∉ parallel.data.membersFrom 1 := by
      rw [he.mem_membersFrom h.teams 1, hnil]
      rintro ⟨_, _, heq, -⟩
      cases heq
    unfold TalpInfo.endedParallel
    dsimp only
    rw [if_neg hne, if_neg hno, hnil, if_neg fun hmem => hno ((he.mem_members_iff h.teams hne).mp hmem), hshare]
    refine ⟨hsample, ?_, rfl, rfl⟩
    split
    · rwa [Function.update_of_ne hne]
    · exact hprof
  · have hlevel : parallel.data.level = 1 := he.level_eq_one h fun q hq => by
      have hnone := hseq q
      dsimp only at hnone
      rwa [Function.update_of_ne hq] at hnone
    have hrest := he.held_rest h
    rw [if_pos hlevel] at hrest
    obtain ⟨rfl, -⟩ := hrest
    have hlast : (s.talp.endedParallel t (s.readings e) parallel.data sample
        (Ends.notUseful s t (s.readings e) parallel.data)).lastUpdatedTs t = s.now e := by
      unfold TalpInfo.lastUpdatedTs TalpInfo.endedParallel
      dsimp only
      rw [if_pos rfl]
      exact TalpInfo.updatedSample_lastUpdatedTs _ _ _ _
    refine ⟨by unfold TalpInfo.endedParallel; dsimp only; rw [if_pos hlevel, Function.update_self],
      fun u other hother => le_trans ?_ hlast.ge⟩
    unfold TalpInfo.endedParallel at hother
    dsimp only at hother
    split at hother
    · cases hother
      refine (TalpInfo.updatedSample_lastParallelEndTs s.talp t (s.readings e) sample).trans_le ?_
      exact htime.ended.trans hclock
    · split at hother
      · obtain ⟨worker, -, rfl⟩ := Option.map_eq_some_iff.mp hother
        exact le_rfl
      · have hu : u ∈ s.talp.threads := by
          by_contra hno
          rw [(h.outside u hno).1] at hother
          cases hother
        obtain ⟨other', hother', htime'⟩ := h.thread u hu
        rw [hother] at hother'
        cases hother'
        exact htime'.ended.trans hclock
  · dsimp only at hmem
    split at hmem
    · cases hmem
    · rename_i top more hmore
      have hprimary := h.primary u
      rw [hmore] at hprimary
      obtain ⟨htop, hmore'⟩ := forall_mem_cons.mp hprimary
      split at hmem
      · obtain ⟨phase, hmem'⟩ := mem_mapPhase hmem
        have := hmore' _ hmem'
        exact this
      · exact hprimary member hmem
  · dsimp only at hmem
    split at hmem
    · cases hmem
    · rename_i top more hmore
      have hforked := h.forked u
      rw [hmore] at hforked
      split at hmem
      · rcases more with - | ⟨next, more⟩
        · cases hmem
        · exact hforked member (mem_cons_of_mem _ hmem)
      · exact hforked member hmem
  · change ∃ other, (s.talp.endedParallel _ _ _ _ _).samples u = some other ∧ Timely _ _ _
      (s.ledger.share u + if u ∈ parallel.data.members then Ends.waited s t (s.readings e) u else 0) _ _ other
    unfold TalpInfo.endedParallel
    dsimp only
    by_cases heq : u = t
    · subst heq
      rw [if_pos rfl, if_pos (he.mem_members h.teams), he.stack]
      refine ⟨_, rfl, ?_⟩
      dsimp only
      rw [if_pos rfl]
      exact he.primaryTimely (r := s.readings e) h hclock hs
    · rw [if_neg heq]
      by_cases hmem : u ∈ parallel.data.membersFrom 1
      · -- a worker is idle
        obtain ⟨worker, hw, hmain, ⟨member, hmore, hpar⟩, -, hidle⟩ := he.finish h hclock heq hmem
        rw [if_pos hmem, if_pos ((he.mem_members_iff h.teams heq).mpr hmem), Ends.waited_of_ne hs heq hw, hw, hmore]
        refine ⟨_, rfl, ?_⟩
        dsimp only
        rw [if_pos hpar]
        exact
          { ended := le_rfl
            saved := nofun
            idle := fun _ _ => hidle
            busy := fun hb => hb.elim (fun hne => absurd rfl hne) fun hm => absurd hm hmain
            isOver := nofun }
      · -- the other threads go on
        obtain ⟨other, hother, htime'⟩ := h.thread u hu
        rw [if_neg hmem, if_neg (fun hm => hmem ((he.mem_members_iff h.teams heq).mp hm)), add_zero]
        refine ⟨other, hother, ?_⟩
        rcases hmore : s.stack u with - | ⟨member, more⟩
        · rw [hmore] at htime'
          exact htime'.weaken hclock id
        · have hno : member.parallel ≠ frame.parallel := fun hpar =>
            hmem ((he.mem_members_iff h.teams heq).mp
              ((he.mem_membersFrom h.teams 0).mpr ⟨member, more, hmore, hpar, Nat.zero_le _⟩))
          rw [hmore] at htime'
          dsimp only
          rw [if_neg hno]
          exact htime'.weaken hclock id
  · -- what the members have waited is what the primary thread has written
    have hsub : parallel.data.members ⊆ s.talp.threads := by
      intro u hu
      obtain ⟨member, more, hmore, -⟩ := (he.mem_membersFrom h.teams 0).mp hu
      exact h.mem_threads (by rw [hmore]; exact cons_ne_nil _ _)
    have hnodup : parallel.data.members.Nodup := he.nodup_membersFrom h.teams 0
    calc (s.talp.threads.map fun u => s.ledger.share u +
          if u ∈ parallel.data.members then Ends.waited s t (s.readings e) u else 0).sum
        = (s.talp.threads.map s.talp.shared).sum + (parallel.data.members.map (Ends.waited s t (s.readings e))).sum := by
          rw [sum_map_add, Lib.sum_map_mem h.nodup hnodup hsub, h.shares]
      _ = (s.talp.threads.map fun u => s.talp.shared u + if u ∈ [t] then
            (Ends.notUseful s t (s.readings e) parallel.data).1 + (Ends.notUseful s t (s.readings e) parallel.data).2
          else 0).sum := by
          rw [sum_map_add, Lib.sum_map_mem h.nodup (nodup_singleton t) (by simpa using ht),
            ← Ends.sum_waited]
          simp
      _ = _ := congrArg sum
          (map_congr_left fun u _ => (he.shared_endedParallel h hs u).symm)

end OnTime

end Dlb.Talp.ForkJoinState

import Dlb.Talp.OnTime

/-!
# The time of a parallel

The invariant `OnTime` is kept by the events of the members of a parallel (`OnTime.task`, `OnTime.idleTaskEnd`), and by
the begin of a parallel and of its implicit tasks (`OnTime.beginParallel`, `OnTime.beginTask`).
-/

namespace Dlb.Talp.ForkJoinState

open List

variable {τ ρ π : Type*} [DecidableEq τ] [DecidableEq π] {main : τ} {exact exact' : Prop} {s : ForkJoinState τ ρ π}

namespace OnTime

/-! ## The events of a member -/

omit [DecidableEq τ] [DecidableEq π] in
theorem haveOpenmp (h : OnTime main exact s) {u : τ} {frame : TaskFrame π} (hframe : frame ∈ s.stack u) :
    s.talp.flags.haveOpenmp = true := by
  obtain ⟨parallel, hp, -⟩ := h.teams.linked u frame hframe
  exact h.openmp frame.parallel (by rw [hp]; exact Option.some_ne_none _)

omit [DecidableEq π] in
theorem task (h : OnTime main exact s) (e : ForkJoinEvent τ ρ π) {t : τ} {op : TaskOp} {frame : TaskFrame π}
    {rest : List (TaskFrame π)} (hstack : s.stack t = frame :: rest) (hallowed : op.Allowed frame.phase) :
    OnTime main exact { s with
      talp := op.exec s.talp t (s.readings e)
      stack := Function.update s.stack t (mapPhase op.next (s.stack t))
      clock := s.now e } := by
  have hclock : s.clock ≤ s.now e := Int.le_add_of_nonneg_right (Int.natCast_nonneg _)
  have hmem : frame ∈ s.stack t := hstack ▸ mem_cons_self
  obtain ⟨sample, hs, htime⟩ := h.thread t (h.mem_threads (ne_nil_of_mem hmem))
  rw [hstack] at htime
  obtain ⟨new, heq, hended, hlast, hshared, htimely⟩ :=
    htime.task (e := s.readings e) (h.haveOpenmp hmem) hs hclock hallowed
  obtain ⟨hlinked, hnested⟩ := h.teams.mapPhase t op.next
  rw [heq]
  rw [hstack] at hlinked hnested ⊢
  refine h.thread_step hs hclock ⟨hlinked, hnested, h.teams.leveled⟩ (fun _ _ => rfl) (fun hp => ⟨hp, rfl⟩) h.openmp
    ?_ ?_ hended hlast hshared htimely
  · have hprimary := h.primary t
    rw [hstack] at hprimary
    exact forall_mem_cons.mpr (forall_mem_cons.mp hprimary)
  · have hforked := h.forked t
    rw [hstack] at hforked
    exact hforked

omit [DecidableEq π] in
theorem idleTaskEnd (h : OnTime main exact s) (e : ForkJoinEvent τ ρ π) {t : τ} (ht : t ∈ s.talp.threads)
    (hmain : t ≠ main) (hstack : s.stack t = []) :
    OnTime main exact { s with
      talp := TaskOp.exec s.talp t (s.readings e) .implicitTaskEnd
      stack := Function.update s.stack t (mapPhase (TaskOp.next · .implicitTaskEnd) (s.stack t))
      clock := s.now e } := by
  have hclock : s.clock ≤ s.now e := Int.le_add_of_nonneg_right (Int.natCast_nonneg _)
  obtain ⟨sample, hs, htime⟩ := h.thread t ht
  have hstack' : Function.update s.stack t (mapPhase (TaskOp.next · .implicitTaskEnd) (s.stack t)) = s.stack := by
    rw [hstack]
    exact Function.update_eq_self_iff.mpr hstack.symm
  rw [hstack']
  change OnTime main exact { s with talp := s.talp.talpOpenmpOutofParallelFunction t (s.readings e), clock := s.now e }
  unfold TalpInfo.talpOpenmpOutofParallelFunction
  split
  · rw [TalpInfo.talpSampleSetState_eq hs]
    have hidle := (htime.idle hstack hmain).weaken hclock (id : exact → exact)
    have hlater := htime.weaken hclock (id : exact → exact)
    refine h.sample_step hs hclock rfl le_rfl rfl ?_
    rw [hstack]
    exact
      { ended := hlater.ended
        saved := nofun
        idle := fun _ _ => { hidle with state := Or.inr rfl }
        busy := fun hb => hb.elim (fun hne => absurd rfl hne) fun heq => absurd heq hmain
        isOver := nofun }
  · exact h.tick hclock

/-! ## The beginning of a parallel and of its tasks -/

theorem beginParallel (h : OnTime main exact s) (e : ForkJoinEvent τ ρ π) {t : τ} {p : π} (requested actual : ℕ)
    (hopenmp : s.talp.flags.haveOpenmp = true) (hp : s.parallels p = none)
    (hstack : match s.stack t with
      | [] => t = main ∧ s.IsSequential
      | frame :: _ => ∃ inBarrier, frame.phase = .running inBarrier) :
    OnTime main exact { s.beginParallel t p requested actual with clock := s.now e } := by
  have hclock : s.clock ≤ s.now e := Int.le_add_of_nonneg_right (Int.natCast_nonneg _)
  have ht : t ∈ s.talp.threads := by
    rcases hs : s.stack t with - | ⟨frame, rest⟩
    · rw [hs] at hstack
      exact hstack.1 ▸ h.main_mem
    · exact h.mem_threads (by rw [hs]; exact cons_ne_nil _ _)
  obtain ⟨sample, hs, htime⟩ := h.thread t ht
  have hteams := h.teams.beginParallel t hp requested actual
  unfold ForkJoinState.beginParallel at hteams ⊢
  rw [TalpInfo.parallelBegin_eq hopenmp hs] at hteams ⊢
  refine h.thread_step hs hclock { hteams with } (fun u hu => ?_) (fun hseq => ?_) (fun q _ => hopenmp) ?_ ?_ rfl le_rfl
    rfl ?_
  · dsimp only
    split
    · rename_i hlevel
      -- only the main thread begins a parallel of the first level
      have hnil : s.stack t = [] := by
        rcases hst : s.stack t with - | ⟨frame, rest⟩
        · rfl
        · obtain ⟨-, -, hone, -⟩ := h.teams.linked t frame (hst ▸ mem_cons_self)
          rw [hst] at hlevel
          dsimp only [levelOf] at hlevel
          omega
      rw [hnil] at hstack
      exact Function.update_of_ne (fun heq => hu (heq.trans hstack.1)) _ _
    · rfl
  · have hsome := hseq p
    dsimp only at hsome
    rw [Function.update_self] at hsome
    cases hsome
  · intro frame hframe
    obtain ⟨phase, hmem⟩ := mem_mapPhase hframe
    have := h.primary t _ hmem
    exact this
  · have hforked := h.forked t
    rcases hst : s.stack t with - | ⟨frame, rest⟩
    · exact nofun
    · rw [hst] at hforked
      exact hforked
  · have hlater := (htime.weaken hclock (id : exact → exact)).mapPhase (f := TaskPhase.fork) fun frame hframe hover => by
      rcases hst : s.stack t with - | ⟨top, rest⟩
      · rw [hst] at hframe
        cases hframe
      · rw [hst] at hframe hstack
        obtain rfl := Option.some.inj hframe
        obtain ⟨inBarrier, hphase⟩ := hstack
        rw [hphase] at hover
        rcases hover with hover | hover <;> cases hover
    exact
      { hlater with
        idle := fun hnil hmain => { hlater.idle hnil hmain with }
        busy := fun hb => { hlater.busy hb with } }

theorem beginTask (h : OnTime main exact s) (e : ForkJoinEvent τ ρ π) {t : τ} {p : π} {index : ℕ}
    {parallel : ActiveParallel τ} (ht : t ∈ s.talp.threads)
    (hfree : ∀ u, ∀ frame ∈ s.stack u, frame.parallel = p → frame.index ≠ index)
    (hp : s.parallels p = some parallel) (hlt : index < parallel.size)
    (hstack : if index = 0 then
      t = parallel.primary ∧ parallel.data.level = levelOf (s.stack t) + 1 ∧
        match s.stack t with
        | [] => t = main
        | frame :: _ => ∃ inBarrier, frame.phase = .forked inBarrier
      else t ≠ main ∧ s.stack t = []) (hlevel : 1 ≤ parallel.data.level) :
    OnTime main exact { s.beginTask e t p index parallel with clock := s.now e } := by
  have hclock : s.clock ≤ s.now e := Int.le_add_of_nonneg_right (Int.natCast_nonneg _)
  have hopenmp : s.talp.flags.haveOpenmp = true := h.openmp p (by rw [hp]; exact Option.some_ne_none _)
  obtain ⟨sample, hs, htime⟩ := h.thread t ht
  have hteams := h.teams.beginTask e hopenmp hs hp hlt hfree hlevel
    (by split <;> rename_i h0 <;> simp only [h0, if_true, if_false] at hstack
        · exact hstack.2.1
        · exact hstack.2)
  obtain ⟨-, -, -, hprevious⟩ :=
    omptoolImplicitTaskBegin_data (r := s.readings e) hopenmp hs parallel.data parallel.size index
  have htalp : (omptoolImplicitTaskBegin s.talp t (s.readings e) parallel.data parallel.size index).1 =
      s.talp.setSample t (s.talp.begunSample t (s.readings e) index sample) := by
    rw [omptoolImplicitTaskBegin, TalpInfo.intoParallelFunction_eq hopenmp hs]
  unfold ForkJoinState.beginTask at hteams ⊢
  dsimp only at hteams ⊢
  generalize omptoolImplicitTaskBegin s.talp t (s.readings e) parallel.data parallel.size index = begun at *
  rw [htalp] at hteams ⊢
  -- the sample belongs to the current generation or to an older one
  have hgen : sample.generationTs ≤ s.talp.currentGenerationTs := by
    rcases htime.idle_or_busy with hidle | hbusy
    · rcases hidle.time with ⟨hgen, -⟩ | ⟨hgen, -⟩
      · exact hgen.le
      · exact hgen.le
    · exact hbusy.current.le
  refine h.thread_step hs hclock { hteams with } (fun _ _ => rfl) (fun hseq => ?_) (fun _ _ => hopenmp)
    (forall_mem_cons.mpr ⟨?_, h.primary t⟩) ?_ ?_ ?_ (Timely.shared_begunSample index hgen) ?_
  · have hsome := hseq p
    rw [Function.update_self] at hsome
    cases hsome
  · dsimp only
    split
    · rename_i h0
      rw [if_pos h0] at hstack
      intro hone
      rcases hst : s.stack t with - | ⟨frame, rest⟩
      · rw [hst] at hstack
        exact hstack.2.2
      · obtain ⟨-, -, hone', -⟩ := h.teams.linked t frame (hst ▸ mem_cons_self)
        rw [hst] at hstack
        have := hstack.2.1
        dsimp only [levelOf] at this
        omega
    · rename_i h0
      rw [if_neg h0] at hstack
      exact hstack.1
  · intro frame hframe
    rcases hst : s.stack t with - | ⟨top, rest⟩
    · rw [tail_cons, hst] at hframe
      cases hframe
    · rw [tail_cons, hst] at hframe
      rcases mem_cons.mp hframe with rfl | hframe
      · split at hstack
        · rw [hst] at hstack
          exact hstack.2.2
        · rw [hst] at hstack
          cases hstack.2
      · exact h.forked t frame (by rw [hst]; exact hframe)
  · exact s.talp.begunSample_lastParallelEndTs t (s.readings e) index sample
  · have hbefore : sample.lastUpdatedTs ≤ s.clock := htime.idle_or_busy.elim (·.before) (·.before)
    exact (hbefore.trans hclock).trans (s.talp.begunSample_lastUpdatedTs t (s.readings e) index sample).ge
  · have hlater : s.talp.currentGenerationTs ≤ s.clock := by
      obtain ⟨other, -, -, hle, hb⟩ := h.main_sample
      exact hle.trans hb.before
    refine htime.beginTask (e := s.readings e) hclock hlater ?_ ?_ ?_
    · rfl
    · dsimp only
      rw [hprevious]
      split
      · exact htime.timers.notUsefulOmpIn
      · exact le_rfl
    · dsimp only [held]
      by_cases h0 : index = 0
      · rw [if_pos h0] at hstack ⊢
        rcases hst : s.stack t with - | ⟨top, rest⟩
        · rw [hst] at hstack
          have hone : ¬ 1 < parallel.data.level := by
            rw [hstack.2.1]
            exact lt_irrefl 1
          rw [if_neg (fun h' => hone h'.2)]
          exact ⟨Or.inr hstack.2.2, rfl⟩
        · obtain ⟨-, -, hone, -⟩ := h.teams.linked t top (hst ▸ mem_cons_self)
          rw [hst] at hstack
          have hinner : index = 0 ∧ 1 < parallel.data.level := by
            rw [hstack.2.1]
            exact ⟨h0, Nat.lt_succ_of_le hone⟩
          rw [if_pos hinner, hprevious, if_pos hinner]
          exact ⟨Or.inl (cons_ne_nil _ _), rfl⟩
      · rw [if_neg h0] at hstack ⊢
        rw [if_neg (fun h' => h0 h'.1)]
        exact ⟨hstack.1, hstack.2, rfl⟩

end OnTime

end Dlb.Talp.ForkJoinState

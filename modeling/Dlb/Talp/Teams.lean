import Dlb.Talp.ThreadTime

/-!
# Teams

What the data of a parallel says of its members, along every ordered run: the samples of its team are those of the
threads that have begun their implicit tasks with its indexes, and the primary thread finds in it what it has saved
(`Teams`, with one lemma for each event that changes it). At its end every member is in no inner parallel (`Teams.ended`).
-/

namespace Dlb.Talp

open List

section Stack

variable {π : Type*}

/-- The waiting time that a thread has saved; `none` outside of parallels. -/
def held : List (TaskFrame π) → Option ℤ
  | [] => none
  | frame :: rest => some (frame.saved + (held rest).getD 0)

/-- A thread is recruited when it is idle, and begins an inner parallel at the next level. -/
def WellNested : List (TaskFrame π) → Prop
  | [] => True
  | frame :: rest => (if frame.index = 0 then frame.level = levelOf rest + 1 else rest = []) ∧ WellNested rest

theorem innermost_false {member : TaskFrame π → Prop} {stack : List (TaskFrame π)} :
    Innermost False member stack ↔ ∃ frame rest, stack = frame :: rest ∧ member frame := by
  cases stack with
  | nil => simp [Innermost]
  | cons frame rest => simp [Innermost]

@[simp] theorem held_mapPhase (f : TaskPhase → TaskPhase) (stack : List (TaskFrame π)) :
    held (mapPhase f stack) = held stack := by cases stack <;> rfl

@[simp] theorem mapPhase_eq_nil {f : TaskPhase → TaskPhase} {stack : List (TaskFrame π)} :
    mapPhase f stack = [] ↔ stack = [] := by cases stack <;> simp [mapPhase]

theorem wellNested_mapPhase {f : TaskPhase → TaskPhase} {stack : List (TaskFrame π)} (h : WellNested stack) :
    WellNested (mapPhase f stack) := by
  cases stack with
  | nil => trivial
  | cons frame rest => exact h

theorem mem_mapPhase {f : TaskPhase → TaskPhase} {stack : List (TaskFrame π)} {frame : TaskFrame π}
    (h : frame ∈ mapPhase f stack) : ∃ phase, { frame with phase := phase } ∈ stack := by
  cases stack with
  | nil => exact absurd h not_mem_nil
  | cons top rest =>
    rcases mem_cons.mp h with rfl | h
    · exact ⟨top.phase, mem_cons_self⟩
    · exact ⟨frame.phase, mem_cons_of_mem _ h⟩

theorem WellNested.lt {frame : TaskFrame π} {rest : List (TaskFrame π)} (h : WellNested (frame :: rest)) :
    ∀ other ∈ rest, other.level < frame.level := by
  induction rest generalizing frame with
  | nil => exact nofun
  | cons next rest ih =>
    have hlevel : frame.level = next.level + 1 := by
      have := h.1
      split at this
      · exact this
      · cases this
    intro other hother
    rcases mem_cons.mp hother with rfl | hother
    · omega
    · have := ih h.2 other hother
      omega

end Stack

namespace ForkJoinState

variable {τ ρ π : Type*}

/-- A thread is a member of an active parallel, which has its sample under its index. -/
def Linked (parallels : π → Option (ActiveParallel τ)) (u : τ) (frame : TaskFrame π) : Prop :=
  ∃ parallel, parallels frame.parallel = some parallel ∧ 1 ≤ frame.level ∧ parallel.data.level = frame.level ∧
    frame.index < parallel.size ∧ parallel.data.talpParallelData.parallelSamples frame.index = some u ∧
    (frame.index = 0 → parallel.data.actualParallelism = parallel.size) ∧
    frame.saved =
      if frame.index = 0 ∧ 1 < frame.level then parallel.data.talpParallelData.previousNotUsefulOmpIn else 0

/-- The stacks of the threads and the data of the parallels agree. -/
structure Teams (s : ForkJoinState τ ρ π) : Prop where
  linked : ∀ u, ∀ frame ∈ s.stack u, Linked s.parallels u frame
  nested : ∀ u, WellNested (s.stack u)
  leveled : ∀ p parallel, s.parallels p = some parallel → 1 ≤ parallel.data.level

variable [DecidableEq τ] [DecidableEq π] {s : ForkJoinState τ ρ π}

omit [DecidableEq τ] in
theorem Linked.update {u : τ} {frame : TaskFrame π} (h : Linked s.parallels u frame) {p : π}
    (parallel : Option (ActiveParallel τ)) (hp : frame.parallel ≠ p) :
    Linked (Function.update s.parallels p parallel) u frame := by
  unfold Linked
  rw [Function.update_of_ne hp]
  exact h

omit [DecidableEq τ] [DecidableEq π] in
theorem Teams.stack_eq_nil (h : s.Teams) (hs : s.IsSequential) (u : τ) : s.stack u = [] := by
  rcases hstack : s.stack u with - | ⟨frame, rest⟩
  · rfl
  · obtain ⟨parallel, hp, -⟩ := h.linked u frame (hstack ▸ mem_cons_self)
    rw [hs] at hp
    cases hp

omit [DecidableEq π] in
theorem Teams.mapPhase (h : s.Teams) (t : τ) (f : TaskPhase → TaskPhase) :
    (∀ u, ∀ frame ∈ Function.update s.stack t (Talp.mapPhase f (s.stack t)) u, Linked s.parallels u frame) ∧
      ∀ u, WellNested (Function.update s.stack t (Talp.mapPhase f (s.stack t)) u) := by
  refine ⟨fun u frame hframe => ?_, fun u => ?_⟩
  · by_cases hu : u = t
    · subst hu
      rw [Function.update_self] at hframe
      obtain ⟨phase, hmem⟩ := mem_mapPhase hframe
      have hlinked := h.linked u _ hmem
      exact hlinked
    · rw [Function.update_of_ne hu] at hframe
      exact h.linked u _ hframe
  · by_cases hu : u = t
    · subst hu
      rw [Function.update_self]
      exact wellNested_mapPhase (h.nested u)
    · rw [Function.update_of_ne hu]
      exact h.nested u

/-! ## The end of a parallel -/

/-- What the order of the events says at the end of a parallel: all its members are in the barrier. -/
def AllOver (s : ForkJoinState τ ρ π) (p : π) (size : ℕ) : Prop :=
  ∀ index < size, ∃ u member more, s.stack u = member :: more ∧ member.parallel = p ∧ member.index = index ∧
    member.phase.IsOver

omit [DecidableEq τ] [DecidableEq π] in
theorem Teams.ended (h : s.Teams) {p : π} {parallel : ActiveParallel τ} (hp : s.parallels p = some parallel)
    (hover : AllOver s p parallel.size) {u : τ} {frame : TaskFrame π} (hframe : frame ∈ s.stack u)
    (hparallel : frame.parallel = p) : ∃ rest, s.stack u = frame :: rest ∧ frame.phase.IsOver ∧
      ∀ other ∈ rest, other.parallel ≠ p := by
  have hdata : ∀ {v : τ} {other : TaskFrame π}, other ∈ s.stack v → other.parallel = p →
      parallel.data.level = other.level ∧ other.index < parallel.size ∧
        parallel.data.talpParallelData.parallelSamples other.index = some v := by
    intro v other hother hpar
    obtain ⟨parallel', hp', -, hlevel, hlt, hsample, -⟩ := h.linked v other hother
    rw [hpar, hp] at hp'
    cases hp'
    exact ⟨hlevel, hlt, hsample⟩
  obtain ⟨hlevel, hlt, hsample⟩ := hdata hframe hparallel
  obtain ⟨v, member, more, hstack, hmember, hindex, hphase⟩ := hover frame.index hlt
  obtain ⟨hlevel', -, hsample'⟩ := hdata (hstack ▸ mem_cons_self : member ∈ s.stack v) hmember
  obtain rfl : u = v := by
    rw [hindex, hsample] at hsample'
    exact Option.some.inj hsample'
  have hinner := (hstack ▸ h.nested u).lt
  have hother : ∀ other ∈ more, other.parallel ≠ p := by
    intro other hmem hpar
    obtain ⟨hlevel'', -⟩ := hdata (hstack ▸ mem_cons_of_mem _ hmem : other ∈ s.stack u) hpar
    have := hinner other hmem
    omega
  obtain rfl : frame = member := by
    rw [hstack] at hframe
    rcases mem_cons.mp hframe with rfl | hmem
    · rfl
    · exact absurd hparallel (hother frame hmem)
  exact ⟨more, hstack, hphase, hother⟩

omit [DecidableEq τ] [DecidableEq π] in
theorem Teams.mem_membersFrom (h : s.Teams) {p : π} {parallel : ActiveParallel τ} (hp : s.parallels p = some parallel)
    (hover : AllOver s p parallel.size) (hactual : parallel.data.actualParallelism = parallel.size) {first : ℕ}
    {u : τ} : u ∈ parallel.data.membersFrom first ↔
      ∃ frame rest, s.stack u = frame :: rest ∧ frame.parallel = p ∧ first ≤ frame.index := by
  have hsample : ∀ {v : τ} {frame : TaskFrame π}, frame ∈ s.stack v → frame.parallel = p →
      frame.index < parallel.size ∧ parallel.data.talpParallelData.parallelSamples frame.index = some v := by
    intro v frame hframe hpar
    obtain ⟨parallel', hp', -, -, hlt, hsample, -⟩ := h.linked v frame hframe
    rw [hpar, hp] at hp'
    cases hp'
    exact ⟨hlt, hsample⟩
  unfold OmptoolParallelData.membersFrom
  rw [mem_filterMap, hactual]
  constructor
  · rintro ⟨index, hindex, hu⟩
    obtain ⟨hfirst, hlt⟩ := mem_range'_1.mp hindex
    obtain ⟨v, member, more, hstack, hpar, rfl, -⟩ := hover index (by omega)
    obtain ⟨-, hv⟩ := hsample (hstack ▸ mem_cons_self) hpar
    obtain rfl : u = v := Option.some.inj (hu.symm.trans hv)
    exact ⟨member, more, hstack, hpar, hfirst⟩
  · rintro ⟨frame, rest, hstack, hpar, hfirst⟩
    obtain ⟨hlt, hu⟩ := hsample (hstack ▸ mem_cons_self) hpar
    exact ⟨frame.index, mem_range'_1.mpr ⟨hfirst, by omega⟩, hu⟩

omit [DecidableEq τ] [DecidableEq π] in
theorem Teams.nodup_membersFrom (h : s.Teams) {p : π} {parallel : ActiveParallel τ} (hp : s.parallels p = some parallel)
    (hover : AllOver s p parallel.size) (hactual : parallel.data.actualParallelism = parallel.size) (first : ℕ) :
    (parallel.data.membersFrom first).Nodup := by
  have hindex : ∀ {index : ℕ} {u : τ}, index < parallel.size →
      parallel.data.talpParallelData.parallelSamples index = some u →
      ∃ frame rest, s.stack u = frame :: rest ∧ frame.index = index := by
    intro index u hlt hu
    obtain ⟨v, member, more, hstack, hpar, rfl, -⟩ := hover index hlt
    obtain ⟨parallel', hp', -, -, -, hsample, -⟩ := h.linked v member (hstack ▸ mem_cons_self)
    rw [hpar, hp] at hp'
    cases hp'
    obtain rfl : u = v := Option.some.inj (hu.symm.trans hsample)
    exact ⟨member, more, hstack, rfl⟩
  unfold OmptoolParallelData.membersFrom List.Nodup
  rw [pairwise_filterMap]
  refine List.Pairwise.imp_of_mem (fun {i j} hi hj hne u hu v hv heq => hne ?_) nodup_range'
  subst heq
  obtain ⟨frame, rest, hstack, rfl⟩ := hindex (by have := mem_range'_1.mp hi; omega) hu
  obtain ⟨frame', rest', hstack', rfl⟩ := hindex (by have := mem_range'_1.mp hj; omega) hv
  rw [hstack] at hstack'
  cases hstack'
  rfl

/-! ## One event -/

theorem Teams.beginParallel (h : s.Teams) (t : τ) {p : π} (hp : s.parallels p = none) (requested actual : ℕ) :
    (s.beginParallel t p requested actual).Teams := by
  obtain ⟨hlinked, hnested⟩ := h.mapPhase t TaskPhase.fork
  refine ⟨fun u frame hframe => ?_, hnested, fun q parallel hq => ?_⟩
  · have hframe' := hlinked u frame hframe
    refine hframe'.update _ fun hpar => ?_
    obtain ⟨parallel, hp', -⟩ := hframe'
    rw [hpar, hp] at hp'
    cases hp'
  · unfold ForkJoinState.beginParallel at hq
    dsimp only at hq
    by_cases heq : q = p
    · subst heq
      rw [Function.update_self] at hq
      cases hq
      unfold TalpInfo.talpOpenmpParallelBegin
      split <;> exact Nat.succ_pos _
    · rw [Function.update_of_ne heq] at hq
      exact h.leveled q parallel hq

theorem omptoolImplicitTaskBegin_data {d : TalpInfo τ ρ} {t : τ} {r : Readings} (hopenmp : d.flags.haveOpenmp = true)
    {sample : Sample} (hsample : d.samples t = some sample) (data : OmptoolParallelData τ) (size index : ℕ) :
    (omptoolImplicitTaskBegin d t r data size index).2.level = data.level ∧
      (omptoolImplicitTaskBegin d t r data size index).2.talpParallelData.parallelSamples =
        Function.update data.talpParallelData.parallelSamples index (some t) ∧
      (omptoolImplicitTaskBegin d t r data size index).2.actualParallelism =
        (if index = 0 then size else data.actualParallelism) ∧
      (omptoolImplicitTaskBegin d t r data size index).2.talpParallelData.previousNotUsefulOmpIn =
        if index = 0 ∧ 1 < data.level then sample.timers.notUsefulOmpIn
        else data.talpParallelData.previousNotUsefulOmpIn := by
  rw [omptoolImplicitTaskBegin, TalpInfo.intoParallelFunction_eq hopenmp hsample]
  by_cases h0 : index = 0
  · rw [if_pos h0, if_pos h0]
    exact ⟨rfl, rfl, rfl, rfl⟩
  · rw [if_neg h0, if_neg h0]
    exact ⟨rfl, rfl, rfl, rfl⟩

theorem Teams.beginTask (h : s.Teams) {t : τ} {p : π} {index : ℕ} {parallel : ActiveParallel τ}
    (e : ForkJoinEvent τ ρ π) (hopenmp : s.talp.flags.haveOpenmp = true) {sample : Sample}
    (hsample : s.talp.samples t = some sample)
    (hp : s.parallels p = some parallel) (hlt : index < parallel.size)
    (hfree : ∀ u, ∀ frame ∈ s.stack u, frame.parallel = p → frame.index ≠ index) (hlevel : 1 ≤ parallel.data.level)
    (hstack : if index = 0 then parallel.data.level = levelOf (s.stack t) + 1 else s.stack t = []) :
    (s.beginTask e t p index parallel).Teams := by
  obtain ⟨hlevel', hsamples', hactual', hprevious'⟩ :=
    omptoolImplicitTaskBegin_data (r := s.readings e) hopenmp hsample parallel.data parallel.size index
  unfold ForkJoinState.beginTask
  generalize omptoolImplicitTaskBegin s.talp t (s.readings e) parallel.data parallel.size index = begun at *
  have hlinked : ∀ u, ∀ frame ∈ s.stack u,
      Linked (Function.update s.parallels p (some { parallel with data := begun.2 })) u frame := by
    intro u frame hframe
    by_cases hpar : frame.parallel = p
    · have hne := hfree u frame hframe hpar
      obtain ⟨parallel', hp', hone, hlev, hidx, hsmp, hact, hsaved⟩ := h.linked u frame hframe
      rw [hpar, hp] at hp'
      cases hp'
      refine ⟨{ parallel with data := begun.2 }, ?_, hone, hlevel'.trans hlev, hidx, ?_, ?_, ?_⟩
      · rw [hpar, Function.update_self]
      · dsimp only
        rw [hsamples', Function.update_of_ne hne]
        exact hsmp
      · intro h0
        rw [hactual', if_neg fun h' => hne (h0.trans h'.symm)]
        exact hact h0
      · rw [hsaved]
        by_cases h0 : frame.index = 0
        · have hprevious : begun.2.talpParallelData.previousNotUsefulOmpIn =
              parallel.data.talpParallelData.previousNotUsefulOmpIn := by
            rw [hprevious', if_neg fun h' => hne (h0.trans h'.1.symm)]
          rw [hprevious]
        · rw [if_neg fun h' => h0 h'.1, if_neg fun h' => h0 h'.1]
    · exact (h.linked u frame hframe).update _ hpar
  refine ⟨fun u frame hframe => ?_, fun u => ?_, fun q other hq => ?_⟩ <;> dsimp only at *
  · by_cases hu : u = t
    · subst hu
      rw [Function.update_self] at hframe
      rcases mem_cons.mp hframe with rfl | hframe
      · refine ⟨_, Function.update_self _ _ _, hlevel, hlevel', hlt, ?_, fun h0 => ?_, rfl⟩
        · dsimp only
          rw [hsamples', Function.update_self]
        · dsimp only at h0 ⊢
          rw [hactual', if_pos h0]
      · exact hlinked u frame hframe
    · rw [Function.update_of_ne hu] at hframe
      exact hlinked u frame hframe
  · by_cases hu : u = t
    · subst hu
      rw [Function.update_self]
      exact ⟨hstack, h.nested u⟩
    · rw [Function.update_of_ne hu]
      exact h.nested u
  · by_cases heq : q = p
    · subst heq
      rw [Function.update_self] at hq
      cases hq
      rwa [hlevel']
    · rw [Function.update_of_ne heq] at hq
      exact h.leveled q other hq

theorem Teams.endParallel (h : s.Teams) {t : τ} {p : π} {parallel : ActiveParallel τ} (e : ForkJoinEvent τ ρ π)
    (hp : s.parallels p = some parallel) (hover : AllOver s p parallel.size) :
    (s.endParallel e t p parallel).Teams := by
  refine ⟨fun u frame hframe => ?_, fun u => ?_, fun q other hq => ?_⟩
  · rw [ForkJoinState.endParallel] at hframe
    dsimp only at hframe
    split at hframe
    · exact absurd hframe not_mem_nil
    · rename_i member more hstack
      have hmember : member ∈ s.stack u := hstack ▸ mem_cons_self
      split at hframe
      · rename_i hpar
        obtain ⟨rest, hrest, -, hother⟩ := h.ended hp hover hmember hpar
        rw [hstack] at hrest
        cases hrest
        obtain ⟨phase, hmem⟩ := mem_mapPhase hframe
        have hlinked := (h.linked u _ (hstack ▸ mem_cons_of_mem _ hmem)).update none (hother _ hmem)
        exact hlinked
      · rename_i hpar
        have hmem : frame ∈ s.stack u := hstack ▸ hframe
        refine (h.linked u _ hmem).update _ fun hpar' => ?_
        obtain ⟨rest, hrest, -⟩ := h.ended hp hover hmem hpar'
        rw [hstack] at hrest
        cases hrest
        exact hpar hpar'
  · rw [ForkJoinState.endParallel]
    dsimp only
    split
    · trivial
    · rename_i member more hstack
      have hnested : WellNested (member :: more) := hstack ▸ h.nested u
      split
      · exact wellNested_mapPhase hnested.2
      · exact hnested
  · rw [ForkJoinState.endParallel] at hq
    dsimp only at hq
    by_cases heq : q = p
    · subst heq
      rw [Function.update_self] at hq
      cases hq
    · rw [Function.update_of_ne heq] at hq
      exact h.leveled q other hq

end ForkJoinState

end Dlb.Talp

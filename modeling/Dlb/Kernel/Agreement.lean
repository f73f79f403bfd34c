import Dlb.Kernel.HalfDone
import Dlb.Procinfo.Unique

/-!
# The two memories agree

Cpuinfo shows what procinfo says, with a delay (`Shows`): a CPU with an owner is in the current mask or in the pending
mask of that process, and a process that is not dirty owns the CPUs of its mask. Changes that are pending keep this
(`Shows.defers`), and so do a process that takes its mask (`Shows.takes`), one that registers in both memories
(`Shows.registers`) and one that leaves (`Shows.leaves`). When nobody is dirty the two memories agree
(`ownership_agrees`).

Two kinds of step are left out: an initialization that stays half done, and one that inherits from a dirty process, whose
lost CPUs would stay in its name.
-/

namespace Dlb.Kernel

variable {S : System} {d d1 : Procinfo.Shdata} {owner owner1 : ℕ → Pid} {p : Process} {n : Node} {call : Call}
  {mask m : CpuSet} {pid preinitPid : Pid} {i : ℕ}

structure Shows (d : Procinfo.Shdata) (owner : ℕ → Pid) : Prop where
  owned : ∀ c, owner c ≠ 0 → ∃ i, (d.processInfo i).pid = owner c ∧
    (c ∈ (d.processInfo i).currentProcessMask ∨ c ∈ (d.processInfo i).futureProcessMask)
  shown : ∀ i, (d.processInfo i).pid ≠ 0 → (d.processInfo i).dirty = false →
    ∀ c ∈ (d.processInfo i).currentProcessMask, owner c = (d.processInfo i).pid

/-! ## One entry -/

theorem held_of_defers {a b : Procinfo.Pinfo} (ha : a.Ok S) (h : a.Defers b) {c : ℕ}
    (hc : c ∈ a.currentProcessMask ∨ c ∈ a.futureProcessMask) : c ∈ b.currentProcessMask ∨ c ∈ b.futureProcessMask := by
  rw [h.current]
  cases hd : a.dirty with
  | true => exact hc.imp_right fun hc => h.future hd hc
  | false => exact .inl (hc.elim id fun hc => ha.clean hd ▸ hc)

theorem held_of_yields {a b : Procinfo.Pinfo} (ha : a.Ok S) (h : a.Yields m b) {c : ℕ} (hm : c ∉ m)
    (hc : c ∈ a.currentProcessMask ∨ c ∈ a.futureProcessMask) : c ∈ b.currentProcessMask ∨ c ∈ b.futureProcessMask := by
  cases hd : a.dirty with
  | true =>
    refine hc.imp (fun hc => h.kept ?_) fun hc => h.future hd ?_
    · exact Finset.mem_sdiff.mpr ⟨hc, hm⟩
    · exact Finset.mem_sdiff.mpr ⟨hc, hm⟩
  | false =>
    have hcurrent : c ∈ a.currentProcessMask := hc.elim id fun hc => ha.clean hd ▸ hc
    exact .inl (h.kept (Finset.mem_sdiff.mpr ⟨hcurrent, hm⟩))

theorem lt_size_of_held (h : Procinfo.Sound S d) {c : ℕ}
    (hc : c ∈ (d.processInfo i).currentProcessMask ∨ c ∈ (d.processInfo i).futureProcessMask) : c < S.size :=
  hc.elim (fun hc => System.lt_size ((h.slot i).current hc)) fun hc => System.lt_size (h.future_subset i hc)

theorem notMem_of_other (h : Procinfo.Sound S d) {j c : ℕ} (hij : i ≠ j) (hd : (d.processInfo i).dirty = false)
    (hc : c ∈ (d.processInfo i).currentProcessMask) : c ∉ (d.processInfo j).effective := by
  rw [h.current_eq hd] at hc
  exact h.part.notMem (x := some i) (y := some j) (by simpa using hij) hc

/-! ## The steps -/

theorem Shows.defers (h : Shows d owner) (hok : ∀ i, (d.processInfo i).Ok S) (hd : Procinfo.Defers d d1) :
    Shows d1 owner where
  owned c hc := by
    obtain ⟨i, hi, hheld⟩ := h.owned c hc
    rcases hd i with hdefers | ⟨hz, -⟩
    · exact ⟨i, hdefers.pid.trans hi, held_of_defers (hok i) hdefers hheld⟩
    · exact absurd (hi.symm.trans hz) hc
  shown i hi hclean c hc := by
    rcases hd i with hdefers | ⟨-, hz⟩
    · rw [hdefers.pid] at hi ⊢
      rw [hdefers.current] at hc
      exact h.shown i hi (hdefers.dirty hclean) c hc
    · exact absurd hz hi

theorem Shows.takes {k : ℕ} (h : Shows d owner) (hs : Procinfo.Sound S d) (hs1 : Procinfo.Sound S d1)
    (hu : Procinfo.Unique d) (hk : (d.processInfo k).pid = pid)
    (ht : Procinfo.Takes d d1 k {c ∈ mask | c < S.size})
    (howner : ∀ c, owner1 c = if c < S.size then if c ∈ mask then pid else if owner c = pid then 0 else owner c
      else owner c) : Shows d1 owner1 where
  owned c hc := by
    rw [howner] at hc ⊢
    by_cases hlt : c < S.size
    · simp only [if_pos hlt] at hc ⊢
      by_cases hm : c ∈ mask
      · rw [if_pos hm]
        refine ⟨k, ht.pid.trans hk, .inl ?_⟩
        rw [ht.cpus]
        exact Finset.mem_filter.mpr ⟨hm, hlt⟩
      · simp only [if_neg hm] at hc ⊢
        by_cases ho : owner c = pid
        · rw [if_pos ho] at hc
          exact absurd rfl hc
        · rw [if_neg ho] at hc ⊢
          obtain ⟨i, hi, hheld⟩ := h.owned c hc
          have hik : i ≠ k := by
            rintro rfl
            exact ho (hi.symm.trans hk)
          exact ⟨i, (ht.others i hik).pid.trans hi, held_of_defers (hs.slot i) (ht.others i hik) hheld⟩
    · simp only [if_neg hlt] at hc
      obtain ⟨i, -, hheld⟩ := h.owned c hc
      exact absurd (lt_size_of_held hs hheld) hlt
  shown i hi hclean c hc := by
    have hlt := lt_size_of_held hs1 (.inl hc)
    rw [howner, if_pos hlt]
    by_cases hik : i = k
    · subst hik
      rw [ht.cpus] at hc
      rw [if_pos (Finset.mem_filter.mp hc).1, ht.pid, hk]
    · have hdefers := ht.others i hik
      have hnot := notMem_of_other hs1 hik hclean hc
      have hm : c ∉ mask := by
        intro hm
        refine hnot ?_
        rw [Procinfo.Pinfo.effective, ht.clean, if_neg Bool.false_ne_true, ht.cpus]
        exact Finset.mem_filter.mpr ⟨hm, hlt⟩
      rw [hdefers.pid] at hi ⊢
      rw [hdefers.current] at hc
      have ho := h.shown i hi (hdefers.dirty hclean) c hc
      have hne : owner c ≠ pid := by
        intro heq
        exact hik (hu i k hi (by rw [hk, ← heq, ho]))
      rw [if_neg hm, if_neg hne, ho]

/-- The preregistered process, while its mask is pending, owns none of the CPUs that it has lost. -/
def NothingLeft (d : Procinfo.Shdata) (owner : ℕ → Pid) (pid preinitPid : Pid) : Prop :=
  preinitPid ≠ 0 → preinitPid ≠ pid → ∀ i, (d.processInfo i).pid = preinitPid → (d.processInfo i).dirty = true →
    ∀ c, owner c = preinitPid → c ∈ (d.processInfo i).futureProcessMask

theorem Shows.registers {k : ℕ} (h : Shows d owner) (hok : ∀ i, (d.processInfo i).Ok S)
    (hlt : ∀ i c, c ∈ (d.processInfo i).currentProcessMask ∨ c ∈ (d.processInfo i).futureProcessMask → c < S.size)
    (hs1 : Procinfo.Sound S d1) (hr : Procinfo.Registers d d1 k pid preinitPid m)
    (hleft : NothingLeft d owner pid preinitPid)
    (howner : ∀ c, owner1 c = if c < S.size ∧ c ∈ m then pid else owner c) : Shows d1 owner1 where
  owned c hc := by
    rw [howner] at hc ⊢
    by_cases hm : c < S.size ∧ c ∈ m
    · rw [if_pos hm]
      refine ⟨k, hr.slot, .inr ?_⟩
      rw [← (hs1.slot k).effective, hr.cpus]
      exact hm.2
    · rw [if_neg hm] at hc ⊢
      obtain ⟨i, hi, hheld⟩ := h.owned c hc
      have hnot : c ∉ m := fun hcm => hm ⟨hlt i c hheld, hcm⟩
      by_cases hik : i = k
      · -- the entry of the preregistered process
        subst hik
        obtain ⟨hpre, hsub, hkept⟩ := hr.was.resolve_left fun hz => hc (hi.symm.trans hz)
        have hfuture : c ∉ (d.processInfo i).futureProcessMask := by
          rw [← (hok i).effective]
          exact fun hcf => hnot (hsub hcf)
        have hcurrent := hheld.resolve_right hfuture
        cases hd : (d.processInfo i).dirty with
        | false =>
          rw [(hok i).clean hd] at hcurrent
          exact absurd hcurrent hfuture
        | true =>
          have ho : owner c = preinitPid := hi.symm.trans hpre
          by_cases hself : preinitPid = pid
          · refine ⟨i, by rw [hr.slot, ho, hself], .inl ?_⟩
            rw [hkept hd]
            exact hcurrent
          · exact absurd (hleft (ho ▸ hc) hself i hpre hd c ho) hfuture
      · have hyields := hr.others i hik
        exact ⟨i, hyields.pid.trans hi, held_of_yields (hok i) hyields hnot hheld⟩
  shown i hi hclean c hc := by
    rw [howner]
    by_cases hik : i = k
    · subst hik
      have hm : c ∈ m := by
        rw [← hr.cpus, (hs1.slot i).effective, ← (hs1.slot i).clean hclean]
        exact hc
      rw [if_pos ⟨lt_size_of_held hs1 (.inl hc), hm⟩, hr.slot]
    · have hyields := hr.others i hik
      have hm : c ∉ m := by
        rw [← hr.cpus]
        exact notMem_of_other hs1 hik hclean hc
      rw [hyields.pid] at hi ⊢
      rw [if_neg fun hcm => hm hcm.2]
      exact h.shown i hi (hyields.dirty hclean) c (hyields.current hc)

theorem Shows.leaves {k : ℕ} (h : Shows d owner) (hs : Procinfo.Sound S d) (hu : Procinfo.Unique d)
    (hk : (d.processInfo k).pid = pid) (hk1 : (d1.processInfo k).pid = 0)
    (hothers : ∀ i, i ≠ k → (d.processInfo i).Defers (d1.processInfo i))
    (howner : ∀ c, owner1 c = if c < S.size ∧ owner c = pid then 0 else owner c) : Shows d1 owner1 where
  owned c hc := by
    rw [howner] at hc ⊢
    by_cases ho : c < S.size ∧ owner c = pid
    · rw [if_pos ho] at hc
      exact absurd rfl hc
    · rw [if_neg ho] at hc ⊢
      obtain ⟨i, hi, hheld⟩ := h.owned c hc
      have hik : i ≠ k := by
        rintro rfl
        exact ho ⟨lt_size_of_held hs hheld, hi.symm.trans hk⟩
      exact ⟨i, (hothers i hik).pid.trans hi, held_of_defers (hs.slot i) (hothers i hik) hheld⟩
  shown i hi hclean c hc := by
    have hik : i ≠ k := by
      rintro rfl
      exact hi hk1
    have hdefers := hothers i hik
    rw [hdefers.pid] at hi ⊢
    rw [hdefers.current] at hc
    have ho := h.shown i hi (hdefers.dirty hclean) c hc
    have hne : owner c ≠ pid := by
      intro heq
      exact hik (hu i k hi (by rw [hk, ← heq, ho]))
    rw [howner, if_neg fun hcond => hne hcond.2, ho]

/-! ## Runs -/

def owners (n : Node) (c : ℕ) : Pid := (n.cpuinfo.nodeInfo c).owner

/-- The CPUs that the process gets: those of the mask; with an empty mask, those of the preregistered process. -/
def Obtainable (S : System) (n : Node) (pid preinitPid : Pid) (mask : CpuSet) : Prop :=
  Cpuinfo.Registrable S n.cpuinfo pid preinitPid mask ∧
    (mask = ∅ → preinitPid ≠ 0 → ∀ i, (n.procinfo.processInfo i).pid = preinitPid →
      Cpuinfo.Registrable S n.cpuinfo pid preinitPid (n.procinfo.processInfo i).effective)

/-- An initialization that procinfo accepts is accepted by cpuinfo, and leaves no CPUs to a process that is gone. -/
def Whole (S : System) (p : Process) (n : Node) : Call → Prop
  | .init mask =>
    (Procinfo.exec S p.procinfo n.procinfo (.init p.id p.preinitPid mask false)).2.error = .success ∨
        (Procinfo.exec S p.procinfo n.procinfo (.init p.id p.preinitPid mask false)).2.error = .noted →
      Obtainable S n p.id p.preinitPid mask ∧ NothingLeft n.procinfo (owners n) p.id p.preinitPid
  | .preInit pid mask flags =>
    (Procinfo.exec S p.procinfo n.procinfo (.preinit pid mask flags)).2.error = .success → flags.stealCpus = false →
      Cpuinfo.Registrable S n.cpuinfo pid 0 mask
  | _ => True

/-- The operations that keep the memories in agreement: nobody dies, procinfo stays divided and without duplicates, and
initializations are whole. -/
structure Admitted (S : System) (p : Process) (n : Node) (call : Call) : Prop where
  proper : Proper p n call
  alive : (exec S p n call).dies = false
  admitted : ∀ c, call.onProcinfo p = some c → Procinfo.Admitted S p.procinfo n.procinfo c
  noticed : ∀ c, call.onProcinfo p = some c → Procinfo.Noticed S p.procinfo n.procinfo c
  whole : Whole S p n call

structure Matched (S : System) (n : Node) : Prop where
  inv : Procinfo.Inv S n.procinfo
  unique : Procinfo.Unique n.procinfo
  started : Started n
  shows : Shows n.procinfo (owners n)

theorem Matched.sound (h : Matched S n) (hpid : (n.procinfo.processInfo i).pid ≠ 0) : Procinfo.Sound S n.procinfo :=
  h.inv.sound (h.inv.bounded.initialized hpid)

theorem Shows.empty (h : Shows d owner) (hz : ∀ i, (d.processInfo i).pid = 0) (c : ℕ) : owner c = 0 := by
  by_contra hc
  obtain ⟨i, hi, -⟩ := h.owned c hc
  exact hc (hi.symm.trans (hz i))

theorem shows_empty (hz : ∀ i, (d.processInfo i).pid = 0) (ho : ∀ c, owner c = 0) : Shows d owner where
  owned c hc := absurd (ho c) hc
  shown i hi := absurd (hz i) hi

theorem Matched.init_shows (h : Matched S n) (h1 : Procinfo.Inv S (exec S p n (.init mask)).node.procinfo)
    (hproc : Procinfo.Admitted S p.procinfo n.procinfo (.init p.id p.preinitPid mask false))
    (hwhole : Whole S p n (.init mask)) :
    Shows (exec S p n (.init mask)).node.procinfo (owners (exec S p n (.init mask)).node) := by
  by_cases hfail : (Procinfo.init S p.procinfo n.procinfo p.id p.preinitPid mask false).2.error ≠ .success ∧
      (Procinfo.init S p.procinfo n.procinfo p.id p.preinitPid mask false).2.error ≠ .noted
  · have hexec : exec S p n (.init mask) = { node := { n with procinfo := _ }, error := _ } := if_pos hfail
    rw [hexec]
    exact h.shows.defers h.inv.ok (Procinfo.init_failed_defers h.inv.bounded hfail.1 hfail.2)
  · have hok : (Procinfo.init S p.procinfo n.procinfo p.id p.preinitPid mask false).2.error = .success ∨
        (Procinfo.init S p.procinfo n.procinfo p.id p.preinitPid mask false).2.error = .noted := by
      by_contra hno
      exact hfail (not_or.mp hno)
    obtain ⟨hobtain, hleft⟩ := hwhole hok
    obtain ⟨hpid, -, hfit, -⟩ := hproc
    obtain ⟨k, m, hreg, hsuccess, hnoted, hm⟩ := Procinfo.init_registers (c := p.procinfo) h.inv hfit hok
    have hmask : (if (Procinfo.init S p.procinfo n.procinfo p.id p.preinitPid mask false).2.error = .noted then
        (Procinfo.init S p.procinfo n.procinfo p.id p.preinitPid mask false).2.mask.getD ∅ else mask) = m := by
      split
      · rename_i hn
        rw [hnoted hn, Option.getD_some]
      · rename_i hn
        exact (hsuccess (hok.resolve_right hn)).symm
    have hexec : (exec S p n (.init mask)).node = ⟨(Procinfo.init S p.procinfo n.procinfo p.id p.preinitPid mask false).1,
        (Cpuinfo.init S p.cpuinfo n.cpuinfo p.id p.preinitPid m).1⟩ := by
      rw [← hmask]
      exact congrArg Result.node (if_neg hfail)
    rw [hexec] at h1 ⊢
    have hregistrable : Cpuinfo.Registrable S n.cpuinfo p.id p.preinitPid m := by
      rcases hm with rfl | ⟨hempty, hpre, q, hq, rfl⟩
      · exact hobtain.1
      · exact hobtain.2 hempty hpre q hq
    have hcpuinfo : (Cpuinfo.init S p.cpuinfo n.cpuinfo p.id p.preinitPid m).2 = .success :=
      (Cpuinfo.init_success_iff h.started.unowned).mpr hregistrable
    have hlt : ∀ i c, c ∈ (n.procinfo.processInfo i).currentProcessMask ∨
        c ∈ (n.procinfo.processInfo i).futureProcessMask → c < S.size := by
      intro i c hc
      cases hinit : n.procinfo.initialized with
      | true => exact lt_size_of_held (h.inv.sound hinit) hc
      | false =>
        rw [h.inv.zeroed hinit] at hc
        exact absurd hc (by simp)
    have hs1 := h1.sound (h1.bounded.initialized (i := k) (by rw [hreg.slot]; exact hpid))
    exact h.shows.registers h.inv.ok hlt hs1 hreg hleft (Cpuinfo.init_owner h.started.unowned hcpuinfo)

theorem Matched.preInit_shows {flags : Procinfo.DromFlags} (h : Matched S n)
    (h1 : Procinfo.Inv S (exec S p n (.preInit pid mask flags)).node.procinfo)
    (hproc : Procinfo.Admitted S p.procinfo n.procinfo (.preinit pid mask flags)) (hpid : pid ≠ 0)
    (hwhole : Whole S p n (.preInit pid mask flags)) :
    Shows (exec S p n (.preInit pid mask flags)).node.procinfo (owners (exec S p n (.preInit pid mask flags)).node) := by
  unfold Whole at hwhole
  unfold exec preInit at h1 ⊢
  cases hinit : n.procinfo.initialized with
  | false =>
    simp only [Procinfo.exec, hinit, Bool.not_false, if_true]
    exact h.shows
  | true =>
    have hs := h.inv.sound hinit
    simp only [Procinfo.exec, hinit, Bool.not_true, Bool.false_eq_true, if_false] at h1 hwhole ⊢
    split
    · rename_i hfail
      exact h.shows.defers h.inv.ok (Procinfo.preinit_failed hs hproc hfail)
    · rename_i hok
      rw [if_neg hok] at h1
      obtain ⟨k, hreg⟩ := Procinfo.preinit_registers hs (not_not.mp hok)
      have hsuccess : (Cpuinfo.extPreinit S p.cpuinfo n.cpuinfo pid mask flags.stealCpus).2 = .success := by
        cases hsteal : flags.stealCpus with
        | true => exact Cpuinfo.extPreinit_steals
        | false => exact (Cpuinfo.extPreinit_success_iff h.started.unowned).mpr (hwhole (not_not.mp hok) hsteal)
      have hs1 := h1.sound (h1.bounded.initialized (i := k) (by rw [hreg.slot]; exact hpid))
      exact h.shows.registers h.inv.ok (fun i c hc => lt_size_of_held hs hc) hs1 hreg (fun h0 => absurd rfl h0)
        (Cpuinfo.extPreinit_owner h.started.unowned hsuccess)

theorem Matched.finish_shows (h : Matched S n) (hup : Up p n) :
    Shows (exec S p n .finish).node.procinfo (owners (exec S p n .finish).node) := by
  obtain ⟨hid, k, hown, hk⟩ := hup
  have hk0 : (n.procinfo.processInfo k).pid ≠ 0 := hk ▸ hid
  have hinit := h.inv.bounded.initialized hk0
  have hs := h.sound hk0
  have hfinalize : Procinfo.exec S p.procinfo n.procinfo (.finalize p.id p.parents p.returnStolen) =
      ((Procinfo.unregisterMask S n.procinfo k (n.procinfo.processInfo k).effective p.returnStolen).set k {},
        { error := .success }) := by
    simp only [Procinfo.exec, hinit, Bool.not_true, Bool.false_eq_true, if_false]
    rw [Procinfo.finalize, Procinfo.getProcess_own hown hk]
  have howner : ∀ c, owners (exec S p n .finish).node c =
      if c < S.size ∧ owners n c = p.id then 0 else owners n c := by
    intro c
    rw [owners, exec, finish]
    rw [Cpuinfo.finalize_owner]
    split
    · rw [Cpuinfo.shmemDeregister_owner_eq]
      by_cases ho : c < S.size ∧ owners n c = p.id
      · have hcond : c < S.size ∧ (n.cpuinfo.nodeInfo c).owner = p.id := ho
        rw [if_pos ho, if_pos hcond]
        split
        · rfl
        · rfl
      · have hcond : ¬(c < S.size ∧ (n.cpuinfo.nodeInfo c).owner = p.id) := ho
        rw [if_neg ho, if_neg hcond, if_neg hcond]
        rfl
    · rfl
  have hnode : (exec S p n .finish).node.procinfo =
      (Procinfo.unregisterMask S n.procinfo k (n.procinfo.processInfo k).effective p.returnStolen).set k {} := by
    rw [exec, finish]
    rw [hfinalize]
  rw [hnode]
  refine h.shows.leaves hs h.unique hk (by rw [Procinfo.set_same_slot]) (fun i hi => ?_) howner
  rw [Procinfo.set_other_slot _ _ hi]
  exact Procinfo.unregisterMask_defers n.procinfo _ p.returnStolen hi

theorem Matched.takes_shows {k : ℕ} (h : Matched S n) (hs1 : Procinfo.Sound S d1)
    (hk : (n.procinfo.processInfo k).pid = p.id) (hid : p.id ≠ 0)
    (ht : Procinfo.Takes n.procinfo d1 k {c ∈ mask | c < S.size})
    (halive : (updateOwnership S p n d1 mask).dies = false) :
    Shows d1 (owners (updateOwnership S p n d1 mask).node) :=
  h.shows.takes (h.sound (hk ▸ hid)) hs1 h.unique hk ht (Cpuinfo.shmemUpdateOwnership_owner halive)

theorem Matched.pollDrom_shows (h : Matched S n) (h1 : Procinfo.Inv S (exec S p n .pollDrom).node.procinfo)
    (hup : Up p n) (halive : (exec S p n .pollDrom).dies = false) :
    Shows (exec S p n .pollDrom).node.procinfo (owners (exec S p n .pollDrom).node) := by
  obtain ⟨hid, k, hown, hk⟩ := hup
  have hk0 : (n.procinfo.processInfo k).pid ≠ 0 := hk ▸ hid
  have hinit := h.inv.bounded.initialized hk0
  have hs := h.sound hk0
  have hget := Procinfo.getProcess_own hown hk p.parents
  have hproc : Procinfo.exec S p.procinfo n.procinfo (.polldrom p.id p.parents) =
      Procinfo.polldrom p.procinfo n.procinfo p.id p.parents := by
    simp only [Procinfo.exec, hinit, Bool.not_true, Bool.false_eq_true, if_false]
  unfold exec pollDrom at h1 halive ⊢
  rw [hproc] at h1 halive ⊢
  dsimp only at h1 halive ⊢
  split
  · exact h.shows
  · rename_i hdrom
    rw [if_neg hdrom] at h1 halive
    split
    · rename_i hok
      rw [if_pos hok] at h1 halive
      obtain ⟨ht, hmask⟩ := Procinfo.polldrom_takes hget hok
      rw [hmask] at h1 halive ⊢
      have hs1 := h1.sound (h1.bounded.initialized (i := k) (ht.pid.symm ▸ hk0))
      have hall : {c ∈ (n.procinfo.processInfo k).futureProcessMask | c < S.size} =
          (n.procinfo.processInfo k).futureProcessMask :=
        Finset.filter_true_of_mem fun c hc => System.lt_size (hs.future_subset k hc)
      rw [← hall] at ht
      exact h.takes_shows hs1 hk hid ht halive
    · rename_i hfail
      have hsame : (Procinfo.polldrom p.procinfo n.procinfo p.id p.parents).1 = n.procinfo := by
        unfold Procinfo.polldrom at hfail ⊢
        rw [hget] at hfail ⊢
        dsimp only at hfail ⊢
        split
        · rename_i hd
          rw [if_pos hd] at hfail
          exact absurd rfl hfail
        · rfl
      rw [hsame]
      exact h.shows

theorem isSelf_iff (hproper : if p.dlbInitialized then Up p n else p.procinfo.myPinfo = none) {k : ℕ} :
    Procinfo.isSelf p.procinfo n.procinfo pid = some k ↔ p.dlbInitialized = true ∧ (pid = 0 ∨ pid = p.id) ∧
      p.procinfo.myPinfo = some k := by
  unfold Procinfo.isSelf
  split at hproper
  · rename_i hinit
    obtain ⟨-, i, hown, hi⟩ := hproper
    rw [hown]
    dsimp only
    rw [hi]
    simp only [hinit, true_and, Option.some.injEq, eq_comm (a := pid) (b := p.id)]
    split
    · rename_i hself
      simp [hself]
    · rename_i hself
      simp [hself]
  · rename_i hinit
    simp [hproper, hinit]

theorem Matched.setprocessmask_shows {parents : List Pid} {flags : Procinfo.DromFlags} (h : Matched S n)
    (h1 : Procinfo.Inv S (exec S p n (.dromSetprocessmask pid parents mask flags)).node.procinfo)
    (hproper : Proper p n (.dromSetprocessmask pid parents mask flags))
    (halive : (exec S p n (.dromSetprocessmask pid parents mask flags)).dies = false) :
    Shows (exec S p n (.dromSetprocessmask pid parents mask flags)).node.procinfo
      (owners (exec S p n (.dromSetprocessmask pid parents mask flags)).node) := by
  have hproper : if p.dlbInitialized then Up p n else p.procinfo.myPinfo = none := hproper
  have hself : ∀ {k}, Procinfo.isSelf p.procinfo n.procinfo pid = some k ↔ _ := isSelf_iff hproper
  cases hinit : n.procinfo.initialized with
  | false =>
    have hproc : Procinfo.exec S p.procinfo n.procinfo (.setprocessmask pid parents mask flags) =
        (n.procinfo, { error := .errNoshmem }) := by
      simp only [Procinfo.exec, hinit, Bool.not_false, if_true]
    rw [exec, dromSetprocessmask, hproc]
    exact h.shows
  | true =>
    have hs := h.inv.sound hinit
    have hproc : Procinfo.exec S p.procinfo n.procinfo (.setprocessmask pid parents mask flags) =
        Procinfo.setprocessmask S p.procinfo n.procinfo pid parents mask flags := by
      simp only [Procinfo.exec, hinit, Bool.not_true, Bool.false_eq_true, if_false]
    rw [exec, dromSetprocessmask, hproc] at h1 halive ⊢
    split
    · rename_i hown
      rw [if_pos hown] at h1 halive
      obtain ⟨hok, hdlb, hpid, hsync⟩ := hown
      rw [if_pos hdlb] at hproper
      obtain ⟨hid, k, hmine, hk⟩ := hproper
      have ht := Procinfo.setprocessmask_takes hs (hself.mpr ⟨hdlb, hpid, hmine⟩) (hk ▸ hid) hok (by simpa using hsync)
      have hs1 := h1.sound (h1.bounded.initialized (i := k) (ht.pid.symm ▸ hk ▸ hid))
      exact h.takes_shows hs1 hk hid ht halive
    · rename_i hlate
      refine h.shows.defers h.inv.ok (Procinfo.setprocessmask_defers hs (fun k hk => ?_) fun hsome hsync hok => ?_)
      · obtain ⟨hdlb, -, hmine⟩ := hself.mp hk
        rw [if_pos hdlb] at hproper
        obtain ⟨hid, i, hi, hpid⟩ := hproper
        obtain rfl : i = k := Option.some.inj (hi.symm.trans hmine)
        exact hpid ▸ hid
      · obtain ⟨k, hk⟩ := Option.isSome_iff_exists.mp hsome
        obtain ⟨hdlb, hpid, -⟩ := hself.mp hk
        exact hlate ⟨hok, hdlb, hpid, by simp [hsync]⟩

theorem Matched.exec (h : Matched S n) (ha : Admitted S p n call) : Matched S (exec S p n call).node := by
  have hinv : Procinfo.Inv S (Kernel.exec S p n call).node.procinfo ∧
      Procinfo.Unique (Kernel.exec S p n call).node.procinfo := by
    rcases exec_procinfo S p n call with heq | ⟨c, hc, heq⟩
    · rw [heq]
      exact ⟨h.inv, h.unique⟩
    · rw [heq]
      exact ⟨Procinfo.exec_inv h.inv (ha.admitted c hc), Procinfo.exec_unique h.inv.bounded h.unique (ha.noticed c hc)⟩
  refine ⟨hinv.1, hinv.2, h.started.exec ha.proper, ?_⟩
  cases call with
  | attach =>
    refine h.shows.defers h.inv.ok fun i => .inl ?_
    have htable : (Procinfo.extInit S p.procinfo n.procinfo).1.processInfo = n.procinfo.processInfo := by
      unfold Procinfo.extInit
      split
      · rfl
      · rfl
    show ((n.procinfo.processInfo i).Defers ((Procinfo.extInit S p.procinfo n.procinfo).1.processInfo i))
    rw [htable]
    exact .refl _
  | init mask => exact h.init_shows hinv.1 (ha.admitted _ rfl) ha.whole
  | preInit pid mask flags => exact h.preInit_shows hinv.1 (ha.admitted _ rfl) ha.proper ha.whole
  | finish => exact h.finish_shows ha.proper
  | pollDrom => exact h.pollDrom_shows hinv.1 ha.proper ha.alive
  | dromSetprocessmask pid parents mask flags => exact h.setprocessmask_shows hinv.1 ha.proper ha.alive
  | closeProcinfo =>
    unfold Kernel.exec
    simp only [Procinfo.exec, Procinfo.closeShmem]
    split
    · exact h.shows
    · dsimp only
      split
      · rename_i hempty
        have hz := pid_of_isShmemEmpty h.inv.bounded hempty
        exact shows_empty (fun _ => rfl) (h.shows.empty hz)
      · exact h.shows
  | closeCpuinfo =>
    unfold Kernel.exec closeCpuinfo
    by_cases hempty : n.procinfo.isShmemEmpty = true ∧ ∀ c < S.size, (n.cpuinfo.nodeInfo c).owner = 0
    · refine shows_empty (pid_of_isShmemEmpty h.inv.bounded hempty.1) fun c => ?_
      rw [owners]
      rw [if_pos hempty]
    · rw [if_neg hempty]
      exact h.shows

theorem reachable_matched (h : Reachable S (Admitted S) n) : Matched S n := by
  refine Lib.Run.invariant h ⟨Procinfo.inv_zeroed S, fun i j hi => absurd rfl hi, started_zeroed, ?_⟩ ?_
  · exact shows_empty (fun _ => rfl) fun _ => rfl
  · rintro n _ hn ⟨p, call, ha⟩
    exact hn.exec ha

/-- **Procinfo and cpuinfo agree on ownership.** In every state that admitted operations reach and in which no registered
process is dirty, the owner of each CPU in cpuinfo is the process in whose current mask it is. -/
theorem ownership_agrees (h : Reachable S (Admitted S) n)
    (hclean : ∀ i, (n.procinfo.processInfo i).pid ≠ 0 → (n.procinfo.processInfo i).dirty = false) :
    ∀ c pid, pid ≠ 0 → ((n.cpuinfo.nodeInfo c).owner = pid ↔
      ∃ i, (n.procinfo.processInfo i).pid = pid ∧ c ∈ (n.procinfo.processInfo i).currentProcessMask) := by
  have hm := reachable_matched h
  intro c pid hpid
  constructor
  · intro ho
    obtain ⟨i, hi, hheld⟩ := hm.shows.owned c (by rw [owners, ho]; exact hpid)
    have hi : (n.procinfo.processInfo i).pid = pid := hi.trans ho
    refine ⟨i, hi, hheld.elim id fun hc => ?_⟩
    rwa [(hm.inv.ok i).clean (hclean i (hi ▸ hpid))]
  · rintro ⟨i, rfl, hc⟩
    exact hm.shows.shown i hpid (hclean i hpid) c hc

/-- Process `1` has CPUs `0` and `1`, another process takes CPU `1` from it, and it polls: it owns CPU `0`. -/
theorem ownership_agrees_polled :
    (((shrunk ++ [(running 1 0, Call.pollDrom)]).foldl (next Procinfo.threeCpus) {}).cpuinfo.nodeInfo 0).owner = 1 := by
  have hrun : Reachable Procinfo.threeCpus (Admitted Procinfo.threeCpus)
      ((shrunk ++ [(running 1 0, Call.pollDrom)]).foldl (next Procinfo.threeCpus) {}) := by
    refine along_run ⟨?_, ?_, ?_, trivial⟩
    · refine ⟨Nat.one_ne_zero, by decide, ?_, ?_, ?_⟩
      · rintro _ ⟨⟩
        exact ⟨Nat.one_ne_zero, rfl, by unfold Fits; decide, fun h => absurd rfl h⟩
      · rintro _ ⟨⟩
        exact fun hpid _ => ⟨fun i ht => absurd ht.1.symm hpid, fun h => absurd h hpid⟩
      · exact fun _ => ⟨⟨fun c _ _ => .inl rfl, fun _ h0 => absurd rfl h0⟩, fun h0 => absurd rfl h0⟩
    · refine ⟨rfl, by decide, ?_, ?_, trivial⟩
      · rintro _ ⟨⟩ p ⟨⟩
      · rintro _ ⟨⟩
        trivial
    · refine ⟨⟨Nat.one_ne_zero, 0, rfl, by decide⟩, by decide, ?_, ?_, trivial⟩
      · rintro _ ⟨⟩
        trivial
      · rintro _ ⟨⟩
        trivial
  refine (ownership_agrees hrun (fun i hi => ?_) 0 1 Nat.one_ne_zero).mpr ⟨0, by decide, by decide⟩
  have hlt := (reachable_matched hrun).inv.bounded.lt_num hi
  have hnum : i < 1 := lt_of_lt_of_eq hlt (by decide)
  obtain rfl : i = 0 := by omega
  decide

/-- Process `2` registers with the CPU that process `1` has lost, before process `1` polls: cpuinfo refuses it, and once
process `1` has polled nobody is dirty and the CPU of process `2` has no owner. -/
theorem registered_without_owner :
    ¬∀ n, Reachable Procinfo.threeCpus (fun p n call => Proper p n call ∧ (exec Procinfo.threeCpus p n call).dies = false) n →
      (∀ i, (n.procinfo.processInfo i).pid ≠ 0 → (n.procinfo.processInfo i).dirty = false) →
      ∀ c, c < Procinfo.threeCpus.size → ∀ pid, pid ≠ 0 → ((n.cpuinfo.nodeInfo c).owner = pid ↔
        ∃ i, (n.procinfo.processInfo i).pid = pid ∧ c ∈ (n.procinfo.processInfo i).currentProcessMask) := by
  intro h
  have hrun : Reachable Procinfo.threeCpus
      (fun p n call => Proper p n call ∧ (exec Procinfo.threeCpus p n call).dies = false)
      ((shrunk ++ [(process 2, Call.init {1}), (running 1 0, Call.pollDrom)]).foldl (next Procinfo.threeCpus) {}) := by
    refine along_run ⟨?_, ?_, ?_, ?_, trivial⟩
    · exact ⟨Nat.one_ne_zero, by decide⟩
    · exact ⟨rfl, by decide⟩
    · exact ⟨by unfold Proper; decide, by decide⟩
    · exact ⟨⟨Nat.one_ne_zero, 0, rfl, by decide⟩, by decide⟩
  have hclean := h _ hrun ?_ 1 (by decide) 2 (by decide)
  · exact absurd (hclean.mpr ⟨1, by decide, by decide⟩) (by decide)
  · intro i hi
    have hstarted : Started _ := Lib.Run.invariant hrun started_zeroed fun n _ hn hstep => by
      obtain ⟨p, call, hcall⟩ := hstep
      exact hn.exec hcall.1
    have hlt := hstarted.bounded.lt_num hi
    have hnum : i < 2 := lt_of_lt_of_eq hlt (by decide)
    obtain rfl | rfl : i = 0 ∨ i = 1 := by omega
    · decide
    · decide

theorem owner_has_not_polled (h : Reachable S (Admitted S) n) {c : ℕ} (ho : (n.cpuinfo.nodeInfo c).owner ≠ 0)
    (hnot : ∀ i, (n.procinfo.processInfo i).pid = (n.cpuinfo.nodeInfo c).owner →
      c ∉ (n.procinfo.processInfo i).effective) :
    ∃ i, (n.procinfo.processInfo i).pid = (n.cpuinfo.nodeInfo c).owner ∧ (n.procinfo.processInfo i).dirty = true ∧
      c ∈ (n.procinfo.processInfo i).currentProcessMask := by
  have hm := reachable_matched h
  obtain ⟨i, hi, hheld⟩ := hm.shows.owned c ho
  have hi : (n.procinfo.processInfo i).pid = (n.cpuinfo.nodeInfo c).owner := hi
  have hout := hnot i hi
  have hfuture : c ∉ (n.procinfo.processInfo i).futureProcessMask := (hm.inv.ok i).effective ▸ hout
  refine ⟨i, hi, ?_, hheld.resolve_right hfuture⟩
  by_contra hd
  rw [← (hm.inv.ok i).clean (by simpa using hd)] at hfuture
  exact hfuture (hheld.resolve_right (by rwa [← (hm.inv.ok i).clean (by simpa using hd)]))

end Dlb.Kernel

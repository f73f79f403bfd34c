import Dlb.Cpuinfo.Regain
import Dlb.Cpuinfo.Spares
import Dlb.LewiMask.Blocking

/-!
# Threads in blocking calls

The process owns the CPUs of its mask while it takes part (`Owns`), and does nothing else than its blocking calls
(`OwnCalls`). Its CPUs are lent while their threads are inside, else they are busy (`Tracked`): other processes change
neither.

* `into_tracked`: a thread that enters a blocking call lends its CPUs;
* `outOf_accurate_iff`: a thread that leaves gets them back exactly if no other thread is inside with CPUs and
  `shmem_cpuinfo__acquire_from_cpu_subset` gets to each of them.
-/

namespace Dlb.LewiMask

open List Function Cpuinfo

variable {τ : Type*} [DecidableEq τ] {S : System} {T : Threads S τ} {s : BlockingState τ} {c : ℕ} {t t' : τ}

/-! ## Masks of threads -/

theorem getMask_subset (keep : Bool) (mask : CpuSet) : getMaskForBlockingCall S keep mask ⊆ mask := by
  unfold getMaskForBlockingCall
  split
  · split
    · exact muSubtract_subset
    · exact subset_rfl
  · exact subset_rfl

omit [DecidableEq τ] in
theorem Threads.blocking_affinity (t : τ) : T.blocking t ⊆ T.affinity t := getMask_subset _ _

omit [DecidableEq τ] in
theorem Threads.blocking_process (t : τ) : T.blocking t ⊆ T.processMask := (T.blocking_affinity t).trans (T.inside t)

theorem Threads.thread_unique (h : c ∈ T.affinity t) (h' : c ∈ T.affinity t') : t = t' := by
  by_contra hne
  exact Finset.disjoint_left.mp (T.disjoint t t' hne) h h'

omit [DecidableEq τ] in
theorem Threads.fits_blocking (t : τ) : Fits S (T.blocking t) := fits_of_subset ((T.blocking_process t).trans T.system)

theorem muCount_pos {mask : CpuSet} (h : Fits S mask) : 0 < muCount S mask ↔ mask.Nonempty := by
  unfold muCount
  rw [Finset.filter_true_of_mem h, Finset.card_pos]

theorem muIsSubset_iff {mask1 mask2 : CpuSet} (h : Fits S mask1) : muIsSubset S mask1 mask2 = true ↔ mask1 ⊆ mask2 := by
  unfold muIsSubset
  rw [Finset.filter_true_of_mem h, decide_eq_true_iff]

/-! ## What the process owns -/

namespace BlockingState

/-- The union of the masks of the threads that are inside. -/
def Inside (T : Threads S τ) (s : BlockingState τ) (c : ℕ) : Prop := ∃ t, s.inside t = true ∧ c ∈ T.blocking t

/-- While the process takes part, it owns the CPUs of its mask. -/
def Owns (T : Threads S τ) (s : BlockingState τ) : Prop :=
  s.mask.node.phase T.id ≠ .out → ∀ c ∈ T.processMask, (s.mask.node.shm.nodeInfo c).owner = T.id

/-- The process starts, and makes its blocking calls; other processes do what they want. -/
def OwnCalls (T : Threads S τ) : BlockingEvent τ → Prop
  | .node (.op _ q (.init _ mask)) => q = T.id → mask = T.processMask
  | .node (.op _ _ (.lewiInit _)) => True
  | .node (.op _ q _) => q ≠ T.id
  | _ => True

/-- A thread that can leave its blocking call does so. -/
def Leaves (T : Threads S τ) (s : BlockingState τ) (t : τ) : Prop :=
  isActive (s.mask.node.phase T.id) ∧ s.inside t = true

instance (t : τ) : Decidable (s.Leaves T t) := inferInstanceAs (Decidable (_ ∧ _))

/-- `in_mpi_cpus` is the union of the masks of the threads inside, and a thread that leaves has its CPUs busy. -/
def Accurate (T : Threads S τ) (s : BlockingState τ) (e : BlockingEvent τ) : Prop :=
  (∀ c, c ∈ (s.next T e).mask.lewiInfo.inMpiCpus ↔ (s.next T e).Inside T c) ∧
    match e with
    | .outOf _ t => s.Leaves T t → ∀ c ∈ T.affinity t, ((s.next T e).mask.node.shm.nodeInfo c).state = .busy
    | _ => True

/-- A thread with CPUs leaves its blocking call as the only one with CPUs that is inside, and acquiring gets to each of
them. -/
def LeavesAlone (T : Threads S τ) (s : BlockingState τ) : BlockingEvent τ → Prop
  | .outOf _ t => s.Leaves T t → T.blocking t ≠ ∅ →
      (∀ t', t' ≠ t → s.inside t' = true → T.blocking t' = ∅) ∧
        ∀ c ∈ T.blocking t, Regains S T.id { s.mask.node.shm with tasks := [] } c
  | _ => True

/-- What `in_mpi_cpus` and the states of the own CPUs are. -/
structure Tracked (T : Threads S τ) (s : BlockingState τ) : Prop where
  inMpi : ∀ c, c ∈ s.mask.lewiInfo.inMpiCpus ↔ s.Inside T c
  owner : s.Owns T
  state : s.mask.node.phase T.id ≠ .out → ∀ c ∈ T.processMask, (s.mask.node.shm.nodeInfo c).state =
    if c ∈ s.mask.lewiInfo.inMpiCpus then .lent else .busy
  active : ∀ t, s.inside t = true → isActive (s.mask.node.phase T.id) = true

omit [DecidableEq τ] in
theorem Tracked.fits (h : s.Tracked T) : Fits S s.mask.lewiInfo.inMpiCpus := by
  intro c hc
  obtain ⟨t, -, hct⟩ := (h.inMpi c).mp hc
  exact T.fits_blocking t c hct

omit [DecidableEq τ] in
theorem Tracked.empty (h : s.Tracked T) (hphase : isActive (s.mask.node.phase T.id) = false) :
    s.mask.lewiInfo.inMpiCpus = ∅ := by
  refine Finset.eq_empty_of_forall_notMem fun c hc => ?_
  obtain ⟨t, ht, -⟩ := (h.inMpi c).mp hc
  rw [h.active t ht] at hphase
  exact nomatch hphase

/-! ## Other processes -/

omit [DecidableEq τ] in
theorem Tracked.spares (h : s.Tracked T) {n : AsyncNode} (hphase : n.phase T.id = s.mask.node.phase T.id)
    (hspares : Spares T.id s.mask.node.shm n.shm)
    (howns : Owns T { s with mask := { s.mask with node := n } }) : Tracked T { s with mask := { s.mask with node := n } } where
  inMpi := h.inMpi
  owner := howns
  state hout c hc := by
    have ho : (n.shm.nodeInfo c).owner = T.id := howns hout c hc
    have hout' : s.mask.node.phase T.id ≠ .out := hphase ▸ hout
    exact (hspares c ho).2.trans (h.state hout' c hc)
  active t ht := by
    change isActive (n.phase T.id) = true
    rw [hphase]
    exact h.active t ht

/-! ## The process starts -/

theorem registerCpu_busy {l : List ℕ} {p q : Pid} {d : Shdata}
    (h : c ∈ l ∨ (d.nodeInfo c).state = .busy) : ((l.foldl (registerCpu S p q) d).nodeInfo c).state = .busy := by
  induction l generalizing d with
  | nil => exact h.resolve_left not_mem_nil
  | cons x l ih =>
    refine ih ?_
    by_cases hx : c = x
    · refine .inr ?_
      change (update d.nodeInfo x _ c).state = .busy
      rw [hx, update_self]
    · refine h.imp (fun hc => (mem_cons.mp hc).resolve_left hx) fun hbusy => ?_
      change (update d.nodeInfo x _ c).state = .busy
      rwa [update_of_ne hx]

theorem init_busy {co : Caller} {p preinitPid : Pid} {mask : CpuSet} {d : Shdata} (hmask : mask ⊆ S.sysMask)
    (hok : (Cpuinfo.init S co d p preinitPid mask).2 = .success) (hc : c ∈ mask) :
    ((Cpuinfo.init S co d p preinitPid mask).1.nodeInfo c).state = .busy := by
  unfold Cpuinfo.init at hok ⊢
  dsimp only at hok ⊢
  split at hok
  · rename_i hfail
    exact absurd hok hfail
  rename_i hsuccess
  unfold registerProcess at hok ⊢
  split at hok
  · rename_i hempty
    exact absurd (hempty ▸ hc) (Finset.notMem_empty c)
  split at hok
  · exact nomatch hok
  rename_i hne hperm
  rw [if_neg hne, if_neg hperm]
  exact registerCpu_busy (.inl (mem_filter.mpr
    ⟨mem_range.mpr (System.lt_size (hmask hc)), decide_eq_true hc⟩))

theorem allowed_init {preinitPid : Pid} {mask : CpuSet} {phase : Phase} (h : (Op.init preinitPid mask).allowed phase = true) :
    phase = .out := by
  cases phase with
  | out => rfl
  | _ => exact nomatch h

theorem allowed_lewiInit {async : Bool} {phase : Phase} (h : (Op.lewiInit async).allowed phase = true) :
    phase = .joined := by
  cases phase with
  | joined => rfl
  | _ => exact nomatch h

theorem next_node {e : Event} (h : resetsInfo T.id (s.mask.node.phase T.id) e = false) :
    s.next T (.node e) = { s with mask := { s.mask with node := s.mask.node.next S e } } := by
  unfold next
  dsimp only
  rw [h, if_neg Bool.false_ne_true]

theorem Tracked.init (h : s.Tracked T) {co : Caller} {preinitPid : Pid}
    (hallowed : (Op.init preinitPid T.processMask).allowed (s.mask.node.phase T.id) = true)
    (howns : (s.next T (.node (.op co T.id (.init preinitPid T.processMask)))).Owns T) :
    (s.next T (.node (.op co T.id (.init preinitPid T.processMask)))).Tracked T := by
  have hout := allowed_init hallowed
  have hempty : s.mask.lewiInfo.inMpiCpus = ∅ := h.empty (by rw [hout]; rfl)
  have hnext : s.mask.node.next S (.op co T.id (.init preinitPid T.processMask)) =
      s.mask.node.perform S co T.id (.init preinitPid T.processMask) := if_pos hallowed
  rw [next_node rfl, hnext] at howns ⊢
  have hphase : (s.mask.node.perform S co T.id (.init preinitPid T.processMask)).phase T.id =
      if (Cpuinfo.init S co { s.mask.node.shm with tasks := [] } T.id preinitPid T.processMask).2 ≠ .success then .out
      else .joined := by
    unfold AsyncNode.perform Op.exec Op.phase
    dsimp only
    split <;> simp_all
  refine ⟨h.inMpi, howns, fun hin c hc => ?_, fun t ht => ?_⟩
  · change (s.mask.node.perform S co T.id (.init preinitPid T.processMask)).phase T.id ≠ .out at hin
    rw [hphase] at hin
    rw [hempty, if_neg (Finset.notMem_empty c)]
    split at hin
    · exact absurd rfl hin
    · rename_i hok
      exact init_busy T.system (not_not.mp hok) hc
  · have hactive := h.active t ht
    rw [hout] at hactive
    exact nomatch hactive

theorem Tracked.lewiInit (h : s.Tracked T) {co : Caller} {async : Bool}
    (hallowed : (Op.lewiInit async).allowed (s.mask.node.phase T.id) = true)
    (howns : (s.next T (.node (.op co T.id (.lewiInit async)))).Owns T) :
    (s.next T (.node (.op co T.id (.lewiInit async)))).Tracked T := by
  have hjoined := allowed_lewiInit hallowed
  have hinactive : isActive (s.mask.node.phase T.id) = false := by rw [hjoined]; rfl
  have hnobody : ∀ t, s.inside t = false := by
    intro t
    by_contra ht
    rw [h.active t (Bool.eq_true_of_not_eq_false ht)] at hinactive
    exact nomatch hinactive
  have hresets : resetsInfo T.id (s.mask.node.phase T.id) (.op co T.id (.lewiInit async)) = true :=
    decide_eq_true ⟨rfl, hallowed⟩
  have hnext : s.next T (.node (.op co T.id (.lewiInit async))) =
      { s with mask := ⟨s.mask.node.perform S co T.id (.lewiInit async), {}⟩ } := by
    unfold next AsyncNode.next
    dsimp only
    rw [if_pos hresets, if_pos hallowed]
  rw [hnext] at howns ⊢
  refine ⟨fun c => ?_, howns, fun _ c hc => ?_, fun t ht => ?_⟩
  · refine iff_of_false (Finset.notMem_empty c) ?_
    rintro ⟨t, ht, -⟩
    rw [hnobody t] at ht
    exact nomatch ht
  · have hstate := h.state (by rw [hjoined]; exact nofun) c hc
    rw [h.empty hinactive] at hstate
    have hinfo : (s.mask.node.perform S co T.id (.lewiInit async)).shm.nodeInfo = s.mask.node.shm.nodeInfo := by
      unfold AsyncNode.perform Op.exec
      dsimp only
      split <;> rfl
    rw [hinfo]
    exact hstate
  · rw [hnobody t] at ht
    exact nomatch ht

theorem Tracked.node (h : s.Tracked T) {e : Event} (hcalls : OwnCalls T (.node e)) (howns : (s.next T (.node e)).Owns T) :
    (s.next T (.node e)).Tracked T := by
  cases e with
  | resolve i =>
    refine h.spares ?_ ?_ howns
    · unfold AsyncNode.next
      dsimp only
      split <;> rfl
    · unfold AsyncNode.next
      dsimp only
      split
      · exact returnAsyncCpuMask_spares _
      · exact .refl _
  | op co q op =>
    by_cases hallowed : op.allowed (s.mask.node.phase q) = true
    · have hnext : s.mask.node.next S (.op co q op) = s.mask.node.perform S co q op := if_pos hallowed
      by_cases hq : q = T.id
      · subst hq
        cases op with
        | init preinitPid mask =>
          obtain rfl := hcalls rfl
          exact h.init hallowed howns
        | lewiInit async => exact h.lewiInit hallowed howns
        | lewi call => exact absurd rfl hcalls
        | removeRequests => exact absurd rfl hcalls
        | checkCpuAvailability before cpuid => exact absurd rfl hcalls
        | updateOwnership hasTasks mask => exact absurd rfl hcalls
        | deregister => exact absurd rfl hcalls
        | finalize => exact absurd rfl hcalls
      · have hkeeps : resetsInfo T.id (s.mask.node.phase T.id) (.op co q op) = false := by
          unfold resetsInfo
          split
          · rename_i heq
            cases heq
            exact decide_eq_false fun h => hq h.1
          · rfl
        rw [next_node hkeeps, hnext] at howns ⊢
        refine h.spares ?_ (exec_spares T.id_ne hq co op) howns
        exact update_of_ne (Ne.symm hq) _ _
    · have hnext : s.mask.node.next S (.op co q op) = s.mask.node := if_neg hallowed
      have hkeeps : resetsInfo T.id (s.mask.node.phase T.id) (.op co q op) = false := by
        unfold resetsInfo
        split
        · rename_i heq
          cases heq
          refine decide_eq_false fun h => hallowed ?_
          rw [h.1]
          exact h.2
        · rfl
      rw [next_node hkeeps, hnext] at howns ⊢
      exact h

/-! ## A thread enters a blocking call -/

theorem lendCpu_states {p : Pid} {l : List ℕ} {d : Shdata}
    (hl : ∀ c ∈ l, (d.nodeInfo c).owner = p ∧ (d.nodeInfo c).state ≠ .disabled) (c : ℕ) :
    ((l.foldl (lendCpu S p) d).nodeInfo c).owner = (d.nodeInfo c).owner ∧
      ((l.foldl (lendCpu S p) d).nodeInfo c).state = if c ∈ l then .lent else (d.nodeInfo c).state := by
  induction l generalizing d with
  | nil => exact ⟨rfl, (if_neg not_mem_nil).symm⟩
  | cons x l ih =>
    obtain ⟨⟨hox, hsx⟩, hrest⟩ := forall_mem_cons.mp hl
    have hlent : Lent S p x d (lendCpu S p d x) := lendCpu_lent hsx
    have hstate : ∀ y, ((lendCpu S p d x).nodeInfo y).state = if y = x then .lent else (d.nodeInfo y).state := by
      intro y
      rw [hlent.state y]
      unfold lentInfo
      rw [if_pos hox]
    obtain ⟨ho, hs⟩ := ih fun y hy => ⟨(hlent.owner y).trans (hrest y hy).1, by
      rw [hstate y]
      split
      · exact nofun
      · exact (hrest y hy).2⟩
    refine ⟨ho.trans (hlent.owner c), hs.trans ?_⟩
    rw [hstate c]
    by_cases hc : c ∈ l
    · rw [if_pos hc, if_pos (mem_cons_of_mem x hc)]
    · rw [if_neg hc]
      exact if_congr ⟨fun h => h ▸ mem_cons_self, fun h => (mem_cons.mp h).resolve_right hc⟩ rfl rfl

theorem perform_phase {n : AsyncNode} {co : Caller} {p : Pid} {call : Call} :
    (n.perform S co p (.lewi call)).phase = n.phase := update_eq_self _ _

theorem Tracked.into (h : s.Tracked T) (co : Caller) (t : τ) : (s.next T (.into co t)).Tracked T := by
  unfold next
  dsimp only
  split
  swap
  · exact h
  rename_i henters
  obtain ⟨hactive, hout⟩ := henters
  have hin : s.mask.node.phase T.id ≠ .out := fun heq => by
    rw [heq] at hactive
    exact nomatch hactive
  -- none of its CPUs is inside
  have hapart : ∀ c ∈ T.blocking t, c ∉ s.mask.lewiInfo.inMpiCpus := by
    intro c hc hmem
    obtain ⟨t', ht', hc'⟩ := (h.inMpi c).mp hmem
    rw [← T.thread_unique (T.blocking_affinity t hc) (T.blocking_affinity t' hc'), hout] at ht'
    exact nomatch ht'
  have hdisjoint : muIntersects S s.mask.lewiInfo.inMpiCpus (T.blocking t) = false := by
    have hinter : s.mask.lewiInfo.inMpiCpus ∩ T.blocking t = ∅ :=
      Finset.eq_empty_of_forall_notMem fun c hc => hapart c (Finset.mem_inter.mp hc).2 (Finset.mem_inter.mp hc).1
    unfold muIntersects
    rw [hinter]
    rfl
  have hinside : ∀ c, Inside T { s with inside := update s.inside t true } c ↔
      c ∈ s.mask.lewiInfo.inMpiCpus ∨ c ∈ T.blocking t := by
    intro c
    rw [h.inMpi c]
    constructor
    · rintro ⟨t', ht', hc⟩
      by_cases htt : t' = t
      · exact .inr (htt ▸ hc)
      · exact .inl ⟨t', (update_of_ne htt _ _).symm.trans ht', hc⟩
    · rintro (⟨t', ht', hc⟩ | hc)
      · have htt : t' ≠ t := by
          rintro rfl
          rw [hout] at ht'
          exact nomatch ht'
        exact ⟨t', (update_of_ne htt _ _).trans ht', hc⟩
      · exact ⟨t, update_self .., hc⟩
  unfold MaskNode.lewiMaskIntoBlockingCall
  change Tracked T ⟨(if muIntersects S s.mask.lewiInfo.inMpiCpus (T.blocking t) = true then _ else
    if 0 < muCount S (T.blocking t) then _ else _ : MaskNode × DlbError).1, _⟩
  rw [hdisjoint, if_neg Bool.false_ne_true]
  split
  · -- the CPUs are lent
    have hown : ∀ c ∈ nodeCpus S (T.blocking t), (s.mask.node.shm.nodeInfo c).owner = T.id ∧
        (s.mask.node.shm.nodeInfo c).state ≠ .disabled := by
      intro c hc
      have hmem : c ∈ T.processMask := T.blocking_process t (of_decide_eq_true (mem_filter.mp hc).2)
      refine ⟨h.owner hin c hmem, ?_⟩
      rw [h.state hin c hmem]
      split
      · exact nofun
      · exact nofun
    have hlend := lendCpu_states (S := S) (d := { s.mask.node.shm with tasks := [] }) hown
    have hlist : ∀ c, c ∈ nodeCpus S (T.blocking t) ↔ c ∈ T.blocking t := fun c => by
      unfold nodeCpus
      rw [mem_filter, decide_eq_true_iff, mem_range]
      exact and_iff_right_of_imp fun hc => System.lt_size (T.system (T.blocking_process t hc))
    have hor : muOr S s.mask.lewiInfo.inMpiCpus s.mask.lewiInfo.inMpiCpus (T.blocking t) =
        s.mask.lewiInfo.inMpiCpus ∪ T.blocking t := muOr_of_fits h.fits h.fits (T.fits_blocking t)
    refine ⟨fun c => ?_, fun _ c hc => ?_, fun _ c hc => ?_, fun t' ht' => ?_⟩
    · change c ∈ muOr S _ _ (T.blocking t) ↔ _
      rw [hor, Finset.mem_union]
      exact (hinside c).symm
    · exact (hlend c).1.trans (h.owner hin c hc)
    · refine (hlend c).2.trans ?_
      change (if c ∈ nodeCpus S (T.blocking t) then CpuState.lent else (s.mask.node.shm.nodeInfo c).state) =
        if c ∈ muOr S s.mask.lewiInfo.inMpiCpus s.mask.lewiInfo.inMpiCpus (T.blocking t) then .lent else .busy
      rw [h.state hin c hc, hor]
      simp only [hlist, Finset.mem_union]
      by_cases hb : c ∈ T.blocking t <;> simp [hb]
    · change isActive ((s.mask.node.perform S co T.id (.lewi (.lendCpuMask (T.blocking t)))).phase T.id) = true
      rw [perform_phase]
      exact hactive
  · -- it has none
    rename_i hcount
    have hempty : T.blocking t = ∅ := by
      rw [muCount_pos (T.fits_blocking t)] at hcount
      exact Finset.not_nonempty_iff_eq_empty.mp hcount
    refine ⟨fun c => ?_, h.owner, h.state, fun t' _ => hactive⟩
    refine Iff.trans ?_ (hinside c).symm
    rw [hempty]
    exact (or_iff_left (Finset.notMem_empty c)).symm

/-! ## A thread leaves a blocking call -/

theorem acquire_acquires {p : Pid} {d : Shdata} (l : List ℕ) : Acquires p d (shmemAcquireFromCpuSubset S d p l).1 :=
  arrayLoop_keeps (P := Acquires p d) (fun _ k h => h.trans (acquireCore_acquires k))
    (fun _ _ h => h.trans acquireCpu_acquires.1) _ _ _ _ _ ⟨.refl d, fun _ => .refl _⟩

theorem inside_leave (ht : s.inside t = true) (mask : MaskNode) :
    Inside T ⟨mask, update s.inside t false⟩ c ↔ s.Inside T c ∧ c ∉ T.blocking t := by
  constructor
  · rintro ⟨t', ht', hc⟩
    have htt : t' ≠ t := by
      rintro rfl
      change update s.inside t' false t' = true at ht'
      rw [update_self] at ht'
      exact nomatch ht'
    refine ⟨⟨t', (update_of_ne htt _ _).symm.trans ht', hc⟩, fun hct => htt ?_⟩
    exact T.thread_unique (T.blocking_affinity t' hc) (T.blocking_affinity t hct)
  · rintro ⟨⟨t', ht', hc⟩, hct⟩
    have htt : t' ≠ t := fun heq => hct (heq ▸ hc)
    exact ⟨t', (update_of_ne htt _ _).trans ht', hc⟩

theorem next_outOf {co : Caller} (h : s.Leaves T t) : s.next T (.outOf co t) =
    ⟨(s.mask.lewiMaskOutOfBlockingCall S T.toSpd co (T.affinity t)).1, update s.inside t false⟩ := if_pos h

omit [DecidableEq τ] in
theorem outOf_unchanged (h : s.Tracked T) (co : Caller)
    (hno : T.blocking t = ∅ ∨ ∃ c ∈ s.mask.lewiInfo.inMpiCpus, c ∉ T.blocking t) :
    s.mask.lewiMaskOutOfBlockingCall S T.toSpd co (T.affinity t) = (s.mask, .noupdt) := by
  change (if (!muIsSubset S s.mask.lewiInfo.inMpiCpus (T.blocking t)) = true then _ else
    if 0 < muCount S s.mask.lewiInfo.inMpiCpus then _ else _) = _
  by_cases hsubset : s.mask.lewiInfo.inMpiCpus ⊆ T.blocking t
  · have hempty : s.mask.lewiInfo.inMpiCpus = ∅ := by
      rcases hno with hblocking | ⟨c, hc, hct⟩
      · exact Finset.subset_empty.mp (hblocking ▸ hsubset)
      · exact absurd (hsubset hc) hct
    have hcount : ¬ 0 < muCount S s.mask.lewiInfo.inMpiCpus := by
      rw [muCount_pos h.fits, hempty]
      exact Finset.not_nonempty_empty
    rw [(muIsSubset_iff h.fits).mpr hsubset, if_neg (by simp), if_neg hcount]
  · have hfails : muIsSubset S s.mask.lewiInfo.inMpiCpus (T.blocking t) = false :=
      Bool.eq_false_of_not_eq_true fun hs => hsubset ((muIsSubset_iff h.fits).mp hs)
    rw [hfails, Bool.not_false, if_pos rfl]

omit [DecidableEq τ] in
theorem outOf_alone (h : s.Tracked T) (co : Caller) (hne : T.blocking t ≠ ∅)
    (hmpi : s.mask.lewiInfo.inMpiCpus = T.blocking t) :
    (s.mask.lewiMaskOutOfBlockingCall S T.toSpd co (T.affinity t)).1 =
      (s.mask.setInMpi ∅).call S T.toSpd co (.acquireFromCpuSubset (muCpus S (T.blocking t))) := by
  have hfits := T.fits_blocking t
  have hsubset : muIsSubset S s.mask.lewiInfo.inMpiCpus (T.blocking t) = true :=
    (muIsSubset_iff h.fits).mpr hmpi.subset
  have hpos : 0 < muCount S (T.blocking t) := (muCount_pos hfits).mpr (Finset.nonempty_iff_ne_empty.mpr hne)
  have hleft : muSubtract S s.mask.lewiInfo.inMpiCpus s.mask.lewiInfo.inMpiCpus (T.blocking t) = ∅ := by
    rw [muSubtract_of_fits h.fits h.fits, hmpi, Finset.sdiff_self]
  have howned : muAnd S ∅ (T.blocking t) T.processMask = T.blocking t := by
    have hempty : Fits S ∅ := nofun
    rw [muAnd_of_fits hempty hfits, Finset.inter_eq_left.mpr (T.blocking_process t)]
  change (if (!muIsSubset S s.mask.lewiInfo.inMpiCpus (T.blocking t)) = true then _ else
    if 0 < muCount S s.mask.lewiInfo.inMpiCpus then
      if 0 < muCount S (muAnd S ∅ (T.blocking t) T.processMask) then
        (s.mask.setInMpi (muSubtract S s.mask.lewiInfo.inMpiCpus s.mask.lewiInfo.inMpiCpus (T.blocking t))).acquireOwned S
          T.toSpd co (muAnd S ∅ (T.blocking t) T.processMask)
      else _
    else _ : MaskNode × DlbError).1 = _
  rw [hsubset, howned, hleft, hmpi, if_neg (by simp), if_pos hpos, if_pos hpos]
  rfl

theorem Tracked.busy (h : s.Tracked T) (hin : s.mask.node.phase T.id ≠ .out) (hc : c ∈ T.affinity t)
    (hct : c ∉ T.blocking t) : (s.mask.node.shm.nodeInfo c).state = .busy := by
  rw [h.state hin c (T.inside t hc), if_neg fun hmem => ?_]
  obtain ⟨t', -, hc'⟩ := (h.inMpi c).mp hmem
  exact hct (T.thread_unique hc (T.blocking_affinity t' hc') ▸ hc')

theorem Tracked.outOf_empty (h : s.Tracked T) (co : Caller) (hleaves : s.Leaves T t) (hempty : T.blocking t = ∅) :
    (s.next T (.outOf co t)).Tracked T ∧ s.Accurate T (.outOf co t) := by
  have hin : s.mask.node.phase T.id ≠ .out := fun heq => by
    have hactive := hleaves.1
    rw [heq] at hactive
    exact nomatch hactive
  have hnext : s.next T (.outOf co t) = ⟨s.mask, update s.inside t false⟩ := by
    rw [next_outOf hleaves, outOf_unchanged h co (.inl hempty)]
  have hmpi : ∀ c, c ∈ s.mask.lewiInfo.inMpiCpus ↔ Inside T ⟨s.mask, update s.inside t false⟩ c := by
    intro c
    rw [inside_leave hleaves.2, hempty, h.inMpi]
    exact (and_iff_left (Finset.notMem_empty c)).symm
  unfold Accurate
  rw [hnext]
  refine ⟨⟨hmpi, h.owner, h.state, fun _ _ => hleaves.1⟩, hmpi, fun _ c hc => ?_⟩
  exact h.busy hin hc (hempty ▸ Finset.notMem_empty c)

theorem Tracked.outOf_early (h : s.Tracked T) (co : Caller) (hleaves : s.Leaves T t) (hne : T.blocking t ≠ ∅)
    (htt : t' ≠ t) (ht' : s.inside t' = true) (hne' : T.blocking t' ≠ ∅) : ¬ s.Accurate T (.outOf co t) := by
  obtain ⟨c, hc⟩ := Finset.nonempty_iff_ne_empty.mpr hne
  obtain ⟨c', hc'⟩ := Finset.nonempty_iff_ne_empty.mpr hne'
  have hother : c' ∉ T.blocking t := fun hct =>
    htt (T.thread_unique (T.blocking_affinity t' hc') (T.blocking_affinity t hct))
  have hnext : s.next T (.outOf co t) = ⟨s.mask, update s.inside t false⟩ := by
    rw [next_outOf hleaves, outOf_unchanged h co (.inr ⟨c', (h.inMpi c').mpr ⟨t', ht', hc'⟩, hother⟩)]
  rintro ⟨hmpi, -⟩
  rw [hnext] at hmpi
  have hmem := (hmpi c).mp ((h.inMpi c).mpr ⟨t, hleaves.2, hc⟩)
  exact ((inside_leave hleaves.2 _).mp hmem).2 hc

theorem Tracked.outOf_last (h : s.Tracked T) (co : Caller) (hleaves : s.Leaves T t) (hne : T.blocking t ≠ ∅)
    (halone : ∀ t', t' ≠ t → s.inside t' = true → T.blocking t' = ∅) :
    (s.Accurate T (.outOf co t) ↔ ∀ c ∈ T.blocking t, Regains S T.id { s.mask.node.shm with tasks := [] } c) ∧
      ((∀ c ∈ T.blocking t, Regains S T.id { s.mask.node.shm with tasks := [] } c) →
        (s.next T (.outOf co t)).Tracked T) := by
  have hin : s.mask.node.phase T.id ≠ .out := fun heq => by
    have hactive := hleaves.1
    rw [heq] at hactive
    exact nomatch hactive
  have hmpi : s.mask.lewiInfo.inMpiCpus = T.blocking t := by
    ext c
    rw [h.inMpi]
    constructor
    · rintro ⟨t', ht', hc⟩
      by_cases htt : t' = t
      · exact htt ▸ hc
      · rw [halone t' htt ht'] at hc
        exact absurd hc (Finset.notMem_empty c)
    · exact fun hc => ⟨t, hleaves.2, hc⟩
  have hnext : s.next T (.outOf co t) =
      ⟨(s.mask.setInMpi ∅).call S T.toSpd co (.acquireFromCpuSubset (muCpus S (T.blocking t))),
        update s.inside t false⟩ := by
    rw [next_outOf hleaves, outOf_alone h co hne hmpi]
  -- what acquiring does to the own CPUs
  have hacquires : Acquires T.id { s.mask.node.shm with tasks := [] }
      (shmemAcquireFromCpuSubset S { s.mask.node.shm with tasks := [] } T.id (muCpus S (T.blocking t))).1 :=
    acquire_acquires _
  have hregains : ∀ c ∈ T.blocking t,
      (((s.mask.setInMpi ∅).call S T.toSpd co (.acquireFromCpuSubset (muCpus S (T.blocking t)))).node.shm.nodeInfo c).state =
        .busy ↔ Regains S T.id { s.mask.node.shm with tasks := [] } c := by
    intro c hc
    refine acquire_regains T.cpuSet ((T.blocking_process t).trans T.system) hc (h.owner hin c (T.blocking_process t hc)) ?_
    exact (h.state hin c (T.blocking_process t hc)).trans (if_pos (hmpi ▸ hc))
  have hbusy : ∀ c, (s.mask.node.shm.nodeInfo c).state = .busy →
      (((s.mask.setInMpi ∅).call S T.toSpd co (.acquireFromCpuSubset (muCpus S (T.blocking t)))).node.shm.nodeInfo c).state =
        .busy := by
    intro c hs
    rcases (hacquires.cpu c).state with hsame | ⟨-, hset⟩
    · exact hsame.trans hs
    · exact hset
  have hinside : ∀ (mask : MaskNode) (c : ℕ), ¬ Inside T ⟨mask, update s.inside t false⟩ c := by
    intro mask c hc
    obtain ⟨hc, hct⟩ := (inside_leave hleaves.2 mask).mp hc
    exact hct (hmpi ▸ (h.inMpi c).mpr hc)
  have hempty : ∀ (mask : MaskNode) (c : ℕ), c ∈ (∅ : CpuSet) ↔ Inside T ⟨mask, update s.inside t false⟩ c :=
    fun mask c => iff_of_false (Finset.notMem_empty c) (hinside mask c)
  constructor
  · unfold Accurate
    rw [hnext]
    constructor
    · rintro ⟨-, hall⟩ c hc
      exact (hregains c hc).mp (hall hleaves c (T.blocking_affinity t hc))
    · refine fun hall => ⟨hempty _, fun _ c hc => ?_⟩
      by_cases hct : c ∈ T.blocking t
      · exact (hregains c hct).mpr (hall c hct)
      · exact hbusy c (h.busy hin hc hct)
  · intro hall
    rw [hnext]
    refine ⟨hempty _, fun _ c hc => ?_, fun _ c hc => ?_, fun t' _ => ?_⟩
    · exact (hacquires.cpu c).owner.trans (h.owner hin c hc)
    · refine Eq.trans ?_ (if_neg (Finset.notMem_empty c)).symm
      by_cases hct : c ∈ T.blocking t
      · exact (hregains c hct).mpr (hall c hct)
      · refine hbusy c ((h.state hin c hc).trans (if_neg ?_))
        rwa [hmpi]
    · change isActive ((s.mask.node.perform S co T.id
        (.lewi (.acquireFromCpuSubset (muCpus S (T.blocking t))))).phase T.id) = true
      rw [perform_phase]
      exact hleaves.1

theorem Tracked.outOf_not (h : s.Tracked T) (co : Caller) (hno : ¬ s.Leaves T t) :
    (s.next T (.outOf co t)).Tracked T ∧ s.Accurate T (.outOf co t) := by
  have hnext : s.next T (.outOf co t) = s := by
    exact if_neg hno
  unfold Accurate
  rw [hnext]
  exact ⟨h, h.inMpi, fun hleaves => absurd hleaves hno⟩

theorem outOf_accurate_iff (h : s.Tracked T) (co : Caller) (t : τ) :
    (s.Accurate T (.outOf co t) ↔ s.LeavesAlone T (.outOf co t)) ∧
      (s.LeavesAlone T (.outOf co t) → (s.next T (.outOf co t)).Tracked T) := by
  unfold LeavesAlone
  dsimp only
  by_cases hleaves : s.Leaves T t
  swap
  · obtain ⟨hnext, haccurate⟩ := h.outOf_not co hleaves
    exact ⟨iff_of_true haccurate fun hl => absurd hl hleaves, fun _ => hnext⟩
  rw [forall_prop_of_true hleaves]
  by_cases hne : T.blocking t = ∅
  · obtain ⟨hnext, haccurate⟩ := h.outOf_empty co hleaves hne
    exact ⟨iff_of_true haccurate fun hn => absurd hne hn, fun _ => hnext⟩
  by_cases halone : ∀ t', t' ≠ t → s.inside t' = true → T.blocking t' = ∅
  · obtain ⟨haccurate, hnext⟩ := h.outOf_last co hleaves hne halone
    exact ⟨haccurate.trans ⟨fun hall _ => ⟨halone, hall⟩, fun hall => (hall hne).2⟩, fun hall => hnext (hall hne).2⟩
  · have hno : ¬ (T.blocking t ≠ ∅ → (∀ t', t' ≠ t → s.inside t' = true → T.blocking t' = ∅) ∧
        ∀ c ∈ T.blocking t, Regains S T.id { s.mask.node.shm with tasks := [] } c) := fun hall => halone (hall hne).1
    refine ⟨iff_of_false ?_ hno, fun hall => absurd hall hno⟩
    obtain ⟨t', hother⟩ := not_forall.mp halone
    obtain ⟨htt, hother⟩ := Classical.not_imp.mp hother
    obtain ⟨ht', hne'⟩ := Classical.not_imp.mp hother
    exact h.outOf_early co hleaves hne htt ht' hne'

/-! ## Runs -/

theorem accurate_iff (h : s.Tracked T) {e : BlockingEvent τ} (hcalls : OwnCalls T e) (howns : (s.next T e).Owns T) :
    (s.Accurate T e ↔ s.LeavesAlone T e) ∧ (s.LeavesAlone T e → (s.next T e).Tracked T) := by
  cases e with
  | node e =>
    have hnext := h.node hcalls howns
    exact ⟨iff_of_true ⟨hnext.inMpi, trivial⟩ trivial, fun _ => hnext⟩
  | into co t =>
    have hnext := h.into co t
    exact ⟨iff_of_true ⟨hnext.inMpi, trivial⟩ trivial, fun _ => hnext⟩
  | outOf co t => exact outOf_accurate_iff h co t

omit [DecidableEq τ] in
theorem start_tracked : Tracked T {} where
  inMpi _ := iff_of_false (Finset.notMem_empty _) fun ⟨_, h, _⟩ => nomatch h
  owner h := absurd rfl h
  state h := absurd rfl h
  active _ h := nomatch h

/-- **Blocking calls of the threads of a process**, between operations of other processes: `in_mpi_cpus` is the union of
the masks of those inside, and a thread that leaves has its CPUs busy, exactly if each thread with CPUs that leaves is the
only one inside and acquiring gets to each of its CPUs. -/
theorem blocking_calls_iff (T : Threads S τ) (events : List (BlockingEvent τ)) (hcalls : ∀ e ∈ events, OwnCalls T e)
    (howns : Lib.Along (next T) (fun s e => (s.next T e).Owns T) {} events) :
    Lib.Along (next T) (Accurate T) {} events ↔ Lib.Along (next T) (LeavesAlone T) {} events := by
  have hboth : Lib.Along (next T) (fun s e => (s.next T e).Owns T ∧ s.Accurate T e) {} events ↔
      Lib.Along (next T) (fun s e => (s.next T e).Owns T ∧ s.LeavesAlone T e) {} events :=
    Lib.Along.congr (I := Tracked T) (R := OwnCalls T) (fun _ _ h hcalls hq => (accurate_iff h hcalls hq.1).2 hq.2)
      (fun _ _ h hcalls => and_congr_right fun howns => (accurate_iff h hcalls howns).1) _ events start_tracked hcalls
  rwa [Lib.Along.and, Lib.Along.and, and_iff_right howns, and_iff_right howns] at hboth

/-! ## Two threads -/

instance : Decidable (s.Owns T) := inferInstanceAs (Decidable (_ → ∀ c ∈ T.processMask, _))

def twoSingleCores : System where
  sysMask := {0, 1}
  cores := [{0}, {1}]
  disjoint := pairwise_singles
  covered := subset_of_singles

def twoThreads : Threads twoSingleCores Bool where
  id := 1
  processMask := {0, 1}
  lewiKeepCpuOnBlockingCall := false
  affinity t := if t then {1} else {0}
  id_ne := by decide
  cpuSet := by decide
  system := by decide
  inside := by decide
  disjoint := by decide

/-- The process starts, and its first thread enters a blocking call. -/
def firstEnters : List (BlockingEvent Bool) :=
  [.node (.op {} 1 (.init 0 {0, 1})), .node (.op {} 1 (.lewiInit false)), .into {} false]

/-- It leaves again. -/
theorem blocking_calls_iff_first :
    Lib.Along (next twoThreads) (Accurate twoThreads) {} (firstEnters ++ [.outOf {} false]) ↔
      Lib.Along (next twoThreads) (LeavesAlone twoThreads) {} (firstEnters ++ [.outOf {} false]) :=
  blocking_calls_iff twoThreads _ (by simp [firstEnters, OwnCalls, twoThreads]) (by decide)

/-- The second thread enters before the first one leaves. That one does not get its CPU back. -/
theorem blocking_calls_overlap :
    (∀ e ∈ firstEnters ++ [.into {} true, .outOf {} false], OwnCalls twoThreads e) ∧
      Lib.Along (next twoThreads) (fun s e => (s.next twoThreads e).Owns twoThreads) {}
        (firstEnters ++ [.into {} true, .outOf {} false]) ∧
      ¬ Lib.Along (next twoThreads) (Accurate twoThreads) {} (firstEnters ++ [.into {} true, .outOf {} false]) := by
  refine ⟨by simp [firstEnters, OwnCalls, twoThreads], by decide, ?_⟩
  rintro ⟨-, -, -, -, ⟨-, hbusy⟩, -⟩
  exact absurd (hbusy (by decide) 0 (by decide)) (by decide)

end BlockingState

end Dlb.LewiMask

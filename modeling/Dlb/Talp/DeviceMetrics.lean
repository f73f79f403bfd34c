import Dlb.Talp.HostMetrics
import Mathlib.Data.Set.Finite.Lemmas

/-!
# The device efficiencies

Devices are shared by the processes of a node. The node reduction merges the entries of one device and keeps the larger
times, so that the sums are sums over devices. The maxima instead are maxima of what each process has added up over its
devices: with more than one device for a process they exceed what one device can reach.

* `Merged`: what merging does, whatever the nesting of the reduction (`ReducePopMetricsNodeReduction.merged`);
* `device_efficient_iff`: when the metrics are efficiencies, in terms of the sums and the maxima.
-/

namespace Dlb.Talp

open List Lib

variable {nodes : List Node} {base : PopBaseMetrics} {node : Node} {r : NodeReduction}
variable {l m : List GpuReduction} {gpu : GpuReduction} {id : ℕ}

/-! ## Merging -/

/-- The largest useful time of the entries of a device. -/
def greatest (l : List GpuReduction) (id : ℕ) : ℤ :=
  ((l.filter (·.gpuId = id)).map (·.gpuUseful)).foldr max 0

theorem greatest_cons (gpu : GpuReduction) (l : List GpuReduction) (id : ℕ) :
    greatest (gpu :: l) id = if gpu.gpuId = id then max gpu.gpuUseful (greatest l id) else greatest l id := by
  unfold greatest
  by_cases h : gpu.gpuId = id <;> simp [h]

theorem greatest_nonneg (l : List GpuReduction) (id : ℕ) : 0 ≤ greatest l id := by
  induction l with
  | nil => exact le_rfl
  | cons gpu l ih =>
    rw [greatest_cons]
    split
    · exact ih.trans (le_max_right _ _)
    · exact ih

theorem greatest_append (l m : List GpuReduction) (id : ℕ) :
    greatest (l ++ m) id = max (greatest l id) (greatest m id) := by
  induction l with
  | nil => exact (max_eq_right (greatest_nonneg m id)).symm
  | cons gpu l ih =>
    rw [cons_append, greatest_cons, greatest_cons, ih]
    split
    · exact (max_assoc _ _ _).symm
    · rfl

theorem greatest_snoc (hgpu : 0 ≤ gpu.gpuUseful) (l : List GpuReduction) (id : ℕ) :
    greatest (l ++ [gpu]) id = if gpu.gpuId = id then max (greatest l id) gpu.gpuUseful else greatest l id := by
  rw [greatest_append, greatest_cons]
  split
  · simp [greatest, hgpu]
  · exact max_eq_left (greatest_nonneg l id)

theorem greatest_le_iff {c : ℤ} (hc : 0 ≤ c) :
    greatest l id ≤ c ↔ ∀ gpu ∈ l, gpu.gpuId = id → gpu.gpuUseful ≤ c := by
  induction l with
  | nil => simpa [greatest] using hc
  | cons gpu l ih =>
    rw [greatest_cons, forall_mem_cons, ← ih]
    split
    · rename_i h
      simp [h]
    · rename_i h
      simp [h]

theorem greatest_of_nodup (hl : (l.map (·.gpuId)).Nodup) (hnn : ∀ gpu ∈ l, 0 ≤ gpu.gpuUseful) (hgpu : gpu ∈ l) :
    greatest l gpu.gpuId = gpu.gpuUseful := by
  refine le_antisymm ((greatest_le_iff (hnn gpu hgpu)).mpr fun e he hid => ?_)
    ((greatest_le_iff (greatest_nonneg l _)).mp le_rfl gpu hgpu rfl)
  rw [inj_on_of_nodup_map hl he hgpu hid]

theorem exists_split_of_findIdx? {α : Type*} {l : List α} {p : α → Bool} {i : ℕ} (h : l.findIdx? p = some i)
    (f : α → α) : ∃ as a bs, l = as ++ a :: bs ∧ p a = true ∧ l.modify i f = as ++ f a :: bs := by
  induction l generalizing i with
  | nil => simp at h
  | cons a l ih =>
    rw [findIdx?_cons] at h
    split at h
    · rename_i ha
      cases h
      exact ⟨[], a, l, rfl, ha, rfl⟩
    · obtain ⟨j, hj, rfl⟩ := Option.map_eq_some_iff.mp h
      obtain ⟨as, b, bs, rfl, hb, hmod⟩ := ih hj
      exact ⟨a :: as, b, bs, rfl, hb, by rw [modify_succ_cons, hmod, cons_append]⟩

/-- The entries `m` have each device of the entries `l` once, with the largest useful time. -/
structure Merged (l m : List GpuReduction) : Prop where
  nodup : (m.map (·.gpuId)).Nodup
  mem_iff : ∀ id, id ∈ m.map (·.gpuId) ↔ id ∈ l.map (·.gpuId)
  greatest_eq : ∀ id, greatest m id = greatest l id
  nonneg : ∀ gpu ∈ m, 0 ≤ gpu.gpuUseful

theorem Merged.mergeGpu (h : Merged l m) (hgpu : 0 ≤ gpu.gpuUseful)
    (hroom : gpu.gpuId ∉ m.map (·.gpuId) → m.length < maxNodeGpus) :
    Merged (l ++ [gpu]) (mergeGpu m gpu) := by
  unfold Talp.mergeGpu
  cases hfind : m.findIdx? (·.gpuId == gpu.gpuId) with
  | some idx =>
    obtain ⟨as, e, bs, rfl, he, hmod⟩ := exists_split_of_findIdx? hfind (·.max gpu)
    have heq : e.gpuId = gpu.gpuId := by simpa using he
    have hids : (as ++ e.max gpu :: bs).map (·.gpuId) = (as ++ e :: bs).map (·.gpuId) := by
      simp [GpuReduction.max]
    dsimp only
    rw [hmod]
    refine ⟨hids ▸ h.nodup, fun id => ?_, fun id => ?_, fun g hg => ?_⟩
    · have hmem : gpu.gpuId ∈ l.map (·.gpuId) := (h.mem_iff _).mp (by simp [heq])
      rw [hids, h.mem_iff, map_append, mem_append, map_singleton, mem_singleton]
      exact ⟨.inl, fun hid => hid.elim (fun hl => hl) fun hid => hid ▸ hmem⟩
    · have hid : (e.max gpu).gpuId = gpu.gpuId := heq
      have hmax : (e.max gpu).gpuUseful = max e.gpuUseful gpu.gpuUseful := rfl
      rw [greatest_snoc hgpu, ← h.greatest_eq, greatest_append, greatest_append, greatest_cons, greatest_cons, hid, heq,
        hmax]
      split
      · rw [max_right_comm e.gpuUseful]
        exact (max_assoc _ _ _).symm
      · rfl
    · rcases mem_append.mp hg with hg | hg
      · exact h.nonneg g (mem_append_left _ hg)
      · rcases mem_cons.mp hg with rfl | hg
        · exact hgpu.trans (le_max_right _ _)
        · exact h.nonneg g (by simp [hg])
  | none =>
    have hnew : gpu.gpuId ∉ m.map (·.gpuId) := by
      intro hmem
      obtain ⟨e, he, hid⟩ := mem_map.mp hmem
      have := findIdx?_eq_none_iff.mp hfind e he
      simp [hid] at this
    rw [if_neg (not_le.mpr (hroom hnew))]
    refine ⟨?_, fun id => ?_, fun id => ?_, fun g hg => ?_⟩
    · rw [map_append, map_singleton]
      exact nodup_append.mpr ⟨h.nodup, nodup_singleton _, by
        intro a ha b hb hab
        rw [mem_singleton.mp hb] at hab
        exact hnew (hab ▸ ha)⟩
    · simp only [map_append, mem_append, h.mem_iff, map_singleton]
      rfl
    · rw [greatest_snoc hgpu, greatest_snoc (le_max_left _ _), h.greatest_eq]
      have hmax : (GpuReduction.max { gpuId := gpu.gpuId, gpuUseful := 0, gpuCommunication := 0 } gpu).gpuUseful =
        max 0 gpu.gpuUseful := rfl
      rw [hmax, max_eq_right hgpu]
      rfl
    · rcases mem_append.mp hg with hg | hg
      · exact h.nonneg g hg
      · rw [mem_singleton.mp hg]
        exact le_max_left _ _

theorem Merged.refl (hl : (l.map (·.gpuId)).Nodup) (hnn : ∀ gpu ∈ l, 0 ≤ gpu.gpuUseful) : Merged l l :=
  ⟨hl, fun _ => Iff.rfl, fun _ => rfl, hnn⟩

theorem Merged.foldl {D : Finset ℕ} (hD : D.card ≤ maxNodeGpus) {gpus : List GpuReduction} (h : Merged l m)
    (hnn : ∀ gpu ∈ gpus, 0 ≤ gpu.gpuUseful) (hl : ∀ gpu ∈ l, gpu.gpuId ∈ D) (hg : ∀ gpu ∈ gpus, gpu.gpuId ∈ D) :
    Merged (l ++ gpus) (gpus.foldl Talp.mergeGpu m) := by
  induction gpus generalizing l m with
  | nil => simpa using h
  | cons gpu gpus ih =>
    obtain ⟨hgpu, hnn⟩ := forall_mem_cons.mp hnn
    obtain ⟨hid, hg⟩ := forall_mem_cons.mp hg
    have hroom : gpu.gpuId ∉ m.map (·.gpuId) → m.length < maxNodeGpus := by
      intro hnew
      have hsub : (gpu.gpuId :: m.map (·.gpuId)).toFinset ⊆ D := by
        intro id hmem
        rcases mem_cons.mp (mem_toFinset.mp hmem) with rfl | hm
        · exact hid
        · obtain ⟨e, he, rfl⟩ := mem_map.mp ((h.mem_iff id).mp hm)
          exact hl e he
      have hcard := (Finset.card_le_card hsub).trans hD
      rw [toFinset_card_of_nodup (nodup_cons.mpr ⟨hnew, h.nodup⟩), length_cons, length_map] at hcard
      exact hcard
    have hstep := h.mergeGpu hgpu hroom
    have hl' : ∀ e ∈ l ++ [gpu], e.gpuId ∈ D :=
      forall_mem_append.mpr ⟨hl, forall_mem_singleton.mpr hid⟩
    simpa using ih hstep hnn hl' hg

theorem Merged.combine {D : Finset ℕ} (hD : D.card ≤ maxNodeGpus) {l' m' : List GpuReduction} (h : Merged l m)
    (h' : Merged l' m') (hl : ∀ gpu ∈ l, gpu.gpuId ∈ D) (hl' : ∀ gpu ∈ l', gpu.gpuId ∈ D) :
    Merged (l ++ l') (m.foldl Talp.mergeGpu m') := by
  have hm : ∀ gpu ∈ m, gpu.gpuId ∈ D := by
    intro gpu hgpu
    obtain ⟨e, he, hid⟩ := mem_map.mp ((h.mem_iff _).mp (mem_map_of_mem hgpu))
    exact hid ▸ hl e he
  have hfold := h'.foldl hD h.nonneg hl' hm
  refine ⟨hfold.nodup, fun id => ?_, fun id => ?_, hfold.nonneg⟩
  · rw [hfold.mem_iff, map_append, map_append, mem_append, mem_append, h.mem_iff, or_comm]
  · rw [hfold.greatest_eq, greatest_append, greatest_append, h.greatest_eq, max_comm]

theorem reduces_merged {D : Finset ℕ} (hD : D.card ≤ maxNodeGpus) {sends : List NodeReduction} {x : NodeReduction}
    (h : Reduces mpiNodeReductionFn sends x) (hused : ∀ a ∈ sends, a.nodeUsed = true)
    (hself : ∀ a ∈ sends, Merged a.gpus a.gpus) (hids : ∀ a ∈ sends, ∀ gpu ∈ a.gpus, gpu.gpuId ∈ D) :
    x.nodeUsed = true ∧ Merged (sends.flatMap (·.gpus)) x.gpus := by
  induction h with
  | single a => simpa using ⟨hused a mem_cons_self, hself a mem_cons_self⟩
  | combine _ _ ihl ihr =>
    obtain ⟨hul, hur⟩ := forall_mem_append.mp hused
    obtain ⟨hsl, hsr⟩ := forall_mem_append.mp hself
    obtain ⟨hil, hir⟩ := forall_mem_append.mp hids
    obtain ⟨ha, hma⟩ := ihl hul hsl hil
    obtain ⟨-, hmb⟩ := ihr hur hsr hir
    have hflat : ∀ {sends : List NodeReduction}, (∀ a ∈ sends, ∀ gpu ∈ a.gpus, gpu.gpuId ∈ D) →
        ∀ gpu ∈ sends.flatMap (·.gpus), gpu.gpuId ∈ D := by
      intro sends hall gpu hgpu
      obtain ⟨a, ha, hgpu⟩ := mem_flatMap.mp hgpu
      exact hall a ha gpu hgpu
    rw [mpiNodeReductionFn, if_pos ha, flatMap_append]
    exact ⟨rfl, hma.combine hD hmb (hflat hil) (hflat hir)⟩

/-! ## The inputs -/

def Process.gpus (p : Process) : List GpuReduction := p.nodeReductionSend.gpus

/-- The time that a process counts as active on all its devices. -/
def Process.gpuActive (p : Process) : ℤ := p.monitor.gpuUsefulTime + p.monitor.gpuCommunicationTime

def Node.gpus (node : Node) : List GpuReduction := node.procs.flatMap Process.gpus

def Node.devices (node : Node) : List ℕ := (node.gpus.map (·.gpuId)).dedup

def numDevices (nodes : List Node) : ℕ := (nodes.map fun n => n.devices.length).sum

/-- The useful time of all devices, each of them counted once. -/
def devicesUseful (nodes : List Node) : ℤ := (nodes.map fun n => (n.devices.map (greatest n.gpus)).sum).sum

/-- A process that uses each of its devices for at most the elapsed time. -/
structure Process.UsesDevices (p : Process) (elapsed : ℤ) : Prop where
  elapsed_eq : p.monitor.elapsedTime = elapsed
  distinct : (p.gpus.map (·.gpuId)).Nodup
  useful_nonneg : ∀ gpu ∈ p.gpus, 0 ≤ gpu.gpuUseful
  communication_nonneg : ∀ gpu ∈ p.gpus, 0 ≤ gpu.gpuCommunication
  le : ∀ gpu ∈ p.gpus, gpu.gpuUseful + gpu.gpuCommunication ≤ elapsed
  total_useful_nonneg : 0 ≤ p.monitor.gpuUsefulTime
  total_communication_nonneg : 0 ≤ p.monitor.gpuCommunicationTime

theorem ReducePopMetricsNodeReduction.merged {elapsed : ℤ} (h : ReducePopMetricsNodeReduction node r)
    (hpos : 0 < elapsed) (hp : ∀ p ∈ node.procs, p.UsesDevices elapsed)
    (hroom : node.devices.length ≤ maxNodeGpus) : r.nodeUsed = true ∧ Merged node.gpus r.gpus := by
  obtain ⟨reduced, hr, rfl⟩ := h
  have hD : node.devices.toFinset.card ≤ maxNodeGpus := (toFinset_card_le _).trans hroom
  have hsends : ∀ {P : NodeReduction → Prop}, (∀ p ∈ node.procs, P p.nodeReductionSend) →
      ∀ a ∈ node.procs.map Process.nodeReductionSend, P a := by
    intro P hall a ha
    obtain ⟨p, hmem, rfl⟩ := mem_map.mp ha
    exact hall p hmem
  have hred := reduces_merged hD hr
    (hsends fun p hmem => by simpa [Process.nodeReductionSend] using p.measured (by rwa [(hp p hmem).elapsed_eq]))
    (hsends fun p hmem => .refl (hp p hmem).distinct (hp p hmem).useful_nonneg)
    (hsends fun p hmem gpu hgpu => mem_toFinset.mpr (mem_dedup.mpr (mem_map_of_mem
      (mem_flatMap.mpr ⟨p, hmem, hgpu⟩))))
  rw [flatMap_map] at hred
  exact hred

theorem Merged.sums (h : Merged node.gpus m) :
    m.length = node.devices.length ∧ (m.map (·.gpuUseful)).sum = (node.devices.map (greatest node.gpus)).sum := by
  have hperm : (m.map (·.gpuId)).Perm node.devices :=
    (perm_ext_iff_of_nodup h.nodup (nodup_dedup _)).mpr fun id =>
      (h.mem_iff id).trans mem_dedup.symm
  refine ⟨by rw [← hperm.length_eq, length_map], ?_⟩
  rw [← (hperm.map _).sum_eq, map_map]
  refine congrArg _ (map_congr_left fun gpu hgpu => ?_)
  rw [Function.comp_apply, ← h.greatest_eq]
  exact (greatest_of_nodup h.nodup h.nonneg hgpu).symm

/-! ## When the metrics are efficiencies -/

def SameUseful (nodes : List Node) (useful : ℤ) : Prop :=
  ∀ n ∈ nodes, ∀ id ∈ n.devices, greatest n.gpus id = useful

/-- The device metrics are efficiencies: they are between zero and one, the product holds where no factor is undefined,
and the load balance is one, where it is defined, when all devices have the same useful time. -/
structure DeviceEfficient (nodes : List Node) (base : PopBaseMetrics) (metrics : PerfMetricsHybrid) : Prop where
  parallel : metrics.gpuParallelEfficiency ∈ Set.Icc 0 1
  balance : metrics.gpuLoadBalance ∈ Set.Icc 0 1
  communication : metrics.gpuCommunicationEfficiency ∈ Set.Icc 0 1
  orchestration : metrics.gpuOrchestrationEfficiency ∈ Set.Icc 0 1
  product : base.sumDeviceTime ≠ 0 → base.maxGpuUsefulTime * base.numGpus ≠ 0 → base.maxGpuActiveTime ≠ 0 →
    metrics.gpuLoadBalance * metrics.gpuCommunicationEfficiency * metrics.gpuOrchestrationEfficiency =
      metrics.gpuParallelEfficiency
  balanced : base.maxGpuUsefulTime * base.numGpus ≠ 0 → ∀ useful, SameUseful nodes useful →
    metrics.gpuLoadBalance = 1

theorem div_mem_iff {a b : ℤ} (ha : 0 ≤ a) (hb : 0 < b) : (a / b : ℚ) ∈ Set.Icc 0 1 ↔ a ≤ b := by
  have hb' : (0 : ℚ) < b := by exact_mod_cast hb
  have ha' : (0 : ℚ) ≤ a := by exact_mod_cast ha
  rw [Set.mem_Icc, div_le_one hb', Int.cast_le]
  exact and_iff_right (div_nonneg ha' hb'.le)

theorem guarded_mem_iff {a b : ℤ} (ha : 0 ≤ a) (hb : 0 ≤ b) :
    (if b = 0 then 0 else (a / b : ℚ)) ∈ Set.Icc 0 1 ↔ 0 < b → a ≤ b := by
  split
  · rename_i h0
    simp [h0]
  · rename_i h0
    have hpos : 0 < b := lt_of_le_of_ne hb (Ne.symm h0)
    rw [div_mem_iff ha hpos]
    exact ⟨fun h _ => h, fun h => h hpos⟩

theorem device_efficient_iff (hE : 0 < base.elapsedTime) (hU : 0 ≤ base.gpuUsefulTime)
    (hUle : base.gpuUsefulTime ≤ base.sumDeviceTime) (hT : 0 ≤ base.maxGpuUsefulTime)
    (hTA : base.maxGpuUsefulTime ≤ base.maxGpuActiveTime)
    (hsame : ∀ useful, SameUseful nodes useful → base.gpuUsefulTime = useful * base.numGpus) :
    DeviceEfficient nodes base (computeHybridModelV2 base) ↔
      (0 < base.numGpus → base.maxGpuActiveTime ≤ base.elapsedTime) ∧
      (0 < base.maxGpuUsefulTime * base.numGpus →
        base.gpuUsefulTime ≤ base.maxGpuUsefulTime * base.numGpus ∧
        ∀ useful, SameUseful nodes useful → base.maxGpuUsefulTime = useful) := by
  have hA : 0 ≤ base.maxGpuActiveTime := hT.trans hTA
  have hdev : 0 ≤ base.sumDeviceTime := hU.trans hUle
  have hTG : 0 ≤ base.maxGpuUsefulTime * base.numGpus := mul_nonneg hT (Int.natCast_nonneg _)
  have hgpus : 0 < base.numGpus ↔ 0 < base.sumDeviceTime := by
    rw [PopBaseMetrics.sumDeviceTime, mul_pos_iff_of_pos_left hE, Int.natCast_pos]
  have horch : (computeHybridModelV2 base).gpuOrchestrationEfficiency ∈ Set.Icc 0 1 ↔
      (0 < base.numGpus → base.maxGpuActiveTime ≤ base.elapsedTime) := by
    simp only [computeHybridModelV2, computeHybridCommon]
    split
    · rename_i h0
      simp [hgpus, h0]
    · rename_i h0
      have hpos : 0 < base.sumDeviceTime := lt_of_le_of_ne hdev (Ne.symm h0)
      rw [div_mem_iff hA hE]
      exact ⟨fun h _ => h, fun h => h (hgpus.mpr hpos)⟩
  have hbal : (computeHybridModelV2 base).gpuLoadBalance ∈ Set.Icc 0 1 ↔
      (0 < base.maxGpuUsefulTime * base.numGpus → base.gpuUsefulTime ≤ base.maxGpuUsefulTime * base.numGpus) := by
    have := guarded_mem_iff hU hTG
    push_cast at this
    exact this
  have hone : 0 < base.maxGpuUsefulTime * base.numGpus → ∀ useful, SameUseful nodes useful →
      ((computeHybridModelV2 base).gpuLoadBalance = 1 ↔ base.maxGpuUsefulTime = useful) := by
    intro hpos useful hs
    have hG : (base.numGpus : ℤ) ≠ 0 := right_ne_zero_of_mul hpos.ne'
    have hne : ((base.maxGpuUsefulTime * base.numGpus : ℤ) : ℚ) ≠ 0 := by exact_mod_cast hpos.ne'
    have hval : (computeHybridModelV2 base).gpuLoadBalance =
        ((useful * base.numGpus : ℤ) : ℚ) / ((base.maxGpuUsefulTime * base.numGpus : ℤ) : ℚ) := by
      simp only [computeHybridModelV2, computeHybridCommon]
      rw [if_neg hpos.ne', hsame useful hs]
      push_cast
      rfl
    rw [hval, div_eq_one_iff_eq hne, Int.cast_inj]
    exact ⟨fun h => (mul_right_cancel₀ hG h).symm, fun h => by rw [h]⟩
  constructor
  · intro h
    exact ⟨horch.mp h.orchestration, fun hpos => ⟨hbal.mp h.balance hpos, fun useful hs =>
      (hone hpos useful hs).mp (h.balanced hpos.ne' useful hs)⟩⟩
  · rintro ⟨horch', hrest⟩
    refine ⟨?_, hbal.mpr fun hpos => (hrest hpos).1, ?_, horch.mpr horch', ?_, fun hne useful hs => ?_⟩
    · exact (guarded_mem_iff hU hdev).mpr fun _ => hUle
    · exact (guarded_mem_iff hT hA).mpr fun _ => hTA
    · intro hd ht ha
      have hE0 : (base.elapsedTime : ℚ) ≠ 0 := by exact_mod_cast hE.ne'
      have hG : (base.numGpus : ℚ) ≠ 0 := by exact_mod_cast right_ne_zero_of_mul ht
      have hT0 : (base.maxGpuUsefulTime : ℚ) ≠ 0 := by exact_mod_cast left_ne_zero_of_mul ht
      have hA0 : (base.maxGpuActiveTime : ℚ) ≠ 0 := by exact_mod_cast ha
      simp only [computeHybridModelV2, computeHybridCommon]
      rw [if_neg hd, if_neg ht, if_neg ha, if_neg hd, PopBaseMetrics.sumDeviceTime]
      push_cast
      field_simp
    · have hpos : 0 < base.maxGpuUsefulTime * base.numGpus := lt_of_le_of_ne hTG (Ne.symm hne)
      exact (hone hpos useful hs).mpr ((hrest hpos).2 useful hs)

/-! ## In terms of the times of the processes and devices -/

/-- No process counts itself as active for longer than the elapsed time; the useful time of all devices is within the
largest useful time that a process counts, for each device; and no process counts more useful time than every device
has, when that is the same for all. -/
structure CountsOneDevice (nodes : List Node) (elapsed : ℤ) : Prop where
  active_le : 0 < numDevices nodes → ∀ p ∈ processes nodes, p.gpuActive ≤ elapsed
  useful_le : 0 < numDevices nodes → (∃ p ∈ processes nodes, 0 < p.monitor.gpuUsefulTime) →
    ∃ p ∈ processes nodes, devicesUseful nodes ≤ p.monitor.gpuUsefulTime * numDevices nodes
  same_le : 0 < numDevices nodes → ∀ useful, SameUseful nodes useful →
    ∀ p ∈ processes nodes, p.monitor.gpuUsefulTime ≤ useful

theorem devicesUseful_nonneg (nodes : List Node) : 0 ≤ devicesUseful nodes := by
  refine sum_nonneg fun x hx => ?_
  obtain ⟨n, -, rfl⟩ := mem_map.mp hx
  refine sum_nonneg fun y hy => ?_
  obtain ⟨id, -, rfl⟩ := mem_map.mp hy
  exact greatest_nonneg _ _

theorem devicesUseful_le {c : ℤ} (hc : ∀ n ∈ nodes, ∀ id ∈ n.devices, greatest n.gpus id ≤ c) :
    devicesUseful nodes ≤ c * numDevices nodes := by
  induction nodes with
  | nil => simp [devicesUseful, numDevices]
  | cons n nodes ih =>
    obtain ⟨hn, hrest⟩ := forall_mem_cons.mp hc
    have hle : (n.devices.map (greatest n.gpus)).sum ≤ c * n.devices.length := by
      have := sum_le_card_nsmul (n.devices.map (greatest n.gpus)) c fun x hx => by
        obtain ⟨id, hid, rfl⟩ := mem_map.mp hx
        exact hn id hid
      rw [length_map, nsmul_eq_mul, mul_comm] at this
      exact this
    have ih' := ih hrest
    simp only [devicesUseful, numDevices, map_cons, sum_cons, Nat.cast_add, mul_add] at ih' ⊢
    exact add_le_add hle ih'

theorem devicesUseful_same {useful : ℤ} (h : SameUseful nodes useful) :
    devicesUseful nodes = useful * numDevices nodes := by
  induction nodes with
  | nil => simp [devicesUseful, numDevices]
  | cons n nodes ih =>
    obtain ⟨hn, hrest⟩ := forall_mem_cons.mp h
    have hsum : (n.devices.map (greatest n.gpus)).sum = useful * n.devices.length := by
      rw [map_congr_left hn, map_const', sum_replicate, nsmul_eq_mul, mul_comm]
    have ih' := ih hrest
    simp only [devicesUseful, numDevices, map_cons, sum_cons, Nat.cast_add, mul_add] at ih' ⊢
    rw [hsum, ih']

theorem SameUseful.nonneg {useful : ℤ} (h : SameUseful nodes useful) (hd : 0 < numDevices nodes) : 0 ≤ useful := by
  obtain ⟨n, hn, hne⟩ : ∃ n ∈ nodes, n.devices ≠ [] := by
    by_contra hno
    push Not at hno
    have : numDevices nodes = 0 := by
      refine sum_eq_zero fun x hx => ?_
      obtain ⟨n, hn, rfl⟩ := mem_map.mp hx
      rw [hno n hn, length_nil]
    omega
  obtain ⟨id, hid⟩ := exists_mem_of_ne_nil _ hne
  rw [← h n hn id hid]
  exact greatest_nonneg _ _

section Main

variable {elapsed : ℤ} (h : ReduceMonitorIntoBaseMetrics nodes base) (hpos : 0 < elapsed)
  (hp : ∀ p ∈ processes nodes, p.UsesDevices elapsed) (hroom : ∀ n ∈ nodes, n.devices.length ≤ maxNodeGpus)

include h in
theorem ReduceMonitorIntoBaseMetrics.maxGpu_le_iff (c : ℤ) :
    (base.maxGpuUsefulTime ≤ c ↔ ∀ p ∈ processes nodes, p.monitor.gpuUsefulTime ≤ c) ∧
      (base.maxGpuActiveTime ≤ c ↔ ∀ p ∈ processes nodes, p.gpuActive ≤ c) := by
  have huseful := h.procs (f := PopBaseMetrics.maxGpuUsefulTime) (g := Monitor.gpuUsefulTime) (fun _ _ _ _ => rfl)
    fun a b => max_comm _ _
  have hactive := h.procs (f := PopBaseMetrics.maxGpuActiveTime)
    (g := fun m => m.gpuUsefulTime + m.gpuCommunicationTime) (fun _ _ _ _ => rfl) fun a b => max_comm _ _
  rw [huseful.le_iff, hactive.le_iff, forall_mem_map, forall_mem_map]
  exact ⟨Iff.rfl, Iff.rfl⟩

include h hpos hp hroom in
theorem ReduceMonitorIntoBaseMetrics.devices :
    base.numGpus = numDevices nodes ∧ base.gpuUsefulTime = devicesUseful nodes := by
  obtain ⟨rs, hrs, hred⟩ := h
  have hcount : RootField PopBaseMetrics.numGpus fun _ r => if r.nodeUsed then r.gpus.length else 0 :=
    ⟨fun _ _ _ => by simp [appReductionSend], fun _ _ _ hid => by simp [appReductionSend, hid]⟩
  have huseful : RootField PopBaseMetrics.gpuUsefulTime
      fun _ r => if r.nodeUsed then (r.gpus.map (·.gpuUseful)).sum else 0 :=
    ⟨fun _ _ _ => by simp [appReductionSend], fun _ _ _ hid => by simp [appReductionSend, hid]⟩
  rw [(hred.view (f := PopBaseMetrics.numGpus) (k := (· + ·)) fun a b => Nat.add_comm _ _).eq_sum, hcount.sum hrs,
    (hred.view (f := PopBaseMetrics.gpuUsefulTime) (k := (· + ·)) fun a b => Int.add_comm _ _).eq_sum,
    huseful.sum hrs]
  clear hred hcount huseful
  induction hrs with
  | nil => exact ⟨rfl, rfl⟩
  | @cons n r nodes rs hr _ ih =>
    obtain ⟨hn, hrest⟩ := forall_mem_append.mp (show ∀ p ∈ n.procs ++ processes nodes, _ from hp)
    obtain ⟨hroom, hrooms⟩ := forall_mem_cons.mp hroom
    obtain ⟨ihcount, ihuseful⟩ := ih hrest hrooms
    obtain ⟨hused, hmerged⟩ := hr.merged hpos hn hroom
    obtain ⟨hlen, hsum⟩ := hmerged.sums
    simp only [zipWith_cons_cons, sum_cons, hused, if_true, ihcount, ihuseful, hlen, hsum, numDevices,
      devicesUseful, map_cons, and_self]

include h hpos hp hroom in
/-- **The device metrics.** After the reductions the device metrics are efficiencies exactly when what the processes
count over all their devices is within what one device can reach. -/
theorem device_metrics_efficient_iff :
    DeviceEfficient nodes base (computeHybridModelV2 base) ↔ CountsOneDevice nodes elapsed := by
  have hE := h.elapsedTime_eq fun p hmem => (hp p hmem).elapsed_eq
  obtain ⟨hG, hU⟩ := h.devices hpos hp hroom
  have huse := fun c => (h.maxGpu_le_iff c).1
  have hact := fun c => (h.maxGpu_le_iff c).2
  obtain ⟨p0, hp0⟩ := exists_mem_of_ne_nil _ h.processes_ne_nil
  have hT : 0 ≤ base.maxGpuUsefulTime := (hp p0 hp0).total_useful_nonneg.trans ((huse _).mp le_rfl p0 hp0)
  have hTA : base.maxGpuUsefulTime ≤ base.maxGpuActiveTime := (huse _).mpr fun p hmem =>
    (le_add_of_nonneg_right (hp p hmem).total_communication_nonneg).trans ((hact _).mp le_rfl p hmem)
  have hdevice : ∀ n ∈ nodes, ∀ id ∈ n.devices, greatest n.gpus id ≤ elapsed := by
    intro n hn id _
    refine (greatest_le_iff hpos.le).mpr fun gpu hgpu _ => ?_
    obtain ⟨p, hmem, hgpu⟩ := mem_flatMap.mp hgpu
    have hproc := hp p (mem_flatMap.mpr ⟨n, hn, hmem⟩)
    exact (le_add_of_nonneg_right (hproc.communication_nonneg gpu hgpu)).trans (hproc.le gpu hgpu)
  have hUle : base.gpuUsefulTime ≤ base.sumDeviceTime := by
    rw [PopBaseMetrics.sumDeviceTime, hU, hG, hE]
    exact devicesUseful_le hdevice
  rw [device_efficient_iff (hE ▸ hpos) (hU ▸ devicesUseful_nonneg nodes) hUle hT hTA
    (fun useful hs => by rw [hU, hG]; exact devicesUseful_same hs), hE, hG, hact, hU]
  have hmul : 0 < numDevices nodes → (0 < base.maxGpuUsefulTime * numDevices nodes ↔ 0 < base.maxGpuUsefulTime) :=
    fun hd => mul_pos_iff_of_pos_right (by exact_mod_cast hd)
  -- some process counts what is the maximum
  have hattained : ∃ p ∈ processes nodes, p.monitor.gpuUsefulTime = base.maxGpuUsefulTime := by
    by_contra hno
    push Not at hno
    have hlt : base.maxGpuUsefulTime ≤ base.maxGpuUsefulTime - 1 := (huse _).mpr fun p hmem =>
      Int.le_sub_one_of_lt (lt_of_le_of_ne ((huse _).mp le_rfl p hmem) (hno p hmem))
    omega
  obtain ⟨pmax, hmax, hmaxeq⟩ := hattained
  constructor
  · rintro ⟨hactive, hrest⟩
    refine ⟨hactive, fun hd hex => ?_, fun hd useful hs p hmem => ?_⟩
    · obtain ⟨p, hmem, hppos⟩ := hex
      have hTpos : 0 < base.maxGpuUsefulTime := hppos.trans_le ((huse _).mp le_rfl p hmem)
      exact ⟨pmax, hmax, hmaxeq ▸ (hrest ((hmul hd).mpr hTpos)).1⟩
    · refine ((huse _).mp le_rfl p hmem).trans ?_
      obtain hT0 | hTpos := hT.eq_or_lt
      · rw [← hT0]
        exact hs.nonneg hd
      · exact ((hrest ((hmul hd).mpr hTpos)).2 useful hs).le
  · intro hc
    refine ⟨hc.active_le, fun hpos' => ?_⟩
    have hd : 0 < numDevices nodes := by
      rcases Nat.eq_zero_or_pos (numDevices nodes) with h0 | h0
      · simp [h0] at hpos'
      · exact h0
    have hTpos := (hmul hd).mp hpos'
    have hdZ : (0 : ℤ) < numDevices nodes := by exact_mod_cast hd
    obtain ⟨p, hmem, hle⟩ := hc.useful_le hd ⟨pmax, hmax, hmaxeq ▸ hTpos⟩
    have hle' : devicesUseful nodes ≤ base.maxGpuUsefulTime * numDevices nodes :=
      hle.trans (mul_le_mul_of_nonneg_right ((huse _).mp le_rfl p hmem) hdZ.le)
    refine ⟨hle', fun useful hs => le_antisymm ((huse _).mpr (hc.same_le hd useful hs)) ?_⟩
    rw [devicesUseful_same hs] at hle'
    exact le_of_mul_le_mul_right hle' hdZ

end Main

/-! ## One device for each process -/

/-- A process whose totals are those of its devices, as the aggregation of samples keeps them. -/
def Process.TotalsOfDevices (p : Process) : Prop :=
  p.monitor.gpuUsefulTime = (p.gpus.map (·.gpuUseful)).sum ∧
    p.monitor.gpuCommunicationTime = (p.gpus.map (·.gpuCommunication)).sum

theorem CountsOneDevice.of_one_device {elapsed : ℤ} (hpos : 0 < elapsed)
    (hp : ∀ p ∈ processes nodes, p.UsesDevices elapsed) (htotals : ∀ p ∈ processes nodes, p.TotalsOfDevices)
    (hone : ∀ p ∈ processes nodes, p.gpus.length ≤ 1) : CountsOneDevice nodes elapsed := by
  have hnode : ∀ n ∈ nodes, ∀ p ∈ n.procs, p ∈ processes nodes := fun n hn p hmem =>
    mem_flatMap.mpr ⟨n, hn, hmem⟩
  have hcase : ∀ p ∈ processes nodes, (p.monitor.gpuUsefulTime = 0 ∧ p.gpuActive = 0) ∨
      ∃ gpu ∈ p.gpus, p.monitor.gpuUsefulTime = gpu.gpuUseful ∧
        p.gpuActive = gpu.gpuUseful + gpu.gpuCommunication := by
    intro p hmem
    obtain ⟨hu, hc⟩ := htotals p hmem
    rw [Process.gpuActive, hu, hc]
    match hg : p.gpus, hone p hmem with
    | [], _ => exact .inl ⟨rfl, rfl⟩
    | [gpu], _ => exact .inr ⟨gpu, mem_singleton.mpr rfl, by simp, by simp⟩
  refine ⟨fun _ p hmem => ?_, fun _ hex => ?_, fun hd useful hs p hmem => ?_⟩
  · obtain ⟨-, h0⟩ | ⟨gpu, hgpu, -, hactive⟩ := hcase p hmem
    · exact h0 ▸ hpos.le
    · exact hactive ▸ (hp p hmem).le gpu hgpu
  · -- the process that counts the largest total bounds every device
    obtain ⟨p0, hp0, -⟩ := hex
    obtain ⟨p, hmem, hmax⟩ := Set.exists_max_image {p | p ∈ processes nodes} (·.monitor.gpuUsefulTime)
      (finite_toSet _) ⟨p0, hp0⟩
    refine ⟨p, hmem, devicesUseful_le fun n hn id _ => ?_⟩
    refine (greatest_le_iff (hp p hmem).total_useful_nonneg).mpr fun gpu hgpu _ => ?_
    obtain ⟨q, hq, hgpu⟩ := mem_flatMap.mp hgpu
    have hqmem := hnode n hn q hq
    refine le_trans ?_ (hmax q hqmem)
    have hle := single_le_sum (l := q.gpus.map (·.gpuUseful)) (fun x hx => by
      obtain ⟨e, he, rfl⟩ := mem_map.mp hx
      exact (hp q hqmem).useful_nonneg e he) _ (mem_map_of_mem hgpu)
    exact hle.trans (htotals q hqmem).1.ge
  · obtain ⟨h0, -⟩ | ⟨gpu, hgpu, huseful, -⟩ := hcase p hmem
    · exact h0 ▸ hs.nonneg hd
    · obtain ⟨n, hn, hpn⟩ := mem_flatMap.mp hmem
      have hentry : gpu ∈ n.gpus := mem_flatMap.mpr ⟨p, hpn, hgpu⟩
      have hdev : gpu.gpuId ∈ n.devices := mem_dedup.mpr (mem_map_of_mem hentry)
      rw [huseful, ← hs n hn _ hdev]
      exact (greatest_le_iff (greatest_nonneg _ _)).mp le_rfl gpu hentry rfl

/-! ## One process -/

/-- A process of an application that takes 10 units and uses each device of the mask for 6 units and for 2 units of
communication. -/
def gpuProcess (mask : Finset ℕ) : Process where
  monitor :=
    { numCpus := 1, numGpus := mask.card, numMeasurements := 1, elapsedTime := 10, usefulTime := 10
      gpuUsefulTime := 6 * mask.card, gpuCommunicationTime := 2 * mask.card
      data := { gpuMask := mask, gpuTimers := fun _ => { useful := 6, communication := 2 } } }
  localToUniqueId := fun gpu => gpu
  measured := fun _ => Nat.one_pos

def gpuNode (mask : Finset ℕ) : List Node :=
  [{ procs := [gpuProcess mask], systemCount := 1, systemCount_pos := by decide }]

theorem gpuProcess_uses (mask : Finset ℕ) : (gpuProcess mask).UsesDevices 10 := by
  have htimes : ∀ gpu ∈ (gpuProcess mask).gpus, gpu.gpuUseful = 6 ∧ gpu.gpuCommunication = 2 := by
    intro gpu hgpu
    obtain ⟨i, -, rfl⟩ := mem_map.mp hgpu
    exact ⟨rfl, rfl⟩
  refine ⟨rfl, ?_, fun gpu hgpu => ?_, fun gpu hgpu => ?_, fun gpu hgpu => ?_, ?_, ?_⟩
  · have hids : (gpuProcess mask).gpus.map (·.gpuId) = gpusOf mask := by
      rw [Process.gpus, Process.nodeReductionSend, map_map]
      exact map_id _
    exact hids ▸ gpusOf_nodup mask
  · rw [(htimes gpu hgpu).1]
    decide
  · rw [(htimes gpu hgpu).2]
    decide
  · rw [(htimes gpu hgpu).1, (htimes gpu hgpu).2]
    decide
  · simp [gpuProcess]
  · simp [gpuProcess]

/-- With one device the metrics are efficiencies. -/
theorem one_device_efficient : ∃ base, ReduceMonitorIntoBaseMetrics (gpuNode {0}) base ∧
    DeviceEfficient (gpuNode {0}) base (computeHybridModelV2 base) := by
  obtain ⟨base, h⟩ := ReduceMonitorIntoBaseMetrics.exists (gpuNode {0}) (by simp [gpuNode])
    (by simp [gpuNode])
  have hp : ∀ p ∈ processes (gpuNode {0}), p.UsesDevices 10 := forall_mem_singleton.mpr (gpuProcess_uses {0})
  exact ⟨base, h, (device_metrics_efficient_iff h (by decide) hp (by decide)).mpr
    (.of_one_device (by decide) hp (forall_mem_singleton.mpr ⟨by decide, by decide⟩) (by decide))⟩

/-- A process uses two devices for 8 of 10 units each. It counts itself as active for 16 units, and the orchestration
efficiency is above one. -/
theorem two_devices_not_efficient : ∃ base, ReduceMonitorIntoBaseMetrics (gpuNode {0, 1}) base ∧
    (∀ p ∈ processes (gpuNode {0, 1}), p.UsesDevices 10) ∧
    (∀ n ∈ gpuNode {0, 1}, n.devices.length < maxNodeGpus) ∧
    ¬ DeviceEfficient (gpuNode {0, 1}) base (computeHybridModelV2 base) := by
  refine ⟨_, ⟨_, .cons ⟨_, .foldl _ _ _, rfl⟩ .nil, (Reduces.foldl _ _ _).comm⟩,
    forall_mem_singleton.mpr (gpuProcess_uses {0, 1}), by decide, fun he => ?_⟩
  have hle := he.orchestration.2
  revert hle
  decide +kernel

end Dlb.Talp

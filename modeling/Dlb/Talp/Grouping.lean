import Dlb.Talp.DeviceMetrics
import Mathlib.Data.Int.ConditionallyCompleteOrder

/-!
# How the reductions are grouped

MPI may nest a reduction in any way, and the operation has to be associative. `mpi_node_reduction_fn` skips a process that
did not use the node when it comes in, but keeps it as the accumulator: with a used one on its left it is added.

* `reduces_included`: which contributions are in the result of a nesting;
* `mpiReductionFn_assoc`, `mpiReductionFn_comm`: the application reduction has no such cases.
-/

namespace Dlb.Talp

open List Lib

/-! ## Devices -/

/-- The times that an entry has for a device; `⊥` if it is for another one. -/
def GpuReduction.timesOf (gpu : GpuReduction) (id : ℕ) : WithBot (ℤ × ℤ) :=
  if gpu.gpuId = id then ((gpu.gpuUseful, gpu.gpuCommunication) : ℤ × ℤ) else ⊥

/-- The maximum useful and communication times of a device; `⊥` if it is not there. -/
def deviceTimes (gpus : List GpuReduction) (id : ℕ) : WithBot (ℤ × ℤ) := (gpus.map (·.timesOf id)).foldr (· ⊔ ·) ⊥

/-- Entries of different devices, with times that are not negative. -/
structure GpuReadings (gpus : List GpuReduction) : Prop where
  distinct : (gpus.map (·.gpuId)).Nodup
  useful : ∀ gpu ∈ gpus, 0 ≤ gpu.gpuUseful
  communication : ∀ gpu ∈ gpus, 0 ≤ gpu.gpuCommunication

section Devices

variable {m gpus : List GpuReduction} {gpu : GpuReduction} {D : Finset ℕ} {id : ℕ}

theorem deviceTimes_le_iff {c : WithBot (ℤ × ℤ)} : deviceTimes gpus id ≤ c ↔ ∀ gpu ∈ gpus, gpu.timesOf id ≤ c := by
  unfold deviceTimes
  induction gpus with
  | nil => simp
  | cons gpu gpus ih => rw [map_cons, foldr_cons, sup_le_iff, ih, forall_mem_cons]

theorem deviceTimes_append : deviceTimes (m ++ gpus) id = deviceTimes m id ⊔ deviceTimes gpus id :=
  eq_of_forall_ge_iff fun c => by
    rw [sup_le_iff, deviceTimes_le_iff, deviceTimes_le_iff, deviceTimes_le_iff, forall_mem_append]

theorem deviceTimes_cons : deviceTimes (gpu :: gpus) id = gpu.timesOf id ⊔ deviceTimes gpus id := rfl

theorem timesOf_max {e : GpuReduction} (h : e.gpuId = gpu.gpuId) :
    (e.max gpu).timesOf id = e.timesOf id ⊔ gpu.timesOf id := by
  unfold GpuReduction.timesOf GpuReduction.max
  rw [h]
  split
  · rfl
  · exact bot_sup_eq ⊥ |>.symm

theorem deviceTimes_mergeGpu (hu : 0 ≤ gpu.gpuUseful) (hc : 0 ≤ gpu.gpuCommunication)
    (hroom : gpu.gpuId ∉ m.map (·.gpuId) → m.length < maxNodeGpus) :
    deviceTimes (mergeGpu m gpu) id = deviceTimes m id ⊔ gpu.timesOf id := by
  unfold mergeGpu
  cases hfind : m.findIdx? (·.gpuId == gpu.gpuId) with
  | some idx =>
    obtain ⟨as, e, bs, rfl, he, hmod⟩ := exists_split_of_findIdx? hfind (·.max gpu)
    have heq : e.gpuId = gpu.gpuId := by simpa using he
    dsimp only
    rw [hmod, deviceTimes_append, deviceTimes_append, deviceTimes_cons, deviceTimes_cons, timesOf_max heq,
      sup_right_comm (e.timesOf id), ← sup_assoc (deviceTimes as id)]
  | none =>
    have hnew : gpu.gpuId ∉ m.map (·.gpuId) := by
      intro hmem
      obtain ⟨e, he, hid⟩ := mem_map.mp hmem
      have := findIdx?_eq_none_iff.mp hfind e he
      simp [hid] at this
    have hmax : GpuReduction.max { gpuId := gpu.gpuId, gpuUseful := 0, gpuCommunication := 0 } gpu = gpu := by
      unfold GpuReduction.max
      rw [max_eq_right hu, max_eq_right hc]
    rw [if_neg (not_le.mpr (hroom hnew)), hmax, deviceTimes_append, deviceTimes_cons]
    exact congrArg _ (sup_bot_eq _)

theorem mergeGpu_ids : (mergeGpu m gpu).map (·.gpuId) = m.map (·.gpuId) ∨
    gpu.gpuId ∉ m.map (·.gpuId) ∧ (mergeGpu m gpu).map (·.gpuId) = m.map (·.gpuId) ++ [gpu.gpuId] := by
  unfold mergeGpu
  cases hfind : m.findIdx? (·.gpuId == gpu.gpuId) with
  | some idx =>
    obtain ⟨as, e, bs, rfl, he, hmod⟩ := exists_split_of_findIdx? hfind (·.max gpu)
    dsimp only
    rw [hmod]
    exact .inl (by simp [GpuReduction.max])
  | none =>
    dsimp only
    split
    · exact .inl rfl
    · refine .inr ⟨fun hmem => ?_, by rw [map_append]; rfl⟩
      obtain ⟨e, he, hid⟩ := mem_map.mp hmem
      have := findIdx?_eq_none_iff.mp hfind e he
      simp [hid] at this

theorem mem_mergeGpu (hu : 0 ≤ gpu.gpuUseful) (hc : 0 ≤ gpu.gpuCommunication)
    (hm : ∀ e ∈ m, 0 ≤ e.gpuUseful ∧ 0 ≤ e.gpuCommunication) :
    ∀ e ∈ mergeGpu m gpu, 0 ≤ e.gpuUseful ∧ 0 ≤ e.gpuCommunication := by
  unfold mergeGpu
  cases hfind : m.findIdx? (·.gpuId == gpu.gpuId) with
  | some idx =>
    obtain ⟨as, e, bs, rfl, he, hmod⟩ := exists_split_of_findIdx? hfind (·.max gpu)
    dsimp only
    rw [hmod]
    intro x hx
    rcases mem_append.mp hx with hx | hx
    · exact hm x (mem_append_left _ hx)
    rcases mem_cons.mp hx with rfl | hx
    · exact ⟨hu.trans (le_max_right _ _), hc.trans (le_max_right _ _)⟩
    · exact hm x (mem_append_right _ (mem_cons_of_mem e hx))
  | none =>
    dsimp only
    split
    · exact hm
    · intro x hx
      rcases mem_append.mp hx with hx | hx
      · exact hm x hx
      · rw [mem_singleton.mp hx]
        exact ⟨le_max_left _ _, le_max_left _ _⟩

def GpuReadingsIn (D : Finset ℕ) (gpus : List GpuReduction) : Prop := GpuReadings gpus ∧ ∀ gpu ∈ gpus, gpu.gpuId ∈ D

theorem GpuReadingsIn.mergeGpu (h : GpuReadingsIn D m) (hu : 0 ≤ gpu.gpuUseful) (hc : 0 ≤ gpu.gpuCommunication)
    (hid : gpu.gpuId ∈ D) : GpuReadingsIn D (mergeGpu m gpu) := by
  have hnonneg := mem_mergeGpu hu hc fun e he => ⟨h.1.useful e he, h.1.communication e he⟩
  have hmem {l : List GpuReduction} : (∀ gpu ∈ l, gpu.gpuId ∈ D) ↔ ∀ id ∈ l.map (·.gpuId), id ∈ D := by simp
  refine ⟨⟨?_, fun e he => (hnonneg e he).1, fun e he => (hnonneg e he).2⟩, hmem.mpr ?_⟩
  · rcases @mergeGpu_ids m gpu with heq | ⟨hnew, heq⟩
    · rw [heq]
      exact h.1.distinct
    · rw [heq]
      exact h.1.distinct.append (nodup_singleton _) (by simpa using hnew)
  · rcases @mergeGpu_ids m gpu with heq | ⟨-, heq⟩
    · rw [heq]
      exact hmem.mp h.2
    · rw [heq]
      exact forall_mem_append.mpr ⟨hmem.mp h.2, forall_mem_singleton.mpr hid⟩

theorem GpuReadingsIn.foldl (hD : D.card ≤ maxNodeGpus) (hm : GpuReadingsIn D m) (hg : GpuReadingsIn D gpus) :
    GpuReadingsIn D (gpus.foldl Talp.mergeGpu m) ∧
      ∀ id, deviceTimes (gpus.foldl Talp.mergeGpu m) id = deviceTimes m id ⊔ deviceTimes gpus id := by
  induction gpus generalizing m with
  | nil => exact ⟨hm, fun id => (sup_bot_eq _).symm⟩
  | cons gpu gpus ih =>
    have hu := hg.1.useful gpu mem_cons_self
    have hc := hg.1.communication gpu mem_cons_self
    have hid := hg.2 gpu mem_cons_self
    have hroom : gpu.gpuId ∉ m.map (·.gpuId) → m.length < maxNodeGpus := fun hnew => by
      have hsub : (gpu.gpuId :: m.map (·.gpuId)).toFinset ⊆ D := fun x hx => by
        rcases mem_cons.mp (mem_toFinset.mp hx) with rfl | hx
        · exact hid
        · obtain ⟨e, he, rfl⟩ := mem_map.mp hx
          exact hm.2 e he
      have hcard := (Finset.card_le_card hsub).trans hD
      rwa [toFinset_card_of_nodup (nodup_cons.mpr ⟨hnew, hm.1.distinct⟩), length_cons,
        length_map] at hcard
    have hrest : GpuReadingsIn D gpus := by
      refine ⟨⟨?_, fun e he => hg.1.useful e (mem_cons_of_mem gpu he),
        fun e he => hg.1.communication e (mem_cons_of_mem gpu he)⟩, fun e he => hg.2 e (mem_cons_of_mem gpu he)⟩
      exact (nodup_cons.mp hg.1.distinct).2
    obtain ⟨hin, htimes⟩ := ih (hm.mergeGpu hu hc hid) hrest
    refine ⟨hin, fun id => ?_⟩
    rw [foldl_cons, htimes, deviceTimes_mergeGpu hu hc hroom, deviceTimes_cons, sup_assoc]

end Devices

/-! ## The node reduction -/

/-- What a contribution adds up: CPUs, MPI time and the idle time of its workers. -/
def NodeReduction.amounts (r : NodeReduction) : ℕ × ℤ × ℤ := (r.cpusNode, r.mpiTime, r.mpiWorkerIdleTime)

def used (l : List NodeReduction) : List NodeReduction := l.filter (·.nodeUsed)

/-- The devices of the contributions that used the node, and of the last one. -/
def keptGpus (l : List NodeReduction) : List GpuReduction := (used l ++ l.getLast?.toList).flatMap (·.gpus)

/-- `a` did not use the node, and is the last one or comes after one that did. -/
def IsStray (l : List NodeReduction) (a : NodeReduction) : Prop :=
  a.nodeUsed = false ∧ ∃ l1 l2, l = l1 ++ a :: l2 ∧ (l2 = [] ∨ ∃ b ∈ l1, b.nodeUsed = true)

/-- The contributions `s` of `l` that are in the result of a nesting. -/
structure Included (l s : List NodeReduction) : Prop where
  used : used s = used l
  last : s.getLast? = l.getLast?
  stray : ∀ a ∈ s, a.nodeUsed = false → IsStray l a

section NodeReductions

variable {l s : List NodeReduction} {a b x : NodeReduction} {D : Finset ℕ}

theorem mpiNodeReductionFn_unused (h : a.nodeUsed = false) : mpiNodeReductionFn a b = b := by
  unfold mpiNodeReductionFn
  rw [h, if_neg Bool.false_ne_true]

theorem mpiNodeReductionFn_used (hD : D.card ≤ maxNodeGpus) (h : a.nodeUsed = true) (ha : GpuReadingsIn D a.gpus)
    (hb : GpuReadingsIn D b.gpus) : (mpiNodeReductionFn a b).nodeUsed = true ∧
      (mpiNodeReductionFn a b).amounts = a.amounts + b.amounts ∧ GpuReadingsIn D (mpiNodeReductionFn a b).gpus ∧
      ∀ id, deviceTimes (mpiNodeReductionFn a b).gpus id = deviceTimes a.gpus id ⊔ deviceTimes b.gpus id := by
  obtain ⟨hin, htimes⟩ := hb.foldl hD ha
  unfold mpiNodeReductionFn mergeGpuMetrics NodeReduction.amounts
  rw [if_pos h]
  refine ⟨rfl, ?_, hin, fun id => (htimes id).trans (sup_comm _ _)⟩
  rw [Prod.mk_add_mk, Prod.mk_add_mk, Nat.add_comm b.cpusNode, Int.add_comm b.mpiTime, Int.add_comm b.mpiWorkerIdleTime]

theorem deviceTimes_flatMap_le {c : WithBot (ℤ × ℤ)} {id : ℕ} :
    deviceTimes (l.flatMap (·.gpus)) id ≤ c ↔ ∀ a ∈ l, deviceTimes a.gpus id ≤ c := by
  simp only [deviceTimes_le_iff, mem_flatMap, forall_exists_index, and_imp]
  exact ⟨fun h a ha gpu hg => h gpu a ha hg, fun h gpu a ha hg => h a ha gpu hg⟩

theorem IsStray.append_left {l1 : List NodeReduction} (h : IsStray l a) : IsStray (l1 ++ l) a := by
  obtain ⟨ha, m1, m2, rfl, hm⟩ := h
  refine ⟨ha, l1 ++ m1, m2, (append_assoc _ _ _).symm, hm.imp_right ?_⟩
  rintro ⟨b, hb, hbu⟩
  exact ⟨b, mem_append_right l1 hb, hbu⟩

theorem IsStray.append_right {l2 : List NodeReduction} (h : IsStray l a) (hl : ∃ b ∈ l, b.nodeUsed = true) :
    IsStray (l ++ l2) a := by
  obtain ⟨ha, m1, m2, rfl, hm⟩ := h
  refine ⟨ha, m1, m2 ++ l2, by simp, .inr ?_⟩
  rcases hm with rfl | hm
  · obtain ⟨b, hb, hbu⟩ := hl
    rcases mem_append.mp hb with hb | hb
    · exact ⟨b, hb, hbu⟩
    · rw [mem_singleton.mp hb, ha] at hbu
      cases hbu
  · exact hm

theorem reduces_included (hD : D.card ≤ maxNodeGpus) (h : Reduces mpiNodeReductionFn l x)
    (hl : ∀ a ∈ l, GpuReadingsIn D a.gpus) :
    GpuReadingsIn D x.gpus ∧ (x.nodeUsed = true ↔ ∃ b ∈ l, b.nodeUsed = true) ∧
      ∃ s, Included l s ∧ x.amounts = (s.map NodeReduction.amounts).sum ∧
        ∀ id, deviceTimes x.gpus id = deviceTimes (s.flatMap (·.gpus)) id := by
  induction h with
  | single a =>
    refine ⟨hl a mem_cons_self, by simp, [a], ⟨rfl, rfl, fun b hb hbu => ?_⟩, by simp, by simp⟩
    rw [mem_singleton.mp hb] at hbu ⊢
    exact ⟨hbu, [], [], rfl, .inl rfl⟩
  | @combine l r a b hleft hright ihl ihr =>
    obtain ⟨hll, hlr⟩ := forall_mem_append.mp hl
    obtain ⟨hina, husea, s, hs, hamounts, htimes⟩ := ihl hll
    obtain ⟨hinb, huseb, t, ht, hamountt, htimet⟩ := ihr hlr
    have hlast {m : List NodeReduction} (hm : m.getLast? = r.getLast?) (m' : List NodeReduction) :
        (m' ++ m).getLast? = (l ++ r).getLast? := by
      have hr := hright.ne_nil
      have hne : m ≠ [] := fun hnil => by
        rw [hnil, getLast?_eq_some_getLast hr] at hm
        cases hm
      rw [getLast?_append_of_ne_nil _ hne, getLast?_append_of_ne_nil _ hr, hm]
    cases hau : a.nodeUsed with
    | true =>
      obtain ⟨huse, hsum, hin, hmax⟩ := mpiNodeReductionFn_used hD hau hina hinb
      have hex := husea.mp hau
      refine ⟨hin, iff_of_true huse ?_, s ++ t, ⟨?_, hlast ht.last s, fun c hc hcu => ?_⟩, ?_, fun id => ?_⟩
      · obtain ⟨c, hc, hcu⟩ := hex
        exact ⟨c, mem_append_left r hc, hcu⟩
      · unfold used
        rw [filter_append, filter_append]
        exact congrArg₂ _ hs.used ht.used
      · rcases mem_append.mp hc with hc | hc
        · exact (hs.stray c hc hcu).append_right hex
        · exact (ht.stray c hc hcu).append_left
      · rw [hsum, map_append, sum_append, hamounts, hamountt]
      · rw [hmax, htimes, htimet, flatMap_append, deviceTimes_append]
    | false =>
      have hnone : ∀ c ∈ l, c.nodeUsed = false := fun c hc => Bool.eq_false_iff.mpr fun hcu => by
        rw [husea.mpr ⟨c, hc, hcu⟩] at hau
        cases hau
      rw [mpiNodeReductionFn_unused hau]
      refine ⟨hinb, huseb.trans ⟨?_, ?_⟩, t, ⟨?_, hlast ht.last [], fun c hc hcu => (ht.stray c hc hcu).append_left⟩,
        hamountt, htimet⟩
      · rintro ⟨c, hc, hcu⟩
        exact ⟨c, mem_append_right l hc, hcu⟩
      · rintro ⟨c, hc, hcu⟩
        rcases mem_append.mp hc with hc | hc
        · rw [hnone c hc] at hcu
          cases hcu
        · exact ⟨c, hc, hcu⟩
      · have hnil : l.filter (·.nodeUsed) = [] := filter_eq_nil_iff.mpr fun c hc => by simp [hnone c hc]
        rw [ht.used]
        unfold used
        rw [filter_append, hnil, nil_append]

/-- The last contribution, if it did not use the node. -/
def strayLast (l : List NodeReduction) : List NodeReduction := l.getLast?.toList.filter fun a => !a.nodeUsed

theorem exists_rightNested (hD : D.card ≤ maxNodeGpus) (hne : l ≠ []) (hl : ∀ a ∈ l, GpuReadingsIn D a.gpus) :
    ∃ x, Reduces mpiNodeReductionFn l x ∧
      x.amounts = ((used l).map NodeReduction.amounts).sum + ((strayLast l).map NodeReduction.amounts).sum ∧
      ∀ id, deviceTimes x.gpus id = deviceTimes (keptGpus l) id := by
  induction l with
  | nil => exact absurd rfl hne
  | cons a l ih =>
    rcases l with _ | ⟨b, l⟩
    · refine ⟨a, .single a, ?_, fun id => ?_⟩
      · cases ha : a.nodeUsed with
        | true => simp [used, strayLast, ha]
        | false => simp [used, strayLast, ha]
      · cases ha : a.nodeUsed with
        | true => simp [keptGpus, used, ha, deviceTimes_append]
        | false => simp [keptGpus, used, ha]
    · obtain ⟨ha, hrest⟩ := forall_mem_cons.mp hl
      obtain ⟨x, hx, hamounts, htimes⟩ := ih (cons_ne_nil b l) hrest
      have hlast : (a :: b :: l).getLast? = (b :: l).getLast? := getLast?_cons_cons
      have hin := (reduces_included hD hx hrest).1
      refine ⟨_, Reduces.combine (.single a) hx, ?_⟩
      unfold keptGpus strayLast
      cases hau : a.nodeUsed with
      | true =>
        obtain ⟨-, hsum, -, hmax⟩ := mpiNodeReductionFn_used hD hau ha hin
        have hcons : used (a :: b :: l) = a :: used (b :: l) := filter_cons_of_pos hau
        rw [hcons]
        refine ⟨?_, fun id => ?_⟩
        · rw [hsum, hamounts, map_cons, sum_cons, add_assoc]
          rfl
        · rw [hmax, htimes, cons_append, flatMap_cons, deviceTimes_append]
          rfl
      | false =>
        have hcons : used (a :: b :: l) = used (b :: l) := filter_cons_of_neg (by simp [hau])
        rw [mpiNodeReductionFn_unused hau, hcons]
        exact ⟨hamounts, htimes⟩

theorem sum_amounts_used (h : ∀ a ∈ l, a.nodeUsed = false → a.amounts = 0) :
    (l.map NodeReduction.amounts).sum = ((used l).map NodeReduction.amounts).sum := by
  induction l with
  | nil => rfl
  | cons a l ih =>
    obtain ⟨ha, hrest⟩ := forall_mem_cons.mp h
    rw [map_cons, sum_cons, ih hrest]
    cases hau : a.nodeUsed with
    | true =>
      have hcons : used (a :: l) = a :: used l := filter_cons_of_pos hau
      rw [hcons, map_cons, sum_cons]
    | false =>
      have hcons : used (a :: l) = used l := filter_cons_of_neg (by simp [hau])
      rw [hcons, ha hau, zero_add]

/-- **The nesting of a node reduction makes no difference**: CPUs and times are those of the contributions that used the
node, and the devices always have the same times. -/
def GroupsRight (l : List NodeReduction) : Prop :=
  ∃ times : ℕ → WithBot (ℤ × ℤ), ∀ x, Reduces mpiNodeReductionFn l x →
    (x.nodeUsed = true ↔ ∃ a ∈ l, a.nodeUsed = true) ∧
      x.amounts = ((used l).map NodeReduction.amounts).sum ∧ ∀ id, deviceTimes x.gpus id = times id

/-- The stray contributions add nothing, and their devices have no larger times than those of the others. -/
def StraysAreIdle (l : List NodeReduction) : Prop :=
  ∀ a, IsStray l a → a.amounts = 0 ∧ ∀ id, deviceTimes a.gpus id ≤ deviceTimes (keptGpus l) id

theorem StraysAreIdle.groupsRight (h : StraysAreIdle l) (hD : D.card ≤ maxNodeGpus)
    (hl : ∀ a ∈ l, GpuReadingsIn D a.gpus) : GroupsRight l := by
  refine ⟨deviceTimes (keptGpus l), fun x hx => ?_⟩
  obtain ⟨-, huse, s, hs, hamounts, htimes⟩ := reduces_included hD hx hl
  refine ⟨huse, ?_, fun id => (htimes id).trans (le_antisymm ?_ ?_)⟩
  · rw [hamounts, sum_amounts_used fun a ha hau => (h a (hs.stray a ha hau)).1, hs.used]
  · refine deviceTimes_flatMap_le.mpr fun a ha => ?_
    cases hau : a.nodeUsed with
    | true =>
      have hmem : a ∈ used l := hs.used ▸ mem_filter.mpr ⟨ha, hau⟩
      exact deviceTimes_flatMap_le.mp le_rfl a (mem_append_left _ hmem)
    | false => exact (h a (hs.stray a ha hau)).2 id
  · refine deviceTimes_flatMap_le.mpr fun a ha => deviceTimes_flatMap_le.mp le_rfl a ?_
    rcases mem_append.mp ha with ha | ha
    · exact (mem_filter.mp (hs.used ▸ ha)).1
    · exact mem_of_getLast? (hs.last.trans (Option.mem_toList.mp ha))

theorem GroupsRight.straysAreIdle (h : GroupsRight l) (hD : D.card ≤ maxNodeGpus)
    (hl : ∀ a ∈ l, GpuReadingsIn D a.gpus) : StraysAreIdle l := by
  obtain ⟨times, hall⟩ := h
  rintro a ⟨hau, l1, l2, rfl, hpos⟩
  -- nesting to the right leaves nothing for the last contribution to add
  obtain ⟨x, hx, hamounts, htimes⟩ := exists_rightNested hD (by simp) hl
  obtain ⟨-, hsum, hsame⟩ := hall x hx
  have hlast : ((strayLast (l1 ++ a :: l2)).map NodeReduction.amounts).sum = 0 := by
    rw [hsum] at hamounts
    exact add_eq_left.mp hamounts.symm
  rcases l2 with _ | ⟨b, l2⟩
  · have hstray : strayLast (l1 ++ [a]) = [a] := by simp [strayLast, hau]
    rw [hstray] at hlast
    refine ⟨by simpa using hlast, fun id => deviceTimes_flatMap_le.mp le_rfl a ?_⟩
    simp
  · obtain ⟨c, hc, hcu⟩ := hpos.resolve_left (cons_ne_nil b l2)
    have happend : l1 ++ a :: b :: l2 = (l1 ++ [a]) ++ b :: l2 := by simp
    rw [happend] at hl hall hlast htimes ⊢
    obtain ⟨hleft, hright⟩ := forall_mem_append.mp hl
    obtain ⟨y, hy, hamounty, htimey⟩ := exists_rightNested hD (by simp) hleft
    obtain ⟨z, hz, hamountz, htimez⟩ := exists_rightNested hD (cons_ne_nil b l2) hright
    obtain ⟨hiny, husey, -⟩ := reduces_included hD hy hleft
    have hinz := (reduces_included hD hz hright).1
    obtain ⟨-, hadd, -, hmax⟩ :=
      mpiNodeReductionFn_used hD (husey.mpr ⟨c, mem_append_left _ hc, hcu⟩) hiny hinz
    obtain ⟨-, hsum', hboth⟩ := hall _ (.combine hy hz)
    have hstray : strayLast (l1 ++ [a]) = [a] := by simp [strayLast, hau]
    have hused : used (l1 ++ [a]) = used l1 := by simp [used, hau]
    have hend : strayLast ((l1 ++ [a]) ++ b :: l2) = strayLast (b :: l2) := by
      unfold strayLast
      rw [getLast?_append_of_ne_nil _ (cons_ne_nil b l2)]
    have hall' : used ((l1 ++ [a]) ++ b :: l2) = used l1 ++ used (b :: l2) := by
      rw [← hused]
      exact filter_append _ _
    rw [hend] at hlast
    rw [hlast, add_zero] at hamountz
    rw [hadd, hamounty, hamountz, hstray, hused, hall', map_append, sum_append, add_right_comm] at hsum'
    refine ⟨by simpa using hsum', fun id => ?_⟩
    rw [← htimes, hsame, ← hboth, hmax, htimey]
    exact le_sup_of_le_left (deviceTimes_flatMap_le.mp le_rfl a (by simp))

end NodeReductions

/-! ## The application reduction -/

theorem minDoubleNonZero_assoc (a b c : ℚ) :
    minDoubleNonZero (minDoubleNonZero a b) c = minDoubleNonZero a (minDoubleNonZero b c) := by
  unfold minDoubleNonZero
  grind

theorem mpiReductionFn_assoc (a b c : PopBaseMetrics) :
    mpiReductionFn (mpiReductionFn a b) c = mpiReductionFn a (mpiReductionFn b c) := by
  unfold mpiReductionFn
  simp only [add_assoc, max_assoc, minDoubleNonZero_assoc]

theorem mpiReductionFn_comm (a b : PopBaseMetrics) : mpiReductionFn a b = mpiReductionFn b a := by
  have hmin (p q : ℚ) : minDoubleNonZero p q = minDoubleNonZero q p := by
    rw [minDoubleNonZero_eq]
    unfold minDoubleNonZero minNonzero
    grind
  unfold mpiReductionFn
  simp only [add_comm, max_comm, hmin]

/-- **The reductions do not depend on how MPI groups them** if and only if the contributions of a node that did not use it
are idle where they may be added: those that are last, or come after one that did. -/
theorem reductions_iff (l : List NodeReduction)
    (hdevices : ((l.flatMap (·.gpus)).map (·.gpuId)).toFinset.card < maxNodeGpus) (hl : ∀ a ∈ l, GpuReadings a.gpus) :
    (GroupsRight l ∧ (∀ a b c, mpiReductionFn (mpiReductionFn a b) c = mpiReductionFn a (mpiReductionFn b c)) ∧
      ∀ a b, mpiReductionFn a b = mpiReductionFn b a) ↔ StraysAreIdle l := by
  have hin : ∀ a ∈ l, GpuReadingsIn ((l.flatMap (·.gpus)).map (·.gpuId)).toFinset a.gpus := fun a ha =>
    ⟨hl a ha, fun gpu hg => mem_toFinset.mpr (mem_map_of_mem (mem_flatMap.mpr ⟨a, ha, hg⟩))⟩
  constructor
  · exact fun h => h.1.straysAreIdle hdevices.le hin
  · exact fun h => ⟨h.groupsRight hdevices.le hin, mpiReductionFn_assoc, mpiReductionFn_comm⟩

/-- Two processes that used a node, and one between them that has nothing. -/
def idleBetween : List NodeReduction :=
  [{ nodeUsed := true, cpusNode := 2, mpiTime := 10, gpus := [⟨7, 3, 1⟩] }, {},
    { nodeUsed := true, cpusNode := 1, mpiTime := 4, gpus := [⟨7, 2, 5⟩, ⟨9, 1, 1⟩] }]

theorem reductions_idleBetween : GroupsRight idleBetween :=
  ((reductions_iff idleBetween (by decide) fun a ha => by
    simp only [idleBetween, mem_cons, not_mem_nil, or_false] at ha
    rcases ha with rfl | rfl | rfl
    · exact ⟨by decide, by decide, by decide⟩
    · exact ⟨by decide, by decide, by decide⟩
    · exact ⟨by decide, by decide, by decide⟩).mpr fun a ha => by
      obtain ⟨hau, l1, l2, heq, -⟩ := ha
      have hmem : a ∈ idleBetween := heq ▸ mem_append_right l1 mem_cons_self
      simp only [idleBetween, mem_cons, not_mem_nil, or_false] at hmem
      rcases hmem with rfl | rfl | rfl
      · cases hau
      · exact ⟨rfl, fun id => bot_le⟩
      · cases hau).1

/-- A process that has closed the region, with one CPU. -/
def closedRegion : Process where
  monitor := { numCpus := 1, numMeasurements := 1, elapsedTime := 10 }
  localToUniqueId := id
  measured := by decide

/-- A process that has the region open: its CPUs and times are counted, but there is no measurement yet. -/
def openRegion : Process where
  monitor := { numCpus := 1, mpiTime := 5 }
  localToUniqueId := id
  measured := by decide

/-- With an open region between two closed ones the number of CPUs depends on the nesting. -/
theorem open_region_counts :
    let l := [closedRegion, openRegion, closedRegion].map Process.nodeReductionSend
    (∃ x y, Reduces mpiNodeReductionFn l x ∧ Reduces mpiNodeReductionFn l y ∧ x.cpusNode = 3 ∧ y.cpusNode = 2) ∧
      ¬GroupsRight l := by
  intro l
  have hleft : Reduces mpiNodeReductionFn l _ := .combine (.combine (.single _) (.single _)) (.single _)
  have hright : Reduces mpiNodeReductionFn l _ := .combine (.single _) (.combine (.single _) (.single _))
  refine ⟨⟨_, _, hleft, hright, by decide, by decide⟩, ?_⟩
  rintro ⟨times, hall⟩
  have hsum := (hall _ hleft).2.1
  exact absurd hsum (by decide)

end Dlb.Talp

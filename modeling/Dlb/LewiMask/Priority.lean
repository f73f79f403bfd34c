import Dlb.LewiMask.CpuOrder
import Dlb.Support.SystemFiles

/-!
# The priority array of LeWI

`lewi_mask_UpdateOwnershipInfo` lists the CPUs that a process may use, and sorts them by affinity: those of the process,
those of the NUMA nodes that it touches, and the others. If no node has a CPU of the process, the array of masks ends
with the mask of the process, and all other CPUs come in the order of the second part.

* `sorted_parts`: whatever is listed comes in this order.
-/

namespace Dlb.LewiMask

open List

open Omptm (coreIdOf cmpCpuids)
open Cpuinfo (LewiAffinity)

variable (S : System)

/-- `mu_get_nodes_intersecting_with_cpuset` -/
def muGetNodesIntersectingWithCpuset (cpuset : CpuSet) : CpuSet :=
  (S.nodes.filter fun node => muIntersects S node cpuset).foldl (fun nodeSet node => muOr S nodeSet nodeSet node) ∅

/-- The CPUs of the system that `lewi_mask_UpdateOwnershipInfo` lists for a kind of affinity. -/
def isListed (lewiAffinity : LewiAffinity) (processMask : CpuSet) (cpuid : ℕ) : Bool :=
  cpuid ∈ processMask ||
    match lewiAffinity with
    | .auto | .mask | .nearbyFirst => true
    | .nearbyOnly => cpuid ∈ muGetNodesIntersectingWithCpuset S processMask
    | .spreadIfempty | .none => false

/-- `lewi_mask_UpdateOwnershipInfo`: the new `cpus_priority_array`. The kind `LEWI_AFFINITY_NONE` is fatal if there is a
CPU that is not owned. -/
def lewiMaskUpdateOwnershipInfo (Q : Lib.Qsort) (lewiAffinity : LewiAffinity) (processMask : CpuSet) :
    Option (List ℕ) :=
  if lewiAffinity = .none ∧ ¬S.sysMask ⊆ processMask then none
  else
    some (Q.sort
      (muCmpCpuidsByAffinity S [processMask, muGetNodesIntersectingWithCpuset S processMask, ∅])
      ((muCpus S S.sysMask).filter (isListed S lewiAffinity processMask)))

/-! ## The intended order -/

/-- CPUs by core id, and by CPU id on the same core. -/
def inOrder (cpus : CpuSet) : List ℕ :=
  (muCpus S cpus).mergeSort fun a b => toLex (coreIdOf S (some a), a) ≤ toLex (coreIdOf S (some b), b)

def firstCore (processMask : CpuSet) : ℤ := coreIdOf S (muGetFirstCpu S processMask)

/-- CPUs in order, starting after the core of the first CPU of a process. -/
def inRotation (processMask cpus : CpuSet) : List ℕ :=
  inOrder S {c ∈ cpus | firstCore S processMask < coreIdOf S (some c)} ++
    inOrder S {c ∈ cpus | coreIdOf S (some c) < firstCore S processMask}

section Order

variable {S}

theorem mem_muCpus {mask : CpuSet} {c : ℕ} : c ∈ muCpus S mask ↔ c < S.bits ∧ c ∈ mask := by
  rw [muCpus, mem_filter, mem_range, decide_eq_true_eq]

theorem muCpus_nodup (mask : CpuSet) : (muCpus S mask).Nodup := nodup_range.filter _

theorem mem_inOrder {cpus : CpuSet} (h : cpus ⊆ S.sysMask) {c : ℕ} : c ∈ inOrder S cpus ↔ c ∈ cpus := by
  rw [inOrder, (mergeSort_perm _ _).mem_iff, mem_muCpus]
  exact and_iff_right_of_imp fun hc => System.lt_bits (h hc)

theorem inOrder_pairwise {level : ℕ → ℕ} {first : Option ℕ} {cpus : CpuSet} (hcpus : cpus ⊆ S.sysMask) {l t : ℕ}
    (h : ∀ c ∈ cpus, level c = l ∧ turn S level first c = t) :
    (inOrder S cpus).Pairwise fun a b => cpuKey S level first a < cpuKey S level first b := by
  have hsorted : (inOrder S cpus).Pairwise fun a b =>
      toLex (coreIdOf S (some a), a) ≤ toLex (coreIdOf S (some b), b) := by
    have hpair := @pairwise_mergeSort ℕ
      (fun a b => decide (toLex (coreIdOf S (some a), a) ≤ toLex (coreIdOf S (some b), b)))
      (fun a b c hab hbc => decide_eq_true ((of_decide_eq_true hab).trans (of_decide_eq_true hbc)))
      (fun a b => by
        rw [Bool.or_eq_true, decide_eq_true_eq, decide_eq_true_eq]
        exact le_total _ _) (muCpus S cpus)
    exact hpair.imp fun hle => of_decide_eq_true hle
  have hnodup : (inOrder S cpus).Nodup := (mergeSort_perm _ _).nodup_iff.mpr (muCpus_nodup cpus)
  refine (hsorted.and hnodup).imp_of_mem fun {a b} ha hb hab => ?_
  obtain ⟨hla, hta⟩ := h a ((mem_inOrder hcpus).mp ha)
  obtain ⟨hlb, htb⟩ := h b ((mem_inOrder hcpus).mp hb)
  have hlex := Prod.Lex.toLex_le_toLex.mp hab.1
  rw [cpuKey_lt, hla, hlb, hta, htb]
  omega

theorem WholeCores.first {processMask : CpuSet} (hw : WholeCores S processMask) (hne : processMask.Nonempty) :
    ∃ first ∈ processMask, muGetFirstCpu S processMask = some first := by
  have hfinds := muGetFirstCpu_finds S processMask
  cases hfirst : muGetFirstCpu S processMask with
  | none =>
    rw [hfirst] at hfinds
    obtain ⟨c, hc⟩ := hne
    exact absurd ⟨hc, hw.fits c hc⟩ (hfinds c)
  | some first => exact ⟨first, muGetFirstCpu_mem S hfirst, rfl⟩

theorem coreIdOf_ne_firstCore {processMask : CpuSet} (hw : WholeCores S processMask) (hne : processMask.Nonempty) {c : ℕ}
    (hc : c ∉ processMask) : coreIdOf S (some c) ≠ firstCore S processMask := by
  obtain ⟨first, hmem, hfirst⟩ := WholeCores.first hw hne
  obtain ⟨core, hcore, hin, hsub⟩ := hw first hmem
  have hlt : ¬S.size ≤ first := not_le.mpr (System.lt_size (S.covered core hcore hin))
  have hid : ∃ i, muGetCoreId S first = some i := by
    rw [muGetCoreId, if_neg hlt]
    exact Option.isSome_iff_exists.mp (findIdx?_isSome.trans (any_eq_true.mpr ⟨core, hcore, by simpa using hin⟩))
  obtain ⟨i, hi⟩ := hid
  have hslot {x : ℕ} (hx : muGetCoreId S x = some i) : ∃ h : i < S.cores.length, x ∈ S.cores[i] := by
    rw [muGetCoreId] at hx
    split_ifs at hx
    obtain ⟨h, hmem, -⟩ := findIdx?_eq_some_iff_getElem.mp hx
    exact ⟨h, of_decide_eq_true hmem⟩
  intro heq
  have hcid : muGetCoreId S c = some i := by
    rw [firstCore, hfirst] at heq
    unfold coreIdOf at heq
    simp only [Option.bind_some, hi, Option.elim_some] at heq
    cases hcid : muGetCoreId S c with
    | none =>
      rw [hcid] at heq
      change (-1 : ℤ) = i at heq
      omega
    | some j =>
      rw [hcid] at heq
      exact congrArg some (Int.ofNat.inj heq)
  obtain ⟨hlen, hci⟩ := hslot hcid
  obtain ⟨_, hfi⟩ := hslot hi
  exact hc (hsub (core_unique (getElem_mem hlen) hcore hfi hin ▸ hci))

end Order

/-! ## The sorted array -/

/-- The CPUs of the second level: those of the nodes, or all if the array of masks ends before. -/
def IsNear (affinityMask : CpuSet) (c : ℕ) : Prop := affinityMask = ∅ ∨ c ∈ affinityMask

instance (affinityMask : CpuSet) (c : ℕ) : Decidable (IsNear affinityMask c) :=
  inferInstanceAs (Decidable (affinityMask = ∅ ∨ c ∈ affinityMask))

section Sorted

variable {S} {processMask affinityMask : CpuSet}

theorem takeWhile_masks (hne : processMask.Nonempty) : [processMask, affinityMask, ∅].takeWhile (0 < ·.card) =
    if affinityMask = ∅ then [processMask] else [processMask, affinityMask] := by
  split_ifs with h
  · simp [takeWhile, hne, h]
  · simp [takeWhile, hne, Finset.nonempty_iff_ne_empty.mpr h]

theorem isChain_masks (hne : processMask.Nonempty) (hnodes : affinityMask = ∅ ∨ processMask ⊆ affinityMask) :
    ([processMask, affinityMask, ∅].takeWhile (0 < ·.card)).IsChain (· ⊆ ·) := by
  rw [takeWhile_masks hne]
  split_ifs with h
  · exact .singleton _
  · exact .cons_cons (hnodes.resolve_left h) (.singleton _)

theorem affinityLevel_masks (hne : processMask.Nonempty) (hnodes : affinityMask = ∅ ∨ processMask ⊆ affinityMask) (c : ℕ) :
    affinityLevel [processMask, affinityMask, ∅] c =
      if c ∈ processMask then 0 else if IsNear affinityMask c then 1 else 2 := by
  unfold affinityLevel
  rw [takeWhile_masks hne]
  by_cases h : affinityMask = ∅
  · rw [if_pos h]
    split_ifs with hc hnear
    · simp [hc]
    · simp [hc]
    · exact absurd (.inl h) hnear
  · rw [if_neg h]
    have hsub := hnodes.resolve_left h
    split_ifs with hc hnear
    · simp [hc, hsub hc]
    · simp [hc, hnear.resolve_left h]
    · have hout : c ∉ affinityMask := fun hm => hnear (.inr hm)
      simp [hc, hout]

def parts (S : System) (processMask affinityMask cpus : CpuSet) : List ℕ :=
  inOrder S {c ∈ cpus | c ∈ processMask} ++
    (inRotation S processMask {c ∈ cpus | c ∉ processMask ∧ IsNear affinityMask c} ++
      inOrder S {c ∈ cpus | c ∉ processMask ∧ ¬IsNear affinityMask c})

variable {cpus : CpuSet}

theorem mem_parts (hw : WholeCores S processMask) (hne : processMask.Nonempty) (hcpus : cpus ⊆ S.sysMask) {c : ℕ} :
    c ∈ parts S processMask affinityMask cpus ↔ c ∈ cpus := by
  have hsub (p : ℕ → Prop) [DecidablePred p] : {c ∈ cpus | p c} ⊆ S.sysMask := (Finset.filter_subset _ _).trans hcpus
  have hsub' (p q : ℕ → Prop) [DecidablePred p] [DecidablePred q] : {c ∈ {c ∈ cpus | p c} | q c} ⊆ S.sysMask :=
    (Finset.filter_subset _ _).trans (hsub p)
  rw [parts, inRotation, mem_append, mem_append, mem_append, mem_inOrder (hsub _), mem_inOrder (hsub' _ _),
    mem_inOrder (hsub' _ _), mem_inOrder (hsub _)]
  simp only [Finset.mem_filter]
  have hfirst := fun hc : c ∉ processMask => coreIdOf_ne_firstCore hw hne hc
  have hsides : c ∉ processMask → firstCore S processMask < coreIdOf S (some c) ∨ coreIdOf S (some c) < firstCore S processMask :=
    fun hc => (lt_or_gt_of_ne (hfirst hc)).symm
  tauto

theorem parts_pairwise (hne : processMask.Nonempty)
    (hnodes : affinityMask = ∅ ∨ processMask ⊆ affinityMask) (hcpus : cpus ⊆ S.sysMask) :
    (parts S processMask affinityMask cpus).Pairwise fun a b =>
      cpuKey S (affinityLevel [processMask, affinityMask, ∅]) (muGetFirstCpu S processMask) a <
        cpuKey S (affinityLevel [processMask, affinityMask, ∅]) (muGetFirstCpu S processMask) b := by
  have hsub (p : ℕ → Prop) [DecidablePred p] : {c ∈ cpus | p c} ⊆ S.sysMask := (Finset.filter_subset _ _).trans hcpus
  have hsub' (p q : ℕ → Prop) [DecidablePred p] [DecidablePred q] : {c ∈ {c ∈ cpus | p c} | q c} ⊆ S.sysMask :=
    (Finset.filter_subset _ _).trans (hsub p)
  -- the level and the turn of each part
  have howned : ∀ c ∈ ({c ∈ cpus | c ∈ processMask} : CpuSet),
      affinityLevel [processMask, affinityMask, ∅] c = 0 ∧
        turn S (affinityLevel [processMask, affinityMask, ∅]) (muGetFirstCpu S processMask) c = 0 := fun c hc => by
    have hlevel := (affinityLevel_masks hne hnodes c).trans (if_pos (Finset.mem_filter.mp hc).2)
    exact ⟨hlevel, turn_of_ne (by omega)⟩
  have hnear (c : ℕ) (hc : c ∈ ({c ∈ cpus | c ∉ processMask ∧ IsNear affinityMask c} : CpuSet)) :
      affinityLevel [processMask, affinityMask, ∅] c = 1 := by
    obtain ⟨-, hout, hin⟩ := Finset.mem_filter.mp hc
    rw [affinityLevel_masks hne hnodes, if_neg hout, if_pos hin]
  have hfar : ∀ c ∈ ({c ∈ cpus | c ∉ processMask ∧ ¬IsNear affinityMask c} : CpuSet),
      affinityLevel [processMask, affinityMask, ∅] c = 2 ∧
        turn S (affinityLevel [processMask, affinityMask, ∅]) (muGetFirstCpu S processMask) c = 0 := fun c hc => by
    obtain ⟨-, hout, hin⟩ := Finset.mem_filter.mp hc
    have hlevel : affinityLevel [processMask, affinityMask, ∅] c = 2 := by
      rw [affinityLevel_masks hne hnodes, if_neg hout, if_neg hin]
    exact ⟨hlevel, turn_of_ne (by omega)⟩
  have hafter : ∀ c ∈ ({c ∈ ({c ∈ cpus | c ∉ processMask ∧ IsNear affinityMask c} : CpuSet) |
      firstCore S processMask < coreIdOf S (some c)} : CpuSet), affinityLevel [processMask, affinityMask, ∅] c = 1 ∧
        turn S (affinityLevel [processMask, affinityMask, ∅]) (muGetFirstCpu S processMask) c = 0 := fun c hc => by
    obtain ⟨hin, hlt⟩ := Finset.mem_filter.mp hc
    exact ⟨hnear c hin, (turn_of_eq (hnear c hin)).trans (if_neg (not_le.mpr hlt))⟩
  have hbefore : ∀ c ∈ ({c ∈ ({c ∈ cpus | c ∉ processMask ∧ IsNear affinityMask c} : CpuSet) |
      coreIdOf S (some c) < firstCore S processMask} : CpuSet), affinityLevel [processMask, affinityMask, ∅] c = 1 ∧
        turn S (affinityLevel [processMask, affinityMask, ∅]) (muGetFirstCpu S processMask) c = 1 := fun c hc => by
    obtain ⟨hin, hlt⟩ := Finset.mem_filter.mp hc
    exact ⟨hnear c hin, (turn_of_eq (hnear c hin)).trans (if_pos hlt.le)⟩
  have hkey {a b : ℕ} {la lb ta tb : ℕ}
      (ha : affinityLevel [processMask, affinityMask, ∅] a = la ∧
        turn S (affinityLevel [processMask, affinityMask, ∅]) (muGetFirstCpu S processMask) a = ta)
      (hb : affinityLevel [processMask, affinityMask, ∅] b = lb ∧
        turn S (affinityLevel [processMask, affinityMask, ∅]) (muGetFirstCpu S processMask) b = tb)
      (hlt : la < lb ∨ la = lb ∧ ta < tb) :
      cpuKey S (affinityLevel [processMask, affinityMask, ∅]) (muGetFirstCpu S processMask) a <
        cpuKey S (affinityLevel [processMask, affinityMask, ∅]) (muGetFirstCpu S processMask) b := by
    rw [cpuKey_lt, ha.1, ha.2, hb.1, hb.2]
    omega
  refine pairwise_append.mpr ⟨inOrder_pairwise (hsub _) howned, pairwise_append.mpr
    ⟨pairwise_append.mpr ⟨inOrder_pairwise (hsub' _ _) hafter, inOrder_pairwise (hsub' _ _) hbefore,
      fun a ha b hb => ?_⟩, inOrder_pairwise (hsub _) hfar, fun a ha b hb => ?_⟩, fun a ha b hb => ?_⟩
  · exact hkey (hafter a ((mem_inOrder (hsub' _ _)).mp ha)) (hbefore b ((mem_inOrder (hsub' _ _)).mp hb))
      (.inr ⟨rfl, Nat.zero_lt_one⟩)
  · have hb' := hfar b ((mem_inOrder (hsub _)).mp hb)
    rcases mem_append.mp ha with ha | ha
    · exact hkey (hafter a ((mem_inOrder (hsub' _ _)).mp ha)) hb' (.inl (by decide))
    · exact hkey (hbefore a ((mem_inOrder (hsub' _ _)).mp ha)) hb' (.inl (by decide))
  · have ha' := howned a ((mem_inOrder (hsub _)).mp ha)
    rcases mem_append.mp hb with hb | hb
    · rcases mem_append.mp hb with hb | hb
      · exact hkey ha' (hafter b ((mem_inOrder (hsub' _ _)).mp hb)) (.inl (by decide))
      · exact hkey ha' (hbefore b ((mem_inOrder (hsub' _ _)).mp hb)) (.inl (by decide))
    · exact hkey ha' (hfar b ((mem_inOrder (hsub _)).mp hb)) (.inl (by decide))

theorem sorted_parts (Q : Lib.Qsort) (hw : WholeCores S processMask) (hne : processMask.Nonempty)
    (hnodes : affinityMask = ∅ ∨ processMask ⊆ affinityMask) (hcpus : cpus ⊆ S.sysMask) {l : List ℕ} (hnodup : l.Nodup)
    (hl : ∀ c, c ∈ l ↔ c ∈ cpus) :
    Q.sort (muCmpCpuidsByAffinity S [processMask, affinityMask, ∅]) l = parts S processMask affinityMask cpus := by
  have hlevelled := levelled_affinity S (isChain_masks hne hnodes)
  have hclear : ∀ c ∈ cpus, affinityLevel [processMask, affinityMask, ∅] c = 1 →
      coreIdOf S (some c) ≠ firstCore S processMask := fun c _ hone => by
    refine coreIdOf_ne_firstCore hw hne fun hc => ?_
    rw [affinityLevel_masks hne hnodes, if_pos hc] at hone
    cases hone
  have hle {a b : ℕ} (ha : a ∈ l) (hb : b ∈ l) : muCmpCpuidsByAffinity S [processMask, affinityMask, ∅] a b ≤ 0 ↔
      cpuKey S (affinityLevel [processMask, affinityMask, ∅]) (muGetFirstCpu S processMask) a ≤
        cpuKey S (affinityLevel [processMask, affinityMask, ∅]) (muGetFirstCpu S processMask) b := by
    rw [← not_lt, ← not_lt]
    exact (hlevelled.pos_iff hclear ((hl a).mp ha) ((hl b).mp hb)).not
  have hsorted := Q.sorted _ l
    ⟨fun a ha b hb => by
      rw [hle ha hb, hle hb ha]
      exact le_total _ _, fun a ha b hb c hc hab hbc =>
      (hle ha hc).mpr (((hle ha hb).mp hab).trans ((hle hb hc).mp hbc))⟩
  have hperm := Q.perm (muCmpCpuidsByAffinity S [processMask, affinityMask, ∅]) l
  have hpairwise := parts_pairwise hne hnodes hcpus
  have hparts : (parts S processMask affinityMask cpus).Nodup := hpairwise.imp fun hlt heq => by
    rw [heq] at hlt
    exact lt_irrefl _ hlt
  have hsame : l.Perm (parts S processMask affinityMask cpus) :=
    (perm_ext_iff_of_nodup hnodup hparts).mpr fun c => by rw [hl, mem_parts hw hne hcpus]
  refine (hperm.trans hsame).eq_of_pairwise (fun a b _ _ hab hba => cpuKey_injective (le_antisymm hab hba))
    (hsorted.imp_of_mem fun ha hb hcmp => (hle (hperm.mem_iff.mp ha) (hperm.mem_iff.mp hb)).mp hcmp)
    (hpairwise.imp le_of_lt)

end Sorted

theorem inOrder_empty : inOrder S ∅ = [] := by simp [inOrder, muCpus]

theorem inOrder_ascending {cpus : CpuSet}
    (h : (muCpus S cpus).Pairwise fun a b => toLex (coreIdOf S (some a), a) ≤ toLex (coreIdOf S (some b), b)) :
    inOrder S cpus = muCpus S cpus := mergeSort_of_pairwise (h.imp decide_eq_true)

theorem inRotation_empty (processMask : CpuSet) : inRotation S processMask ∅ = [] := by
  simp [inRotation, inOrder_empty]

/-- The CPUs that `lewi_mask_UpdateOwnershipInfo` lists, as a set. -/
def listed (lewiAffinity : LewiAffinity) (processMask : CpuSet) : CpuSet :=
  {c ∈ S.sysMask | isListed S lewiAffinity processMask c}

/-- The parts of the array after the CPUs of the process. -/
def rest (lewiAffinity : LewiAffinity) (processMask : CpuSet) : List ℕ :=
  match lewiAffinity with
  | .auto | .mask | .nearbyFirst =>
    inRotation S processMask {c ∈ S.sysMask \ processMask |
      IsNear (muGetNodesIntersectingWithCpuset S processMask) c} ++
      inOrder S {c ∈ S.sysMask \ processMask | ¬IsNear (muGetNodesIntersectingWithCpuset S processMask) c}
  | .nearbyOnly =>
    inRotation S processMask {c ∈ S.sysMask \ processMask | c ∈ muGetNodesIntersectingWithCpuset S processMask}
  | .spreadIfempty | .none => []

section Listed

variable {S} {processMask : CpuSet} {lewiAffinity : LewiAffinity}

theorem mem_listed {c : ℕ} : c ∈ listed S lewiAffinity processMask ↔
    c ∈ S.sysMask ∧ isListed S lewiAffinity processMask c = true := by rw [listed, Finset.mem_filter]

theorem listed_owned (hsub : processMask ⊆ S.sysMask) :
    {c ∈ listed S lewiAffinity processMask | c ∈ processMask} = processMask := by
  ext c
  rw [Finset.mem_filter, mem_listed]
  constructor
  · exact fun h => h.2
  · exact fun h => ⟨⟨hsub h, by simp [isListed, h]⟩, h⟩

theorem listed_others (p : ℕ → Prop) [DecidablePred p] :
    {c ∈ listed S lewiAffinity processMask | c ∉ processMask ∧ p c} =
      {c ∈ S.sysMask \ processMask | (match lewiAffinity with
        | .auto | .mask | .nearbyFirst => true
        | .nearbyOnly => decide (c ∈ muGetNodesIntersectingWithCpuset S processMask)
        | .spreadIfempty | .none => false) = true ∧ p c} := by
  ext c
  rw [Finset.mem_filter, mem_listed, Finset.mem_filter, Finset.mem_sdiff]
  unfold isListed
  rw [Bool.or_eq_true, decide_eq_true_eq]
  cases lewiAffinity with
  | auto => tauto
  | mask => tauto
  | nearbyFirst => tauto
  | nearbyOnly => tauto
  | spreadIfempty => tauto
  | none => tauto

theorem parts_listed (hsub : processMask ⊆ S.sysMask) :
    parts S processMask (muGetNodesIntersectingWithCpuset S processMask) (listed S lewiAffinity processMask) =
      inOrder S processMask ++ rest S lewiAffinity processMask := by
  rw [parts, listed_owned hsub, listed_others, listed_others]
  refine congrArg (inOrder S processMask ++ ·) ?_
  cases lewiAffinity with
  | auto => simp [rest]
  | mask => simp [rest]
  | nearbyFirst => simp [rest]
  | nearbyOnly =>
    have hnear (c : ℕ) : decide (c ∈ muGetNodesIntersectingWithCpuset S processMask) = true ∧
        IsNear (muGetNodesIntersectingWithCpuset S processMask) c ↔
          c ∈ muGetNodesIntersectingWithCpuset S processMask := by
      rw [decide_eq_true_eq]
      exact and_iff_left_of_imp .inr
    have hfar (c : ℕ) : ¬(decide (c ∈ muGetNodesIntersectingWithCpuset S processMask) = true ∧
        ¬IsNear (muGetNodesIntersectingWithCpuset S processMask) c) := by
      rw [decide_eq_true_eq]
      exact fun h => h.2 (.inr h.1)
    simp only [hnear, hfar, Finset.filter_false, inOrder_empty, append_nil, rest]
  | spreadIfempty => simp [rest, inOrder_empty, inRotation_empty]
  | none => simp [rest, inOrder_empty, inRotation_empty]

end Listed

/-- **The priority array** of a process with whole cores, all of whose CPUs are in NUMA nodes or none of them. It starts
with the CPUs of the process. Those of its nodes follow, first the ones on cores after its first core; if it has no
nodes, these are all others, but with nearby-only none. Then come the CPUs of the other nodes, except with nearby-only.
With spread-ifempty the array ends with the CPUs of the process. -/
theorem priority_array (Q : Lib.Qsort) (S : System) (lewiAffinity : LewiAffinity) (processMask : CpuSet)
    (hne : processMask.Nonempty) (hw : WholeCores S processMask) (haffinity : lewiAffinity ≠ .none)
    (hnodes : muGetNodesIntersectingWithCpuset S processMask = ∅ ∨
      processMask ⊆ muGetNodesIntersectingWithCpuset S processMask) :
    lewiMaskUpdateOwnershipInfo S Q lewiAffinity processMask =
        some (inOrder S processMask ++ rest S lewiAffinity processMask) ∧
      (lewiAffinity ∉ [.nearbyOnly, .spreadIfempty] →
        (inOrder S processMask ++ rest S lewiAffinity processMask).Perm (muCpus S S.sysMask)) := by
  have hsub : processMask ⊆ S.sysMask := fun c hc => by
    obtain ⟨core, hcore, hin, -⟩ := hw c hc
    exact S.covered core hcore hin
  have hl (c : ℕ) : c ∈ (muCpus S S.sysMask).filter (isListed S lewiAffinity processMask) ↔
      c ∈ listed S lewiAffinity processMask := by
    rw [mem_filter, mem_muCpus, mem_listed]
    exact and_congr_left fun _ => and_iff_right_of_imp System.lt_bits
  have hsort := sorted_parts Q hw hne hnodes (Finset.filter_subset _ S.sysMask) ((muCpus_nodup _).filter _) hl
  rw [← listed, parts_listed hsub] at hsort
  refine ⟨?_, fun hall => ?_⟩
  · unfold lewiMaskUpdateOwnershipInfo
    rw [if_neg fun h => haffinity h.1, hsort]
  · have hevery : (muCpus S S.sysMask).filter (isListed S lewiAffinity processMask) = muCpus S S.sysMask := by
      refine filter_eq_self.mpr fun c _ => ?_
      cases lewiAffinity with
      | auto => simp [isListed]
      | mask => simp [isListed]
      | nearbyFirst => simp [isListed]
      | nearbyOnly => simp at hall
      | spreadIfempty => simp at hall
      | none => exact absurd rfl haffinity
    rw [← hsort, hevery]
    exact Q.perm _ _

def noNodes : System where
  sysMask := {0, 1, 2}
  cores := [{0}, {1}, {2}]
  disjoint := by decide
  covered := by decide

/-- The second core of two nodes: the other CPU of its node comes before that of the other one. -/
def twoNodes : System where
  sysMask := {0, 1, 2}
  cores := [{0}, {1}, {2}]
  disjoint := by decide
  covered := by decide
  nodes := [{0}, {1, 2}]

theorem priority_array_twoNodes :
    lewiMaskUpdateOwnershipInfo twoNodes Lib.insertionQsort .auto {1} = some [1, 2, 0] :=
  (priority_array Lib.insertionQsort twoNodes .auto {1} (by decide) (by unfold WholeCores; decide) (by decide)
    (.inr (by decide +kernel))).1.trans (by decide +kernel)

/-- Without directories of nodes the array is not in ascending order after the CPUs of the process, but goes round. -/
theorem rotation_without_nodes :
    parseNodes 3 (systemOf noNodes.sysMask) [] = some [] ∧ ({1} : CpuSet).Nonempty ∧ WholeCores noNodes {1} ∧
      lewiMaskUpdateOwnershipInfo noNodes Lib.insertionQsort .auto {1} ≠ some (inOrder noNodes {1} ++
        (inRotation noNodes {1} {c ∈ noNodes.sysMask \ {1} | c ∈ muGetNodesIntersectingWithCpuset noNodes {1}} ++
          inOrder noNodes {c ∈ noNodes.sysMask \ {1} | c ∉ muGetNodesIntersectingWithCpuset noNodes {1}})) := by
  refine ⟨rfl, by decide, by unfold WholeCores; decide, ?_⟩
  have hcode : lewiMaskUpdateOwnershipInfo noNodes Lib.insertionQsort .auto {1} = some [1, 2, 0] := by decide
  have hnone : muGetNodesIntersectingWithCpuset noNodes {1} = ∅ := rfl
  have hothers : inOrder noNodes (noNodes.sysMask \ {1}) = [0, 2] := inOrder_ascending noNodes (by decide)
  have howned : inOrder noNodes {1} = [1] := inOrder_ascending noNodes (by decide)
  simp [hcode, hnone, hothers, howned, inRotation_empty]

end Dlb.LewiMask

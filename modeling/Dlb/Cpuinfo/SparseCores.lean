import Dlb.Cpuinfo.TaskArray
import Dlb.Support.CompleteCores

/-!
# Reclaiming a number of CPUs

`shmem_cpuinfo__reclaim_cpus` goes through as many core ids as there are cores, from `0` on. A topology may skip core
ids, and the cores with the last ids are then not reached.

* `reclaimCores_eq`: which CPUs the loop reclaims.
-/

namespace Dlb.Cpuinfo

open List

variable {S : System} {pid : Pid} {d d1 : Shdata} {c : ℕ}

/-! ## Reclaiming a list of CPUs -/

/-- `d` after the process has reclaimed CPUs that it owns, one after the other. -/
def Shdata.reclaims (d : Shdata) (pid : Pid) (l : List ℕ) : Shdata :=
  { d with
    nodeInfo := fun c => if c ∈ l then reclaimed pid (d.nodeInfo c) else d.nodeInfo c
    freeCpus := {c ∈ d.freeCpus | ¬(c ∈ l ∧ Wants pid (d.nodeInfo c) ∧ (d.nodeInfo c).guest = 0)}
    tasks := d.tasks ++ l.flatMap fun c => reclaimTasks pid c (d.nodeInfo c) }

theorem reclaims_nil : d.reclaims pid [] = d := by
  unfold Shdata.reclaims
  simp

theorem reclaims_info_of_notMem {l : List ℕ} (hc : c ∉ l) : (d.reclaims pid l).nodeInfo c = d.nodeInfo c := if_neg hc

theorem reclaims_owner {l : List ℕ} : ((d.reclaims pid l).nodeInfo c).owner = (d.nodeInfo c).owner := by
  unfold Shdata.reclaims
  dsimp only
  split
  · rfl
  · rfl

theorem reclaimCpu_eq (ho : (d.nodeInfo c).owner = pid) : (reclaimCpu pid d c).1 = d.reclaims pid [c] := by
  have ht := reclaimCpu_treats ho
  have hinfo : (reclaimCpu pid d c).1.nodeInfo = (d.reclaims pid [c]).nodeInfo := by
    rw [ht.info]
    funext x
    by_cases hx : x = c
    · subst hx
      rw [Function.update_self]
      exact (if_pos mem_cons_self).symm
    · rw [Function.update_of_ne hx]
      exact (if_neg (by simpa using hx)).symm
  have htasks : (reclaimCpu pid d c).1.tasks = (d.reclaims pid [c]).tasks := by
    rw [ht.tasks]
    simp [Shdata.reclaims]
  have hfree : (reclaimCpu pid d c).1.freeCpus = (d.reclaims pid [c]).freeCpus := by
    unfold reclaimCpu Shdata.reclaims Wants
    rw [if_pos ho]
    ext x
    split_ifs with hg hg0
    · simp only [Shdata.set, Finset.mem_filter, mem_singleton]
      refine (and_iff_left ?_).symm
      rintro ⟨rfl, hw, -⟩
      exact hw.2 hg
    · simp only [Shdata.clrFree, Shdata.push, Shdata.set, Finset.mem_filter, Finset.mem_erase, mem_singleton]
      constructor
      · exact fun h => ⟨h.2, fun h' => h.1 h'.1⟩
      · refine fun h => ⟨?_, h.1⟩
        rintro rfl
        exact h.2 ⟨rfl, ⟨ho, hg⟩, hg0⟩
    · simp only [Shdata.recall, Shdata.push, Shdata.set, Finset.mem_filter, mem_singleton]
      refine (and_iff_left ?_).symm
      rintro ⟨rfl, -, hz⟩
      exact hg0 hz
  have hrest : ∀ d1 : Shdata, d1 = (reclaimCpu pid d c).1 →
      d1 = { d with nodeInfo := d1.nodeInfo, freeCpus := d1.freeCpus, tasks := d1.tasks } := by
    rintro _ rfl
    unfold reclaimCpu
    dsimp only
    split_ifs <;> rfl
  rw [hrest _ rfl, hinfo, htasks, hfree]
  rfl

theorem reclaims_append {l l1 : List ℕ} (hl : l.Disjoint l1) :
    (d.reclaims pid l).reclaims pid l1 = d.reclaims pid (l ++ l1) := by
  have hsame {x : ℕ} (hx : x ∈ l1) : (d.reclaims pid l).nodeInfo x = d.nodeInfo x :=
    reclaims_info_of_notMem fun h => hl h hx
  have hinfo : ((d.reclaims pid l).reclaims pid l1).nodeInfo = (d.reclaims pid (l ++ l1)).nodeInfo := by
    funext x
    by_cases hx1 : x ∈ l1
    · have hright : (d.reclaims pid (l ++ l1)).nodeInfo x = _ := if_pos (mem_append_right l hx1)
      rw [hright, ← hsame hx1]
      exact if_pos hx1
    · rw [reclaims_info_of_notMem hx1]
      simp [Shdata.reclaims, hx1]
  have hfree : ((d.reclaims pid l).reclaims pid l1).freeCpus = (d.reclaims pid (l ++ l1)).freeCpus := by
    ext x
    change x ∈ Finset.filter _ (Finset.filter _ _) ↔ x ∈ Finset.filter _ _
    rw [Finset.mem_filter, Finset.mem_filter, Finset.mem_filter, mem_append, and_assoc]
    refine and_congr_right fun _ => ?_
    by_cases hx1 : x ∈ l1
    · have hx : x ∉ l := fun h => hl h hx1
      rw [hsame hx1]
      tauto
    · tauto
  have htasks : ((d.reclaims pid l).reclaims pid l1).tasks = (d.reclaims pid (l ++ l1)).tasks := by
    change (d.tasks ++ _) ++ _ = d.tasks ++ _
    rw [append_assoc, flatMap_append]
    refine congrArg (d.tasks ++ ·) (congrArg (_ ++ ·) (flatMap_congr fun x hx => ?_))
    rw [hsame hx]
  calc (d.reclaims pid l).reclaims pid l1
      = { d with
          nodeInfo := ((d.reclaims pid l).reclaims pid l1).nodeInfo
          freeCpus := ((d.reclaims pid l).reclaims pid l1).freeCpus
          tasks := ((d.reclaims pid l).reclaims pid l1).tasks } := rfl
    _ = d.reclaims pid (l ++ l1) := by
        rw [hinfo, hfree, htasks]
        rfl

/-! ## The loops -/

variable (S) in
def ownedCpus (d : Shdata) (pid : Pid) : CpuSet := {c ∈ S.sysMask | (d.nodeInfo c).owner = pid}

variable (S) in
/-- The CPUs of a system that a process owns and does not guest. -/
def wantedCpus (d : Shdata) (pid : Pid) : CpuSet := {c ∈ S.sysMask | Wants pid (d.nodeInfo c)}

variable (S) in
/-- The CPUs of a core, by its id, that the process owns and does not guest. -/
def wantedOn (d : Shdata) (pid : Pid) (coreId : ℕ) : List ℕ :=
  (coreCpus S (some coreId)).filter fun c => Wants pid (d.nodeInfo c)

variable (S) in
def ownedOn (d : Shdata) (pid : Pid) (coreId : ℕ) : List ℕ :=
  (coreCpus S (some coreId)).filter fun c => (d.nodeInfo c).owner = pid

theorem reclaimLoop_owned : ∀ (l : List ℕ) (d : Shdata) (error : DlbError) (n : ℕ), l.Nodup →
    (∀ c ∈ l, (d.nodeInfo c).owner = pid) →
    (coreLoop (reclaimCpu pid) pid l d error n).1 = d.reclaims pid l ∧
      (coreLoop (reclaimCpu pid) pid l d error n).2.2 = n + (l.filter fun c => Wants pid (d.nodeInfo c)).length ∧
      (done (coreLoop (reclaimCpu pid) pid l d error n).2.1 ↔
        done error ∨ l.filter (fun c => Wants pid (d.nodeInfo c)) ≠ [])
  | [], d, error, n, _, _ => ⟨reclaims_nil.symm, rfl, by simp [coreLoop]⟩
  | c :: rest, d, error, n, hl, hown => by
    obtain ⟨hc, hrest⟩ := nodup_cons.mp hl
    have ho := hown c mem_cons_self
    have hstate := reclaimCpu_eq ho
    have hdisjoint : [c].Disjoint rest := by simpa using hc
    have happend : (d.reclaims pid [c]).reclaims pid rest = d.reclaims pid (c :: rest) := reclaims_append hdisjoint
    have hfilter : rest.filter (fun x => Wants pid ((d.reclaims pid [c]).nodeInfo x)) =
        rest.filter fun x => Wants pid (d.nodeInfo x) := filter_congr fun x hx => by
      have hx' : x ∉ [c] := fun h => hc (eq_of_mem_singleton h ▸ hx)
      rw [reclaims_info_of_notMem hx']
    have ih := fun error n => reclaimLoop_owned rest (d.reclaims pid [c]) error n hrest fun x hx =>
      reclaims_owner.trans (hown x (mem_cons_of_mem c hx))
    simp only [hfilter, happend] at ih
    unfold coreLoop
    dsimp only
    rw [hstate]
    by_cases hg : (d.nodeInfo c).guest = pid
    · have hcode : (reclaimCpu pid d c).2 = .noupdt := by
        unfold reclaimCpu
        rw [if_pos ho, if_pos hg]
      have hguest : ((d.reclaims pid [c]).nodeInfo c).guest = pid := by
        rw [← hstate, (reclaimCpu_treats ho).info, Function.update_self]
        unfold reclaimed
        rw [hg, ite_self]
      have hno : ¬Wants pid (d.nodeInfo c) := fun h => h.2 hg
      rw [hcode, if_neg (by decide), if_pos hguest, filter_cons_of_neg (by simpa using hno)]
      exact ih error n
    · have hcode : done (reclaimCpu pid d c).2 = true := by
        unfold reclaimCpu
        rw [if_pos ho, if_neg hg]
        split_ifs <;> rfl
      have hyes : Wants pid (d.nodeInfo c) := ⟨ho, hg⟩
      rw [if_pos hcode, filter_cons_of_pos (by simpa using hyes)]
      obtain ⟨hd, hn, herr⟩ := ih (mergeDone error (reclaimCpu pid d c).2) (n + 1)
      refine ⟨hd, ?_, ?_⟩
      · rw [hn, length_cons]
        omega
      · rw [herr]
        exact iff_of_true (.inl (done_mergeDone hcode)) (.inr (cons_ne_nil _ _))

theorem reclaimLoop_foreign : ∀ (l : List ℕ) (d : Shdata) (error : DlbError) (n : ℕ),
    (∀ c ∈ l, (d.nodeInfo c).owner ≠ pid) → coreLoop (reclaimCpu pid) pid l d error n = (d, error, n)
  | [], _, _, _, _ => rfl
  | c :: rest, d, error, n, hown => by
    have hc : reclaimCpu pid d c = (d, .errPerm) := by
      unfold reclaimCpu
      rw [if_neg (hown c mem_cons_self)]
    unfold coreLoop
    have hnot : ¬done (d, DlbError.errPerm).2 = true := Bool.false_ne_true
    rw [hc, if_neg hnot]
    split
    · exact reclaimLoop_foreign rest d error n fun x hx => hown x (mem_cons_of_mem c hx)
    · rfl

theorem owned_or_foreign (hw : WholeCores S (ownedCpus S d pid)) (k : ℕ) :
    (∀ c ∈ coreCpus S (some k), (d.nodeInfo c).owner = pid) ∨ ∀ c ∈ coreCpus S (some k), (d.nodeInfo c).owner ≠ pid := by
  by_contra hboth
  push Not at hboth
  obtain ⟨⟨e, he, hne⟩, c, hc, ho⟩ := hboth
  obtain ⟨hk, hck⟩ := mem_coreCpus.mp hc
  obtain ⟨_, hek⟩ := mem_coreCpus.mp he
  have hcore := getElem_mem hk
  obtain ⟨core, hcore', hin, hsub⟩ := hw c (Finset.mem_filter.mpr ⟨S.covered _ hcore hck, ho⟩)
  rw [← core_unique hcore hcore' hck hin] at hsub
  exact hne (Finset.mem_filter.mp (hsub hek)).2

theorem reclaimCore_eq (hw : WholeCores S (ownedCpus S d pid)) (k : ℕ) :
    (reclaimCore S pid d (some k)).1 = d.reclaims pid (ownedOn S d pid k) ∧
      (reclaimCore S pid d (some k)).2.2 = (wantedOn S d pid k).length ∧
      (done (reclaimCore S pid d (some k)).2.1 ↔ wantedOn S d pid k ≠ []) := by
  unfold reclaimCore
  rcases owned_or_foreign hw k with hown | hforeign
  · have hall : ownedOn S d pid k = coreCpus S (some k) := filter_eq_self.mpr fun c hc => decide_eq_true (hown c hc)
    obtain ⟨hd, hn, herr⟩ := reclaimLoop_owned (coreCpus S (some k)) d .noupdt 0 (muCpus_nodup _) hown
    rw [hall]
    refine ⟨hd, hn.trans (Nat.zero_add _), herr.trans (or_iff_right (by decide))⟩
  · have hnone : ownedOn S d pid k = [] := filter_eq_nil_iff.mpr fun c hc => by simpa using hforeign c hc
    have hwant : wantedOn S d pid k = [] := filter_eq_nil_iff.mpr fun c hc => by
      rw [decide_eq_true_eq]
      exact fun h => hforeign c hc h.1
    rw [reclaimLoop_foreign _ d .noupdt 0 hforeign, hnone, hwant]
    exact ⟨reclaims_nil.symm, rfl, iff_of_false Bool.false_ne_true fun h => h rfl⟩

theorem reclaimCores_eq : ∀ (ks : List ℕ) (d : Shdata) (ncpus : ℤ) (error : DlbError),
    (ks.flatMap fun k => coreCpus S (some k)).Nodup → WholeCores S (ownedCpus S d pid) →
    ∃ ks1, ks1 <+: ks ∧ (reclaimCores S pid ks d ncpus error).1 = d.reclaims pid (ks1.flatMap (ownedOn S d pid)) ∧
      (ks1 = ks ∨ ncpus ≤ (ks1.flatMap (wantedOn S d pid)).length) ∧
      ∀ p, p <+: ks1 → p ≠ ks1 → (p.flatMap (wantedOn S d pid)).length < ncpus
  | [], d, _, _, _, _ => ⟨[], nil_prefix, reclaims_nil.symm, .inl rfl, fun p hp hne => absurd (prefix_nil.mp hp) hne⟩
  | k :: rest, d, ncpus, error, hl, hw => by
    unfold reclaimCores
    dsimp only
    split
    · rename_i hle
      exact ⟨[], nil_prefix, reclaims_nil.symm, .inr hle, fun p hp hne => absurd (prefix_nil.mp hp) hne⟩
    rename_i hpos
    obtain ⟨hstate, hcount, hdone⟩ := reclaimCore_eq hw k
    have hncpus : (if done (reclaimCore S pid d (some k)).2.1 then ncpus - (reclaimCore S pid d (some k)).2.2 else ncpus) =
        ncpus - (wantedOn S d pid k).length := by
      split
      · rw [hcount]
      · rename_i hnot
        have hnil : wantedOn S d pid k = [] := not_not.mp fun h => hnot (hdone.mpr h)
        simp [hnil]
    rw [hncpus, hstate]
    obtain ⟨-, hrest, hapart⟩ := nodup_append.mp hl
    -- the CPUs of the other cores are as they were
    have hother {j x : ℕ} (hj : j ∈ rest) (hx : x ∈ coreCpus S (some j)) : x ∉ ownedOn S d pid k := fun h =>
      hapart x (mem_filter.mp h).1 x (mem_flatMap.mpr ⟨j, hj, hx⟩) rfl
    have howned : ∀ j ∈ rest, ownedOn S (d.reclaims pid (ownedOn S d pid k)) pid j = ownedOn S d pid j := fun j hj =>
      filter_congr fun x hx => by rw [reclaims_owner]
    have hwanted : ∀ j ∈ rest, wantedOn S (d.reclaims pid (ownedOn S d pid k)) pid j = wantedOn S d pid j := fun j hj =>
      filter_congr fun x hx => by rw [reclaims_info_of_notMem (hother hj hx)]
    have hw' : WholeCores S (ownedCpus S (d.reclaims pid (ownedOn S d pid k)) pid) := by
      have hsame : ownedCpus S (d.reclaims pid (ownedOn S d pid k)) pid = ownedCpus S d pid :=
        Finset.filter_congr fun x _ => by rw [reclaims_owner]
      rwa [hsame]
    obtain ⟨ks1, hfirst, hrun, hend, hshort⟩ := reclaimCores_eq rest (d.reclaims pid (ownedOn S d pid k))
      (ncpus - (wantedOn S d pid k).length) (mergeReclaim error (reclaimCore S pid d (some k)).2.1) hrest hw'
    have hwants {p : List ℕ} (hp : p <+: ks1) : p.flatMap (wantedOn S (d.reclaims pid (ownedOn S d pid k)) pid) =
        p.flatMap (wantedOn S d pid) :=
      flatMap_congr fun j hj => hwanted j ((hp.trans hfirst).subset hj)
    have howns : ks1.flatMap (ownedOn S (d.reclaims pid (ownedOn S d pid k)) pid) = ks1.flatMap (ownedOn S d pid) :=
      flatMap_congr fun j hj => howned j (hfirst.subset hj)
    refine ⟨k :: ks1, (prefix_cons_inj k).mpr hfirst, ?_, ?_, fun p hp hne => ?_⟩
    · rw [hrun, howns, flatMap_cons, reclaims_append]
      intro x hx hx'
      obtain ⟨j, hj, hxj⟩ := mem_flatMap.mp hx'
      exact hother (hfirst.subset hj) (mem_filter.mp hxj).1 hx
    · rw [hwants (prefix_refl ks1)] at hend
      rw [flatMap_cons, length_append]
      rcases hend with rfl | hend
      · exact .inl rfl
      · refine .inr ?_
        omega
    · rcases p with _ | ⟨j, p⟩
      · rw [flatMap_nil, length_nil]
        omega
      · obtain ⟨rfl, hp'⟩ := cons_prefix_cons.mp hp
        have hlt := hshort p hp' fun h => hne (by rw [h])
        rw [hwants hp'] at hlt
        rw [flatMap_cons, length_append]
        omega

/-! ## Reclaiming a number -/

variable (S) in
/-- The CPUs that a process owns and does not guest, on the cores with an id below a bound. -/
def wantedBelow (d : Shdata) (pid : Pid) (bound : ℕ) : List ℕ := (range bound).flatMap (wantedOn S d pid)

variable (S) in
/-- The largest number of hardware threads of a core. -/
def threadsPerCore : ℕ := (S.cores.map Finset.card).foldr max 0

variable (S) in
/-- The process has reclaimed some of the CPUs that it owns and does not guest, `n` of them if there are so many, at most
a core more, and nothing else has changed. -/
def ReclaimsNumber (pid : Pid) (n : ℕ) (d d1 : Shdata) : Prop :=
  ∃ l : List ℕ, l.Nodup ∧ (∀ c ∈ l, c ∈ wantedCpus S d pid) ∧ min n (wantedCpus S d pid).card ≤ l.length ∧
    l.length ≤ n + threadsPerCore S - 1 ∧ d1 = d.reclaims pid l

theorem wantedBelow_eq (n : ℕ) : wantedBelow S d pid n =
    ((range n).flatMap fun k => coreCpus S (some k)).filter fun c => Wants pid (d.nodeInfo c) := by
  rw [filter_flatMap]
  rfl

theorem mem_wantedBelow {n : ℕ} :
    c ∈ wantedBelow S d pid n ↔ (∃ k < n, c ∈ coreCpus S (some k)) ∧ Wants pid (d.nodeInfo c) := by
  rw [wantedBelow_eq, mem_filter, decide_eq_true_eq, mem_flatMap]
  simp only [mem_range]

theorem wantedBelow_le {m n : ℕ} (h : m ≤ n) : (wantedBelow S d pid m).length ≤ (wantedBelow S d pid n).length := by
  obtain ⟨k, rfl⟩ := Nat.exists_eq_add_of_le h
  unfold wantedBelow
  rw [range_add, flatMap_append, length_append]
  omega

theorem wantedOn_length_le (k : ℕ) : (wantedOn S d pid k).length ≤ threadsPerCore S := by
  refine (length_filter_le _ _).trans ?_
  by_cases hk : k < S.cores.length
  · have hcore : coreCpus S (some k) = muCpus S S.cores[k] := by
      rw [coreCpus, Option.bind_some, muGetCoreMaskByCoreid, getElem?_eq_getElem hk]
      rfl
    have hcard : (coreCpus S (some k)).length ≤ S.cores[k].card := by
      have hnodup : (coreCpus S (some k)).Nodup := muCpus_nodup _
      rw [← toFinset_card_of_nodup hnodup, hcore]
      exact Finset.card_le_card fun c hc => of_decide_eq_true (mem_filter.mp (mem_toFinset.mp hc)).2
    exact hcard.trans (le_max_of_le' 0 (mem_map_of_mem (getElem_mem hk)) le_rfl)
  · have hnil : coreCpus S (some k) = [] := eq_nil_iff_forall_not_mem.mpr fun c hc => hk (mem_coreCpus.mp hc).1
    rw [hnil]
    exact Nat.zero_le _

theorem flatMap_filter_of_nil {α β : Type*} {p : α → Bool} {f : α → List β} :
    ∀ l : List α, (∀ a ∈ l, p a = false → f a = []) → (l.filter p).flatMap f = l.flatMap f
  | [], _ => rfl
  | a :: l, h => by
    have ih := flatMap_filter_of_nil l fun b hb => h b (mem_cons_of_mem a hb)
    rw [flatMap_cons, ← ih]
    cases hp : p a with
    | true => rw [filter_cons_of_pos hp, flatMap_cons]
    | false => rw [filter_cons_of_neg (by simp [hp]), h a mem_cons_self hp, nil_append]

theorem reclaims_filter {l : List ℕ} (ho : ∀ c ∈ l, (d.nodeInfo c).owner = pid)
    (hbusy : ∀ c ∈ l, (d.nodeInfo c).guest = pid → (d.nodeInfo c).state = .busy) :
    d.reclaims pid l = d.reclaims pid (l.filter fun c => Wants pid (d.nodeInfo c)) := by
  have hmem (c : ℕ) : c ∈ l.filter (fun c => Wants pid (d.nodeInfo c)) ↔ c ∈ l ∧ Wants pid (d.nodeInfo c) := by
    rw [mem_filter, decide_eq_true_eq]
  have hguest {c : ℕ} (hc : c ∈ l) (hnot : ¬Wants pid (d.nodeInfo c)) : (d.nodeInfo c).guest = pid := by
    by_contra hne
    exact hnot ⟨ho c hc, hne⟩
  have htasks : (l.filter fun c => Wants pid (d.nodeInfo c)).flatMap (fun c => reclaimTasks pid c (d.nodeInfo c)) =
      l.flatMap fun c => reclaimTasks pid c (d.nodeInfo c) := by
    refine flatMap_filter_of_nil l fun c hc hnot => ?_
    unfold reclaimTasks
    rw [if_pos (hguest hc (of_decide_eq_false hnot))]
  have hinfo : (d.reclaims pid l).nodeInfo = (d.reclaims pid (l.filter fun c => Wants pid (d.nodeInfo c))).nodeInfo := by
    funext c
    unfold Shdata.reclaims
    dsimp only
    by_cases hc : c ∈ l
    · by_cases hwants : Wants pid (d.nodeInfo c)
      · rw [if_pos hc, if_pos ((hmem c).mpr ⟨hc, hwants⟩)]
      · have hg := hguest hc hwants
        rw [if_pos hc, if_neg fun h => hwants ((hmem c).mp h).2]
        unfold reclaimed
        rw [← hbusy c hc hg, hg, ite_self, ← hg]
    · rw [if_neg hc, if_neg fun h => hc ((hmem c).mp h).1]
  have hfree : (d.reclaims pid l).freeCpus = (d.reclaims pid (l.filter fun c => Wants pid (d.nodeInfo c))).freeCpus := by
    refine Finset.filter_congr fun c _ => ?_
    rw [hmem c]
    tauto
  calc d.reclaims pid l
      = { d with
          nodeInfo := (d.reclaims pid l).nodeInfo
          freeCpus := (d.reclaims pid l).freeCpus
          tasks := d.tasks ++ l.flatMap fun c => reclaimTasks pid c (d.nodeInfo c) } := rfl
    _ = d.reclaims pid (l.filter fun c => Wants pid (d.nodeInfo c)) := by
        rw [hinfo, hfree, ← htasks]
        rfl

/-- **`shmem_cpuinfo__reclaim_cpus` reclaims a number of CPUs** if and only if the cores that it reaches, with ids below
the number of cores, have enough of them, and on the cores that it comes to no CPU is lent that the process owns and
guests. -/
theorem reclaimCpus_iff (S : System) (d : Shdata) (pid : Pid) (n : ℕ) (hw : WholeCores S (ownedCpus S d pid)) :
    ReclaimsNumber S pid n d (shmemReclaimCpus S d pid n).1 ↔
      min n (wantedCpus S d pid).card ≤ (wantedBelow S d pid (muGetNumCores S)).length ∧
      ∀ k < muGetNumCores S, (wantedBelow S d pid k).length < n → ∀ c ∈ coreCpus S (some k),
        (d.nodeInfo c).owner = pid → (d.nodeInfo c).guest = pid → (d.nodeInfo c).state = .busy := by
  obtain ⟨ks1, hfirst, hrun, hend, hshort⟩ :=
    reclaimCores_eq (range (muGetNumCores S)) d n .noupdt (coreCpus_nodup _) hw
  obtain ⟨m, hm, rfl⟩ : ∃ m ≤ muGetNumCores S, ks1 = range m := by
    refine ⟨ks1.length, hfirst.length_le.trans_eq length_range, ?_⟩
    rw [prefix_iff_eq_take.mp hfirst, take_range, length_range]
  have hstate : (shmemReclaimCpus S d pid n).1 = d.reclaims pid ((range m).flatMap (ownedOn S d pid)) := hrun
  have hmem (c : ℕ) : c ∈ (range m).flatMap (ownedOn S d pid) ↔
      (∃ k < m, c ∈ coreCpus S (some k)) ∧ (d.nodeInfo c).owner = pid := by
    simp only [mem_flatMap, ownedOn, mem_filter, decide_eq_true_eq, mem_range]
    tauto
  have hend' : m = muGetNumCores S ∨ n ≤ (wantedBelow S d pid m).length := by
    rcases hend with heq | hle
    · exact .inl (by simpa using congrArg length heq)
    · exact .inr (Int.ofNat_le.mp hle)
  rw [hstate]
  constructor
  · rintro ⟨l, hnodup, hl, hmin, -, heq⟩
    have htasks := append_cancel_left (congrArg Shdata.tasks heq)
    have hinfo := fun c => congrFun (congrArg Shdata.nodeInfo heq) c
    refine ⟨?_, fun k hk hlt c hc ho hg => ?_⟩
    · -- what is reclaimed gets a task
      have hsub : l ⊆ wantedBelow S d pid m := fun c hc => by
        have hwants := (Finset.mem_filter.mp (hl c hc)).2
        obtain ⟨t, ht⟩ := exists_mem_of_ne_nil _ (reclaimTasks_wants (c := c) hwants)
        have hin : t ∈ l.flatMap fun c => reclaimTasks pid c (d.nodeInfo c) := mem_flatMap.mpr ⟨c, hc, ht⟩
        rw [← htasks] at hin
        obtain ⟨x, hx, htx⟩ := mem_flatMap.mp hin
        obtain rfl : c = x := (reclaimTasks_cpuid _ t ht).symm.trans (reclaimTasks_cpuid _ t htx)
        exact mem_wantedBelow.mpr ⟨((hmem c).mp hx).1, hwants⟩
      exact hmin.trans ((subperm_of_subset hnodup hsub).length_le.trans (wantedBelow_le hm))
    · have hkm : k < m := by
        by_contra hge
        have hle : (wantedBelow S d pid m).length ≤ (wantedBelow S d pid k).length := wantedBelow_le (not_lt.mp hge)
        omega
      have hbusy := hinfo c
      have howned : (d.reclaims pid ((range m).flatMap (ownedOn S d pid))).nodeInfo c = _ :=
        if_pos ((hmem c).mpr ⟨⟨k, hkm, hc⟩, ho⟩)
      have hout : c ∉ l := fun hc => (Finset.mem_filter.mp (hl c hc)).2.2 hg
      rw [howned, reclaims_info_of_notMem hout] at hbusy
      rw [← hbusy]
      rfl
  · rintro ⟨henough, hbusy⟩
    have hwants : ((range m).flatMap (ownedOn S d pid)).filter (fun c => Wants pid (d.nodeInfo c)) =
        wantedBelow S d pid m := by
      rw [wantedBelow, filter_flatMap]
      refine flatMap_congr fun k _ => ?_
      rw [ownedOn, filter_filter]
      refine filter_congr fun c _ => ?_
      rw [← Bool.decide_and]
      exact decide_eq_decide.mpr (and_iff_left_of_imp fun h => h.1)
    have hbelow {k : ℕ} (hk : k < m) : (wantedBelow S d pid k).length < n := by
      refine Int.ofNat_lt.mp (hshort (range k) ?_ fun h => ?_)
      · rw [prefix_iff_eq_take, take_range, length_range, min_eq_left hk.le]
      · have := congrArg length h
        rw [length_range, length_range] at this
        omega
    refine ⟨wantedBelow S d pid m, ?_, fun c hc => ?_, ?_, ?_, ?_⟩
    · rw [wantedBelow_eq]
      exact (coreCpus_nodup m).filter _
    · obtain ⟨⟨k, -, hk⟩, hwant⟩ := mem_wantedBelow.mp hc
      obtain ⟨hlen, hin⟩ := mem_coreCpus.mp hk
      exact Finset.mem_filter.mpr ⟨S.covered _ (getElem_mem hlen) hin, hwant⟩
    · rcases hend' with rfl | hle
      · exact henough
      · exact (min_le_left _ _).trans hle
    · -- one core more than is needed
      rcases m with _ | m
      · exact Nat.zero_le _
      · have hlt := hbelow (Nat.lt_succ_self m)
        have hcore : (wantedOn S d pid m).length ≤ threadsPerCore S := wantedOn_length_le m
        unfold wantedBelow at hlt ⊢
        rw [range_succ, flatMap_append, length_append, flatMap_singleton]
        omega
    · rw [← hwants]
      refine reclaims_filter (fun c hc => ((hmem c).mp hc).2) fun c hc hg => ?_
      obtain ⟨⟨k, hk, hck⟩, ho⟩ := (hmem c).mp hc
      exact hbusy k (by omega) (hbelow hk) c hck ho hg

/-- A process has all CPUs of two cores, whose core ids are `0` and `2`, and lends them. -/
def lentApart : Shdata :=
  (shmemLendCpuMask spacedCores {} (init spacedCores {} {} 1 0 {0, 1, 2, 3}).1 1 {0, 1, 2, 3}).1

theorem reclaimCpus_lentApart : ReclaimsNumber spacedCores 1 1 lentApart (shmemReclaimCpus spacedCores lentApart 1 1).1 :=
  (reclaimCpus_iff spacedCores lentApart 1 1 (by unfold WholeCores; decide)).mpr
    ⟨by decide, by decide⟩

/-- It wants all of them back, and the second core is not reached. -/
theorem last_core_not_reached :
    (parseCores 4 spacedIds.system Lib.insertionStrictQsort ([0, 1, 2, 3].map spacedIds.cpuDir)).map (·.set) =
      spacedCores.cores ∧ WholeCores spacedCores (ownedCpus spacedCores lentApart 1) ∧
      ((shmemReclaimCpus spacedCores lentApart 1 4).1.nodeInfo 2).guest = 0 ∧
      ¬ReclaimsNumber spacedCores 1 4 lentApart (shmemReclaimCpus spacedCores lentApart 1 4).1 := by
  have hleft : ((shmemReclaimCpus spacedCores lentApart 1 4).1.nodeInfo 2).guest = 0 := by decide
  refine ⟨by decide, by unfold WholeCores; decide, hleft, ?_⟩
  rintro ⟨l, hnodup, hl, hmin, -, heq⟩
  have hcard : (wantedCpus spacedCores lentApart 1).card = 4 := by decide
  have hout : 2 ∉ l := fun h => by
    rw [heq] at hleft
    have hinfo : (lentApart.reclaims 1 l).nodeInfo 2 = reclaimed 1 (lentApart.nodeInfo 2) := if_pos h
    rw [hinfo] at hleft
    exact absurd hleft (by decide)
  -- at most three CPUs are left
  have hsub : l.toFinset ⊆ (wantedCpus spacedCores lentApart 1).erase 2 := fun c hc => by
    have hc' := mem_toFinset.mp hc
    exact Finset.mem_erase.mpr ⟨fun h => hout (h ▸ hc'), hl c hc'⟩
  have hle := Finset.card_le_card hsub
  rw [toFinset_card_of_nodup hnodup, Finset.card_erase_of_mem (by decide)] at hle
  omega

end Dlb.Cpuinfo

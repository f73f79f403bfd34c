import Dlb.Cpuinfo.Parallelism
import Dlb.Support.MaskText

/-!
# A process asks for its own CPUs

What `shmem_cpuinfo__acquire_from_cpu_subset` does to a CPU that the process owns. `acquire_cpu` makes it busy unless the
process is its guest already. With SMT the loop over the core of the CPU may end before it: at a CPU where `acquire_cpu`
does not succeed (`Refused`).

* `acquire_regains`: the CPU is busy afterwards if the process is not its guest and the loop gets to it;
* `acquire_keeps_lent`: otherwise its entry stays as it is.
-/

namespace Dlb.Cpuinfo

open List

variable {S : System} {p : Pid} {d d1 d2 : Shdata} {c x y : ℕ} {T : ℕ}

/-! ## Acquiring one CPU -/

/-- `acquire_cpu` has nothing to give: the CPU is of another process, which has not lent it, or it has a guest, or its
core is not eligible; and the process cannot ask for it. -/
def Refused (S : System) (p : Pid) (d : Shdata) (c : ℕ) : Prop :=
  (d.nodeInfo c).guest ≠ p ∧ (d.nodeInfo c).owner ≠ p ∧
    ¬((d.nodeInfo c).guest = 0 ∧ (d.nodeInfo c).state = .lent ∧ coreIsEligible S d p c = true) ∧
    (d.queuesEnabled = true → (d.nodeInfo c).requests.enqueue queuePidSize p = none)

theorem refused_iff : Refused S p d c ↔ (d.nodeInfo c).guest ≠ p ∧ done (acquireCpu S p d c).2 = false := by
  refine and_congr_right fun hguest => ?_
  unfold acquireCpu
  rw [if_neg hguest]
  split
  · rename_i ho
    refine iff_of_false (fun h => h.1 ho) ?_
    split
    · exact nofun
    · exact nofun
  rename_i ho
  split
  · rename_i hav
    exact iff_of_false (fun h => h.2.1 hav) nofun
  rename_i hav
  split
  · rename_i hq
    split
    · rename_i requests hr
      exact iff_of_false (fun h => nomatch hr.symm.trans (h.2.2 hq)) nofun
    · rename_i hr
      exact iff_of_true ⟨ho, hav, fun _ => hr⟩ rfl
  rename_i hq
  split
  · exact iff_of_true ⟨ho, hav, fun h => absurd h hq⟩ rfl
  · exact iff_of_true ⟨ho, hav, fun h => absurd h hq⟩ rfl

/-- What `acquire_cpu` writes: a guest that is the process at an idle CPU, a state that is busy at an own one. -/
structure CpuInfo.Acquires (p : Pid) (i j : CpuInfo) : Prop where
  owner : j.owner = i.owner
  guest : j.guest = i.guest ∨ i.guest = 0 ∧ j.guest = p
  state : j.state = i.state ∨ i.owner = p ∧ j.state = .busy

structure Acquires (p : Pid) (d d1 : Shdata) : Prop where
  flags : SameFlags d d1
  cpu : ∀ x, (d.nodeInfo x).Acquires p (d1.nodeInfo x)

theorem CpuInfo.Acquires.refl (i : CpuInfo) : i.Acquires p i := ⟨rfl, .inl rfl, .inl rfl⟩

theorem Acquires.write {i : CpuInfo} (hflags : SameFlags d d1) (hinfo : d1.nodeInfo = Function.update d.nodeInfo c i)
    (h : (d.nodeInfo c).Acquires p i) : Acquires p d d1 ∧ ∀ x, x ≠ c → d1.nodeInfo x = d.nodeInfo x := by
  have hother : ∀ x, x ≠ c → d1.nodeInfo x = d.nodeInfo x := fun x hx => by rw [hinfo, Function.update_of_ne hx]
  refine ⟨⟨hflags, fun x => ?_⟩, hother⟩
  by_cases hx : x = c
  · rw [hinfo, hx, Function.update_self]
    exact h
  · rw [hother x hx]
    exact .refl _

theorem noteOccupied_same : SameFlags d (noteOccupied S d c) ∧ (noteOccupied S d c).nodeInfo = d.nodeInfo := by
  unfold noteOccupied
  split
  · exact ⟨⟨rfl, rfl, rfl⟩, rfl⟩
  · exact ⟨.refl d, rfl⟩

theorem noteOccupiedOwned_same :
    SameFlags d (noteOccupiedOwned S d c) ∧ (noteOccupiedOwned S d c).nodeInfo = d.nodeInfo := by
  unfold noteOccupiedOwned
  split
  · exact noteOccupied_same
  · exact ⟨.refl d, rfl⟩

theorem acquireCpu_acquires :
    Acquires p d (acquireCpu S p d c).1 ∧ ∀ x, x ≠ c → (acquireCpu S p d c).1.nodeInfo x = d.nodeInfo x := by
  have hsame : Acquires p d d ∧ ∀ x, x ≠ c → d.nodeInfo x = d.nodeInfo x :=
    ⟨⟨.refl d, fun _ => .refl _⟩, fun _ _ => rfl⟩
  unfold acquireCpu
  dsimp only
  split
  · exact hsame
  split
  · rename_i ho
    split
    · rename_i hg
      exact Acquires.write ⟨rfl, rfl, rfl⟩ rfl ⟨rfl, .inr ⟨hg, rfl⟩, .inr ⟨ho, rfl⟩⟩
    · have hnote := noteOccupied_same (S := S) (c := c)
        (d := (d.set c { d.nodeInfo c with state := .busy }).recall p c)
      exact Acquires.write ⟨hnote.1.initialized, hnote.1.queues, hnote.1.smt⟩ hnote.2 ⟨rfl, .inl rfl, .inr ⟨ho, rfl⟩⟩
  split
  · rename_i hav
    have hnote := noteOccupiedOwned_same (S := S) (c := c)
      (d := (d.set c { d.nodeInfo c with guest := p }).push .enableCpu p c)
    exact Acquires.write ⟨hnote.1.initialized, hnote.1.queues, hnote.1.smt⟩ hnote.2 ⟨rfl, .inr ⟨hav.1, rfl⟩, .inl rfl⟩
  split
  · split
    · exact Acquires.write ⟨rfl, rfl, rfl⟩ rfl ⟨rfl, .inl rfl, .inl rfl⟩
    · exact hsame
  split
  · exact hsame
  · exact hsame

theorem acquireCpu_entry (hx : x ≠ c) : (acquireCpu S p d c).1.nodeInfo x = d.nodeInfo x := acquireCpu_acquires.2 x hx

theorem acquireCpu_smt : (acquireCpu S p d c).1.hwHasSmt = d.hwHasSmt := acquireCpu_acquires.1.flags.smt

theorem acquireCpu_own (ho : (d.nodeInfo c).owner = p) (hg : (d.nodeInfo c).guest ≠ p) :
    ((acquireCpu S p d c).1.nodeInfo c).state = .busy := by
  unfold acquireCpu
  rw [if_neg hg, if_pos ho]
  split
  · simp [Shdata.set, Shdata.push, Shdata.clrFree]
  · rw [noteOccupied_same.2]
    simp [Shdata.set, Shdata.recall, Shdata.push]

theorem acquireCpu_guest (hg : (d.nodeInfo c).guest = p) : (acquireCpu S p d c).1 = d := by
  unfold acquireCpu
  rw [if_pos hg]

/-! ## Whether a core is eligible does not change -/

theorem CpuInfo.Acquires.foreign {i j : CpuInfo} (h : i.Acquires p j) :
    ((j.guest ≠ p ∧ j.guest ≠ 0) ∨ (j.state = .busy ∧ j.owner ≠ p)) ↔
      ((i.guest ≠ p ∧ i.guest ≠ 0) ∨ (i.state = .busy ∧ i.owner ≠ p)) := by
  refine or_congr ?_ ?_
  · obtain hg | ⟨h0, hp⟩ := h.guest
    · rw [hg]
    · exact iff_of_false (fun hj => hj.1 hp) fun hi => hi.2 h0
  · rw [h.owner]
    obtain hs | ⟨ho, -⟩ := h.state
    · rw [hs]
    · exact iff_of_false (fun hj => hj.2 ho) fun hi => hi.2 ho

theorem Acquires.eligible (h : Acquires p d d1) : coreIsEligible S d1 p c = coreIsEligible S d p c := by
  unfold coreIsEligible
  rw [h.flags.smt]
  split
  · exact decide_eq_decide.mpr (forall₂_congr fun x _ => not_congr (h.cpu x).foreign)
  · refine decide_eq_decide.mpr ?_
    rw [(h.cpu c).owner]
    obtain hg | ⟨h0, hp⟩ := (h.cpu c).guest
    · rw [hg]
    · exact iff_of_true (.inr (.inl hp)) (.inr (.inr h0))

theorem Acquires.refused_iff (h : Acquires p d d1) (hentry : d1.nodeInfo c = d.nodeInfo c) :
    Refused S p d1 c ↔ Refused S p d c := by
  unfold Refused
  rw [hentry, h.eligible, h.flags.queues]

theorem Refused.acquireCpu (h : Refused S p d x) : Refused S p (acquireCpu S p d c).1 x := by
  by_cases hx : x = c
  · rw [← hx, acquireCpu_stuck (Cpuinfo.refused_iff.mp h).2]
    exact h
  · exact (acquireCpu_acquires.1.refused_iff (acquireCpu_entry hx)).mpr h

/-! ## The loop over a core -/

theorem coreCpus_sorted (k : Option ℕ) : (coreCpus S k).Pairwise (· < ·) := pairwise_lt_range.filter _

theorem coreId_of_mem {k : Option ℕ} (hc : c ∈ coreCpus S k) : muGetCoreId S c = k := by
  obtain ⟨-, hmem⟩ := mem_filter.mp hc
  replace hmem : c ∈ (k.bind (muGetCoreMaskByCoreid S)).getD ∅ := of_decide_eq_true hmem
  cases hcore : k.bind (muGetCoreMaskByCoreid S) with
  | none =>
    rw [hcore] at hmem
    exact absurd hmem (Finset.notMem_empty c)
  | some core =>
    rw [hcore, Option.getD_some] at hmem
    obtain ⟨i, rfl, hi⟩ := Option.bind_eq_some_iff.mp hcore
    obtain ⟨hlt, hget⟩ := List.getElem?_eq_some_iff.mp hi
    have hcovered : core ⊆ S.sysMask := S.covered core (mem_of_getElem? hi)
    unfold muGetCoreId
    rw [if_neg (System.lt_size (hcovered hmem)).not_ge, findIdx?_eq_some_iff_getElem]
    refine ⟨hlt, by rw [hget]; exact decide_eq_true hmem, fun j hj => ?_⟩
    have hdisj := pairwise_iff_getElem.mp S.disjoint j i (hj.trans hlt) hlt hj
    rw [hget] at hdisj
    simpa using fun hcj => Finset.disjoint_left.mp hdisj hcj hmem

section Core

variable {l : List ℕ} {error : DlbError} {n : ℕ}

theorem coreLoop_entry (hc : c ∉ l) : (coreLoop (acquireCpu S p) p l d error n).1.nodeInfo c = d.nodeInfo c := by
  induction l generalizing d error n with
  | nil => rfl
  | cons y rest ih =>
    obtain ⟨hy, hrest⟩ := ne_and_not_mem_of_not_mem_cons hc
    have hentry : (acquireCpu S p d y).1.nodeInfo c = d.nodeInfo c := acquireCpu_entry hy
    unfold coreLoop
    dsimp only
    split
    · exact (ih hrest).trans hentry
    split
    · exact (ih hrest).trans hentry
    · exact hentry

def HasBusy (p : Pid) (c : ℕ) (d : Shdata) : Prop := (d.nodeInfo c).owner = p ∧ (d.nodeInfo c).state = .busy

theorem HasBusy.acquireCpu (h : HasBusy p c d) (y : ℕ) : HasBusy p c (acquireCpu S p d y).1 := by
  have hcpu := (acquireCpu_acquires (S := S) (p := p) (d := d) (c := y)).1.cpu c
  refine ⟨hcpu.owner.trans h.1, ?_⟩
  obtain hs | ⟨-, hs⟩ := hcpu.state
  · exact hs.trans h.2
  · exact hs

theorem coreLoop_regains (hsorted : l.Pairwise (· < ·)) (hc : c ∈ l) (ho : (d.nodeInfo c).owner = p)
    (hg : (d.nodeInfo c).guest ≠ p) (hno : ∀ x ∈ l, x < c → ¬ Refused S p d x) :
    HasBusy p c (coreLoop (acquireCpu S p) p l d error n).1 := by
  induction l generalizing d error n with
  | nil => exact absurd hc not_mem_nil
  | cons y rest ih =>
    obtain ⟨hy, hsorted⟩ := pairwise_cons.mp hsorted
    have hcpu := (acquireCpu_acquires (S := S) (p := p) (d := d) (c := y)).1
    unfold coreLoop
    dsimp only
    by_cases hyc : y = c
    · -- from here on the CPU is busy
      subst hyc
      have hbusy : HasBusy p y (acquireCpu S p d y).1 := ⟨(hcpu.cpu y).owner.trans ho, acquireCpu_own ho hg⟩
      split
      · exact coreLoop_keeps (fun _ c h => h.acquireCpu c) _ _ _ _ hbusy
      split
      · exact coreLoop_keeps (fun _ c h => h.acquireCpu c) _ _ _ _ hbusy
      · exact hbusy
    · have hc : c ∈ rest := (mem_cons.mp hc).resolve_left (Ne.symm hyc)
      have hentry : (acquireCpu S p d y).1.nodeInfo c = d.nodeInfo c := acquireCpu_entry (Ne.symm hyc)
      have hno' : ∀ x ∈ rest, x < c → ¬ Refused S p (acquireCpu S p d y).1 x := by
        intro x hx hlt
        rw [hcpu.refused_iff (acquireCpu_entry (hy x hx).ne')]
        exact hno x (mem_cons_of_mem y hx) hlt
      split
      · exact ih hsorted hc (hentry ▸ ho) (hentry ▸ hg) hno'
      split
      · exact ih hsorted hc (hentry ▸ ho) (hentry ▸ hg) hno'
      · rename_i hdone hguest
        have hstuck := acquireCpu_stuck (eq_false_of_ne_true hdone)
        rw [hstuck] at hguest
        exact absurd (refused_iff.mpr ⟨hguest, eq_false_of_ne_true hdone⟩) (hno y mem_cons_self (hy c hc))

theorem coreLoop_refused (hsorted : l.Pairwise (· < ·)) (hx : x ∈ l) (hlt : x < c) (hr : Refused S p d x) :
    (coreLoop (acquireCpu S p) p l d error n).1.nodeInfo c = d.nodeInfo c := by
  induction l generalizing d error n with
  | nil => exact absurd hx not_mem_nil
  | cons y rest ih =>
    obtain ⟨hy, hsorted⟩ := pairwise_cons.mp hsorted
    have hyc : c ≠ y := by
      rintro rfl
      obtain rfl | hx := mem_cons.mp hx
      · exact lt_irrefl _ hlt
      · exact lt_asymm hlt (hy x hx)
    have hentry : (acquireCpu S p d y).1.nodeInfo c = d.nodeInfo c := acquireCpu_entry hyc
    unfold coreLoop
    dsimp only
    by_cases hyx : y = x
    · subst hyx
      obtain ⟨hguest, hdone⟩ := refused_iff.mp hr
      rw [hdone, if_neg Bool.false_ne_true, acquireCpu_stuck hdone, if_neg hguest]
    · have hx : x ∈ rest := (mem_cons.mp hx).resolve_left (Ne.symm hyx)
      split
      · exact (ih hsorted hx hr.acquireCpu).trans hentry
      split
      · exact (ih hsorted hx hr.acquireCpu).trans hentry
      · exact hentry

end Core

/-! ## The loop over the own CPUs -/

section Array

variable {l : List ℕ} {prev : Option ℕ} {error : DlbError} {ncpus : ℤ}

/-- The process is not the guest of its CPU and, with SMT, no CPU before it in its core is refused. -/
def Regains (S : System) (p : Pid) (d : Shdata) (c : ℕ) : Prop :=
  (d.nodeInfo c).guest ≠ p ∧ (d.hwHasSmt = true → c ∈ coreCpus S (muGetCoreId S c) ∧
    ∀ x ∈ coreCpus S (muGetCoreId S c), x < c → ¬ Refused S p d x)

theorem Regains.congr (h : Regains S p d c) (hd : Acquires p d d1) (hentry : d1.nodeInfo c = d.nodeInfo c)
    (hcore : d.hwHasSmt = true → ∀ x ∈ coreCpus S (muGetCoreId S c), d1.nodeInfo x = d.nodeInfo x) :
    Regains S p d1 c := by
  refine ⟨hentry ▸ h.1, fun hsmt => ?_⟩
  rw [hd.flags.smt] at hsmt
  obtain ⟨hmem, hno⟩ := h.2 hsmt
  refine ⟨hmem, fun x hx hlt => ?_⟩
  rw [hd.refused_iff (hcore hsmt x hx)]
  exact hno x hx hlt

theorem CpuInfo.Acquires.trans {i j k : CpuInfo} (h1 : i.Acquires p j) (h2 : j.Acquires p k) : i.Acquires p k := by
  refine ⟨h2.owner.trans h1.owner, ?_, ?_⟩
  · obtain hg | ⟨h0, hp⟩ := h2.guest
    · rw [hg]
      exact h1.guest
    · obtain hg | ⟨h0', hp'⟩ := h1.guest
      · exact .inr ⟨hg ▸ h0, hp⟩
      · exact .inr ⟨h0', hp⟩
  · obtain hs | ⟨ho, hs⟩ := h2.state
    · rw [hs]
      exact h1.state
    · exact .inr ⟨h1.owner ▸ ho, hs⟩

theorem Acquires.trans (h1 : Acquires p d d1) (h2 : Acquires p d1 d2) : Acquires p d d2 :=
  ⟨h1.flags.trans h2.flags, fun x => (h1.cpu x).trans (h2.cpu x)⟩

theorem acquireCore_acquires (k : Option ℕ) : Acquires p d (acquireCore S p d k).1 :=
  coreLoop_keeps (P := Acquires p d) (fun _ _ h => h.trans acquireCpu_acquires.1) _ _ _ _
    ⟨.refl d, fun _ => .refl _⟩

theorem acquireCore_regains (h : Regains S p d c) (hsmt : d.hwHasSmt = true) (ho : (d.nodeInfo c).owner = p)
    (k : Option ℕ) :
    (muGetCoreId S c = k → HasBusy p c (acquireCore S p d k).1) ∧
    (muGetCoreId S c ≠ k → Regains S p (acquireCore S p d k).1 c ∧
      ((acquireCore S p d k).1.nodeInfo c).owner = p) := by
  obtain ⟨hmem, hno⟩ := h.2 hsmt
  refine ⟨?_, fun hne => ?_⟩
  · rintro rfl
    exact coreLoop_regains (coreCpus_sorted _) hmem ho h.1 hno
  · have hother : ∀ x ∈ coreCpus S (muGetCoreId S c), (acquireCore S p d k).1.nodeInfo x = d.nodeInfo x := by
      refine fun x hx => coreLoop_entry fun hxk => hne ?_
      rw [← coreId_of_mem hx, coreId_of_mem hxk]
    refine ⟨h.congr (acquireCore_acquires k) (hother c hmem) fun _ => hother, ?_⟩
    rw [hother c hmem]
    exact ho

theorem acquireCore_count_le (hcores : ∀ core ∈ S.cores, core.card ≤ T) (k : Option ℕ) :
    (acquireCore S p d k).2.2 ≤ T := by
  refine (coreLoop_count_le _ _ _ _).trans ?_
  rw [Nat.zero_add]
  exact coreCpus_length hcores k

theorem arrayLoop_regains (hT : 1 ≤ T) (hcores : ∀ core ∈ S.cores, core.card ≤ T) (hn : ((T * l.length : ℕ) : ℤ) < ncpus)
    (hc : HasBusy p c d ∨ Regains S p d c ∧ (d.nodeInfo c).owner = p ∧ c ∈ l ∧
      (d.hwHasSmt = true → prev ≠ muGetCoreId S c)) :
    HasBusy p c (arrayLoop S (acquireCore S p) (acquireCpu S p) l prev d ncpus error).1 := by
  induction l generalizing prev d ncpus error with
  | nil => exact hc.resolve_right fun h => not_mem_nil h.2.2.1
  | cons y rest ih =>
    rw [length_cons, Nat.mul_succ] at hn
    have hpos : ¬ ncpus ≤ 0 := by omega
    have hcount := acquireCore_count_le (p := p) (d := d) hcores (muGetCoreId S y)
    unfold arrayLoop
    dsimp only
    rw [if_neg hpos]
    split
    · rename_i hsmt
      split
      · -- a new core
        have hnext : HasBusy p c (acquireCore S p d (muGetCoreId S y)).1 ∨
            Regains S p (acquireCore S p d (muGetCoreId S y)).1 c ∧
              ((acquireCore S p d (muGetCoreId S y)).1.nodeInfo c).owner = p ∧ c ∈ rest ∧
              ((acquireCore S p d (muGetCoreId S y)).1.hwHasSmt = true → muGetCoreId S y ≠ muGetCoreId S c) := by
          obtain hbusy | ⟨hreg, ho, hmem, -⟩ := hc
          · exact .inl (coreLoop_keeps (fun _ c h => h.acquireCpu c) _ _ _ _ hbusy)
          · obtain ⟨hsame, hother⟩ := acquireCore_regains hreg hsmt ho (muGetCoreId S y)
            by_cases hcore : muGetCoreId S c = muGetCoreId S y
            · exact .inl (hsame hcore)
            · have hne : c ≠ y := fun h => hcore (h ▸ rfl)
              exact .inr ⟨(hother hcore).1, (hother hcore).2, (mem_cons.mp hmem).resolve_left hne,
                fun _ => Ne.symm hcore⟩
        split
        · exact ih (by omega) hnext
        · exact ih (by omega) hnext
      · -- the core of the CPU before
        rename_i hprev
        rw [not_not] at hprev
        refine ih (by omega) (hc.imp_right ?_)
        rintro ⟨hreg, ho, hmem, hne⟩
        refine ⟨hreg, ho, ?_, hne⟩
        refine (mem_cons.mp hmem).resolve_left fun h => hne hsmt ?_
        rw [h, hprev]
    · rename_i hsmt
      have hnext : HasBusy p c (acquireCpu S p d y).1 ∨ Regains S p (acquireCpu S p d y).1 c ∧
          ((acquireCpu S p d y).1.nodeInfo c).owner = p ∧ c ∈ rest ∧
          ((acquireCpu S p d y).1.hwHasSmt = true → prev ≠ muGetCoreId S c) := by
        obtain hbusy | ⟨hreg, ho, hmem, hne⟩ := hc
        · exact .inl (hbusy.acquireCpu y)
        · by_cases hcy : c = y
          · subst hcy
            exact .inl ⟨((acquireCpu_acquires.1).cpu c).owner.trans ho, acquireCpu_own ho hreg.1⟩
          · have hentry : (acquireCpu S p d y).1.nodeInfo c = d.nodeInfo c := acquireCpu_entry hcy
            refine .inr ⟨hreg.congr acquireCpu_acquires.1 hentry fun h => absurd h hsmt, hentry ▸ ho,
              (mem_cons.mp hmem).resolve_left hcy, fun h => absurd (acquireCpu_smt.symm.trans h) hsmt⟩
      split
      · exact ih (by omega) hnext
      · exact ih (by omega) hnext

/-- With SMT, the CPU is of no core or one before it is refused; and its entry is as in `d0`. -/
structure CutOff (S : System) (p : Pid) (c : ℕ) (d0 d : Shdata) : Prop where
  smt : d.hwHasSmt = true
  entry : d.nodeInfo c = d0.nodeInfo c
  before : c ∉ coreCpus S (muGetCoreId S c) ∨ ∃ x ∈ coreCpus S (muGetCoreId S c), x < c ∧ Refused S p d x

theorem CutOff.acquireCore {d0 : Shdata} (h : CutOff S p c d0 d) (k : Option ℕ) :
    CutOff S p c d0 (acquireCore S p d k).1 where
  smt := (acquireCore_acquires k).flags.smt.trans h.smt
  entry := by
    rw [← h.entry]
    by_cases hmem : c ∈ coreCpus S k
    · obtain rfl := coreId_of_mem hmem
      obtain ⟨x, hx, hlt, hr⟩ := h.before.resolve_left (not_not_intro hmem)
      exact coreLoop_refused (coreCpus_sorted _) hx hlt hr
    · exact coreLoop_entry hmem
  before := by
    refine h.before.imp_right ?_
    rintro ⟨x, hx, hlt, hr⟩
    have hkeep : ∀ d y, Refused S p d x → Refused S p (acquireCpu S p d y).1 x := fun _ _ h => h.acquireCpu
    exact ⟨x, hx, hlt, coreLoop_keeps hkeep _ _ _ _ hr⟩

theorem arrayLoop_entry (hno : ¬ Regains S p d c) :
    (arrayLoop S (acquireCore S p) (acquireCpu S p) l prev d ncpus error).1.nodeInfo c = d.nodeInfo c := by
  by_cases hguest : (d.nodeInfo c).guest = p
  · have hop : ∀ (d' : Shdata) (y : ℕ), d'.nodeInfo c = d.nodeInfo c →
        (acquireCpu S p d' y).1.nodeInfo c = d.nodeInfo c := by
      intro d' y h
      by_cases hcy : c = y
      · rw [← hcy, acquireCpu_guest (h ▸ hguest)]
        exact h
      · rw [acquireCpu_entry hcy]
        exact h
    exact arrayLoop_keeps (P := fun d' => d'.nodeInfo c = d.nodeInfo c) (fun _ _ h => coreLoop_keeps hop _ _ _ _ h) hop
      _ _ _ _ _ rfl
  · have hcut : CutOff S p c d d := by
      unfold Regains at hno
      push Not at hno
      obtain ⟨hsmt, h⟩ := hno hguest
      exact ⟨hsmt, rfl, or_iff_not_imp_left.mpr fun hmem => h (not_not.mp hmem)⟩
    exact (arrayLoop_keeps_cores (fun _ h => h.smt) (fun _ k h => h.acquireCore k) l prev d ncpus error hcut).entry

end Array

/-! ## The call -/

section Call

variable {mask : CpuSet}

theorem card_le_size (hmask : mask ⊆ S.sysMask) : mask.card ≤ S.size := by
  have hrange : mask ⊆ Finset.range S.size := fun c hc => Finset.mem_range.mpr (System.lt_size (hmask hc))
  exact (Finset.card_le_card hrange).trans (Finset.card_range _).le

theorem enough_wanted (hS : S.size ≤ cpuSetsize) (hmask : mask ⊆ S.sysMask) :
    ((cpuSetsize * (muCpus S mask).length : ℕ) : ℤ) < intMax := by
  have hlen : (muCpus S mask).length ≤ cpuSetsize := by
    unfold muCpus
    rw [← toFinset_card_of_nodup (nodup_range.filter _)]
    refine (card_le_size fun c hc => hmask ?_).trans hS
    exact of_decide_eq_true (mem_filter.mp (mem_toFinset.mp hc)).2
  have hle : cpuSetsize * (muCpus S mask).length ≤ cpuSetsize * cpuSetsize := Nat.mul_le_mul_left _ hlen
  have hbound : ((cpuSetsize * cpuSetsize : ℕ) : ℤ) < intMax := by decide
  omega

/-- **`shmem_cpuinfo__acquire_from_cpu_subset`** of own CPUs: one that is lent becomes busy exactly if the process is not
its guest and no CPU before it in its core is refused. -/
theorem acquire_regains (hS : S.size ≤ cpuSetsize) (hmask : mask ⊆ S.sysMask) (hc : c ∈ mask)
    (ho : (d.nodeInfo c).owner = p) (hs : (d.nodeInfo c).state = .lent) :
    ((shmemAcquireFromCpuSubset S d p (muCpus S mask)).1.nodeInfo c).state = .busy ↔ Regains S p d c := by
  unfold shmemAcquireFromCpuSubset acquireCpusInArray
  refine ⟨fun hbusy => ?_, fun hreg => ?_⟩
  · by_contra hno
    rw [arrayLoop_entry hno, hs] at hbusy
    exact nomatch hbusy
  · have hmem : c ∈ muCpus S mask :=
      mem_filter.mpr ⟨mem_range.mpr (System.lt_bits (hmask hc)), decide_eq_true hc⟩
    have hcores : ∀ core ∈ S.cores, core.card ≤ cpuSetsize := fun core hcore =>
      (card_le_size (S.covered core hcore)).trans hS
    refine (arrayLoop_regains (by decide) hcores (enough_wanted hS hmask) (.inr ⟨hreg, ho, hmem, fun hsmt => ?_⟩)).2
    -- the CPU has a core
    rintro hnone
    have hcpu := (hreg.2 hsmt).1
    rw [← hnone] at hcpu
    exact absurd (mem_filter.mp hcpu).2 (by simp)

end Call

end Dlb.Cpuinfo

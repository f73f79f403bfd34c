import Mathlib.Data.Finset.Card
import Dlb.Lib.Run
import Dlb.Support.Types

/-!
# The list of attached processes

`shmem_init` registers the process in `pidlist` and in the same pass removes the processes that do not exist any more;
`shmem_finalize` removes the process.

* `count_checkPids`, `checkPids_shdata`: what the pass does to the list and to the data.
-/

namespace Dlb.Shmem

open List

variable {D : Type*} {kill : Pid → Bool} {f : D → Pid → D} {pid q : Pid} {l : List Pid} {registered : Bool} {shdata : D}

/-! ## One pass over the list -/

/-- `shmem_consistency_check_pids`. `kill pid` says that a signal can be sent to the process. Next to the list and the
result there is the data that the cleanup function works on. -/
def checkPids (kill : Pid → Bool) (cleanupFn : Option (D → Pid → D)) (pid : Pid) :
    List Pid → Bool → D → List Pid × Bool × D
  | [], registered, shdata => ([], registered, shdata)
  | entry :: rest, registered, shdata =>
    if entry = 0 then
      if registered then
        let r := checkPids kill cleanupFn pid rest registered shdata
        (entry :: r.1, r.2)
      else
        let r := checkPids kill cleanupFn pid rest true shdata
        (pid :: r.1, r.2)
    else if kill entry then
      let r := checkPids kill cleanupFn pid rest registered shdata
      (entry :: r.1, r.2)
    else
      match cleanupFn with
      | some f =>
        let r := checkPids kill cleanupFn pid rest registered (f shdata entry)
        (0 :: r.1, r.2)
      | none =>
        let r := checkPids kill cleanupFn pid rest registered shdata
        (entry :: r.1, r.2)

def removePid (pid : Pid) : List Pid → List Pid × Bool
  | [] => ([], true)
  | entry :: rest =>
    let r := removePid pid rest
    if entry = pid then (0 :: r.1, r.2) else (entry :: r.1, if entry ≠ 0 then false else r.2)

theorem checkPids_length {cleanupFn : Option (D → Pid → D)} :
    (checkPids kill cleanupFn pid l registered shdata).1.length = l.length := by
  induction l generalizing registered shdata with
  | nil => rfl
  | cons entry rest ih =>
    unfold checkPids
    split
    · split
      · exact congrArg (· + 1) ih
      · exact congrArg (· + 1) ih
    split
    · exact congrArg (· + 1) ih
    · split
      · exact congrArg (· + 1) ih
      · exact congrArg (· + 1) ih

theorem removePid_length : (removePid pid l).1.length = l.length := by
  induction l with
  | nil => rfl
  | cons entry rest ih =>
    unfold removePid
    split
    · exact congrArg (· + 1) ih
    · exact congrArg (· + 1) ih

def Missing (kill : Pid → Bool) (q : Pid) : Prop := q ≠ 0 ∧ kill q = false

instance : DecidablePred (Missing kill) := fun q => by
  unfold Missing
  infer_instance

theorem checkPids_shdata : (checkPids kill (some f) pid l registered shdata).2.2 =
    (l.filter (Missing kill ·)).foldl f shdata := by
  induction l generalizing registered shdata with
  | nil => rfl
  | cons entry rest ih =>
    unfold checkPids
    split
    · rename_i h0
      have hnot : ¬Missing kill entry := fun h => h.1 h0
      rw [filter_cons_of_neg (by simpa using hnot)]
      split
      · exact ih
      · exact ih
    split
    · rename_i hkill
      have hnot : ¬Missing kill entry := fun h => Bool.false_ne_true (h.2.symm.trans hkill)
      rw [filter_cons_of_neg (by simpa using hnot)]
      exact ih
    · rename_i h0 hkill
      have hmissing : Missing kill entry := ⟨h0, Bool.eq_false_iff.mpr hkill⟩
      rw [filter_cons_of_pos (by simpa using hmissing), foldl_cons]
      exact ih

theorem count_checkPids (hq : q ≠ 0) :
    ((checkPids kill (some f) pid l registered shdata).1).count q =
      (if kill q then l.count q else 0) + if q = pid ∧ registered = false ∧ 0 ∈ l then 1 else 0 := by
  induction l generalizing registered shdata with
  | nil => simp [checkPids]
  | cons entry rest ih =>
    unfold checkPids
    split
    · rename_i h0
      subst h0
      split
      · rename_i hreg
        rw [count_cons_of_ne hq.symm, ih, count_cons_of_ne hq.symm, hreg]
        simp
      · rename_i hreg
        rw [count_cons, ih, count_cons_of_ne hq.symm]
        have hnew : pid = q ↔ q = pid := eq_comm
        simp [Bool.eq_false_iff.mpr hreg, hnew]
    rename_i h0
    have hmem : 0 ∈ entry :: rest ↔ 0 ∈ rest := by simp [Ne.symm h0]
    split
    · rename_i hkill
      rw [count_cons, ih, count_cons]
      simp only [hmem]
      by_cases he : entry = q
      · subst he
        simp only [hkill, if_true, BEq.rfl]
        omega
      · simp [he]
    · rename_i hkill
      rw [count_cons_of_ne hq.symm, ih, count_cons]
      simp only [hmem]
      by_cases he : entry = q
      · subst he
        simp [hkill]
      · simp [he]

theorem count_removePid (hq : q ≠ 0) : ((removePid pid l).1).count q = if q = pid then 0 else l.count q := by
  induction l with
  | nil => simp [removePid]
  | cons entry rest ih =>
    unfold removePid
    split
    · rename_i he
      rw [count_cons_of_ne hq.symm, ih, count_cons, he]
      by_cases hqp : q = pid
      · rw [if_pos hqp, if_pos hqp]
      · simp [hqp, Ne.symm hqp]
    · rename_i he
      rw [count_cons, ih, count_cons]
      by_cases hqp : q = pid
      · subst hqp
        simp [he]
      · simp [hqp]

theorem removePid_last : (removePid pid l).2 = true ↔ ∀ q ∈ l, q ≠ 0 → q = pid := by
  induction l with
  | nil => simp [removePid]
  | cons entry rest ih =>
    unfold removePid
    rw [forall_mem_cons, ← ih]
    split
    · rename_i he
      simp [he]
    · rename_i he
      by_cases h0 : entry = 0
      · simp [h0]
      · simp [h0, he]

/-! ## Runs -/

/-- The shared memory, the processes that are attached to it, those that have died attached to it, and the calls of the
cleanup function. -/
structure Memory where
  pidlist : List Pid
  attached : Finset Pid := ∅
  died : Finset Pid := ∅
  cleaned : List Pid := []

inductive Event where
  | shmemInit (pid : Pid)
  | shmemFinalize (pid : Pid)
  | death (pid : Pid)
deriving DecidableEq

namespace Memory

variable {m : Memory} {e : Event} {size : ℕ}

def fresh (size : ℕ) : Memory where
  pidlist := replicate size 0

/-- A signal can be sent to every process that has not died. -/
def alive (m : Memory) (pid : Pid) : Bool := pid ∉ m.died

def cleanupFn (cleaned : List Pid) (pid : Pid) : List Pid := cleaned ++ [pid]

/-- `shmem_init`, from the lock on. The result of the pass is not used. -/
def shmemInit (m : Memory) (pid : Pid) : Memory :=
  let r := checkPids m.alive (some cleanupFn) pid m.pidlist false m.cleaned
  { m with
    pidlist := r.1
    attached := insert pid m.attached
    cleaned := r.2.2 }

/-- `shmem_finalize`, until the unlock. -/
def shmemFinalize (m : Memory) (pid : Pid) : Memory × Bool :=
  let r := removePid pid m.pidlist
  ({ m with
      pidlist := r.1
      attached := m.attached.erase pid }, r.2)

def next (m : Memory) : Event → Memory
  | .shmemInit pid => m.shmemInit pid
  | .shmemFinalize pid => (m.shmemFinalize pid).1
  | .death pid =>
    { m with
      attached := m.attached.erase pid
      died := insert pid m.died }

/-- The processes have different ids, each is attached once, and no more than the system has CPUs. -/
def Allowed (size : ℕ) (m : Memory) : Event → Prop
  | .shmemInit pid => pid ≠ 0 ∧ pid ∉ m.attached ∧ pid ∉ m.died ∧ m.attached.card < size
  | .shmemFinalize pid => pid ∈ m.attached
  | .death pid => pid ∈ m.attached

/-- After `shmem_init` the process and the other living ones are listed, and the dead ones are not and have been cleaned
up once. `shmem_finalize` finds out whether another process is attached or listed. -/
def Kept (m : Memory) : Event → Prop
  | .shmemInit pid =>
    pid ∈ (m.shmemInit pid).pidlist ∧ (∀ q ∈ m.attached, q ∈ (m.shmemInit pid).pidlist) ∧
      ∀ q ∈ m.died, (m.shmemInit pid).cleaned.count q = 1 ∧ q ∉ (m.shmemInit pid).pidlist
  | .shmemFinalize pid =>
    (m.shmemFinalize pid).2 = true ↔ m.attached.erase pid = ∅ ∧ ∀ q ∈ m.died, q ∉ m.pidlist
  | .death _ => True

/-- A process that attaches finds a free entry. -/
def HasFree (m : Memory) : Event → Prop
  | .shmemInit _ => 0 ∈ m.pidlist
  | _ => True

instance : Decidable (m.Allowed size e) := by
  cases e <;> unfold Allowed <;> infer_instance

instance : Decidable (m.Kept e) := by
  cases e <;> unfold Kept <;> infer_instance

instance : Decidable (m.HasFree e) := by
  cases e <;> unfold HasFree <;> infer_instance

/-- The entries are the living attached processes and the dead ones that have not been cleaned up. -/
structure Listed (m : Memory) : Prop where
  disjoint : ∀ p ∈ m.attached, p ∉ m.died
  nonzero : ∀ p, p ∈ m.attached ∨ p ∈ m.died → p ≠ 0
  living : ∀ p ∈ m.attached, m.pidlist.count p = 1
  dead : ∀ p ∈ m.died, m.pidlist.count p + m.cleaned.count p = 1
  known : ∀ p ∈ m.pidlist, p ≠ 0 → p ∈ m.attached ∨ p ∈ m.died
  past : ∀ p ∈ m.cleaned, p ∈ m.died

theorem Listed.fresh : Listed (fresh size) where
  disjoint := nofun
  nonzero := fun _ h => h.elim nofun nofun
  living := nofun
  dead := nofun
  known := fun _ hp h0 => absurd (eq_of_mem_replicate hp) h0
  past := nofun

theorem foldl_cleanupFn {cleaned : List Pid} : l.foldl cleanupFn cleaned = cleaned ++ l := by
  induction l generalizing cleaned with
  | nil => simp
  | cons q rest ih =>
    rw [foldl_cons, ih]
    simp [cleanupFn]

theorem alive_iff : m.alive q = true ↔ q ∉ m.died := decide_eq_true_iff

theorem count_shmemInit (hq : q ≠ 0) : (m.shmemInit pid).pidlist.count q =
    (if q ∈ m.died then 0 else m.pidlist.count q) + if q = pid ∧ 0 ∈ m.pidlist then 1 else 0 := by
  have hcount : (m.shmemInit pid).pidlist.count q = _ := count_checkPids hq
  rw [hcount]
  by_cases hd : q ∈ m.died
  · have halive : m.alive q = false := Bool.eq_false_iff.mpr fun h => alive_iff.mp h hd
    simp [halive, hd]
  · simp [alive_iff.mpr hd, hd]

theorem shmemInit_cleaned : (m.shmemInit pid).cleaned = m.cleaned ++ m.pidlist.filter (Missing m.alive ·) :=
  checkPids_shdata.trans foldl_cleanupFn

theorem count_shmemInit_cleaned (hq : q ∈ m.died) (h0 : q ≠ 0) :
    (m.shmemInit pid).cleaned.count q = m.cleaned.count q + m.pidlist.count q := by
  have hmissing : Missing m.alive q := ⟨h0, Bool.eq_false_iff.mpr fun h => alive_iff.mp h hq⟩
  rw [shmemInit_cleaned, count_append, count_filter (by simpa using hmissing)]

theorem Listed.kept_iff (h : m.Listed) (hallowed : m.Allowed size e) : m.Kept e ↔ m.HasFree e := by
  cases e with
  | shmemInit pid =>
    obtain ⟨hpid0, hattached, hdied, -⟩ := hallowed
    have hold : m.pidlist.count pid = 0 := count_eq_zero.mpr fun hmem =>
      (h.known pid hmem hpid0).elim hattached hdied
    have hcount : (m.shmemInit pid).pidlist.count pid = _ := count_shmemInit hpid0
    rw [if_neg hdied, hold, Nat.zero_add] at hcount
    have hpid : pid ∈ (m.shmemInit pid).pidlist ↔ 0 ∈ m.pidlist := by
      rw [← count_pos_iff, hcount]
      by_cases h0 : 0 ∈ m.pidlist
      · simp [h0]
      · simp [h0]
    refine ⟨fun hkept => hpid.mp hkept.1, fun hfree => ⟨hpid.mpr hfree, fun q hq => ?_, fun q hq => ⟨?_, fun hmem => ?_⟩⟩⟩
    · have hq0 : q ≠ 0 := h.nonzero q (.inl hq)
      rw [← count_pos_iff, count_shmemInit hq0, if_neg (h.disjoint q hq), h.living q hq]
      exact Nat.add_pos_left Nat.one_pos _
    · rw [count_shmemInit_cleaned hq (h.nonzero q (.inr hq)), Nat.add_comm, h.dead q hq]
    · have hne : ¬(q = pid ∧ 0 ∈ m.pidlist) := fun he => hdied (he.1 ▸ hq)
      rw [← count_pos_iff, count_shmemInit (h.nonzero q (.inr hq)), if_pos hq, if_neg hne] at hmem
      exact Nat.lt_irrefl 0 hmem
  | shmemFinalize pid =>
    refine iff_of_true (removePid_last.trans ⟨fun hlast => ⟨?_, fun q hq hmem => ?_⟩, fun hlast q hmem h0 => ?_⟩) trivial
    · refine Finset.eq_empty_of_forall_notMem fun q hq => ?_
      obtain ⟨hne, hq⟩ := Finset.mem_erase.mp hq
      have hcount := h.living q hq
      exact hne (hlast q (count_pos_iff.mp (by omega)) (h.nonzero q (.inl hq)))
    · have hqp : q = pid := hlast q hmem (h.nonzero q (.inr hq))
      exact h.disjoint q (hqp ▸ hallowed) hq
    · by_contra hne
      rcases h.known q hmem h0 with hq | hq
      · exact Finset.notMem_empty q (hlast.1 ▸ Finset.mem_erase.mpr ⟨hne, hq⟩)
      · exact hlast.2 q hq hmem
  | death => exact iff_of_true trivial trivial

theorem Listed.next (h : m.Listed) (hallowed : m.Allowed size e) (hfree : m.HasFree e) : (m.next e).Listed := by
  cases e with
  | shmemInit pid =>
    obtain ⟨hpid0, hattached, hdied, -⟩ := hallowed
    have hfree : 0 ∈ m.pidlist := hfree
    refine ⟨fun q hq => ?_, fun q hq => ?_, fun q hq => ?_, fun q hq => ?_, fun q hq h0 => ?_, fun q hq => ?_⟩
    · rcases Finset.mem_insert.mp hq with rfl | hq
      · exact hdied
      · exact h.disjoint q hq
    · rcases hq with hq | hq
      · rcases Finset.mem_insert.mp hq with rfl | hq
        · exact hpid0
        · exact h.nonzero q (.inl hq)
      · exact h.nonzero q (.inr hq)
    · rcases Finset.mem_insert.mp hq with rfl | hq
      · have hold : m.pidlist.count q = 0 := count_eq_zero.mpr fun hmem =>
          (h.known q hmem hpid0).elim hattached hdied
        exact (count_shmemInit hpid0).trans (by rw [if_neg hdied, hold, if_pos ⟨rfl, hfree⟩])
      · have hne : ¬(q = pid ∧ 0 ∈ m.pidlist) := fun he => hattached (he.1 ▸ hq)
        exact (count_shmemInit (h.nonzero q (.inl hq))).trans
          (by rw [if_neg (h.disjoint q hq), h.living q hq, if_neg hne])
    · have hq : q ∈ m.died := hq
      have h0 : q ≠ 0 := h.nonzero q (.inr hq)
      have hne : ¬(q = pid ∧ 0 ∈ m.pidlist) := fun he => hdied (he.1 ▸ hq)
      show (m.shmemInit pid).pidlist.count q + (m.shmemInit pid).cleaned.count q = 1
      rw [count_shmemInit h0, count_shmemInit_cleaned hq h0, if_pos hq, if_neg hne, Nat.zero_add, Nat.add_comm,
        h.dead q hq]
    · have hcount : 0 < (m.shmemInit pid).pidlist.count q := count_pos_iff.mpr hq
      rw [count_shmemInit h0] at hcount
      by_cases hqp : q = pid
      · exact .inl (Finset.mem_insert.mpr (.inl hqp))
      · have hne : ¬(q = pid ∧ 0 ∈ m.pidlist) := fun he => hqp he.1
        split at hcount
        · exact absurd hcount (Nat.lt_irrefl 0)
        · exact (h.known q (count_pos_iff.mp hcount) h0).imp_left fun hq => Finset.mem_insert_of_mem hq
    · have hq : q ∈ (m.shmemInit pid).cleaned := hq
      rw [shmemInit_cleaned, mem_append, mem_filter] at hq
      rcases hq with hq | ⟨-, hmissing⟩
      · exact h.past q hq
      · by_contra hd
        exact Bool.false_ne_true ((of_decide_eq_true hmissing).2.symm.trans (alive_iff.mpr hd))
  | shmemFinalize pid =>
    have hcount : ∀ q, q ≠ 0 → (m.next (.shmemFinalize pid)).pidlist.count q = if q = pid then 0 else m.pidlist.count q :=
      fun q h0 => count_removePid h0
    refine ⟨fun q hq => h.disjoint q (Finset.mem_of_mem_erase hq),
      fun q hq => h.nonzero q (hq.imp_left Finset.mem_of_mem_erase), fun q hq => ?_, fun q hq => ?_, fun q hq h0 => ?_,
      h.past⟩
    · obtain ⟨hne, hq⟩ := Finset.mem_erase.mp hq
      rw [hcount q (h.nonzero q (.inl hq)), if_neg hne, h.living q hq]
    · have hne : q ≠ pid := fun he => h.disjoint q (he ▸ hallowed) hq
      rw [hcount q (h.nonzero q (.inr hq)), if_neg hne]
      exact h.dead q hq
    · have hpos : 0 < (m.next (.shmemFinalize pid)).pidlist.count q := count_pos_iff.mpr hq
      rw [hcount q h0] at hpos
      split at hpos
      · exact absurd hpos (Nat.lt_irrefl 0)
      · rename_i hne
        exact (h.known q (count_pos_iff.mp hpos) h0).imp_left fun hq => Finset.mem_erase.mpr ⟨hne, hq⟩
  | death pid =>
    refine ⟨fun q hq hd => ?_, fun q hq => ?_, fun q hq => h.living q (Finset.mem_of_mem_erase hq), fun q hq => ?_,
      fun q hq h0 => ?_, fun q hq => Finset.mem_insert_of_mem (h.past q hq)⟩
    · obtain ⟨hne, hq⟩ := Finset.mem_erase.mp hq
      exact (Finset.mem_insert.mp hd).elim hne (h.disjoint q hq)
    · rcases hq with hq | hq
      · exact h.nonzero q (.inl (Finset.mem_of_mem_erase hq))
      · rcases Finset.mem_insert.mp hq with rfl | hq
        · exact h.nonzero q (.inl hallowed)
        · exact h.nonzero q (.inr hq)
    · rcases Finset.mem_insert.mp hq with rfl | hq
      · have hclean : m.cleaned.count q = 0 := count_eq_zero.mpr fun hmem => h.disjoint q hallowed (h.past q hmem)
        show m.pidlist.count q + m.cleaned.count q = 1
        rw [hclean, h.living q hallowed]
      · exact h.dead q hq
    · rcases h.known q hq h0 with hq | hq
      · by_cases hqp : q = pid
        · exact .inr (Finset.mem_insert.mpr (.inl hqp))
        · exact .inl (Finset.mem_erase.mpr ⟨hqp, hq⟩)
      · exact .inr (Finset.mem_insert_of_mem hq)

end Memory

/-- **The list of attached processes**: along every run of processes with different ids that attach, detach and die, no
more of them attached than there are entries, after each `shmem_init` the process and every other living one is listed
and every dead one is not listed and has been cleaned up once, and each `shmem_finalize` finds out whether it is the last
one, exactly if each process that attaches finds a free entry. -/
theorem pidlist_iff (size : ℕ) (events : List Event)
    (hallowed : Lib.Along Memory.next (Memory.Allowed size) (.fresh size) events) :
    Lib.Along Memory.next Memory.Kept (.fresh size) events ↔
      Lib.Along Memory.next Memory.HasFree (.fresh size) events :=
  Lib.Along.congr_of (I := Memory.Listed) (fun _ _ hm he hfree => hm.next he hfree) (fun _ _ hm he => hm.kept_iff he)
    (.fresh size) events .fresh hallowed

/-- Two processes attach, one leaves and the other one dies before a third one attaches. -/
def reattach : List Event := [.shmemInit 1, .shmemInit 2, .shmemFinalize 1, .death 2, .shmemInit 3]

theorem pidlist_iff_reattach : Lib.Along Memory.next Memory.Kept (.fresh 2) reattach :=
  (pidlist_iff 2 reattach (by decide)).mpr (by decide)

def oneDead : List Event := [.shmemInit 1, .shmemInit 2, .death 1]

/-- With two entries a third process is not listed although the dead one is removed, and when the second process leaves
it finds itself to be the last one. -/
theorem pidlist_loses :
    let m := (oneDead ++ [Event.shmemInit 3]).foldl Memory.next (.fresh 2)
    Lib.Along Memory.next (Memory.Allowed 2) (.fresh 2) (oneDead ++ [.shmemInit 3, .shmemFinalize 2]) ∧
      m.pidlist = [0, 2] ∧ m.attached = {2, 3} ∧ m.cleaned = [1] ∧ (m.shmemFinalize 2).2 = true ∧
      ¬Lib.Along Memory.next Memory.Kept (.fresh 2) (oneDead ++ [.shmemInit 3, .shmemFinalize 2]) := by
  decide

end Dlb.Shmem

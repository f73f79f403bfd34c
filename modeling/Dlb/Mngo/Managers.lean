import Dlb.Lib.Table
import Dlb.Shmem.PidList
import Dlb.Support.MaskUtils

/-!
# The managers that are registered in a node

Each manager has an entry in the shared memory, the `mid` that `shmem_mngo_init` gives it. A process that attaches calls
`cleanup_shmem` for each process that it finds dead. The entry of the dead process is looked for from the first entry on,
and the entries behind it are not looked at; the barrier and the locks belong to who gets the first entry.

A run is of one shared memory: processes attach, register, leave their entry, detach, and die, at any point.

* `Tabled`: the managers that live have their entries.
-/

namespace Dlb.Mngo

open Function Lib

/-! ## The shared memory -/

/-- `mngo_actions_t`. -/
inductive MngoActions where
  | none | lewiStart | lewiStop | drom
deriving DecidableEq

/-- `mngo_manager_info_t`. -/
structure ManagerInfo where
  pid : Pid := 0
  rank : ℤ := 0
  actions : MngoActions := .none
  dromCoreChange : ℤ := 0

/-- `shdata_t`. The memory is zero in the beginning. The barrier has a number of participants once it is initialized. -/
structure Shdata where
  attached : ℤ := 0
  barrier : Option ℕ := none
  managerLock : Bool := false
  managerCond : Bool := false
  stop : Bool := false
  stopLock : Bool := false
  availableCpus : CpuSet := ∅
  managerInfo : ℕ → ManagerInfo := fun _ => {}

variable {maxAttached : ℕ} {d d1 : Shdata} {p q pid : Pid} {i j mid participants : ℕ} {rank : ℤ}

namespace Shdata

def find (maxAttached : ℕ) (d : Shdata) (pid : Pid) : Option ℕ :=
  scan maxAttached fun id => (d.managerInfo id).pid = pid

/-- `cleanup_shmem`. The loop stops at the entry of the process, so that `shmem_empty` is about the entries before it. -/
def cleanupShmem (maxAttached : ℕ) (d : Shdata) (pid : Pid) : Shdata :=
  let found := d.find maxAttached pid
  let shmemEmpty := (List.range (found.getD maxAttached)).all fun id => (d.managerInfo id).pid = 0
  if shmemEmpty then {}
  else
    match found with
    | some id => { d with managerInfo := update d.managerInfo id {} }
    | none => d

/-- The locked part of `shmem_mngo_init`. The result is the entry that the process gets, or `max_attached`. -/
def register (maxAttached : ℕ) (d : Shdata) (pid : Pid) (rank : ℤ) (participants : ℕ) : Shdata × ℕ :=
  let found := d.find maxAttached 0
  let id := found.getD maxAttached
  let info := match found with
    | some id => update d.managerInfo id { d.managerInfo id with pid := pid, rank := rank }
    | none => d.managerInfo
  let d := { d with managerInfo := info }
  let d := if id = 0 then
      { d with
        barrier := some participants
        managerLock := true
        stopLock := true
        managerCond := true }
    else d
  ({ d with attached := d.attached + 1 }, id)

/-- The locked part of `shmem_mngo_fini`. The result says whether the manager was active. -/
def unregister (d : Shdata) (mid : ℕ) : Shdata × Bool :=
  ({ d with managerInfo := update d.managerInfo mid { d.managerInfo mid with pid := 0 } },
    (d.managerInfo mid).pid ≠ 0)

def Others (maxAttached : ℕ) (d : Shdata) (pid : Pid) : Prop :=
  ∃ i < maxAttached, (d.managerInfo i).pid ≠ 0 ∧ (d.managerInfo i).pid ≠ pid

/-- The entry of the process is not the first one in front of others. -/
def SeesOthers (maxAttached : ℕ) (d : Shdata) (pid : Pid) : Prop :=
  d.Others maxAttached pid → ∃ i < maxAttached, (d.managerInfo i).pid ≠ 0 ∧ ∀ j ≤ i, (d.managerInfo j).pid ≠ pid

theorem find_some (h : d.find maxAttached pid = some i) :
    i < maxAttached ∧ (d.managerInfo i).pid = pid ∧ ∀ j, j < i → (d.managerInfo j).pid ≠ pid := by
  obtain ⟨hi, hpid, hbefore⟩ := scan_some h
  exact ⟨hi, of_decide_eq_true hpid, fun j hj => of_decide_eq_false (hbefore j hj)⟩

theorem find_none (h : d.find maxAttached pid = none) (hj : j < maxAttached) : (d.managerInfo j).pid ≠ pid :=
  of_decide_eq_false (scan_none h hj)

theorem cleanupShmem_cases (d : Shdata) (maxAttached : ℕ) (pid : Pid) : (d.cleanupShmem maxAttached pid = {} ∧
      ∀ j < (d.find maxAttached pid).getD maxAttached, (d.managerInfo j).pid = 0) ∨
    (∃ i, d.find maxAttached pid = some i ∧ d.SeesOthers maxAttached pid ∧
      d.cleanupShmem maxAttached pid = { d with managerInfo := update d.managerInfo i {} }) ∨
    (d.find maxAttached pid = none ∧ d.SeesOthers maxAttached pid ∧ d.cleanupShmem maxAttached pid = d) := by
  unfold cleanupShmem
  dsimp only
  split
  · rename_i hempty
    exact .inl ⟨rfl, by simpa using hempty⟩
  · rename_i hempty
    obtain ⟨i, hi, h0⟩ : ∃ i < (d.find maxAttached pid).getD maxAttached, (d.managerInfo i).pid ≠ 0 := by
      simpa using hempty
    cases hfind : d.find maxAttached pid with
    | some k =>
      obtain ⟨hk, -, hbefore⟩ := find_some hfind
      rw [hfind, Option.getD_some] at hi
      exact .inr (.inl ⟨k, rfl, fun _ => ⟨i, hi.trans hk, h0, fun j hj => hbefore j (lt_of_le_of_lt hj hi)⟩, rfl⟩)
    | none =>
      rw [hfind, Option.getD_none] at hi
      exact .inr (.inr ⟨rfl, fun _ => ⟨i, hi, h0, fun j hj => find_none hfind (lt_of_le_of_lt hj hi)⟩, rfl⟩)

theorem SeesOthers.not_reset (h : d.SeesOthers maxAttached pid) (hothers : d.Others maxAttached pid)
    (hempty : ∀ j < (d.find maxAttached pid).getD maxAttached, (d.managerInfo j).pid = 0) : False := by
  obtain ⟨i, hi, h0, hle⟩ := h hothers
  refine h0 (hempty i ?_)
  cases hfind : d.find maxAttached pid with
  | some k =>
    obtain ⟨-, hk, -⟩ := find_some hfind
    by_contra hik
    exact hle k (Nat.le_of_not_lt hik) hk
  | none => exact hi

end Shdata

/-! ## Runs -/

/-- How far a process is with `shmem_mngo_init` and `shmem_mngo_fini`. -/
inductive ManagerPhase where
  | out
  | attached
  | registered (mid : ℕ)
  | released
  | dead
deriving DecidableEq

structure ManagerNode where
  pidlist : List Pid
  shdata : Shdata := {}
  phase : Pid → ManagerPhase := fun _ => .out

inductive ManagerEvent where
  | attach (pid : Pid)
  | register (pid : Pid) (rank : ℤ) (participants : ℕ)
  | unregister (pid : Pid)
  | detach (pid : Pid)
  | death (pid : Pid)

namespace ManagerNode

variable {m : ManagerNode} {e : ManagerEvent}

def fresh (maxAttached : ℕ) : ManagerNode where
  pidlist := List.replicate maxAttached 0

def alive (m : ManagerNode) (pid : Pid) : Bool := m.phase pid ≠ .dead

/-- One event. `shmem_mngo_init` is `attach` and then `register`, and after a failure `detach`; `shmem_mngo_fini` is
`unregister` and then `detach`. The memory stays when its last process detaches: a process may have opened it already. -/
def next (maxAttached : ℕ) (m : ManagerNode) : ManagerEvent → ManagerNode
  | .attach pid =>
    let r := Shmem.checkPids m.alive (some (Shdata.cleanupShmem maxAttached)) pid m.pidlist false m.shdata
    { pidlist := r.1, shdata := r.2.2, phase := update m.phase pid .attached }
  | .register pid rank participants =>
    let r := m.shdata.register maxAttached pid rank participants
    { m with
      shdata := r.1
      phase := update m.phase pid (if r.2 = maxAttached then .released else .registered r.2) }
  | .unregister pid =>
    match m.phase pid with
    | .registered mid =>
      let r := m.shdata.unregister mid
      { m with
        shdata := r.1
        phase := update m.phase pid (if r.2 then .released else .out) }
    | _ => m
  | .detach pid =>
    { m with
      pidlist := (Shmem.removePid pid m.pidlist).1
      phase := update m.phase pid .out }
  | .death pid => { m with phase := update m.phase pid .dead }

/-- The processes have different ids and call the functions in order. -/
def Allowed (m : ManagerNode) : ManagerEvent → Prop
  | .attach pid => pid ≠ 0 ∧ m.phase pid = .out
  | .register pid _ _ => m.phase pid = .attached
  | .unregister pid => ∃ mid, m.phase pid = .registered mid
  | .detach pid => m.phase pid = .released
  | .death pid => pid ≠ 0 ∧ m.phase pid ≠ .dead

/-- A cleanup clears the entry of the process and those of no other one, resets nothing if another one has an entry, and
leaves the living managers their entries. -/
structure CleansOne (maxAttached : ℕ) (phase : Pid → ManagerPhase) (d : Shdata) (pid : Pid) : Prop where
  cleared : ∀ i < maxAttached, ((d.cleanupShmem maxAttached pid).managerInfo i).pid ≠ pid
  others : ∀ i < maxAttached, (d.managerInfo i).pid ≠ 0 → (d.managerInfo i).pid ≠ pid →
    (d.cleanupShmem maxAttached pid).managerInfo i = d.managerInfo i
  kept : d.Others maxAttached pid → d.cleanupShmem maxAttached pid =
    { d with managerInfo := (d.cleanupShmem maxAttached pid).managerInfo }
  mids : ∀ p mid, phase p = .registered mid → ((d.cleanupShmem maxAttached pid).managerInfo mid).pid = p

/-- The dead processes that an attaching process finds, in the order of the list. -/
def missing (m : ManagerNode) : List Pid := m.pidlist.filter (Shmem.Missing m.alive ·)

/-- What should hold of the events: each cleanup clears one entry, and who gets the first entry is alone. -/
def Kept (maxAttached : ℕ) (m : ManagerNode) : ManagerEvent → Prop
  | .attach _ => Along (Shdata.cleanupShmem maxAttached) (CleansOne maxAttached m.phase) m.shdata m.missing
  | .register pid rank participants => (m.shdata.register maxAttached pid rank participants).2 = 0 →
    ∀ i < maxAttached, (m.shdata.managerInfo i).pid = 0
  | _ => True

/-- The entry of no dead process is the first one in front of others, at each cleanup, and the first entry is not free
in front of others. -/
def InOrder (maxAttached : ℕ) (m : ManagerNode) : ManagerEvent → Prop
  | .attach _ => Along (Shdata.cleanupShmem maxAttached) (Shdata.SeesOthers maxAttached) m.shdata m.missing
  | .register _ _ _ => (m.shdata.managerInfo 0).pid = 0 → ∀ i < maxAttached, (m.shdata.managerInfo i).pid = 0
  | _ => True

/-- The living managers have their entries, and each entry belongs to its manager or to a dead process. -/
structure Tabled (maxAttached : ℕ) (phase : Pid → ManagerPhase) (d : Shdata) : Prop where
  nonzero : ∀ p, phase p ≠ .out → p ≠ 0
  mids : ∀ p mid, phase p = .registered mid → mid < maxAttached ∧ (d.managerInfo mid).pid = p
  entries : ∀ i < maxAttached, (d.managerInfo i).pid ≠ 0 →
    phase (d.managerInfo i).pid = .registered i ∨ phase (d.managerInfo i).pid = .dead
  unique : ∀ i < maxAttached, ∀ j < maxAttached, (d.managerInfo i).pid ≠ 0 →
    (d.managerInfo i).pid = (d.managerInfo j).pid → i = j

variable {phase : Pid → ManagerPhase} {x : ManagerPhase}

theorem Tabled.fresh : Tabled maxAttached (fun _ => .out) {} where
  nonzero := fun _ h => absurd rfl h
  mids := nofun
  entries := fun _ _ h => absurd rfl h
  unique := fun _ _ _ _ h => absurd rfl h

theorem Tabled.no_entry (h : Tabled maxAttached phase d) (hp : p ≠ 0) (hreg : ∀ i, phase p ≠ .registered i)
    (hdead : phase p ≠ .dead) (hi : i < maxAttached) : (d.managerInfo i).pid ≠ p := by
  rintro rfl
  rcases h.entries i hi hp with hphase | hphase
  · exact hreg i hphase
  · exact hdead hphase

theorem Tabled.move (h : Tabled maxAttached phase d) (hp : p ≠ 0) (hx : ∀ i, x ≠ .registered i)
    (hentry : ∀ i < maxAttached, (d.managerInfo i).pid = p → x = .dead) :
    Tabled maxAttached (update phase p x) d where
  nonzero q hq := by
    by_cases hqp : q = p
    · exact hqp ▸ hp
    · exact h.nonzero q (by rwa [update_of_ne hqp] at hq)
  mids q mid hq := by
    by_cases hqp : q = p
    · rw [hqp, update_self] at hq
      exact absurd hq (hx mid)
    · exact h.mids q mid (by rwa [update_of_ne hqp] at hq)
  entries i hi h0 := by
    by_cases hip : (d.managerInfo i).pid = p
    · rw [hip, update_self]
      exact .inr (hentry i hi hip)
    · rw [update_of_ne hip]
      exact h.entries i hi h0
  unique := h.unique

theorem Tabled.clear (h : Tabled maxAttached phase d) (hfree : ∀ p, phase p ≠ .registered i) {info : ManagerInfo}
    (hinfo : info.pid = 0) : Tabled maxAttached phase { d with managerInfo := update d.managerInfo i info } where
  nonzero := h.nonzero
  mids p mid hp := by
    have hne : mid ≠ i := fun he => hfree p (he ▸ hp)
    dsimp only
    rw [update_of_ne hne]
    exact h.mids p mid hp
  entries j hj h0 := by
    dsimp only at h0 ⊢
    by_cases hji : j = i
    · rw [hji, update_self, hinfo] at h0
      exact absurd rfl h0
    · rw [update_of_ne hji] at h0 ⊢
      exact h.entries j hj h0
  unique j hj k hk h0 hjk := by
    dsimp only at h0 hjk
    have hj' : j ≠ i := by
      rintro rfl
      rw [update_self, hinfo] at h0
      exact h0 rfl
    have hk' : k ≠ i := by
      rintro rfl
      rw [hjk, update_self, hinfo] at h0
      exact h0 rfl
    rw [update_of_ne hj'] at h0
    rw [update_of_ne hj', update_of_ne hk'] at hjk
    exact h.unique j hj k hk h0 hjk

theorem Tabled.others (h : Tabled maxAttached phase d) (hdead : phase pid = .dead) (hp : phase p = .registered mid) :
    mid < maxAttached ∧ (d.managerInfo mid).pid ≠ 0 ∧ (d.managerInfo mid).pid ≠ pid := by
  obtain ⟨hmid, hentry⟩ := h.mids p mid hp
  rw [hentry]
  refine ⟨hmid, h.nonzero p (by rw [hp]; exact nofun), ?_⟩
  rintro rfl
  exact nomatch hp.symm.trans hdead

theorem Tabled.cleanup (h : Tabled maxAttached phase d) (hdead : phase pid = .dead)
    (hsees : d.SeesOthers maxAttached pid) : Tabled maxAttached phase (d.cleanupShmem maxAttached pid) := by
  obtain ⟨heq, hempty⟩ | ⟨i, hfind, -, heq⟩ | ⟨-, -, heq⟩ := d.cleanupShmem_cases maxAttached pid
  · rw [heq]
    refine ⟨h.nonzero, fun p mid hp => ?_, fun _ _ h0 => absurd rfl h0, fun _ _ _ _ h0 => absurd rfl h0⟩
    exact (hsees.not_reset ⟨mid, h.others hdead hp⟩ hempty).elim
  · rw [heq]
    refine h.clear (fun p hp => ?_) rfl
    exact (h.others hdead hp).2.2 (Shdata.find_some hfind).2.1
  · rw [heq]
    exact h

theorem Tabled.cleansOne_iff (h : Tabled maxAttached phase d) (hpid : pid ≠ 0) (hdead : phase pid = .dead) :
    CleansOne maxAttached phase d pid ↔ d.SeesOthers maxAttached pid := by
  refine ⟨fun hclean => ?_, fun hsees => ?_⟩
  · obtain ⟨heq, -⟩ | ⟨i, -, hsees, -⟩ | ⟨-, hsees, -⟩ := d.cleanupShmem_cases maxAttached pid
    · rintro ⟨i, hi, h0, hne⟩
      have hsame := hclean.others i hi h0 hne
      rw [heq] at hsame
      exact absurd (congrArg ManagerInfo.pid hsame).symm h0
    · exact hsees
    · exact hsees
  · have hmids : ∀ p mid, phase p = .registered mid → ((d.cleanupShmem maxAttached pid).managerInfo mid).pid = p :=
      fun p mid hp => ((h.cleanup hdead hsees).mids p mid hp).2
    obtain ⟨heq, hempty⟩ | ⟨i, hfind, -, heq⟩ | ⟨hfind, -, heq⟩ :=
      d.cleanupShmem_cases maxAttached pid
    · refine ⟨fun i _ => ?_, fun i hi h0 hne => ?_, fun hothers => ?_, hmids⟩
      · rw [heq]
        exact hpid.symm
      · exact (hsees.not_reset ⟨i, hi, h0, hne⟩ hempty).elim
      · exact (hsees.not_reset hothers hempty).elim
    · obtain ⟨hi, hentry, -⟩ := Shdata.find_some hfind
      refine ⟨fun j hj => ?_, fun j _ _ hne => ?_, fun _ => by rw [heq], hmids⟩
      · rw [heq]
        dsimp only
        by_cases hji : j = i
        · rw [hji, update_self]
          exact hpid.symm
        · rw [update_of_ne hji]
          exact fun hjp => hji (h.unique i hi j hj (hentry ▸ hpid) (hentry.trans hjp.symm)).symm
      · have hji : j ≠ i := fun he => hne (he ▸ hentry)
        rw [heq]
        exact update_of_ne hji _ _
    · refine ⟨fun j hj => ?_, fun j _ _ _ => ?_, fun _ => ?_, hmids⟩
      · rw [heq]
        exact Shdata.find_none hfind hj
      · rw [heq]
      · rw [heq]

/-! ### One event -/

theorem mem_missing (hq : q ∈ m.missing) : q ≠ 0 ∧ m.phase q = .dead := by
  obtain ⟨h0, hkill⟩ : Shmem.Missing m.alive q := of_decide_eq_true (List.mem_filter.mp hq).2
  exact ⟨h0, not_not.mp (of_decide_eq_false hkill)⟩

theorem next_attach : (m.next maxAttached (.attach pid)).shdata =
    m.missing.foldl (Shdata.cleanupShmem maxAttached) m.shdata :=
  Shmem.checkPids_shdata

theorem register_zero (hmax : 0 < maxAttached) :
    (d.register maxAttached pid rank participants).2 = 0 ↔ (d.managerInfo 0).pid = 0 := by
  show (d.find maxAttached 0).getD maxAttached = 0 ↔ _
  cases hfind : d.find maxAttached 0 with
  | some k =>
    obtain ⟨-, hk, hbefore⟩ := Shdata.find_some hfind
    refine ⟨fun h0 => h0 ▸ hk, fun h0 => Nat.eq_zero_of_not_pos fun hpos => hbefore 0 hpos h0⟩
  | none =>
    exact iff_of_false hmax.ne' (Shdata.find_none hfind hmax)

theorem Tabled.kept_iff (h : Tabled maxAttached m.phase m.shdata) : m.Kept maxAttached e ↔ m.InOrder maxAttached e := by
  cases e with
  | attach pid =>
    exact Along.congr (I := Tabled maxAttached m.phase) (R := fun q => q ≠ 0 ∧ m.phase q = .dead)
      (fun d q hd hq hsees => hd.cleanup hq.2 hsees) (fun d q hd hq => hd.cleansOne_iff hq.1 hq.2)
      m.shdata m.missing h fun q hq => mem_missing hq
  | register pid rank participants =>
    rcases Nat.eq_zero_or_pos maxAttached with rfl | hmax
    · exact iff_of_true (fun _ i hi => absurd hi (Nat.not_lt_zero i)) fun _ i hi => absurd hi (Nat.not_lt_zero i)
    · exact imp_congr_left (register_zero hmax)
  | unregister pid => exact Iff.rfl
  | detach pid => exact Iff.rfl
  | death pid => exact Iff.rfl

theorem Tabled.register (h : Tabled maxAttached phase d) (hp : phase pid = .attached) :
    Tabled maxAttached (update phase pid
      (if (d.register maxAttached pid rank participants).2 = maxAttached then .released
        else .registered (d.register maxAttached pid rank participants).2))
      (d.register maxAttached pid rank participants).1 := by
  have hpid : pid ≠ 0 := h.nonzero pid (by rw [hp]; exact nofun)
  have hnone : ∀ i < maxAttached, (d.managerInfo i).pid ≠ pid := fun i hi =>
    h.no_entry hpid (fun j hj => nomatch hp.symm.trans hj) (fun hd => nomatch hp.symm.trans hd) hi
  have hinfo : (d.register maxAttached pid rank participants).1.managerInfo = match d.find maxAttached 0 with
      | some id => update d.managerInfo id { d.managerInfo id with pid := pid, rank := rank }
      | none => d.managerInfo := by
    unfold Shdata.register
    dsimp only
    split
    · rfl
    · rfl
  cases hfind : d.find maxAttached 0 with
  | some k =>
    obtain ⟨hk, hk0, -⟩ := Shdata.find_some hfind
    have hid : (d.register maxAttached pid rank participants).2 = k := by
      show (d.find maxAttached 0).getD maxAttached = k
      rw [hfind, Option.getD_some]
    rw [hfind] at hinfo
    dsimp only at hinfo
    rw [hid, if_neg hk.ne]
    have hentry : ∀ j, ((d.register maxAttached pid rank participants).1.managerInfo j).pid =
        if j = k then pid else (d.managerInfo j).pid := by
      intro j
      rw [hinfo]
      by_cases hj : j = k
      · rw [hj, update_self, if_pos rfl]
      · rw [update_of_ne hj, if_neg hj]
    refine ⟨fun q hq => ?_, fun q mid hq => ?_, fun i hi h0 => ?_, fun i hi j hj h0 hij => ?_⟩
    · by_cases hqp : q = pid
      · exact hqp ▸ hpid
      · exact h.nonzero q (by rwa [update_of_ne hqp] at hq)
    · rw [hentry]
      by_cases hqp : q = pid
      · rw [hqp, update_self] at hq
        obtain rfl := ManagerPhase.registered.inj hq
        rw [if_pos rfl]
        exact ⟨hk, hqp.symm⟩
      · rw [update_of_ne hqp] at hq
        obtain ⟨hmid, hmidq⟩ := h.mids q mid hq
        have hne : mid ≠ k := fun he => h.nonzero q (by rw [hq]; exact nofun) (hmidq.symm.trans (he ▸ hk0))
        rw [if_neg hne]
        exact ⟨hmid, hmidq⟩
    · rw [hentry] at h0 ⊢
      by_cases hik : i = k
      · rw [if_pos hik, update_self, hik]
        exact .inl rfl
      · rw [if_neg hik] at h0 ⊢
        rw [update_of_ne (hnone i hi)]
        exact h.entries i hi h0
    · rw [hentry, hentry] at hij
      rw [hentry] at h0
      split at hij
      · rename_i hik
        split at hij
        · rename_i hjk
          exact hik.trans hjk.symm
        · exact absurd hij.symm (hnone j hj)
      · rename_i hik
        rw [if_neg hik] at h0
        split at hij
        · exact absurd hij (hnone i hi)
        · exact h.unique i hi j hj h0 hij
  | none =>
    have hid : (d.register maxAttached pid rank participants).2 = maxAttached := by
      show (d.find maxAttached 0).getD maxAttached = maxAttached
      rw [hfind, Option.getD_none]
    rw [hfind] at hinfo
    rw [hid, if_pos rfl]
    have hmove := h.move (x := .released) hpid nofun fun i hi hip => absurd hip (hnone i hi)
    refine ⟨hmove.nonzero, ?_, ?_, ?_⟩
    · rw [hinfo]
      exact hmove.mids
    · rw [hinfo]
      exact hmove.entries
    · rw [hinfo]
      exact hmove.unique

theorem Tabled.next (h : Tabled maxAttached m.phase m.shdata) (hallowed : m.Allowed e) (hsees : m.InOrder maxAttached e) :
    Tabled maxAttached (m.next maxAttached e).phase (m.next maxAttached e).shdata := by
  have hnone : ∀ {p}, p ≠ 0 → (∀ i, m.phase p ≠ .registered i) → m.phase p ≠ .dead → ∀ {x : ManagerPhase},
      ∀ i < maxAttached, (m.shdata.managerInfo i).pid = p → x = .dead :=
    fun hp hreg hdead _ i hi hip => absurd hip (h.no_entry hp hreg hdead hi)
  cases e with
  | attach pid =>
    obtain ⟨hpid, hout⟩ := hallowed
    obtain ⟨-, hclean⟩ := Along.invariant (P := fun _ _ => True) (I := Tabled maxAttached m.phase)
      (R := fun q => q ≠ 0 ∧ m.phase q = .dead) (fun d q hd hq hsees => hd.cleanup hq.2 hsees) (fun _ _ _ _ _ => trivial)
      m.shdata m.missing h (fun q hq => mem_missing hq) hsees
    rw [next_attach]
    exact hclean.move (x := .attached) hpid nofun fun i hi hip => absurd hip (hclean.no_entry hpid
      (fun j hj => nomatch hout.symm.trans hj) (fun hd => nomatch hout.symm.trans hd) hi)
  | register pid rank participants => exact h.register hallowed
  | unregister pid =>
    obtain ⟨mid, hmid⟩ := hallowed
    obtain ⟨hlt, hentry⟩ := h.mids pid mid hmid
    have hpid : pid ≠ 0 := h.nonzero pid (by rw [hmid]; exact nofun)
    -- in between the process counts as dead, so that its entry may stay until it is cleared
    have hdead := h.move (x := .dead) hpid nofun fun _ _ _ => rfl
    have hfree : ∀ q, update m.phase pid .dead q ≠ .registered mid := fun q hq => by
      by_cases hqp : q = pid
      · rw [hqp, update_self] at hq
        exact nomatch hq
      · rw [update_of_ne hqp] at hq
        exact hqp ((h.mids q mid hq).2.symm.trans hentry)
    have hclear : Tabled maxAttached (update m.phase pid .dead) (m.shdata.unregister mid).1 :=
      hdead.clear hfree rfl
    have hmove := hclear.move (x := if (m.shdata.unregister mid).2 then .released else .out) hpid
      (fun i => by split <;> exact nofun) fun i hi hip => ?_
    · rw [update_idem] at hmove
      unfold ManagerNode.next
      dsimp only
      rw [hmid]
      exact hmove
    · unfold Shdata.unregister at hip
      dsimp only at hip
      by_cases him : i = mid
      · rw [him, update_self] at hip
        exact absurd hip.symm hpid
      · rw [update_of_ne him] at hip
        exact absurd (h.unique i hi mid hlt (hip ▸ hpid) (hip.trans hentry.symm)) him
  | detach pid =>
    have hphase : m.phase pid = .released := hallowed
    have hpid : pid ≠ 0 := h.nonzero pid (by rw [hphase]; exact nofun)
    exact h.move (x := .out) hpid nofun (hnone hpid (fun j hj => nomatch hphase.symm.trans hj)
      fun hd => nomatch hphase.symm.trans hd)
  | death pid => exact h.move (x := .dead) hallowed.1 nofun fun _ _ _ => rfl

end ManagerNode

/-- **Dead and new managers leave the living ones alone**: along every run of managers that attach, register, leave and
die, each cleanup for a dead process clears its entry and no other one, resets the memory only if no other process has an
entry, and leaves each living manager the entry of its own, and no newcomer initializes the barrier and the locks while
another one is registered, exactly if no dead process that is cleaned up has the first entry in front of others and no
newcomer finds the first entry free in front of others. -/
theorem managers_iff (maxAttached : ℕ) (events : List ManagerEvent)
    (hallowed : Along (ManagerNode.next maxAttached) ManagerNode.Allowed (.fresh maxAttached) events) :
    Along (ManagerNode.next maxAttached) (ManagerNode.Kept maxAttached) (.fresh maxAttached) events ↔
      Along (ManagerNode.next maxAttached) (ManagerNode.InOrder maxAttached) (.fresh maxAttached) events :=
  Along.congr_of (I := fun m : ManagerNode => ManagerNode.Tabled maxAttached m.phase m.shdata)
    (fun _ _ hm he hsees => hm.next he hsees) (fun _ _ hm _ => hm.kept_iff) (.fresh maxAttached) events
    ManagerNode.Tabled.fresh hallowed

/-! ### Three managers -/

namespace ManagerNode

variable {m : ManagerNode} {e : ManagerEvent}

instance : Decidable (d.SeesOthers maxAttached pid) := by
  unfold Shdata.SeesOthers Shdata.Others
  infer_instance

instance : Decidable (∃ mid, m.phase pid = .registered mid) :=
  match m.phase pid with
  | .registered mid => isTrue ⟨mid, rfl⟩
  | .out => isFalse nofun
  | .attached => isFalse nofun
  | .released => isFalse nofun
  | .dead => isFalse nofun

instance : Decidable (m.Allowed e) := by
  cases e <;> unfold Allowed <;> infer_instance

instance : Decidable (m.InOrder maxAttached e) := by
  cases e <;> unfold InOrder <;> infer_instance

end ManagerNode

/-- Two managers come, and the second one dies before a third one comes. -/
def secondDies : List ManagerEvent :=
  [.attach 1, .register 1 0 2, .attach 2, .register 2 1 2, .death 2, .attach 3]

theorem managers_iff_secondDies :
    Along (ManagerNode.next 4) (ManagerNode.Kept 4) (.fresh 4) secondDies := by
  refine (managers_iff 4 secondDies ?_).mpr ?_
  · decide
  · decide

def twoManagers : List ManagerEvent := [.attach 1, .register 1 0 2, .attach 2, .register 2 1 2]

/-- The first of them dies before a third one comes. -/
def firstDies : List ManagerEvent := twoManagers ++ [.death 1, .attach 3]

/-- The first of them leaves before a third one comes. -/
def firstLeaves : List ManagerEvent := twoManagers ++ [.unregister 1, .detach 1, .attach 3, .register 3 2 2]

/-- If the first manager has died, the memory is reset, and the second one has no entry any more. If it has left, the
third one gets its entry and initializes the barrier of the second one. -/
theorem managers_disturbed :
    let m := firstDies.foldl (ManagerNode.next 4) (.fresh 4)
    Along (ManagerNode.next 4) ManagerNode.Allowed (.fresh 4) firstDies ∧ m.phase 2 = .registered 1 ∧
      (m.shdata.managerInfo 1).pid = 0 ∧ m.shdata.barrier = none ∧ m.shdata.attached = 0 ∧
      ¬Along (ManagerNode.next 4) (ManagerNode.Kept 4) (.fresh 4) firstDies ∧
      Along (ManagerNode.next 4) ManagerNode.Allowed (.fresh 4) firstLeaves ∧
      ¬Along (ManagerNode.next 4) (ManagerNode.Kept 4) (.fresh 4) firstLeaves := by
  refine ⟨by decide, by decide, by decide, by decide, by decide, fun hrun => ?_, by decide, fun hrun => ?_⟩
  · -- the cleanup of the first manager, before the third one comes
    have hclean := hrun.2.2.2.2.2.1.1
    have hmid := hclean.mids 2 1 (by decide)
    exact absurd hmid (by decide)
  · have hregister := hrun.2.2.2.2.2.2.2.1
    exact absurd (hregister (by decide) 1 (by decide)) (by decide)

end Dlb.Mngo

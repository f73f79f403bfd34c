import Dlb.Lib.Table
import Dlb.Omptm.FreeAgents

/-!
# Concurrent callbacks of free agents

`cb_enable_cpu` and `cb_disable_cpu` as their atomic steps, which threads interleave: the bit of a CPU changes first, the
counter and the notification of the OpenMP runtime follow. Each change of the bit of a CPU has a number. A notification is
late if a later change of the same CPU has been notified before (`InOrder`).

* `callback_alone`: a callback that is not interrupted does what the functions say;
* `Counted`, `Told`: what the changes that are on their way are worth;

The other flags of a CPU may change at any time.
-/

namespace Dlb.Omptm

open Function

/-- A change of `CPU_STATE_FREE_AGENT_ENABLED` of a CPU, with its number. -/
structure Change (S : System) where
  active : Bool
  cpuid : Fin S.size
  freeAgentId : ℕ
  number : ℕ
deriving DecidableEq

/-- Where a thread is in a callback: what it does next. -/
inductive Callback (S : System) where
  | outside
  /-- `cb_enable_cpu` -/
  | enable (cpuid : Fin S.size)
  | enableReclaimed (cpuid : Fin S.size)
  | enableId (cpuid : Fin S.size)
  | enableBit (cpuid : Fin S.size) (freeAgentId : ℕ)
  /-- `cb_disable_cpu` -/
  | disable (cpuid : Fin S.size)
  | disableWanted (cpuid : Fin S.size) (freeAgentId : ℕ)
  | disableIdle (cpuid : Fin S.size) (freeAgentId : ℕ)
  | disableBit (cpuid : Fin S.size) (freeAgentId : ℕ)
  /-- `num_enabled_free_agents`, and then the notification -/
  | count (change : Change S)
  | notify (change : Change S)
deriving DecidableEq

/-- The shared state and the threads. `changes` and `notified` are the numbers of the last change of each CPU and of the
last one that was notified; the program does not have them. -/
structure Callbacks (S : System) (τ : Type*) where
  shared : FreeAgents
  callback : τ → Callback S := fun _ => .outside
  changes : Fin S.size → ℕ := fun _ => 0
  notified : Fin S.size → ℕ := fun _ => 0

/-- A thread starts a callback or takes its next step, or the other flags of a CPU change. -/
inductive CallbackEvent (S : System) (τ : Type*) where
  | enable (t : τ) (cpuid : Fin S.size)
  | disable (t : τ) (cpuid : Fin S.size)
  | step (t : τ)
  | other (cpuid : Fin S.size) (cpu : FreeAgents.CpuData)

variable {S : System} {τ : Type*} [DecidableEq τ]

/-- The state of a CPU has `CPU_STATE_FREE_AGENT_ENABLED`. -/
def FreeAgents.Enabled (s : FreeAgents) (cpuid : Fin S.size) : Prop := .freeAgentEnabled ∈ (s.cpuData (some cpuid)).state

instance (s : FreeAgents) (cpuid : Fin S.size) : Decidable (s.Enabled cpuid) :=
  inferInstanceAs (Decidable (CpuFlag.freeAgentEnabled ∈ (s.cpuData (some cpuid)).state))

def FreeAgents.enabledCpus (s : FreeAgents) : Finset (Fin S.size) := {c | s.Enabled c}

def FreeAgents.setOther (s : FreeAgents) (cpuid : Fin S.size) (cpu : FreeAgents.CpuData) : FreeAgents :=
  let state := if s.Enabled cpuid then insert .freeAgentEnabled cpu.state else cpu.state.erase .freeAgentEnabled
  { s with cpuData := update s.cpuData (some (cpuid : ℕ)) { cpu with state := state } }

namespace Callbacks

variable (o : FreeAgentOptions S) (w : Callbacks S τ)

def start (s : FreeAgents) : Callbacks S τ where
  shared := s

/-- A thread goes to another point of its callback. -/
def goto (t : τ) (callback : Callback S) : Callbacks S τ := { w with callback := update w.callback t callback }

def change (t : τ) (active : Bool) (c : Fin S.size) (freeAgentId : ℕ) (state : Finset CpuFlag) : Callbacks S τ :=
  { w with
    shared := w.shared.setState (some c) state
    changes := update w.changes c (w.changes c + 1) }.goto t (.count ⟨active, c, freeAgentId, w.changes c + 1⟩)

def step (t : τ) : Callbacks S τ :=
  let s := w.shared
  match w.callback t with
  | .outside => w
  | .enable c => w.goto t (if (s.cpuData (some c)).wantedForParallel then .outside else .enableReclaimed c)
  | .enableReclaimed c =>
    let r := casBit (s.cpuData (some c)).state {.reclaimed} {.idle}
    { w with shared := s.setState (some c) r.1 }.goto t (if r.2 then .outside else .enableId c)
  | .enableId c =>
    w.goto t (match s.freeAgentIdByCpuid (some c) with | none => .outside | some freeAgentId => .enableBit c freeAgentId)
  | .enableBit c freeAgentId =>
    let r := testSetClearBit (s.cpuData (some c)).state {.freeAgentEnabled} {.idle}
    if r.2 then w.change t true c freeAgentId r.1 else w.goto t .outside
  | .disable c =>
    w.goto t (match s.freeAgentIdByCpuid (some c) with | none => .outside | some freeAgentId => .disableWanted c freeAgentId)
  | .disableWanted c freeAgentId =>
    w.goto t (if (c : ℕ) ∈ o.processMask ∧ !(s.cpuData (some c)).wantedForParallel then .disableIdle c freeAgentId
      else .disableBit c freeAgentId)
  | .disableIdle c freeAgentId =>
    let state := (setBit (s.cpuData (some c)).state {.idle}).1
    { w with shared := s.setState (some c) state }.goto t (.disableBit c freeAgentId)
  | .disableBit c freeAgentId =>
    let r := clearBit (s.cpuData (some c)).state {.freeAgentEnabled}
    if r.2 then w.change t false c freeAgentId r.1 else w.goto t .outside
  | .count change =>
    { w with shared := { s with numEnabledFreeAgents :=
        s.numEnabledFreeAgents + if change.active then 1 else -1 } }.goto t (.notify change)
  | .notify change =>
    { w with
      shared := s.setActiveStatus change.freeAgentId change.active
      notified := update w.notified change.cpuid change.number }.goto t .outside

/-- The state after an event. A thread in a callback starts no other one. -/
def next : CallbackEvent S τ → Callbacks S τ
  | .enable t c => if w.callback t = .outside then w.goto t (.enable c) else w
  | .disable t c => if w.callback t = .outside then w.goto t (.disable c) else w
  | .step t => w.step o t
  | .other c cpu => { w with shared := w.shared.setOther c cpu }

/-- A thread notifies the runtime only if no later change of the CPU has been notified. -/
def InOrder : CallbackEvent S τ → Prop
  | .step t => match w.callback t with
    | .notify change => w.notified change.cpuid ≤ change.number
    | _ => True
  | _ => True

end Callbacks

/-- The bits of the CPUs, the counter and what the OpenMP runtime was told agree. Each free agent is of one CPU. -/
structure FreeAgents.Settled (S : System) (s : FreeAgents) : Prop where
  lists : ∀ (c : Fin S.size) freeAgentId, s.freeAgentIdByCpuid (some c) = some freeAgentId →
    s.freeAgentCpuidById freeAgentId = some (c : ℕ)
  counted : s.numEnabledFreeAgents = (s.enabledCpus (S := S)).card
  told : ∀ (c : Fin S.size) freeAgentId, s.freeAgentIdByCpuid (some c) = some freeAgentId →
    (s.activeStatus freeAgentId = true ↔ s.Enabled c)

/-! ## The bits of the CPUs -/

namespace FreeAgents

variable {s : FreeAgents} {c c' : Fin S.size}

theorem setState_self (cpuid : Option ℕ) : s.setState cpuid (s.cpuData cpuid).state = s := by
  unfold setState
  rw [update_eq_self]

theorem enabled_update (cpu : CpuData) :
    ({ s with cpuData := update s.cpuData (some (c : ℕ)) cpu } : FreeAgents).Enabled c' ↔
      if c' = c then .freeAgentEnabled ∈ cpu.state else s.Enabled c' := by
  unfold Enabled
  dsimp only
  by_cases hc : c' = c
  · rw [if_pos hc, hc, update_self]
  · have hne : some (c' : ℕ) ≠ some (c : ℕ) := fun h => hc (Fin.ext (Option.some.inj h))
    rw [if_neg hc, update_of_ne hne]

theorem enabled_setState (state : Finset CpuFlag) :
    (s.setState (some (c : ℕ)) state).Enabled c' ↔ if c' = c then .freeAgentEnabled ∈ state else s.Enabled c' :=
  enabled_update _

theorem card_enabledCpus_setState {state : Finset CpuFlag} {active : Bool} (hbefore : s.Enabled c ↔ active = false)
    (hafter : .freeAgentEnabled ∈ state ↔ active = true) :
    ((s.setState (some (c : ℕ)) state).enabledCpus (S := S)).card =
      ((s.enabledCpus (S := S)).card : ℤ) + if active then 1 else -1 := by
  have hmem (c' : Fin S.size) : c' ∈ (s.setState (some (c : ℕ)) state).enabledCpus (S := S) ↔
      if c' = c then active = true else c' ∈ s.enabledCpus (S := S) := by
    unfold enabledCpus
    rw [Finset.mem_filter_univ, Finset.mem_filter_univ, enabled_setState, hafter]
  have hc : c ∈ s.enabledCpus (S := S) ↔ active = false := by
    unfold enabledCpus
    rw [Finset.mem_filter_univ, hbefore]
  cases active with
  | true =>
    have hinsert : (s.setState (some (c : ℕ)) state).enabledCpus (S := S) = insert c (s.enabledCpus (S := S)) := by
      ext c'
      rw [hmem, Finset.mem_insert]
      by_cases h : c' = c <;> simp [h]
    have hnot : c ∉ s.enabledCpus (S := S) := fun h => nomatch hc.mp h
    rw [hinsert, Finset.card_insert_of_notMem hnot]
    simp
  | false =>
    have herase : (s.setState (some (c : ℕ)) state).enabledCpus (S := S) = (s.enabledCpus (S := S)).erase c := by
      ext c'
      rw [hmem, Finset.mem_erase]
      by_cases h : c' = c <;> simp [h]
    have hin : c ∈ s.enabledCpus (S := S) := hc.mpr rfl
    rw [herase, Finset.card_erase_of_mem hin, Nat.cast_pred (Finset.card_pos.mpr ⟨c, hin⟩)]
    simp
    rfl

/-- The lists, the bits and what the runtime was told are the same. -/
structure Same (S : System) (s s' : FreeAgents) : Prop where
  ids : s'.freeAgentIdByCpuid = s.freeAgentIdByCpuid
  cpuids : s'.freeAgentCpuidById = s.freeAgentCpuidById
  status : s'.activeStatus = s.activeStatus
  bits : ∀ c : Fin S.size, s'.Enabled c ↔ s.Enabled c

theorem Same.refl : Same S s s := ⟨rfl, rfl, rfl, fun _ => Iff.rfl⟩

theorem Same.enabledCpus {s' : FreeAgents} (h : Same S s s') : s'.enabledCpus (S := S) = s.enabledCpus := by
  exact Finset.filter_congr fun c _ => h.bits c

theorem same_setState {state : Finset CpuFlag} (hstate : .freeAgentEnabled ∈ state ↔ s.Enabled c) :
    Same S s (s.setState (some (c : ℕ)) state) := by
  refine ⟨rfl, rfl, rfl, fun c' => ?_⟩
  rw [enabled_setState]
  by_cases hc : c' = c
  · rw [if_pos hc, hstate, hc]
  · rw [if_neg hc]

theorem same_setOther (cpu : CpuData) : Same S s (s.setOther c cpu) := by
  refine ⟨rfl, rfl, rfl, fun c' => ?_⟩
  unfold setOther
  rw [enabled_update]
  by_cases hc : c' = c
  · rw [if_pos hc, hc]
    by_cases hbit : s.Enabled c <;> simp [hbit]
  · rw [if_neg hc]

end FreeAgents

/-! ## A callback alone -/

namespace Callbacks

variable (o : FreeAgentOptions S) {w : Callbacks S τ} {t : τ} {c : Fin S.size} {freeAgentId : ℕ}

/-- The steps of a thread that is not interrupted. -/
def alone (t : τ) : ℕ → Callbacks S τ → Callbacks S τ
  | 0, w => w
  | fuel + 1, w => alone t fuel (w.step o t)

/-- A thread that is not interrupted is out of its callback after some steps, with a shared state. -/
def Ends (t : τ) (fuel : ℕ) (w : Callbacks S τ) (s : FreeAgents) : Prop :=
  (alone o t fuel w).shared = s ∧ (alone o t fuel w).callback t = .outside

theorem goto_callback (callback : Callback S) (t' : τ) :
    (w.goto t callback).callback t' = if t' = t then callback else w.callback t' := by
  unfold goto
  dsimp only
  rw [update_apply]

theorem goto_callback_self (callback : Callback S) : (w.goto t callback).callback t = callback := by
  rw [goto_callback, if_pos rfl]

theorem goto_callback_of_ne (callback : Callback S) {t' : τ} (ht : t' ≠ t) :
    (w.goto t callback).callback t' = w.callback t' := by
  rw [goto_callback, if_neg ht]

variable {o}

theorem ends_step {v : Callbacks S τ} {s : FreeAgents} {fuel : ℕ} (hstep : w.step o t = v) (h : Ends o t fuel v s) :
    Ends o t (fuel + 1) w s := by
  subst hstep
  exact h

theorem ends_outside (h : w.callback t = .outside) (fuel : ℕ) : Ends o t fuel w w.shared := by
  induction fuel with
  | zero => exact ⟨rfl, h⟩
  | succ fuel ih =>
    refine ends_step (v := w) ?_ ih
    unfold step
    rw [h]

theorem ends_goto_outside (fuel : ℕ) : Ends o t fuel (w.goto t .outside) w.shared :=
  ends_outside (goto_callback_self _) fuel

theorem ends_notify {change : Change S} (h : w.callback t = .notify change) (fuel : ℕ) :
    Ends o t (fuel + 1) w (w.shared.setActiveStatus change.freeAgentId change.active) := by
  have hstep : w.step o t = { w with
      shared := w.shared.setActiveStatus change.freeAgentId change.active
      notified := update w.notified change.cpuid change.number }.goto t .outside := by
    unfold step
    rw [h]
  exact ends_step hstep (ends_goto_outside fuel)

theorem ends_count {change : Change S} (h : w.callback t = .count change) (fuel : ℕ) :
    Ends o t (fuel + 2) w { w.shared.setActiveStatus change.freeAgentId change.active with
      numEnabledFreeAgents := w.shared.numEnabledFreeAgents + if change.active then 1 else -1 } := by
  have hstep : w.step o t = { w with shared := { w.shared with numEnabledFreeAgents :=
      w.shared.numEnabledFreeAgents + if change.active then 1 else -1 } }.goto t (.notify change) := by
    unfold step
    rw [h]
  exact ends_step hstep (ends_notify (goto_callback_self _) fuel)

theorem ends_enableBit (h : w.callback t = .enableBit c freeAgentId) (fuel : ℕ) :
    Ends o t (fuel + 3) w (w.shared.enableFreeAgent (some (c : ℕ)) freeAgentId) := by
  unfold FreeAgents.enableFreeAgent
  dsimp only
  split
  · rename_i hset
    refine ends_step (v := w.change t true c freeAgentId _) ?_ (ends_count (goto_callback_self _) fuel)
    unfold step
    rw [h]
    exact if_pos hset
  · rename_i hset
    refine ends_step ?_ (ends_goto_outside _)
    unfold step
    rw [h]
    exact if_neg hset

theorem ends_enableId (h : w.callback t = .enableId c) (fuel : ℕ) :
    Ends o t (fuel + 4) w (match w.shared.freeAgentIdByCpuid (some (c : ℕ)) with
      | none => w.shared
      | some freeAgentId => w.shared.enableFreeAgent (some (c : ℕ)) freeAgentId) := by
  have hstep : w.step o t = w.goto t (match w.shared.freeAgentIdByCpuid (some (c : ℕ)) with
      | none => .outside
      | some freeAgentId => .enableBit c freeAgentId) := by
    unfold step
    rw [h]
  cases hid : w.shared.freeAgentIdByCpuid (some (c : ℕ)) with
  | none =>
    rw [hid] at hstep
    exact ends_step hstep (ends_goto_outside _)
  | some freeAgentId =>
    rw [hid] at hstep
    exact ends_step hstep (ends_enableBit (goto_callback_self _) fuel)

theorem ends_enableReclaimed (h : w.callback t = .enableReclaimed c) (fuel : ℕ) :
    let r := casBit (w.shared.cpuData (some (c : ℕ))).state {.reclaimed} {.idle}
    Ends o t (fuel + 5) w (if r.2 then w.shared.setState (some (c : ℕ)) r.1
      else match w.shared.freeAgentIdByCpuid (some (c : ℕ)) with
        | none => w.shared
        | some freeAgentId => w.shared.enableFreeAgent (some (c : ℕ)) freeAgentId) := by
  intro r
  have hstep : w.step o t = { w with shared := w.shared.setState (some (c : ℕ)) r.1 }.goto t
      (if r.2 then .outside else .enableId c) := by
    unfold step
    rw [h]
  split
  · rename_i hcas
    rw [if_pos hcas] at hstep
    exact ends_step hstep (ends_goto_outside _)
  · rename_i hcas
    rw [if_neg hcas, casBit_unchanged hcas, FreeAgents.setState_self] at hstep
    exact ends_step hstep (ends_enableId (goto_callback_self _) fuel)

theorem enable_alone (h : w.callback t = .enable c) : Ends o t 6 w (w.shared.cbEnableCpu (some (c : ℕ))) := by
  have hstep : w.step o t =
      w.goto t (if (w.shared.cpuData (some (c : ℕ))).wantedForParallel then .outside else .enableReclaimed c) := by
    unfold step
    rw [h]
  unfold FreeAgents.cbEnableCpu
  dsimp only
  split
  · rename_i hwanted
    rw [if_pos hwanted] at hstep
    exact ends_step hstep (ends_goto_outside 5)
  · rename_i hwanted
    rw [if_neg hwanted] at hstep
    exact ends_step hstep (ends_enableReclaimed (goto_callback_self _) 0)

theorem ends_disableBit (h : w.callback t = .disableBit c freeAgentId) (fuel : ℕ) :
    Ends o t (fuel + 3) w (w.shared.disableFreeAgent (some (c : ℕ)) freeAgentId) := by
  unfold FreeAgents.disableFreeAgent
  dsimp only
  split
  · rename_i hclear
    refine ends_step (v := w.change t false c freeAgentId _) ?_ (ends_count (goto_callback_self _) fuel)
    unfold step
    rw [h]
    exact if_pos hclear
  · rename_i hclear
    refine ends_step ?_ (ends_goto_outside _)
    unfold step
    rw [h]
    exact if_neg hclear

theorem ends_disableWanted (h : w.callback t = .disableWanted c freeAgentId) (fuel : ℕ) :
    Ends o t (fuel + 5) w ((w.shared.idleIfUnneeded o (some (c : ℕ))).disableFreeAgent (some (c : ℕ)) freeAgentId) := by
  have hstep : w.step o t = w.goto t (if (c : ℕ) ∈ o.processMask ∧ !(w.shared.cpuData (some (c : ℕ))).wantedForParallel
      then .disableIdle c freeAgentId else .disableBit c freeAgentId) := by
    unfold step
    rw [h]
  have hcpu : (some (c : ℕ)).any (· ∈ o.processMask) = true ↔ (c : ℕ) ∈ o.processMask := decide_eq_true_iff
  simp only [FreeAgents.idleIfUnneeded, hcpu]
  split
  · rename_i hidle
    rw [if_pos hidle] at hstep
    have hset {w : Callbacks S τ} (h : w.callback t = .disableIdle c freeAgentId) : Ends o t (fuel + 4) w
        ((w.shared.setState (some (c : ℕ)) (setBit (w.shared.cpuData (some (c : ℕ))).state {.idle}).1).disableFreeAgent
          (some (c : ℕ)) freeAgentId) := by
      refine ends_step (v := { w with shared := w.shared.setState (some (c : ℕ)) _ }.goto t _) ?_
        (ends_disableBit (goto_callback_self _) fuel)
      unfold step
      rw [h]
    exact ends_step hstep (hset (goto_callback_self _))
  · rename_i hidle
    rw [if_neg hidle] at hstep
    exact ends_step hstep (ends_disableBit (goto_callback_self _) (fuel + 1))

theorem disable_alone (h : w.callback t = .disable c) : Ends o t 6 w (w.shared.cbDisableCpu o (some (c : ℕ))) := by
  have hstep : w.step o t = w.goto t (match w.shared.freeAgentIdByCpuid (some (c : ℕ)) with
      | none => .outside
      | some freeAgentId => .disableWanted c freeAgentId) := by
    unfold step
    rw [h]
  unfold FreeAgents.cbDisableCpu
  cases hid : w.shared.freeAgentIdByCpuid (some (c : ℕ)) with
  | none =>
    rw [hid] at hstep
    exact ends_step hstep (ends_goto_outside 5)
  | some freeAgentId =>
    rw [hid] at hstep
    exact ends_step hstep (ends_disableWanted (goto_callback_self _) 0)

/-- **A callback alone** ends with what the function makes of the shared state. -/
theorem callback_alone (w : Callbacks S τ) (t : τ) (c : Fin S.size) :
    Ends o t 6 (w.goto t (.enable c)) (w.shared.cbEnableCpu (some (c : ℕ))) ∧
      Ends o t 6 (w.goto t (.disable c)) (w.shared.cbDisableCpu o (some (c : ℕ))) :=
  ⟨enable_alone (goto_callback_self _), disable_alone (goto_callback_self _)⟩

end Callbacks

/-! ## The invariant -/

namespace Callback

/-- The change that a thread has made and has not notified. -/
def pending : Callback S → Option (Change S)
  | .count change | .notify change => some change
  | _ => none

def weight : Callback S → ℤ
  | .count change => if change.active then 1 else -1
  | _ => 0

/-- The CPU and its free agent, once the thread has read it. -/
def agent : Callback S → Option (Fin S.size × ℕ)
  | .enableBit c freeAgentId | .disableWanted c freeAgentId | .disableIdle c freeAgentId
  | .disableBit c freeAgentId => some (c, freeAgentId)
  | .count change | .notify change => some (change.cpuid, change.freeAgentId)
  | _ => none

theorem weight_of_pending {callback : Callback S} (h : callback.pending = none) : callback.weight = 0 := by
  cases callback with
  | count change => cases h
  | _ => rfl

end Callback

namespace Callbacks

variable {o : FreeAgentOptions S} {w : Callbacks S τ} {t : τ} {c : Fin S.size} {freeAgentId : ℕ}

/-- The counter, with the changes that are still to be counted, is the number of the bits. -/
def Counted [Fintype τ] (w : Callbacks S τ) : Prop :=
  w.shared.numEnabledFreeAgents + ∑ t, (w.callback t).weight = (w.shared.enabledCpus (S := S)).card

/-- The last change of each CPU has been notified, or is on its way. -/
structure Told (w : Callbacks S τ) : Prop where
  lists : ∀ (c : Fin S.size) freeAgentId, w.shared.freeAgentIdByCpuid (some c) = some freeAgentId →
    w.shared.freeAgentCpuidById freeAgentId = some (c : ℕ)
  agents : ∀ t c freeAgentId, (w.callback t).agent = some (c, freeAgentId) →
    w.shared.freeAgentIdByCpuid (some c) = some freeAgentId
  notified : ∀ c, w.notified c ≤ w.changes c
  pending : ∀ t change, (w.callback t).pending = some change → change.number ≤ w.changes change.cpuid ∧
    (change.number = w.changes change.cpuid → (change.active = true ↔ w.shared.Enabled change.cpuid))
  told : ∀ (c : Fin S.size) freeAgentId, w.shared.freeAgentIdByCpuid (some c) = some freeAgentId → w.notified c = w.changes c →
    (w.shared.activeStatus freeAgentId = true ↔ w.shared.Enabled c)
  coming : ∀ c, w.notified c = w.changes c ∨
    ∃ t change, (w.callback t).pending = some change ∧ change.cpuid = c ∧ change.number = w.changes c

section Counted

variable [Fintype τ]

theorem Counted.goto (h : w.Counted) {s' : FreeAgents} {callback : Callback S} {changes notified : Fin S.size → ℕ}
    (hcard : s'.numEnabledFreeAgents + callback.weight - (s'.enabledCpus (S := S)).card =
      w.shared.numEnabledFreeAgents + (w.callback t).weight - (w.shared.enabledCpus (S := S)).card) :
    Counted ((⟨s', w.callback, changes, notified⟩ : Callbacks S τ).goto t callback) := by
  unfold Counted at h ⊢
  unfold Callbacks.goto
  dsimp only
  rw [Lib.sum_update_sub Finset.univ w.callback Callback.weight callback (Finset.mem_univ t)]
  omega

theorem Counted.quiet (h : w.Counted) {s' : FreeAgents} {callback : Callback S} (hsame : FreeAgents.Same S w.shared s')
    (hcounter : s'.numEnabledFreeAgents = w.shared.numEnabledFreeAgents) (hold : (w.callback t).pending = none)
    (hnew : callback.pending = none) : Counted ({ w with shared := s' }.goto t callback) := by
  refine h.goto ?_
  rw [hcounter, hsame.enabledCpus, Callback.weight_of_pending hold, Callback.weight_of_pending hnew]

theorem Counted.change (h : w.Counted) {active : Bool} {state : Finset CpuFlag} (hold : (w.callback t).pending = none)
    (hbefore : w.shared.Enabled c ↔ active = false) (hafter : .freeAgentEnabled ∈ state ↔ active = true) :
    Counted (w.change t active c freeAgentId state) := by
  refine h.goto ?_
  rw [FreeAgents.card_enabledCpus_setState hbefore hafter, Callback.weight_of_pending hold]
  dsimp only [Callback.weight, FreeAgents.setState]
  omega

end Counted

/-! ## The steps of a thread -/

theorem Told.agents_goto (h : w.Told) {callback : Callback S}
    (hnew : ∀ c freeAgentId, callback.agent = some (c, freeAgentId) →
      w.shared.freeAgentIdByCpuid (some c) = some freeAgentId) (t' : τ) (c : Fin S.size) (freeAgentId : ℕ)
    (hagent : ((w.goto t callback).callback t').agent = some (c, freeAgentId)) :
    w.shared.freeAgentIdByCpuid (some c) = some freeAgentId := by
  by_cases ht : t' = t
  · rw [ht, goto_callback_self] at hagent
    exact hnew c freeAgentId hagent
  · rw [goto_callback_of_ne callback ht] at hagent
    exact h.agents t' c freeAgentId hagent

theorem Told.quiet (h : w.Told) {s' : FreeAgents} {callback : Callback S} (hsame : FreeAgents.Same S w.shared s')
    (hstays : callback.pending = (w.callback t).pending)
    (hagent : ∀ c freeAgentId, callback.agent = some (c, freeAgentId) →
      w.shared.freeAgentIdByCpuid (some c) = some freeAgentId) :
    Told ({ w with shared := s' }.goto t callback) := by
  have hpending (t' : τ) : ((w.goto t callback).callback t').pending = (w.callback t').pending := by
    by_cases ht : t' = t
    · rw [ht, goto_callback_self, hstays]
    · rw [goto_callback_of_ne callback ht]
  refine ⟨?_, ?_, h.notified, ?_, ?_, ?_⟩
  · change ∀ (c : Fin S.size) freeAgentId, s'.freeAgentIdByCpuid (some c) = some freeAgentId →
      s'.freeAgentCpuidById freeAgentId = some (c : ℕ)
    rw [hsame.ids, hsame.cpuids]
    exact h.lists
  · intro t' c freeAgentId ha
    change s'.freeAgentIdByCpuid (some c) = some freeAgentId
    rw [hsame.ids]
    exact h.agents_goto hagent t' c freeAgentId ha
  · intro t' change hchange
    obtain ⟨hnumber, hbit⟩ := h.pending t' change ((hpending t').symm.trans hchange)
    exact ⟨hnumber, fun heq => (hbit heq).trans (hsame.bits _).symm⟩
  · intro c freeAgentId hid hlast
    change s'.activeStatus freeAgentId = true ↔ s'.Enabled c
    rw [hsame.status, hsame.bits]
    exact h.told c freeAgentId (by rw [← hsame.ids]; exact hid) hlast
  · intro c
    refine (h.coming c).imp_right ?_
    rintro ⟨t', change, hchange, hc, hnumber⟩
    exact ⟨t', change, (hpending t').trans hchange, hc, hnumber⟩

theorem Told.change (h : w.Told) {active : Bool} {state : Finset CpuFlag} (hold : (w.callback t).pending = none)
    (hagent : w.shared.freeAgentIdByCpuid (some c) = some freeAgentId)
    (hafter : .freeAgentEnabled ∈ state ↔ active = true) : Told (w.change t active c freeAgentId state) := by
  have hother {c' : Fin S.size} (hc : c' ≠ c) : update w.changes c (w.changes c + 1) c' = w.changes c' :=
    update_of_ne hc _ _
  have hself : update w.changes c (w.changes c + 1) c = w.changes c + 1 := update_self ..
  have hbit {c' : Fin S.size} (hc : c' ≠ c) : (w.shared.setState (some (c : ℕ)) state).Enabled c' ↔ w.shared.Enabled c' := by
    rw [FreeAgents.enabled_setState, if_neg hc]
  refine ⟨h.lists, ?_, ?_, ?_, ?_, ?_⟩
  · refine fun t' c' id' => h.agents_goto ?_ t' c' id'
    rintro c' id' heq
    obtain ⟨rfl, rfl⟩ : c = c' ∧ freeAgentId = id' := by simpa [Callback.agent] using heq
    exact hagent
  · intro c'
    change w.notified c' ≤ update w.changes c (w.changes c + 1) c'
    have := h.notified c'
    by_cases hc : c' = c
    · subst hc
      omega
    · rwa [hother hc]
  · intro t' ch hch
    change ch.number ≤ update w.changes c (w.changes c + 1) ch.cpuid ∧
      (ch.number = update w.changes c (w.changes c + 1) ch.cpuid →
        (ch.active = true ↔ (w.shared.setState (some (c : ℕ)) state).Enabled ch.cpuid))
    by_cases ht : t' = t
    · -- the new change is the last one
      rw [ht, Callbacks.change, goto_callback_self] at hch
      obtain rfl := Option.some.inj hch
      rw [hself, FreeAgents.enabled_setState, if_pos rfl, hafter]
      exact ⟨Nat.le_refl _, fun _ => Iff.rfl⟩
    · rw [Callbacks.change, goto_callback_of_ne _ ht] at hch
      obtain ⟨hnumber, hlast⟩ := h.pending t' ch hch
      by_cases hc : ch.cpuid = c
      · rw [hc] at hnumber
        rw [hc, hself]
        exact ⟨by omega, fun heq => absurd heq (by omega)⟩
      · rw [hother hc, hbit hc]
        exact ⟨hnumber, hlast⟩
  · intro c' id' hid
    change w.notified c' = update w.changes c (w.changes c + 1) c' →
      (w.shared.activeStatus id' = true ↔ (w.shared.setState (some (c : ℕ)) state).Enabled c')
    by_cases hc : c' = c
    · have := h.notified c
      rw [hc, hself]
      exact fun heq => absurd heq (by omega)
    · rw [hother hc, hbit hc]
      exact h.told c' id' hid
  · intro c'
    change w.notified c' = update w.changes c (w.changes c + 1) c' ∨
      ∃ t' ch, ((w.change t active c freeAgentId state).callback t').pending = some ch ∧ ch.cpuid = c' ∧
        ch.number = update w.changes c (w.changes c + 1) c'
    by_cases hc : c' = c
    · rw [hc, hself]
      refine .inr ⟨t, ⟨active, c, freeAgentId, w.changes c + 1⟩, ?_, rfl, rfl⟩
      rw [Callbacks.change, goto_callback_self]
      rfl
    · rw [hother hc]
      refine (h.coming c').imp_right ?_
      rintro ⟨t', ch, hch, hcpuid, hnumber⟩
      have ht : t' ≠ t := by
        rintro rfl
        rw [hold] at hch
        exact nomatch hch
      refine ⟨t', ch, ?_, hcpuid, hnumber⟩
      rw [Callbacks.change, goto_callback_of_ne _ ht]
      exact hch

theorem Told.notify (h : w.Told) {ch : Change S} (hold : w.callback t = .notify ch)
    (horder : w.notified ch.cpuid ≤ ch.number) :
    Told ({ w with
      shared := w.shared.setActiveStatus ch.freeAgentId ch.active
      notified := update w.notified ch.cpuid ch.number }.goto t .outside) := by
  have hpend : (w.callback t).pending = some ch := by rw [hold]; rfl
  have hagent : w.shared.freeAgentIdByCpuid (some ch.cpuid) = some ch.freeAgentId :=
    h.agents t ch.cpuid ch.freeAgentId (by rw [hold]; rfl)
  obtain ⟨hnumber, hlast⟩ := h.pending t ch hpend
  have hself : update w.notified ch.cpuid ch.number ch.cpuid = ch.number := update_self ..
  have hother {c : Fin S.size} (hc : c ≠ ch.cpuid) : update w.notified ch.cpuid ch.number c = w.notified c :=
    update_of_ne hc _ _
  have hpending (t' : τ) (ht : t' ≠ t) : ((w.goto t .outside).callback t').pending = (w.callback t').pending := by
    rw [goto_callback_of_ne _ ht]
  refine ⟨h.lists, h.agents_goto nofun, ?_, ?_, ?_, ?_⟩
  · intro c
    change update w.notified ch.cpuid ch.number c ≤ w.changes c
    by_cases hc : c = ch.cpuid
    · rw [hc, hself]
      exact hnumber
    · rw [hother hc]
      exact h.notified c
  · intro t' ch' hch'
    by_cases ht : t' = t
    · rw [ht] at hch'
      change ((w.goto t .outside).callback t).pending = some ch' at hch'
      rw [goto_callback_self] at hch'
      exact nomatch hch'
    · exact h.pending t' ch' ((hpending t' ht).symm.trans hch')
  · intro c id hid
    change update w.notified ch.cpuid ch.number c = w.changes c →
      (update w.shared.activeStatus ch.freeAgentId ch.active id = true ↔ w.shared.Enabled c)
    by_cases hc : c = ch.cpuid
    · -- the runtime is told about this change
      have heq : id = ch.freeAgentId := by
        rw [hc] at hid
        exact Option.some.inj (hid.symm.trans hagent)
      rw [hc, hself, heq, update_self]
      exact hlast
    · have hne : id ≠ ch.freeAgentId := by
        rintro rfl
        have hsame := (h.lists c _ hid).symm.trans (h.lists _ _ hagent)
        exact hc (Fin.ext (Option.some.inj hsame))
      rw [hother hc, update_of_ne hne]
      exact h.told c id hid
  · intro c
    change update w.notified ch.cpuid ch.number c = w.changes c ∨
      ∃ t' ch', ((w.goto t .outside).callback t').pending = some ch' ∧ ch'.cpuid = c ∧ ch'.number = w.changes c
    have hcoming {t' : τ} (ht : t' ≠ t) {ch' : Change S} (hch' : (w.callback t').pending = some ch') (hc : ch'.cpuid = c)
        (hn : ch'.number = w.changes c) : ∃ t' ch', ((w.goto t .outside).callback t').pending = some ch' ∧
          ch'.cpuid = c ∧ ch'.number = w.changes c := ⟨t', ch', (hpending t' ht).trans hch', hc, hn⟩
    rcases h.coming c with heq | ⟨t', ch', hch', hc', hn'⟩
    · refine .inl ?_
      by_cases hc : c = ch.cpuid
      · -- the last change has been notified before: this is it
        rw [hc] at heq ⊢
        omega
      · rw [hother hc]
        exact heq
    · by_cases ht : t' = t
      · obtain rfl : ch' = ch := by
          rw [ht, hpend] at hch'
          exact (Option.some.inj hch').symm
        subst hc'
        exact .inl (hself.trans hn')
      · exact .inr (hcoming ht hch' hc' hn')

/-! ## Runs -/

/-- The invariant: every change is counted and notified, or on its way. -/
structure Consistent [Fintype τ] (w : Callbacks S τ) : Prop where
  counted : w.Counted
  told : w.Told

section Consistent

variable [Fintype τ]

theorem Consistent.quiet (h : w.Consistent) {s' : FreeAgents} {callback : Callback S}
    (hsame : FreeAgents.Same S w.shared s') (hcounter : s'.numEnabledFreeAgents = w.shared.numEnabledFreeAgents)
    (hold : (w.callback t).pending = none) (hnew : callback.pending = none)
    (hagent : ∀ c freeAgentId, callback.agent = some (c, freeAgentId) →
      w.shared.freeAgentIdByCpuid (some c) = some freeAgentId) :
    Consistent ({ w with shared := s' }.goto t callback) :=
  ⟨h.counted.quiet hsame hcounter hold hnew, h.told.quiet hsame (hnew.trans hold.symm) hagent⟩

theorem Consistent.goto (h : w.Consistent) {callback : Callback S} (hold : (w.callback t).pending = none)
    (hnew : callback.pending = none)
    (hagent : ∀ c freeAgentId, callback.agent = some (c, freeAgentId) →
      w.shared.freeAgentIdByCpuid (some c) = some freeAgentId) : (w.goto t callback).Consistent :=
  h.quiet .refl rfl hold hnew hagent

theorem Consistent.lookup (h : w.Consistent) (hold : (w.callback t).pending = none)
    (point : Fin S.size → ℕ → Callback S) (hnew : ∀ id, (point c id).pending = none)
    (hpoint : ∀ id, (point c id).agent = some (c, id)) :
    (w.goto t (match w.shared.freeAgentIdByCpuid (some (c : ℕ)) with
      | none => .outside
      | some freeAgentId => point c freeAgentId)).Consistent := by
  cases hid : w.shared.freeAgentIdByCpuid (some (c : ℕ)) with
  | none => exact h.goto hold rfl nofun
  | some freeAgentId =>
    refine h.goto hold (hnew freeAgentId) fun c' id' heq => ?_
    rw [hpoint] at heq
    obtain ⟨rfl, rfl⟩ : c = c' ∧ freeAgentId = id' := by simpa using heq
    exact hid

theorem Consistent.step (h : w.Consistent) (horder : w.InOrder (.step t)) : (w.step o t).Consistent := by
  have hgoto {callback : Callback S} {c : Fin S.size} {freeAgentId : ℕ}
      (hold : (w.callback t).agent = some (c, freeAgentId)) (hagent : callback.agent = some (c, freeAgentId))
      (c' : Fin S.size) (id' : ℕ) (heq : callback.agent = some (c', id')) :
      w.shared.freeAgentIdByCpuid (some c') = some id' := h.told.agents t c' id' (hold.trans (hagent.symm.trans heq))
  unfold Callbacks.step
  dsimp only [InOrder] at horder
  cases hcb : w.callback t with
  | outside => exact h
  | enable c =>
    dsimp only
    split
    · exact h.goto (by rw [hcb]; rfl) rfl nofun
    · exact h.goto (by rw [hcb]; rfl) rfl nofun
  | enableReclaimed c =>
    have hflags : .freeAgentEnabled ∈ (casBit (w.shared.cpuData (some (c : ℕ))).state {.reclaimed} {.idle}).1 ↔
        w.shared.Enabled c := mem_casBit_of_ne nofun nofun
    have hsame := FreeAgents.same_setState hflags
    dsimp only
    split
    · exact h.quiet hsame rfl (by rw [hcb]; rfl) rfl nofun
    · exact h.quiet hsame rfl (by rw [hcb]; rfl) rfl nofun
  | enableId c => exact h.lookup (by rw [hcb]; rfl) .enableBit (fun _ => rfl) fun _ => rfl
  | enableBit c freeAgentId =>
    have hold : (w.callback t).agent = some (c, freeAgentId) := by rw [hcb]; rfl
    dsimp only
    split
    · rename_i hset
      obtain ⟨hbefore, hafter⟩ := testSetClearBit_set hset
      have hbefore' : w.shared.Enabled c ↔ true = false := iff_of_false hbefore nofun
      have hafter' := iff_of_true hafter (rfl : true = true)
      exact ⟨h.counted.change (by rw [hcb]; rfl) hbefore' hafter',
        h.told.change (by rw [hcb]; rfl) (h.told.agents t c freeAgentId hold) hafter'⟩
    · exact h.goto (by rw [hcb]; rfl) rfl nofun
  | disable c => exact h.lookup (by rw [hcb]; rfl) .disableWanted (fun _ => rfl) fun _ => rfl
  | disableWanted c freeAgentId =>
    have hold : (w.callback t).agent = some (c, freeAgentId) := by rw [hcb]; rfl
    dsimp only
    split
    · exact h.goto (by rw [hcb]; rfl) rfl (hgoto hold rfl)
    · exact h.goto (by rw [hcb]; rfl) rfl (hgoto hold rfl)
  | disableIdle c freeAgentId =>
    have hold : (w.callback t).agent = some (c, freeAgentId) := by rw [hcb]; rfl
    have hflags : .freeAgentEnabled ∈ (setBit (w.shared.cpuData (some (c : ℕ))).state {.idle}).1 ↔ w.shared.Enabled c :=
      mem_setBit_of_ne nofun
    have hsame := FreeAgents.same_setState hflags
    exact h.quiet hsame rfl (by rw [hcb]; rfl) rfl (hgoto hold rfl)
  | disableBit c freeAgentId =>
    have hold : (w.callback t).agent = some (c, freeAgentId) := by rw [hcb]; rfl
    dsimp only
    split
    · rename_i hclear
      obtain ⟨hbefore, hafter⟩ := clearBit_cleared hclear
      have hbefore' : w.shared.Enabled c ↔ false = false := iff_of_true hbefore rfl
      have hafter' := iff_of_false hafter (nofun : false ≠ true)
      exact ⟨h.counted.change (by rw [hcb]; rfl) hbefore' hafter',
        h.told.change (by rw [hcb]; rfl) (h.told.agents t c freeAgentId hold) hafter'⟩
    · exact h.goto (by rw [hcb]; rfl) rfl nofun
  | count ch =>
    have hold : (w.callback t).agent = some (ch.cpuid, ch.freeAgentId) := by rw [hcb]; rfl
    have hsame : FreeAgents.Same S w.shared { w.shared with numEnabledFreeAgents :=
        w.shared.numEnabledFreeAgents + if ch.active then 1 else -1 } := ⟨rfl, rfl, rfl, fun _ => Iff.rfl⟩
    refine ⟨h.counted.goto ?_, h.told.quiet hsame (by rw [hcb]; rfl) (hgoto hold rfl)⟩
    rw [hcb, hsame.enabledCpus]
    dsimp only [Callback.weight]
    omega
  | notify ch =>
    rw [hcb] at horder
    refine ⟨h.counted.goto ?_, h.told.notify hcb horder⟩
    rw [hcb]
    rfl

theorem Consistent.next (h : w.Consistent) (e : CallbackEvent S τ) (horder : w.InOrder e) : (w.next o e).Consistent := by
  cases e with
  | enable t c =>
    unfold Callbacks.next
    dsimp only
    split
    · rename_i hout
      exact h.goto (by rw [hout]; rfl) rfl nofun
    · exact h
  | disable t c =>
    unfold Callbacks.next
    dsimp only
    split
    · rename_i hout
      exact h.goto (by rw [hout]; rfl) rfl nofun
    · exact h
  | step t => exact h.step horder
  | other c cpu =>
    have hsame := FreeAgents.same_setOther (s := w.shared) (c := c) cpu
    refine ⟨?_, ⟨h.told.lists, h.told.agents, h.told.notified, ?_, ?_, h.told.coming⟩⟩
    · have hcard := hsame.enabledCpus
      have hcounted := h.counted
      unfold Counted at hcounted ⊢
      unfold Callbacks.next
      rw [hcard, ← hcounted]
      rfl
    · intro t change hchange
      obtain ⟨hnumber, hlast⟩ := h.told.pending t change hchange
      exact ⟨hnumber, fun heq => (hlast heq).trans (hsame.bits _).symm⟩
    · intro c' id hid hlast
      exact (h.told.told c' id hid hlast).trans (hsame.bits _).symm

omit [DecidableEq τ] in
theorem Consistent.settled (h : w.Consistent) (hout : ∀ t, w.callback t = .outside) : w.shared.Settled S := by
  refine ⟨h.told.lists, ?_, fun c freeAgentId hid => h.told.told c freeAgentId hid ?_⟩
  · have hzero : ∑ t, (w.callback t).weight = 0 := Finset.sum_eq_zero fun t _ => by rw [hout t]; rfl
    have hcounted := h.counted
    unfold Counted at hcounted
    omega
  · rcases h.told.coming c with heq | ⟨t, change, hchange, -⟩
    · exact heq
    · rw [hout t] at hchange
      exact nomatch hchange

omit [DecidableEq τ] in
theorem start_consistent {s : FreeAgents} (h : s.Settled S) : (start s : Callbacks S τ).Consistent := by
  refine ⟨?_, ⟨h.lists, nofun, fun _ => Nat.le_refl 0, nofun, fun c id hid _ => h.told c id hid, fun _ => .inl rfl⟩⟩
  unfold Counted start
  dsimp only [Callback.weight]
  rw [Finset.sum_const_zero, add_zero]
  exact h.counted

end Consistent

/-- **Concurrent callbacks**: in a run without late notifications, whenever no callback is in progress, the number of
enabled free agents and what the OpenMP runtime was told agree with the bits of the CPUs. -/
theorem callbacks_settled [Fintype τ] (o : FreeAgentOptions S) {s : FreeAgents} (hs : s.Settled S)
    (events : List (CallbackEvent S τ)) (horder : Lib.Along (next o) InOrder (start s) events)
    (hout : ∀ t, (events.foldl (next o) (start s)).callback t = .outside) :
    (events.foldl (next o) (start s)).shared.Settled S := by
  have hkeeps : ∀ (w : Callbacks S τ) e, w.Consistent → True → w.InOrder e → (w.next o e).Consistent :=
    fun _ e h _ horder => h.next e horder
  have hend := Lib.Along.invariant (P := fun _ _ => True) hkeeps (fun _ _ _ _ _ => trivial) _ events
    (start_consistent hs) (fun _ _ => trivial) horder
  exact hend.2.settled hout

/-! ## Two threads and one CPU -/

instance (w : Callbacks S τ) (e : CallbackEvent S τ) : Decidable (w.InOrder e) := by
  unfold InOrder
  split
  · split <;> infer_instance
  · exact isTrue trivial

def oneCpu : System where
  sysMask := {0}
  cores := [{0}]
  disjoint := List.pairwise_singleton _ _
  covered := by simp

/-- A process without CPUs, whose free agent is bound to that CPU. -/
def guestOptions : FreeAgentOptions oneCpu where
  lewi := true
  lend := false
  pid := 1
  numFreeAgents := 1
  processMask := ∅
  fits := nofun
  defaultNumThreads := 1

def guest : FreeAgents where
  freeAgentIdByCpuid := fun _ => some 0
  freeAgentCpuidById := fun _ => some 0
  freeAgentCpuList := [some 0]
  cpuData := fun _ => {}

def guestCpu : Fin oneCpu.size := ⟨0, by decide⟩

theorem guest_settled : guest.Settled oneCpu := by
  refine ⟨fun c id hid => ?_, by decide, fun c id _ => ?_⟩
  · have hsize : oneCpu.size = 1 := rfl
    have hc : (c : ℕ) = 0 := by omega
    rw [hc]
    rfl
  · exact iff_of_false (nofun : false ≠ true) (Finset.notMem_empty _)

/-- One thread enables the CPU, and then another one disables it. -/
def inTurn : List (CallbackEvent oneCpu Bool) :=
  [.enable false guestCpu] ++ List.replicate 6 (.step false) ++ [.disable true guestCpu] ++
    List.replicate 5 (.step true)

theorem callbacks_settled_inTurn : (inTurn.foldl (next guestOptions) (start guest)).shared.Settled oneCpu :=
  callbacks_settled guestOptions guest_settled inTurn (by decide) (by decide)

/-- The second thread disables the CPU before the first one notifies the runtime. -/
def overtaken : List (CallbackEvent oneCpu Bool) :=
  [.enable false guestCpu] ++ List.replicate 5 (.step false) ++ [.disable true guestCpu] ++
    List.replicate 5 (.step true) ++ [.step false]

/-- The free agent of a CPU that is not enabled stays active. -/
theorem callbacks_unsettled : guest.Settled oneCpu ∧
    (∀ t, (overtaken.foldl (next guestOptions) (start guest)).callback t = .outside) ∧
      ¬ (overtaken.foldl (next guestOptions) (start guest)).shared.Settled oneCpu := by
  refine ⟨guest_settled, by decide, fun h => ?_⟩
  exact absurd (h.told guestCpu 0 (by decide)) (by decide)

end Callbacks

end Dlb.Omptm

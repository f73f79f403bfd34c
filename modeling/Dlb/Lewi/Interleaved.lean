import Dlb.Lewi.Sequential

/-!
# Classic LeWI without a lock

The operations of `lewi.c` as their steps on `idleCpus`: each atomic built-in and each separate read is one, and the
steps of different processes interleave. `held` are the CPUs that a process has on its way through an operation; what
it writes to `myCPUS` in the end.

* `alone`: an operation whose steps are not interrupted does what the functions of `lewi.c` say;
* `step_balanced_iff`: a step keeps the sum of the pool and what all processes hold exactly if it is not a swap that
  goes wrong (`Pc.Sound`).
-/

namespace Dlb.Lewi

open Function

/-! ## The steps of a process -/

/-- Where a process is in an operation: what it does next with `idleCpus`. -/
inductive Pc where
  /-- it is in no operation -/
  | none
  /-- `releaseCpus`, and then it uses `numThreads` CPUs -/
  | release (cpus numThreads : ℤ)
  /-- `acquireCpus`: the subtraction -/
  | acquire (currentCpus : ℤ)
  /-- the second argument of the greedy swap is read -/
  | greedyRead (cpus : ℤ)
  /-- the greedy swap -/
  | greedySwap (cpus expected : ℤ)
  /-- `checkIdleCpus`: is the pool negative -/
  | checkOver (maxResources : ℤ)
  /-- `aux` is read, and CPUs are given back -/
  | overRead
  | overSwap (aux : ℤ)
  /-- is the pool positive -/
  | checkIdle (maxResources : ℤ)
  /-- `aux` is read -/
  | idleRead (maxResources : ℤ)
  /-- the arguments of the swap are read, one after the other -/
  | idleExpected (aux : ℤ)
  | idleNew (aux expected : ℤ)
  | idleSwap (aux expected new : ℤ)
deriving DecidableEq

def PoolOp.start (P : Process) : PoolOp → Pc
  | .intoBlockingCall => if P.enabled then .release (P.myCpus - P.kept) P.kept else .none
  | .outOfBlockingCall => if P.enabled then .acquire P.current else .none
  | .lend => .release (P.myCpus - 1) 1
  | .reclaim => .acquire P.myCpus
  | .borrowCpus maxResources => if P.enabled ∧ !P.single then .checkOver (P.maxResources maxResources) else .none

/-- One step of a process: the pool, `myCPUS`, and where it is then. -/
def Pc.step (idleCpus : ℤ) (P : Process) : Pc → ℤ × ℤ × Pc
  | .none => (idleCpus, P.myCpus, .none)
  | .release cpus numThreads => (idleCpus + cpus, numThreads, .none)
  | .acquire currentCpus =>
    let cpus := P.defaultCpus - currentCpus
    if 0 < idleCpus - cpus ∧ P.greedy then (idleCpus - cpus, P.myCpus, .greedyRead (cpus + currentCpus))
    else (idleCpus - cpus, cpus + currentCpus, .none)
  | .greedyRead cpus => (idleCpus, P.myCpus, .greedySwap cpus idleCpus)
  | .greedySwap cpus expected => (if idleCpus = expected then 0 else idleCpus, cpus + idleCpus, .none)
  | .checkOver maxResources =>
    (idleCpus, P.myCpus, if idleCpus < 0 ∧ P.defaultCpus < P.myCpus then .overRead else .checkIdle maxResources)
  | .overRead => (idleCpus, P.myCpus, .overSwap idleCpus)
  | .overSwap aux =>
    let cpus := min |aux| (P.myCpus - P.defaultCpus)
    if idleCpus = aux then (aux + cpus, P.myCpus - cpus, .none) else (idleCpus, P.myCpus, .none)
  | .checkIdle maxResources => (idleCpus, P.myCpus, if 0 < idleCpus then .idleRead maxResources else .none)
  | .idleRead maxResources => (idleCpus, P.myCpus, .idleExpected (min idleCpus maxResources))
  | .idleExpected aux => (idleCpus, P.myCpus, .idleNew aux idleCpus)
  | .idleNew aux expected => (idleCpus, P.myCpus, .idleSwap aux expected idleCpus)
  | .idleSwap aux expected new =>
    if idleCpus = expected then (new - aux, P.myCpus + aux, .none) else (idleCpus, P.myCpus, .none)

def Pc.held (myCpus : ℤ) : Pc → ℤ
  | .release cpus numThreads => cpus + numThreads
  | .acquire currentCpus => currentCpus
  | .greedyRead cpus | .greedySwap cpus _ => cpus
  | _ => myCpus

/-- The step is not a swap that goes wrong: a greedy one that fails, with idle CPUs, or one whose two arguments come from
different values of the pool and that succeeds. -/
def Pc.Sound (idleCpus : ℤ) : Pc → Prop
  | .greedySwap _ expected => idleCpus = expected ∨ idleCpus = 0
  | .idleSwap _ expected new => idleCpus = expected → expected = new
  | _ => True

instance (idleCpus : ℤ) (pc : Pc) : Decidable (pc.Sound idleCpus) := by
  unfold Pc.Sound
  split <;> infer_instance

variable {idleCpus : ℤ} {P : Process}

theorem Pc.step_held_iff (pc : Pc) :
    (pc.step idleCpus P).1 + (pc.step idleCpus P).2.2.held (pc.step idleCpus P).2.1 = idleCpus + pc.held P.myCpus ↔
      pc.Sound idleCpus := by
  cases pc with
  | none => exact iff_of_true rfl trivial
  | release cpus numThreads =>
    refine iff_of_true ?_ trivial
    dsimp only [step, held]
    omega
  | acquire currentCpus =>
    refine iff_of_true ?_ trivial
    dsimp only [step]
    split
    · dsimp only [held]
      omega
    · dsimp only [held]
      omega
  | greedyRead cpus => exact iff_of_true rfl trivial
  | greedySwap cpus expected =>
    dsimp only [step, held, Sound]
    split
    · rename_i h
      exact iff_of_true (by omega) (.inl h)
    · rename_i h
      constructor
      · intro hsum
        exact .inr (by omega)
      · rintro (heq | h0)
        · exact absurd heq h
        · omega
  | checkOver maxResources =>
    refine iff_of_true ?_ trivial
    dsimp only [step]
    split
    · rfl
    · rfl
  | overRead => exact iff_of_true rfl trivial
  | overSwap aux =>
    refine iff_of_true ?_ trivial
    dsimp only [step]
    split
    · dsimp only [held]
      omega
    · rfl
  | checkIdle maxResources =>
    refine iff_of_true ?_ trivial
    dsimp only [step]
    split
    · rfl
    · rfl
  | idleRead maxResources => exact iff_of_true rfl trivial
  | idleExpected aux => exact iff_of_true rfl trivial
  | idleNew aux expected => exact iff_of_true rfl trivial
  | idleSwap aux expected new =>
    dsimp only [step, Sound]
    split
    · rename_i h
      dsimp only [held]
      constructor
      · intro hsum _
        omega
      · intro heq
        have := heq h
        omega
    · rename_i h
      exact iff_of_true rfl fun h' => absurd h' h

theorem PoolOp.start_held (hsingle : P.single = false) (op : PoolOp) : (op.start P).held P.myCpus = P.myCpus := by
  cases op with
  | intoBlockingCall =>
    dsimp only [start]
    split
    · dsimp only [Pc.held]
      omega
    · rfl
  | outOfBlockingCall =>
    unfold start Process.current
    rw [hsingle]
    dsimp only
    split
    · rfl
    · rfl
  | lend =>
    dsimp only [start, Pc.held]
    omega
  | reclaim => rfl
  | borrowCpus maxResources =>
    dsimp only [start]
    split
    · rfl
    · rfl

/-! ## One operation alone -/

/-- The steps of a process that is not interrupted. -/
def Pc.alone : ℕ → Pc → ℤ → Process → ℤ × Process × Pc
  | 0, pc, idleCpus, P => (idleCpus, P, pc)
  | fuel + 1, pc, idleCpus, P =>
    let r := pc.step idleCpus P
    r.2.2.alone fuel r.1 (P.setThreads r.2.1)

theorem Pc.alone_none (fuel : ℕ) : Pc.none.alone fuel idleCpus P = (idleCpus, P, .none) := by
  induction fuel with
  | zero => rfl
  | succ fuel ih => exact ih

theorem Pc.alone_step {pc pc' : Pc} {idleCpus' myCpus : ℤ} (h : pc.step idleCpus P = (idleCpus', myCpus, pc')) (fuel : ℕ) :
    pc.alone (fuel + 1) idleCpus P = pc'.alone fuel idleCpus' (P.setThreads myCpus) := by
  have hstep : pc.alone (fuel + 1) idleCpus P = (pc.step idleCpus P).2.2.alone fuel (pc.step idleCpus P).1
      (P.setThreads (pc.step idleCpus P).2.1) := rfl
  rw [hstep, h]

theorem alone_acquire (currentCpus : ℤ) (fuel : ℕ) : (Pc.acquire currentCpus).alone (fuel + 3) idleCpus P =
    ((acquireCpus idleCpus P currentCpus).1, P.setThreads (acquireCpus idleCpus P currentCpus).2, .none) := by
  unfold acquireCpus
  dsimp only
  split
  · rename_i h
    have hacquire : (Pc.acquire currentCpus).step idleCpus P = (idleCpus - (P.defaultCpus - currentCpus), P.myCpus,
        .greedyRead (P.defaultCpus - currentCpus + currentCpus)) := if_pos h
    have hread (i cpus : ℤ) : (Pc.greedyRead cpus).step i P = (i, P.myCpus, .greedySwap cpus i) := rfl
    have hswap (i cpus : ℤ) : (Pc.greedySwap cpus i).step i P = (0, cpus + i, .none) := by simp [Pc.step]
    have hkeep : P.setThreads P.myCpus = P := rfl
    rw [Pc.alone_step hacquire, hkeep, Pc.alone_step (hread _ _), hkeep, Pc.alone_step (hswap _ _), Pc.alone_none]
    congr 3
    omega
  · rename_i h
    have hacquire : (Pc.acquire currentCpus).step idleCpus P = (idleCpus - (P.defaultCpus - currentCpus),
        P.defaultCpus - currentCpus + currentCpus, .none) := if_neg h
    rw [Pc.alone_step hacquire, Pc.alone_none]

theorem alone_check (maxResources : ℤ) : (Pc.checkOver maxResources).alone 6 idleCpus P =
    ((checkIdleCpus idleCpus P maxResources).1, P.setThreads (checkIdleCpus idleCpus P maxResources).2, .none) := by
  have hcheck : (Pc.checkOver maxResources).step idleCpus P = (idleCpus, P.myCpus,
      if idleCpus < 0 ∧ P.defaultCpus < P.myCpus then .overRead else .checkIdle maxResources) := rfl
  have hidle : (Pc.checkIdle maxResources).step idleCpus P = (idleCpus, P.myCpus,
      if 0 < idleCpus then .idleRead maxResources else .none) := rfl
  have hswap (aux : ℤ) : (Pc.idleSwap aux idleCpus idleCpus).step idleCpus P = (idleCpus - aux, P.myCpus + aux, .none) :=
    if_pos rfl
  have hover : (Pc.overSwap idleCpus).step idleCpus P = (idleCpus + min |idleCpus| (P.myCpus - P.defaultCpus),
      P.myCpus - min |idleCpus| (P.myCpus - P.defaultCpus), .none) := if_pos rfl
  have hkeep : P.setThreads P.myCpus = P := rfl
  unfold checkIdleCpus
  split
  · rename_i h
    rw [Pc.alone_step hcheck, if_pos h, Pc.alone_step rfl, hkeep, hkeep, Pc.alone_step hover, Pc.alone_none]
  rename_i hno
  rw [Pc.alone_step hcheck, if_neg hno, hkeep, Pc.alone_step hidle, hkeep]
  split
  · rw [Pc.alone_step rfl, Pc.alone_step rfl, Pc.alone_step rfl, hkeep, hkeep, hkeep, Pc.alone_step (hswap _)]
    rfl
  · rw [Pc.alone_none, hkeep]

theorem alone (op : PoolOp) :
    (op.start P).alone 6 idleCpus P = ((op.exec idleCpus P).1, (op.exec idleCpus P).2, .none) := by
  cases op with
  | intoBlockingCall =>
    unfold PoolOp.start PoolOp.exec lewiIntoBlockingCall
    dsimp only
    split
    · rfl
    · exact Pc.alone_none 6
  | outOfBlockingCall =>
    unfold PoolOp.start PoolOp.exec lewiOutOfBlockingCall
    dsimp only
    split
    · exact alone_acquire _ 3
    · exact Pc.alone_none 6
  | lend => rfl
  | reclaim => exact alone_acquire _ 3
  | borrowCpus maxResources =>
    unfold PoolOp.start PoolOp.exec lewiBorrowCpus
    dsimp only
    split
    · exact alone_check _
    · exact Pc.alone_none 6

/-! ## Interleaved operations -/

variable {π : Type*} [DecidableEq π]

structure Interleaved (π : Type*) where
  node : Node π
  pc : π → Pc := fun _ => .none

/-- An attached process begins an operation, or does its next step. -/
inductive StepEvent (π : Type*) where
  | call (p : π) (op : PoolOp)
  | step (p : π)

namespace Interleaved

variable (s : Interleaved π)

/-- The state after an event. An operation begins when the one before has ended. -/
def next : StepEvent π → Interleaved π
  | .call p op =>
    if p ∈ s.node.attached ∧ s.pc p = .none then
      { s with pc := update s.pc p (op.start (s.node.process p)) }
    else s
  | .step p =>
    if p ∈ s.node.attached then
      let r := (s.pc p).step s.node.idleCpus (s.node.process p)
      { node := s.node.write p (r.1, (s.node.process p).setThreads r.2.1)
        pc := update s.pc p r.2.2 }
    else s

def Sound : StepEvent π → Prop
  | .call _ _ => True
  | .step p => p ∈ s.node.attached → (s.pc p).Sound s.node.idleCpus

instance (e : StepEvent π) : Decidable (s.Sound e) := by
  unfold Sound
  split <;> infer_instance

def Quiet : Prop := ∀ p ∈ s.node.attached, s.pc p = .none

instance : Decidable s.Quiet := inferInstanceAs (Decidable (∀ p ∈ s.node.attached, s.pc p = .none))

def held (p : π) : ℤ := (s.pc p).held (s.node.process p).myCpus

/-- All CPUs of the processes are held or idle. -/
structure Balanced : Prop where
  single : s.node.NoSingle
  sum : s.node.idleCpus + ∑ p ∈ s.node.attached, s.held p = ∑ p ∈ s.node.attached, (s.node.process p).defaultCpus

variable {s} {p : π}

omit [DecidableEq π] in
theorem Balanced.conserved (h : s.Balanced) (hquiet : s.Quiet) : s.node.Conserved := by
  unfold Node.Conserved
  rw [← h.sum]
  congr 1
  refine Finset.sum_congr rfl fun p hp => ?_
  unfold held
  rw [hquiet p hp]
  rfl

omit [DecidableEq π] in
theorem balanced_of_quiet (hsingle : s.node.NoSingle) (hquiet : s.Quiet) (h : s.node.Conserved) : s.Balanced := by
  refine ⟨hsingle, ?_⟩
  rw [← h]
  congr 1
  refine Finset.sum_congr rfl fun p hp => ?_
  unfold held
  rw [hquiet p hp]
  rfl

theorem call_balanced (h : s.Balanced) (p : π) (op : PoolOp) : (s.next (.call p op)).Balanced := by
  unfold next
  dsimp only
  split
  · rename_i hcall
    refine ⟨h.single, ?_⟩
    rw [← h.sum]
    congr 1
    refine Finset.sum_congr rfl fun q _ => ?_
    unfold held
    dsimp only
    by_cases hq : q = p
    · rw [hq, update_self, op.start_held (h.single p), hcall.2]
      rfl
    · rw [update_of_ne hq]
  · exact h

theorem step_balanced_iff (h : s.Balanced) (p : π) : (s.next (.step p)).Balanced ↔ s.Sound (.step p) := by
  unfold next Sound
  dsimp only
  split
  · rename_i hp
    rw [forall_prop_of_true hp, ← Pc.step_held_iff (P := s.node.process p)]
    generalize (s.pc p).step s.node.idleCpus (s.node.process p) = r
    have hsum : ∀ g : Process × Pc → ℤ,
        ∑ q ∈ s.node.attached, g (update s.node.process p ((s.node.process p).setThreads r.2.1) q,
          update s.pc p r.2.2 q) =
        ∑ q ∈ s.node.attached, g (s.node.process q, s.pc q) +
          (g ((s.node.process p).setThreads r.2.1, r.2.2) - g (s.node.process p, s.pc p)) := by
      intro g
      rw [← Lib.sum_update_sub s.node.attached (fun q => (s.node.process q, s.pc q)) g _ hp]
      refine Finset.sum_congr rfl fun q _ => congrArg g ?_
      by_cases hq : q = p
      · rw [hq, update_self, update_self, update_self]
      · rw [update_of_ne hq, update_of_ne hq, update_of_ne hq]
    have hheld := hsum fun x => x.2.held x.1.myCpus
    have hdefault := hsum fun x => x.1.defaultCpus
    dsimp only [Process.setThreads] at hheld hdefault
    have hbalance := h.sum
    unfold held at hbalance
    constructor
    · intro h'
      have hbalance' := h'.sum
      unfold held Node.write at hbalance'
      dsimp only [Process.setThreads] at hbalance'
      omega
    · intro hmoved
      refine ⟨Node.write_noSingle h.single (h.single p), ?_⟩
      unfold held Node.write
      dsimp only [Process.setThreads]
      omega
  · rename_i hp
    exact iff_of_true h fun h' => absurd h' hp

/-- **Classic LeWI conserves CPUs without a lock** in every run whose swaps go right. -/
theorem interleaved_conserved (hsingle : s.node.NoSingle) (hquiet : s.Quiet) (h : s.node.Conserved)
    (events : List (StepEvent π)) (hsound : Lib.Along next Sound s events) :
    Lib.Along next (fun s e => (s.next e).Quiet → (s.next e).node.Conserved) s events := by
  have hnext : ∀ (s : Interleaved π) (e : StepEvent π), s.Balanced → s.Sound e → (s.next e).Balanced := by
    intro s e h hsound
    cases e with
    | call p op => exact call_balanced h p op
    | step p => exact (step_balanced_iff h p).mpr hsound
  exact (Lib.Along.invariant (R := fun _ => True) (fun s e h _ hsound => hnext s e h hsound)
    (fun s e h _ hsound hquiet' => (hnext s e h hsound).conserved hquiet') s events
    (balanced_of_quiet hsingle hquiet h) (fun _ _ => trivial) hsound).1

/-- Two processes of four CPUs, of which `false` is greedy. -/
def twoProcesses : Interleaved Bool where
  node :=
    { attached := {true, false}
      process := fun p => { defaultCpus := 4, myCpus := 4, enabled := true, greedy := !p } }

/-- The processes begin an operation each; that of `false` is not interrupted. -/
theorem interleaved_conserved_two : Lib.Along next (fun s e => (s.next e).Quiet → (s.next e).node.Conserved) twoProcesses
    [.call true .lend, .call false .reclaim, .step true, .step false, .step false, .step false] :=
  interleaved_conserved (fun _ => rfl) (by decide) (by decide) _ (by decide)

/-- The process `true` lends three CPUs and borrows one of them, between the read and the swap of the other one: the
swap fails, and `false` uses the two CPUs that stay idle. -/
theorem interleaved_conserved_fails :
    ¬ Lib.Along next (fun s e => (s.next e).Quiet → (s.next e).node.Conserved) twoProcesses
      [.call true .lend, .step true, .call false .reclaim, .step false, .step false, .call true (.borrowCpus 1),
        .step true, .step true, .step true, .step true, .step true, .step true, .step false] := by
  decide

end Interleaved

end Dlb.Lewi

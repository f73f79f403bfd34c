import Dlb.Lewi.LendLight

/-!
# Classic LeWI, one operation after another

Whole operations of any processes in any order. Each of them moves CPUs between the pool and its process, but for
`lewi_DisableDLB`: a greedy process takes all the CPUs that are idle, and then only counts its default ones.

* `acquireCpus_moves`, `checkIdleCpus_moves`: the functions of the pool;
* `Op.exec_moves_iff`: an operation keeps the sum of the pool and its process exactly if it does not drop idle CPUs.
-/

namespace Dlb.Lewi

variable {idleCpus : ℤ} {P : Process} {r : ℤ × Process}

/-! ## One operation -/

/-- CPUs are moved between the pool and the process. -/
def Moves (idleCpus : ℤ) (P : Process) (r : ℤ × Process) : Prop := r.1 + r.2.myCpus = idleCpus + P.myCpus

theorem acquireCpus_moves (current : ℤ) :
    (acquireCpus idleCpus P current).1 + (acquireCpus idleCpus P current).2 = idleCpus + current := by
  unfold acquireCpus
  dsimp only
  split
  · dsimp only
    omega
  · dsimp only
    omega

theorem checkIdleCpus_moves (maxResources : ℤ) :
    (checkIdleCpus idleCpus P maxResources).1 + (checkIdleCpus idleCpus P maxResources).2 = idleCpus + P.myCpus := by
  unfold checkIdleCpus
  split
  · dsimp only
    omega
  split
  · dsimp only
    omega
  · rfl

theorem release_moves (numThreads : ℤ) :
    Moves idleCpus P (releaseCpus idleCpus (P.myCpus - numThreads), P.setThreads numThreads) := by
  unfold Moves releaseCpus Process.setThreads
  dsimp only
  omega

theorem acquire_moves : Moves idleCpus P
    ((acquireCpus idleCpus P P.myCpus).1, P.setThreads (acquireCpus idleCpus P P.myCpus).2) :=
  acquireCpus_moves P.myCpus

theorem borrowCpus_moves (maxResources : ℤ) : Moves idleCpus P (lewiBorrowCpus idleCpus P maxResources) := by
  unfold lewiBorrowCpus
  split
  · exact checkIdleCpus_moves _
  · rfl

theorem PoolOp.exec_moves (hsingle : P.single = false) (op : PoolOp) : Moves idleCpus P (op.exec idleCpus P) := by
  cases op with
  | intoBlockingCall =>
    unfold PoolOp.exec lewiIntoBlockingCall
    dsimp only
    split
    · exact release_moves P.kept
    · rfl
  | outOfBlockingCall =>
    unfold PoolOp.exec lewiOutOfBlockingCall Process.current
    rw [hsingle]
    dsimp only
    split
    · exact acquire_moves
    · rfl
  | lend => exact release_moves 1
  | reclaim => exact acquire_moves
  | borrowCpus maxResources => exact borrowCpus_moves maxResources

/-- The CPUs that are left in the pool once the process has its default ones. -/
def leftOver (idleCpus : ℤ) (P : Process) : ℤ := idleCpus - (P.defaultCpus - P.myCpus)

def Op.Keeps (idleCpus : ℤ) (P : Process) : Op → Prop
  | .disableDlb => P.enabled = true → P.greedy = true → leftOver idleCpus P ≤ 0
  | _ => True

instance (op : Op) : Decidable (op.Keeps idleCpus P) := by
  unfold Op.Keeps
  split <;> infer_instance

theorem disableDlb_moves_iff (hsingle : P.single = false) :
    Moves idleCpus P (lewiDisableDlb idleCpus P) ↔ Op.disableDlb.Keeps idleCpus P := by
  unfold lewiDisableDlb Op.Keeps Moves acquireCpus Process.setThreads leftOver
  rw [hsingle]
  by_cases henabled : P.enabled = true
  · rw [if_pos ⟨henabled, rfl⟩]
    by_cases hgreedy : 0 < idleCpus - (P.defaultCpus - P.myCpus) ∧ P.greedy = true
    · rw [if_pos hgreedy]
      dsimp only
      refine iff_of_false ?_ fun h => absurd (h henabled hgreedy.2) (not_le.mpr hgreedy.1)
      omega
    · rw [if_neg hgreedy]
      refine iff_of_true ?_ fun _ hg => not_lt.mp fun h => hgreedy ⟨h, hg⟩
      dsimp only
      omega
  · rw [if_neg fun h => henabled h.1]
    exact iff_of_true rfl fun h => absurd h henabled

theorem Op.exec_moves_iff (hsingle : P.single = false) (op : Op) :
    Moves idleCpus P (op.exec idleCpus P) ↔ op.Keeps idleCpus P := by
  cases op with
  | pool op => exact iff_of_true (op.exec_moves hsingle) trivial
  | borrow => exact iff_of_true (borrowCpus_moves intMax) trivial
  | setMaxParallelism max =>
    refine iff_of_true ?_ trivial
    unfold Op.exec lewiSetMaxParallelism
    dsimp only
    split
    · exact release_moves max
    · rfl
  | unsetMaxParallelism => exact iff_of_true rfl trivial
  | enableDlb => exact iff_of_true rfl trivial
  | disableDlb => exact disableDlb_moves_iff hsingle

theorem Op.exec_static (hsingle : P.single = false) (op : Op) :
    (op.exec idleCpus P).2.defaultCpus = P.defaultCpus ∧ (op.exec idleCpus P).2.single = false := by
  cases op with
  | pool op =>
    cases op with
    | intoBlockingCall =>
      unfold Op.exec PoolOp.exec lewiIntoBlockingCall
      dsimp only
      split
      · exact ⟨rfl, hsingle⟩
      · exact ⟨rfl, hsingle⟩
    | outOfBlockingCall =>
      unfold Op.exec PoolOp.exec lewiOutOfBlockingCall
      dsimp only
      split
      · exact ⟨rfl, hsingle⟩
      · exact ⟨rfl, hsingle⟩
    | lend => exact ⟨rfl, hsingle⟩
    | reclaim => exact ⟨rfl, hsingle⟩
    | borrowCpus maxResources =>
      unfold Op.exec PoolOp.exec lewiBorrowCpus
      dsimp only
      split
      · exact ⟨rfl, hsingle⟩
      · exact ⟨rfl, hsingle⟩
  | borrow =>
    unfold Op.exec lewiBorrow lewiBorrowCpus
    dsimp only
    split
    · exact ⟨rfl, hsingle⟩
    · exact ⟨rfl, hsingle⟩
  | setMaxParallelism max =>
    unfold Op.exec lewiSetMaxParallelism
    dsimp only
    split
    · exact ⟨rfl, hsingle⟩
    · exact ⟨rfl, hsingle⟩
  | unsetMaxParallelism => exact ⟨rfl, hsingle⟩
  | enableDlb => exact ⟨rfl, rfl⟩
  | disableDlb =>
    unfold Op.exec lewiDisableDlb
    dsimp only
    split
    · exact ⟨rfl, hsingle⟩
    · exact ⟨rfl, hsingle⟩

/-! ## Runs -/

/-- A process initializes LeWI, or does another operation. -/
inductive Event (π : Type*) where
  | init (p : π) (lewiNcpus : ℤ) (greedy keepCpuOnBlockingCall : Bool)
  | op (p : π) (op : Op)

namespace Node

variable {π : Type*} [DecidableEq π] {n : Node π} {p : π}

/-- The node after an event. A process initializes LeWI once, and only then does operations. -/
def next (n : Node π) : Event π → Node π
  | .init p lewiNcpus greedy keepCpuOnBlockingCall =>
    if p ∈ n.attached then n
    else
      (n.configShMem p).write p
        ((n.configShMem p).idleCpus, (n.process p).init lewiNcpus greedy keepCpuOnBlockingCall)
  | .op p op => if p ∈ n.attached then n.write p (op.exec n.idleCpus (n.process p)) else n

def Keeps (n : Node π) : Event π → Prop
  | .init _ _ _ _ => True
  | .op p op => p ∈ n.attached → op.Keeps n.idleCpus (n.process p)

instance (e : Event π) : Decidable (n.Keeps e) := by
  unfold Keeps
  split <;> infer_instance

theorem write_conserved_iff (hp : p ∈ n.attached) (h : n.Conserved) (hdefault : r.2.defaultCpus = (n.process p).defaultCpus) :
    (n.write p r).Conserved ↔ Moves n.idleCpus (n.process p) r := by
  have hmy := Lib.sum_update_sub n.attached n.process Process.myCpus r.2 hp
  have hdef := Lib.sum_update_sub n.attached n.process Process.defaultCpus r.2 hp
  unfold Conserved at h ⊢
  unfold write Moves
  dsimp only
  constructor
  · intro h'
    omega
  · intro h'
    omega

theorem init_conserved (hp : p ∉ n.attached) (h : n.Conserved) (lewiNcpus : ℤ) (greedy keepCpu : Bool) :
    ((n.configShMem p).write p
      ((n.configShMem p).idleCpus, (n.process p).init lewiNcpus greedy keepCpu)).Conserved := by
  have hsum : ∀ g : Process → ℤ, ∀ P : Process,
      ∑ q ∈ insert p n.attached, g (Function.update n.process p P q) = g P + ∑ q ∈ n.attached, g (n.process q) := by
    intro g P
    rw [Finset.sum_insert hp, Function.update_self]
    congr 1
    refine Finset.sum_congr rfl fun q hq => ?_
    have hqp : q ≠ p := fun hqp => hp (hqp ▸ hq)
    rw [Function.update_of_ne hqp]
  have hidle : (n.configShMem p).idleCpus = n.idleCpus := by
    unfold configShMem
    dsimp only
    split
    · rename_i h0
      unfold Conserved at h
      rw [Finset.card_eq_zero.mp h0, Finset.sum_empty, Finset.sum_empty] at h
      omega
    · rfl
  unfold Conserved at h ⊢
  unfold write
  rw [hidle]
  unfold configShMem Process.init
  rw [hsum Process.myCpus, hsum Process.defaultCpus]
  dsimp only
  omega

/-- No process has `single` set. -/
def NoSingle (n : Node π) : Prop := ∀ p, (n.process p).single = false

theorem write_noSingle (h : n.NoSingle) (hr : r.2.single = false) : (n.write p r).NoSingle := by
  intro q
  unfold write
  dsimp only
  by_cases hq : q = p
  · rw [hq, Function.update_self]
    exact hr
  · rw [Function.update_of_ne hq]
    exact h q

theorem next_noSingle (h : n.NoSingle) (e : Event π) : (n.next e).NoSingle := by
  cases e with
  | init p lewiNcpus greedy keepCpu =>
    unfold next
    dsimp only
    split
    · exact h
    · have hconfig : (n.configShMem p).NoSingle := h
      exact write_noSingle hconfig (h p)
  | op p op =>
    unfold next
    dsimp only
    split
    · exact write_noSingle h (op.exec_static (h p)).2
    · exact h

theorem next_conserved_iff (hsingle : n.NoSingle) (h : n.Conserved) (e : Event π) :
    (n.next e).Conserved ↔ n.Keeps e := by
  cases e with
  | init p lewiNcpus greedy keepCpu =>
    refine iff_of_true ?_ trivial
    unfold next
    dsimp only
    split
    · exact h
    · rename_i hp
      exact init_conserved hp h lewiNcpus greedy keepCpu
  | op p op =>
    unfold next Keeps
    dsimp only
    split
    · rename_i hp
      rw [write_conserved_iff hp h (op.exec_static (hsingle p)).1, op.exec_moves_iff (hsingle p)]
      exact ⟨fun h _ => h, fun h => h hp⟩
    · rename_i hp
      exact iff_of_true h fun h' => absurd h' hp

/-- **Classic LeWI conserves CPUs** in a run of whole operations exactly if no greedy process is disabled while CPUs are
idle beyond its default ones. -/
theorem sequential_conserved_iff (events : List (Event π)) :
    Lib.Along next (fun n e => (n.next e).Conserved) {} events ↔ Lib.Along next Keeps {} events := by
  refine Lib.Along.congr (I := fun n => n.NoSingle ∧ n.Conserved) (R := fun _ => True) ?_ ?_ _ events
    ⟨fun _ => rfl, rfl⟩ fun _ _ => trivial
  · intro n e ⟨hsingle, h⟩ _ hkeeps
    exact ⟨next_noSingle hsingle e, (next_conserved_iff hsingle h e).mpr hkeeps⟩
  · intro n e ⟨hsingle, h⟩ _
    exact next_conserved_iff hsingle h e

/-- Two processes of four CPUs. One lends three of them, and the other one, which is greedy, is disabled: the three CPUs
are lost. -/
theorem sequential_conserved_lost : ¬ Lib.Along next (fun n e => (n.next e).Conserved) ({} : Node Bool)
    [.init true 4 false false, .init false 4 true false, .op true (.pool .lend), .op false .disableDlb] := by
  decide

end Node

end Dlb.Lewi

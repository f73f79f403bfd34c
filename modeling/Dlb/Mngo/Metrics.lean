import Dlb.Support.QueueTSpec
import Mathlib.Data.Nat.Cast.Defs
import Mathlib.Algebra.GroupWithZero.Nat

/-!
# The history of metrics

`mngo_metrics.c` keeps the last metrics in a queue that overwrites, and reduces them to their tendency: an average in
which the newest of `n` metrics counts `n` times and the oldest once.

A queue that overwrites is a window as long as nobody pushes to it at capacity. Such a push leaves the tail where it
is: the queue has one element more than it has slots, and the iterator, which stops at the tail, meets it too early.
-/

namespace Dlb.Mngo

open QueueT

variable {α F : Type*} [Zero F] [Add F] [Mul F] [Div F] [NatCast F]

/-- The metrics of `mngo_talp_metrics_t` that the reduction reads. -/
structure MngoTalpMetrics (F : Type*) where
  selfMpiParallelEfficiency : F
  sharedMpiParallelEfficiency : F
  globalMpiParallelEfficiency : F

/-- `mngo_reduced_metric_t`. -/
structure MngoReducedMetric (F : Type*) where
  selfPe : F
  sharedPe : F
  globalPe : F

/-- `mngo_reduce_metric_history_t`. -/
structure MngoReduceMetricHistory (F : Type*) where
  coeficientWeight : ℕ
  coeficientSum : ℕ
  selfMpiParallelEfficiency : F
  sharedMpiParallelEfficiency : F
  globalMpiParallelEfficiency : F

def historyWindow : ℕ := 256

def historyInit (malloc : ℕ → ℕ → α) : Option (QueueT α) := QueueT.init malloc historyWindow none .overwrite

def historyPush (malloc : ℕ → ℕ → α) (history : QueueT α) (metrics : α) : QueueT α :=
  (history.pushHead malloc metrics).1

def historyEmplace (malloc : ℕ → ℕ → α) (history : QueueT α) : QueueT α × Option ℕ := history.emplaceHead malloc

/-- `reduce_metric_history_op`; `view` reads the metrics of an element. -/
def reduceMetricHistoryOp (view : α → MngoTalpMetrics F) (acc : MngoReduceMetricHistory F) (curr : α) :
    MngoReduceMetricHistory F :=
  let metrics := view curr
  { selfMpiParallelEfficiency :=
      acc.selfMpiParallelEfficiency + metrics.selfMpiParallelEfficiency * (acc.coeficientWeight : F)
    sharedMpiParallelEfficiency :=
      acc.sharedMpiParallelEfficiency + metrics.sharedMpiParallelEfficiency * (acc.coeficientWeight : F)
    globalMpiParallelEfficiency :=
      acc.globalMpiParallelEfficiency + metrics.globalMpiParallelEfficiency * (acc.coeficientWeight : F)
    coeficientSum := addU32 acc.coeficientSum acc.coeficientWeight
    coeficientWeight := subU32 acc.coeficientWeight 1 }

/-- `mngo_metrics__history_tendency`, for at most `fuel` calls of the iterator. -/
def historyTendency (view : α → MngoTalpMetrics F) (fuel : ℕ) (history : QueueT α) : Option (MngoReducedMetric F) :=
  let historicalMetrics : MngoReduceMetricHistory F :=
    { coeficientWeight := history.getSize
      coeficientSum := 0
      selfMpiParallelEfficiency := 0
      sharedMpiParallelEfficiency := 0
      globalMpiParallelEfficiency := 0 }
  (history.foreach (reduceMetricHistoryOp view) fuel history.intoHead2tailIter historicalMetrics).map fun acc =>
    { selfPe := acc.selfMpiParallelEfficiency / (acc.coeficientSum : F)
      sharedPe := acc.sharedMpiParallelEfficiency / (acc.coeficientSum : F)
      globalPe := acc.globalMpiParallelEfficiency / (acc.coeficientSum : F) }

/-! ## Weights -/

/-- The weights of a window of metrics, the newest first: the newest of `n` has weight `n`, the oldest `1`. -/
def weighted : List α → List (α × ℕ)
  | [] => []
  | m :: d => (m, d.length + 1) :: weighted d

/-- The sum of the weights, an `unsigned int`. -/
def weightSum (d : List α) : ℕ := (weighted d).foldl (fun s m => addU32 s m.2) 0

/-- The weighted sum of a metric, added up from the newest on. -/
def weightedSum (metric : α → F) (d : List α) : F := (weighted d).foldl (fun s m => s + metric m.1 * (m.2 : F)) 0

/-- The weighted averages of the metrics of a window. -/
def tendency (view : α → MngoTalpMetrics F) (d : List α) : MngoReducedMetric F where
  selfPe := weightedSum (fun m => (view m).selfMpiParallelEfficiency) d / (weightSum d : F)
  sharedPe := weightedSum (fun m => (view m).sharedMpiParallelEfficiency) d / (weightSum d : F)
  globalPe := weightedSum (fun m => (view m).globalMpiParallelEfficiency) d / (weightSum d : F)

omit [Zero F] [Div F] in
theorem reduce_weighted (view : α → MngoTalpMetrics F) (d : List α) (acc : MngoReduceMetricHistory F)
    (hw : acc.coeficientWeight = d.length) (hlt : d.length < 2 ^ 32) :
    d.foldl (reduceMetricHistoryOp view) acc =
      { coeficientWeight := 0
        coeficientSum := (weighted d).foldl (fun s m => addU32 s m.2) acc.coeficientSum
        selfMpiParallelEfficiency := (weighted d).foldl
          (fun s m => s + (view m.1).selfMpiParallelEfficiency * (m.2 : F)) acc.selfMpiParallelEfficiency
        sharedMpiParallelEfficiency := (weighted d).foldl
          (fun s m => s + (view m.1).sharedMpiParallelEfficiency * (m.2 : F)) acc.sharedMpiParallelEfficiency
        globalMpiParallelEfficiency := (weighted d).foldl
          (fun s m => s + (view m.1).globalMpiParallelEfficiency * (m.2 : F)) acc.globalMpiParallelEfficiency } := by
  induction d generalizing acc with
  | nil =>
    cases acc
    simpa [weighted] using hw
  | cons m d ih =>
    simp only [List.length_cons] at hw hlt
    have hnext : (reduceMetricHistoryOp view acc m).coeficientWeight = d.length := by
      simp only [reduceMetricHistoryOp, hw]
      rw [subU32_of_le (by omega) hlt, Nat.add_sub_cancel]
    rw [List.foldl_cons, ih _ hnext (by omega)]
    simp only [reduceMetricHistoryOp, hw, weighted, List.foldl_cons]

/-! ## Windows -/

/-- A queue that is the window `d` of metrics, the newest first. -/
structure SlidingWindow (view : α → MngoTalpMetrics F) (q : QueueT α) (d : List α) : Prop where
  bounded : q.getSize ≤ q.getCapacity
  size : q.getSize = d.length
  yields : Yields q q.intoHead2tailIter d
  weighs : ∀ fuel, d.length < fuel → historyTendency view fuel q = some (tendency view d)

variable {view : α → MngoTalpMetrics F} (malloc : ℕ → ℕ → α) {q : QueueT α} {d : List α} {n : ℕ}

theorem slidingWindow_of_holds {limit : Limit} (h : Holds limit q d) : SlidingWindow view q d := by
  have hyields : Yields q q.intoHead2tailIter d := h.items ▸ h.ok.yields_items
  refine ⟨h.ok.size, h.size, hyields, fun fuel hf => ?_⟩
  have hlt : d.length < 2 ^ 32 := by
    have hsize := h.ok.size
    have hbound := h.ok.bound
    have hlength : q.elements = d.length := h.size
    omega
  rw [historyTendency, hyields.foreach _ _ hf, reduce_weighted view d _ h.size hlt]
  rfl

theorem push_at_capacity (h : Holds (.window n) q d) (hn : 1 ≤ n) {op : Op α} (hp : op.isPush)
    (hfull : q.isAtCapacity = true) :
    (q.exec malloc op).1.getSize ≠ (Deque.exec (.window n) d op).1.length := by
  have hlimit := h.limit
  have hlength : q.elements = d.length := h.size
  have hcap : q.elements = q.capacity := by simpa [isAtCapacity] using hfull
  cases hkind : q.allocator with
  | fixed => simp [limitOf, hkind] at hlimit
  | realloc => simp [limitOf, hkind] at hlimit
  | overwrite =>
    obtain rfl : q.capacity = n := by simpa [limitOf, hkind] using hlimit
    have hd : d.length = q.capacity := by omega
    have hcheck : q.checkCapacity malloc = some q := by simp [checkCapacity, hfull, hkind]
    have hqueue : (q.exec malloc op).1.getSize = addU32 q.capacity 1 := by
      cases op <;> simp_all [exec, emplaceHead_eq, emplaceTail_eq, pushHead_eq, pushTail_eq, grownHead, grownTail,
        write, getSize, Op.isPush]
    have hdeque : (Deque.exec (.window q.capacity) d op).1.length = q.capacity := by
      cases op <;> simp_all [Deque.exec, Deque.pushHead, Deque.pushTail, Op.isPush]
    rw [hqueue, hdeque, addU32]
    omega

theorem never_full (h : Holds (.window n) q d) (hn : 1 ≤ n) (ops : List (Op α))
    (hsize : ∀ k, (q.run malloc (ops.take k)).1.getSize = (Deque.run (.window n) d (ops.take k)).1.length) :
    ∀ k op, ops[k]? = some op → op.isPush → (q.run malloc (ops.take k)).1.isAtCapacity = false := by
  induction ops generalizing q d with
  | nil =>
    intro k op hk
    simp at hk
  | cons op ops ih =>
    have hfirst : op.isPush → q.isAtCapacity = false := by
      intro hp
      by_contra hfull
      exact push_at_capacity malloc h hn hp (by simpa using hfull) (hsize 1)
    have hnext := (h.exec malloc op (fun _ hp => hfirst hp) (fun ha => by cases h.unbounded ha)).1
    intro k op' hk hp
    cases k with
    | zero =>
      obtain rfl : op = op' := by simpa using hk
      exact hfirst hp
    | succ k => exact ih hnext (fun k => hsize (k + 1)) k op' hk hp

/-- **A queue that overwrites is a window** in every state of a run exactly when the run never pushes at capacity. -/
theorem sliding_window_iff {capacity : ℕ} {ptr : Option (ℕ → α)} (h1 : 1 ≤ capacity) (hc : capacity < 2 ^ 32)
    (hq : init malloc capacity ptr .overwrite = some q) (ops : List (Op α)) :
    (∀ k, SlidingWindow view (q.run malloc (ops.take k)).1 (Deque.run (.window capacity) [] (ops.take k)).1 ∧
        (q.run malloc (ops.take k)).2 = (Deque.run (.window capacity) [] (ops.take k)).2) ↔
      ∀ k op, ops[k]? = some op → op.isPush → (q.run malloc (ops.take k)).1.isAtCapacity = false := by
  have hinit := init_holds malloc hc hq
  constructor
  · intro hall
    exact never_full malloc hinit h1 ops fun k => (hall k).1.size
  · intro hfree k
    have hrun := hinit.run malloc (ops.take k)
      (fun j op hj _ hp => by
        have hjk : j < k := by
          by_contra hle
          rw [List.getElem?_take_eq_none (Nat.not_lt.mp hle)] at hj
          cases hj
        have hop : ops[j]? = some op := by simpa [List.getElem?_take, hjk] using hj
        rw [List.take_take, Nat.min_eq_left (Nat.le_of_lt hjk)]
        exact hfree j op hop hp)
      (fun hl => by cases hl)
    exact ⟨slidingWindow_of_holds hrun.1, hrun.2⟩


/-- A window of two that loses its oldest metric before the third one comes. -/
theorem sliding_window_two :
    let metrics (x : ℕ) : MngoTalpMetrics ℕ := ⟨x, x, x⟩
    let ops : List (Op ℕ) := [.pushHead 1, .emplaceHead 2, .takeTail, .pushHead 3]
    ∃ q, init (fun _ _ => 0) 2 none .overwrite = some q ∧
      SlidingWindow metrics (q.run (fun _ _ => 0) ops).1 [3, 2] := by
  intro metrics ops
  refine ⟨_, rfl, ?_⟩
  have hinit : init (fun _ _ => 0) 2 none .overwrite = some _ := rfl
  refine ((sliding_window_iff (fun _ _ => 0) (by decide) (by decide) hinit ops).mpr ?_ 4).1
  rintro (_ | _ | _ | _ | k) op hk hp
  all_goals simp only [ops, List.getElem?_cons_zero, List.getElem?_cons_succ, List.getElem?_nil] at hk
  · rfl
  · rfl
  · cases hk
    cases hp
  · rfl
  · cases hk

/-- Three pushes to a window of two: the size is three, and the iterator yields one metric. -/
theorem window_overrun :
    let metrics (x : ℕ) : MngoTalpMetrics ℕ := ⟨x, x, x⟩
    let ops : List (Op ℕ) := [.pushHead 1, .pushHead 2, .pushHead 3]
    ∃ q, init (fun _ _ => 0) 2 none .overwrite = some q ∧ (q.run (fun _ _ => 0) ops).1.getSize = 3 ∧
      Yields (q.run (fun _ _ => 0) ops).1 (q.run (fun _ _ => 0) ops).1.intoHead2tailIter [3] ∧
      ¬SlidingWindow metrics (q.run (fun _ _ => 0) ops).1 (Deque.run (.window 2) [] ops).1 := by
  intro metrics ops
  refine ⟨_, rfl, by decide, ?_, fun h => ?_⟩
  · exact .next (by decide : _ = (some 0, ⟨true, 0, 0⟩)) (.done (by decide : _ = (none, ⟨true, 0, 0⟩)))
  · exact absurd h.bounded (by decide)

end Dlb.Mngo

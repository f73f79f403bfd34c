import Dlb.Lib.Mpi
import Dlb.Lib.Qsort
import Dlb.Talp.Shmem

/-!
# The node summary

At the end of an MPI program, process 0 of every node collects the times of the processes of its node into one record, whose
length depends on their number. These processes gather their records at rank 0, which records them one after the other.
Each sender describes its record by an MPI type of its own; rank 0 allocates and walks the receive buffer by the length of
its own record.

* `load_of_cells`: a record is read back where all its values have arrived;
* `summaries_intact_iff`: all senders have the signature of rank 0, and all records arrive as they were built, exactly if
  all nodes have as many processes as the node of rank 0.
-/

namespace Dlb.Talp

open List Lib Lib.Mpi

/-! ## The records -/

/-- `talp_region_t`, less the CPUs. -/
structure TimedRegion extends TalpRegion where
  mpiTime : ℤ := 0
  usefulTime : ℤ := 0

/-- `process_in_node_record_t` -/
structure ProcessInNodeRecord where
  pid : Pid
  mpiTime : ℤ
  usefulTime : ℤ
deriving DecidableEq

/-- `node_record_t` -/
structure NodeRecord where
  nodeId : ℕ
  avgUsefulTime : ℤ
  avgMpiTime : ℤ
  maxUsefulTime : ℤ
  maxMpiTime : ℤ
  processes : List ProcessInNodeRecord
deriving DecidableEq

def NodeRecord.nelems (r : NodeRecord) : ℕ := r.processes.length

/-- What `talp_record_node_summary` finds in a node: the number of CPUs, and the slots of the shared memory in use. -/
structure NodeShmem where
  systemSize : ℕ
  regions : List TimedRegion

def TimedRegion.hasName (name : List Char) (r : TimedRegion) : Bool :=
  r.pid ≠ 0 ∧ r.name.take (monitorNameMax - 1) = name.take (monitorNameMax - 1)

/-- `shmem_talp__get_regionlist` -/
def shmemTalpGetRegionlist (qsort : Qsort) (regions : List TimedRegion) (maxLen : ℕ) (name : List Char) :
    List TimedRegion :=
  qsort.sort (fun elem1 elem2 => (elem1.pid : ℤ) - elem2.pid) ((regions.filter (TimedRegion.hasName name)).take maxLen)

structure NodeTotals where
  usefulTime : ℤ := 0
  mpiTime : ℤ := 0
  maxUsefulTime : ℤ := 0
  maxMpiTime : ℤ := 0

def NodeTotals.add (t : NodeTotals) (p : ProcessInNodeRecord) : NodeTotals where
  usefulTime := t.usefulTime + p.usefulTime
  mpiTime := t.mpiTime + p.mpiTime
  maxUsefulTime := max p.usefulTime t.maxUsefulTime
  maxMpiTime := max p.mpiTime t.maxMpiTime

/-- The summary of a node with at least one process. -/
def nodeSummary (qsort : Qsort) (globalName : List Char) (nodeId : ℕ) (node : NodeShmem) : NodeRecord :=
  let regionList := shmemTalpGetRegionlist qsort node.regions node.systemSize globalName
  let processes := regionList.map fun r => ⟨r.pid, r.mpiTime, r.usefulTime⟩
  let totals := processes.foldl NodeTotals.add {}
  { nodeId := nodeId
    avgUsefulTime := totals.usefulTime.tdiv processes.length
    avgMpiTime := totals.mpiTime.tdiv processes.length
    maxUsefulTime := totals.maxUsefulTime
    maxMpiTime := totals.maxMpiTime
    processes := processes }

/-! ## Types and memory -/

/-- The size of a record: `node_record_t` takes 40 bytes, and each `process_in_node_record_t` 24. -/
def nodeSummarySize (nelems : ℕ) : ℕ := 40 + 24 * nelems

/-- The MPI type of a `process_in_node_record_t`. -/
def mpiProcessInfoType : Datatype :=
  (Datatype.createStruct [⟨1, 0, .basic (.integer 4) 4⟩, ⟨1, 8, .basic .int64 8⟩, ⟨1, 16, .basic .int64 8⟩]).createResized 24

/-- The MPI type of a `node_record_t`. -/
def mpiNodeRecordType (nelems : ℕ) : Datatype :=
  (Datatype.createStruct [⟨1, 0, .basic .int 4⟩, ⟨1, 4, .basic .int 4⟩, ⟨1, 8, .basic .int64 8⟩, ⟨1, 16, .basic .int64 8⟩,
    ⟨1, 24, .basic .int64 8⟩, ⟨1, 32, .basic .int64 8⟩, ⟨nelems, 40, mpiProcessInfoType⟩]).createResized
      (nodeSummarySize nelems)

/-- The values of a `process_in_node_record_t` in memory. -/
def ProcessInNodeRecord.cell (p : ProcessInNodeRecord) : ℕ → Option ℤ
  | 0 => some p.pid
  | 8 => some p.mpiTime
  | 16 => some p.usefulTime
  | _ => none

namespace NodeRecord

def header (r : NodeRecord) : ℕ → Option ℤ
  | 0 => some r.nodeId
  | 4 => some r.nelems
  | 8 => some r.avgUsefulTime
  | 16 => some r.avgMpiTime
  | 24 => some r.maxUsefulTime
  | 32 => some r.maxMpiTime
  | _ => none

def store (r : NodeRecord) : Buffer where
  size := nodeSummarySize r.nelems
  cell o := if o < 40 then r.header o else r.processes[(o - 40) / 24]?.bind fun p => p.cell ((o - 40) % 24)

/-- The process at `base`. -/
def loadProcess (b : Buffer) (base : ℕ) : Option ProcessInNodeRecord := do
  let pid ← b.cell base
  let mpiTime ← b.cell (base + 8)
  let usefulTime ← b.cell (base + 16)
  return ⟨pid.toNat, mpiTime, usefulTime⟩

/-- The record at `base`, as `talp_output_record_node` copies it; `none` if it is not within the buffer. -/
def load (b : Buffer) (base : ℕ) : Option NodeRecord := do
  if b.size < base + nodeSummarySize 0 then none
  let nelems ← b.cell (base + 4)
  if b.size < base + nodeSummarySize nelems.toNat then none
  let nodeId ← b.cell base
  let avgUsefulTime ← b.cell (base + 8)
  let avgMpiTime ← b.cell (base + 16)
  let maxUsefulTime ← b.cell (base + 24)
  let maxMpiTime ← b.cell (base + 32)
  let processes ← (range nelems.toNat).mapM fun k => loadProcess b (base + (40 + 24 * k))
  return ⟨nodeId.toNat, avgUsefulTime, avgMpiTime, maxUsefulTime, maxMpiTime, processes⟩

end NodeRecord

section Gather

variable (gather : Datatype → List Message → Buffer → Buffer) (debug : Bool) (summary : ℕ → NodeRecord) (numNodes : ℕ)

def summaryMessages : List Message :=
  (range numNodes).map fun i => ⟨mpiNodeRecordType (summary i).nelems, (summary i).store⟩

/-- The receive buffer of rank 0, which is the process 0 of node 0, after the gather. -/
def summaryRecvbuf : Buffer :=
  gather (mpiNodeRecordType (summary 0).nelems) (summaryMessages summary numNodes)
    ⟨numNodes * nodeSummarySize (summary 0).nelems, fun _ => none⟩

/-- `talp_record_node_summary` at rank 0: the list of the node records, the last one first. -/
def talpRecordNodeSummary : Option (List NodeRecord) := do
  let recvbuf := summaryRecvbuf gather summary numNodes
  let records ← (range numNodes).mapM fun nodeId => do
    let nodeRecord ← NodeRecord.load recvbuf (nodeSummarySize (summary 0).nelems * nodeId)
    ensure debug (nodeId = nodeRecord.nodeId)
    return nodeRecord
  return records.reverse

/-- The requirement of the gather is met, and the records are those that the nodes have built. -/
def SummariesIntact : Prop :=
  (∀ send ∈ summaryMessages summary numNodes, send.type.signature = (mpiNodeRecordType (summary 0).nelems).signature) ∧
    talpRecordNodeSummary gather debug summary numNodes = some ((range numNodes).map summary).reverse

end Gather

/-! ## Reading a record back -/

theorem mapM_range {α : Type*} : ∀ {l : List α} {f : ℕ → Option α} (_ : ∀ k x, l[k]? = some x → f k = some x),
    (range l.length).mapM f = some l
  | [], _, _ => rfl
  | x :: l, f, h => by
    have hrest : (range l.length).mapM (fun k => f (k + 1)) = some l := mapM_range fun k y hy => h (k + 1) y hy
    rw [length_cons, range_succ_eq_map, mapM_cons, h 0 x rfl, mapM_map]
    exact congrArg (fun o => o.bind fun l => some (x :: l)) hrest

theorem mpiNodeRecordType_typemap (n : ℕ) : (mpiNodeRecordType n).typemap =
    [(.int, 0), (.int, 4), (.int64, 8), (.int64, 16), (.int64, 24), (.int64, 32)] ++
      (range n).flatMap fun k => [(.integer 4, 40 + 24 * k), (.int64, 40 + (24 * k + 8)), (.int64, 40 + (24 * k + 16))] := by
  simp [mpiNodeRecordType, mpiProcessInfoType, Datatype.createResized, Datatype.createStruct, Datatype.entries,
    Datatype.basic]

theorem mem_mpiNodeRecordType {n k : ℕ} (hk : k < n) {e : Basic × ℕ}
    (he : e ∈ [(Basic.integer 4, 40 + 24 * k), (.int64, 40 + (24 * k + 8)), (.int64, 40 + (24 * k + 16))]) :
    e ∈ (mpiNodeRecordType n).typemap := by
  rw [mpiNodeRecordType_typemap]
  exact mem_append_right _ (mem_flatMap.mpr ⟨k, mem_range.mpr hk, he⟩)

theorem mpiNodeRecordType_signature_length (n : ℕ) : (mpiNodeRecordType n).signature.length = 6 + 3 * n := by
  rw [Datatype.signature, length_map, mpiNodeRecordType_typemap, length_append, length_flatMap]
  simp only [length_cons, length_nil, map_const', length_range, sum_replicate_nat]
  omega

theorem mpiNodeRecordType_apart (n : ℕ) : (mpiNodeRecordType n).Apart where
  nodup := by
    rw [mpiNodeRecordType_typemap, map_append, map_flatMap, nodup_append]
    refine ⟨by decide, ?_, ?_⟩
    · refine nodup_flatMap.mpr ⟨fun k _ => ?_, ?_⟩
      · simp
      · refine nodup_range.imp fun {j k} hne => ?_
        simp only [Function.onFun, disjoint_left, map_cons, map_nil, mem_cons, not_mem_nil,
          or_false]
        omega
    · simp only [map_cons, map_nil, mem_flatMap, mem_cons, not_mem_nil, or_false]
      rintro a ha b ⟨k, -, hb⟩
      omega
  lt_extent e he := by
    show e.2 < nodeSummarySize n
    rw [mpiNodeRecordType_typemap] at he
    unfold nodeSummarySize
    rcases mem_append.mp he with h | h
    · have hlt : ∀ e ∈ [(Basic.int, 0), (.int, 4), (.int64, 8), (.int64, 16), (.int64, 24), (.int64, 32)], e.2 < 40 := by
        decide
      exact Nat.lt_of_lt_of_le (hlt e h) (Nat.le_add_right 40 _)
    · obtain ⟨k, hk, h⟩ := mem_flatMap.mp h
      have hk := mem_range.mp hk
      simp only [mem_cons, not_mem_nil, or_false] at h
      rcases h with rfl | rfl | rfl <;> dsimp only <;> omega

namespace NodeRecord

variable {r : NodeRecord} {b : Buffer} {base : ℕ}

theorem store_cell_process {k : ℕ} {p : ProcessInNodeRecord} (hp : r.processes[k]? = some p) {d : ℕ} (hd : d < 24) :
    r.store.cell (40 + (24 * k + d)) = p.cell d := by
  have hdiv : (40 + (24 * k + d) - 40) / 24 = k := by omega
  have hmod : (40 + (24 * k + d) - 40) % 24 = d := by omega
  simp only [store, hdiv, hmod, hp, Option.bind_some]
  exact if_neg (by omega)

theorem load_of_cells (hcells : ∀ e ∈ (mpiNodeRecordType r.nelems).typemap, b.cell (base + e.2) = r.store.cell e.2)
    (hsize : base + nodeSummarySize r.nelems ≤ b.size) : load b base = some r := by
  have hheader : ∀ e ∈ [(Basic.int, 0), (.int, 4), (.int64, 8), (.int64, 16), (.int64, 24), (.int64, 32)],
      b.cell (base + e.2) = r.header e.2 := fun e he => by
    refine (hcells e ?_).trans (if_pos ?_)
    · rw [mpiNodeRecordType_typemap]
      exact mem_append_left _ he
    · revert e
      decide
  have hprocess : ∀ k p, r.processes[k]? = some p → loadProcess b (base + (40 + 24 * k)) = some p := fun k p hp => by
    have hk : k < r.nelems := (List.getElem?_eq_some_iff.mp hp).1
    have hcell : ∀ e ∈ [(Basic.integer 4, 40 + 24 * k), (.int64, 40 + (24 * k + 8)), (.int64, 40 + (24 * k + 16))],
        b.cell (base + e.2) = r.store.cell e.2 := fun e he => hcells e (mem_mpiNodeRecordType hk he)
    have hpid : b.cell (base + (40 + 24 * k)) = p.cell 0 :=
      (hcell (.integer 4, 40 + 24 * k) (by simp)).trans (store_cell_process (d := 0) hp (by omega))
    have hmpi : b.cell (base + (40 + 24 * k) + 8) = p.cell 8 :=
      (hcell (.int64, 40 + (24 * k + 8)) (by simp)).trans (store_cell_process hp (by omega))
    have huseful : b.cell (base + (40 + 24 * k) + 16) = p.cell 16 :=
      (hcell (.int64, 40 + (24 * k + 16)) (by simp)).trans (store_cell_process hp (by omega))
    simp [loadProcess, hpid, hmpi, huseful, ProcessInNodeRecord.cell]
  have hzero : nodeSummarySize 0 ≤ nodeSummarySize r.nelems := by
    unfold nodeSummarySize
    omega
  have hnelems : b.cell (base + 4) = some (r.nelems : ℤ) := hheader (.int, 4) (by simp)
  have hread : (range r.nelems).mapM (fun k => loadProcess b (base + (40 + 24 * k))) = some r.processes :=
    mapM_range hprocess
  have h0 := hheader (.int, 0) (by simp)
  have h8 := hheader (.int64, 8) (by simp)
  have h16 := hheader (.int64, 16) (by simp)
  have h24 := hheader (.int64, 24) (by simp)
  have h32 := hheader (.int64, 32) (by simp)
  rw [Nat.add_zero] at h0
  simp only [load, hnelems, Option.bind_eq_bind, Option.bind_some, Int.toNat_natCast, if_neg (Nat.not_lt.mpr hsize),
    if_neg (Nat.not_lt.mpr (Nat.le_trans (Nat.add_le_add_left hzero base) hsize)), h0, h8, h16, h24, h32, header, hread]
  rfl

end NodeRecord

/-! ## The gather -/

section Intact

variable {gather : Datatype → List Message → Buffer → Buffer} {debug : Bool} {summary : ℕ → NodeRecord} {numNodes : ℕ}

theorem summaryMessages_getElem? {i : ℕ} (hi : i < numNodes) :
    (summaryMessages summary numNodes)[i]? = some ⟨mpiNodeRecordType (summary i).nelems, (summary i).store⟩ := by
  rw [summaryMessages, getElem?_map, getElem?_range hi]
  rfl

theorem load_summaryRecvbuf (hgather : IsGather gather) (hsame : ∀ i < numNodes, (summary i).nelems = (summary 0).nelems)
    {i : ℕ} (hi : i < numNodes) :
    NodeRecord.load (summaryRecvbuf gather summary numNodes) (nodeSummarySize (summary 0).nelems * i) =
      some (summary i) := by
  have hlength : (summaryMessages summary numNodes).length = numNodes := by
    rw [summaryMessages, length_map, length_range]
  have htypes : ∀ send ∈ summaryMessages summary numNodes, send.type = mpiNodeRecordType (summary 0).nelems := by
    intro send hsend
    obtain ⟨j, hj, rfl⟩ := mem_map.mp hsend
    exact congrArg mpiNodeRecordType (hsame j (mem_range.mp hj))
  have hroom : (summaryMessages summary numNodes).length * (mpiNodeRecordType (summary 0).nelems).extent ≤
      numNodes * nodeSummarySize (summary 0).nelems := by
    rw [hlength]
    exact Nat.le_refl _
  refine NodeRecord.load_of_cells (fun e he => ?_) ?_
  · rw [hsame i hi] at he
    exact hgather.same (mpiNodeRecordType_apart _) htypes hroom (summaryMessages_getElem? hi) he
  · rw [hsame i hi, summaryRecvbuf, hgather.size, Nat.mul_comm numNodes, ← Nat.mul_succ]
    exact Nat.mul_le_mul_left _ hi

theorem talpRecordNodeSummary_eq (hgather : IsGather gather)
    (hsame : ∀ i < numNodes, (summary i).nelems = (summary 0).nelems) (hids : ∀ i, (summary i).nodeId = i) :
    talpRecordNodeSummary gather debug summary numNodes = some ((range numNodes).map summary).reverse := by
  have hread : (range ((range numNodes).map summary).length).mapM (fun nodeId => do
      let nodeRecord ← NodeRecord.load (summaryRecvbuf gather summary numNodes)
        (nodeSummarySize (summary 0).nelems * nodeId)
      ensure debug (nodeId = nodeRecord.nodeId)
      return nodeRecord) = some ((range numNodes).map summary) := by
    refine mapM_range fun i r hr => ?_
    obtain ⟨hi, hr⟩ := List.getElem?_eq_some_iff.mp hr
    rw [getElem_map, getElem_range] at hr
    rw [length_map, length_range] at hi
    rw [← hr, load_summaryRecvbuf hgather hsame hi, Option.bind_eq_bind, Option.bind_some, ensure_of (hids i).symm]
    rfl
  rw [length_map, length_range] at hread
  rw [talpRecordNodeSummary, hread]
  rfl

theorem signatures_iff : (∀ send ∈ summaryMessages summary numNodes,
      send.type.signature = (mpiNodeRecordType (summary 0).nelems).signature) ↔
    ∀ i < numNodes, (summary i).nelems = (summary 0).nelems := by
  simp only [summaryMessages, forall_mem_map, mem_range]
  refine forall₂_congr fun i _ => ⟨fun h => ?_, fun h => by rw [h]⟩
  have hlength := congrArg length h
  rw [mpiNodeRecordType_signature_length, mpiNodeRecordType_signature_length] at hlength
  omega

end Intact

theorem nodeSummary_nelems (qsort : Qsort) (globalName : List Char) (nodeId : ℕ) (node : NodeShmem) :
    (nodeSummary qsort globalName nodeId node).nelems =
      min node.systemSize (node.regions.countP (TimedRegion.hasName globalName)) := by
  show ((qsort.sort _ _).map _).length = _
  rw [length_map, (qsort.perm _ _).length_eq, length_take, countP_eq_length_filter]

/-- **All nodes need as many processes as the first one.** -/
theorem summaries_intact_iff {gather : Datatype → List Message → Buffer → Buffer} (hgather : IsGather gather)
    (debug : Bool) (qsort : Qsort) (globalName : List Char) (node : ℕ → NodeShmem) (numNodes : ℕ) :
    SummariesIntact gather debug (fun i => nodeSummary qsort globalName i (node i)) numNodes ↔
      ∀ i < numNodes, min (node i).systemSize ((node i).regions.countP (TimedRegion.hasName globalName)) =
        min (node 0).systemSize ((node 0).regions.countP (TimedRegion.hasName globalName)) := by
  rw [SummariesIntact, signatures_iff]
  refine (and_iff_left_of_imp fun hsame => talpRecordNodeSummary_eq hgather hsame fun _ => rfl).trans ?_
  exact forall₂_congr fun i _ => by rw [nodeSummary_nelems, nodeSummary_nelems]

/-! ### Two nodes -/

def busyNode (processes : ℕ) : NodeShmem where
  systemSize := 4
  regions := (range processes).map fun i =>
    { name := "Global".toList, pid := 100 + i, mpiTime := i, usefulTime := 10 * (i : ℤ) }

/-- Two processes each. -/
theorem summaries_intact_iff_pairs :
    SummariesIntact Mpi.gather true (fun i => nodeSummary insertionQsort "Global".toList i (busyNode 2)) 2 :=
  (summaries_intact_iff gather_isGather true insertionQsort "Global".toList (fun _ => busyNode 2) 2).mpr fun _ _ => rfl

/-- One process in the node of rank 0, and two in the other one: the types do not match, and the records do not fit. -/
theorem summaries_differ :
    let summary := fun i => nodeSummary insertionQsort "Global".toList i (busyNode (i + 1))
    ¬SummariesIntact Mpi.gather true summary 2 ∧
      2 * nodeSummarySize (summary 0).nelems < nodeSummarySize (summary 0).nelems + nodeSummarySize (summary 1).nelems := by
  refine ⟨fun h => absurd (signatures_iff.mp h.1 1 (by decide)) ?_, ?_⟩
  · simp only [nodeSummary_nelems]
    decide
  · simp only [nodeSummary_nelems]
    decide

end Dlb.Talp

import Mathlib.Algebra.Group.Action.Defs
import Mathlib.Algebra.Order.BigOperators.Group.Finset
import Dlb.Cpuinfo.Departed

/-!
# The array of tasks

`get_tasks` allocates room for two tasks per CPU of the node, and `array_cpuinfo_task_t_push` relies on it. A call that
wants a CPU back from its guest pushes two tasks, and the loops over cores may come to the same CPU again. Along every
run in which no call comes back to a CPU that it has pushed a task for, to recall it or to lend it on, the array does not
overflow (`tasks_fit`); with SMT one acquisition can overflow it (`tasks_overflow`).
-/

namespace Dlb.Cpuinfo

open List Function

variable {S : System} {co : Caller} {p q : Pid} {d d1 : Shdata} {c x : ℕ} {i : CpuInfo} {due due' : ℕ → ℕ}

/-! ## Tasks for one CPU -/

def told (d : Shdata) (c : ℕ) : ℕ := (d.tasks.map (·.cpuid)).count c

theorem told_congr (h : d1.tasks = d.tasks) : told d1 x = told d x := by
  unfold told
  rw [h]

theorem told_append {new : List CpuinfoTask} (h : d1.tasks = d.tasks ++ new) (hnew : ∀ t ∈ new, t.cpuid = c) :
    told d1 x = told d x + if x = c then new.length else 0 := by
  have hmap : new.map (·.cpuid) = replicate new.length c :=
    eq_replicate_iff.mpr ⟨length_map _, fun e he => by
      obtain ⟨t, ht, rfl⟩ := mem_map.mp he
      exact hnew t ht⟩
  unfold told
  rw [h, map_append, count_append, hmap, count_replicate]
  simp only [beq_iff_eq, @eq_comm _ c x]

/-- The tasks are for CPUs of the node. A CPU has two tasks at most, when `due` more are pushed for it, and one if it is
idle, since its next guest is told too. -/
structure Room (S : System) (due : ℕ → ℕ) (d : Shdata) : Prop where
  table : InTable S d
  node : ∀ t ∈ d.tasks, t.cpuid < S.size
  told : ∀ x, told d x + due x ≤ 2
  idle : ∀ x, (d.nodeInfo x).guest = 0 → Cpuinfo.told d x = 0 ∨ Cpuinfo.told d x + due x ≤ 1

theorem Room.start (h : InTable S d) (hdue : ∀ x, due x ≤ 2) : Room S due { d with tasks := [] } where
  table := h
  node := nofun
  told x := by
    show 0 + due x ≤ 2
    have := hdue x
    omega
  idle _ _ := .inl rfl

theorem Room.mono (h : Room S due d) (hdue : ∀ x, due' x ≤ due x) : Room S due' d where
  table := h.table
  node := h.node
  told x := by
    have h1 := h.told x
    have h2 := hdue x
    omega
  idle x hx := by
    have h1 := h.idle x hx
    have h2 := hdue x
    omega

theorem Room.length_le (h : Room S due d) : d.tasks.length ≤ 2 * S.size := by
  have hmem : ∀ x ∈ (d.tasks.map (·.cpuid) : Multiset ℕ), x ∈ Finset.range S.size := by
    intro x hx
    obtain ⟨t, ht, rfl⟩ := mem_map.mp (Multiset.mem_coe.mp hx)
    exact Finset.mem_range.mpr (h.node t ht)
  calc d.tasks.length = Multiset.card (d.tasks.map (·.cpuid) : Multiset ℕ) := by
        rw [Multiset.coe_card, length_map]
    _ = ∑ x ∈ Finset.range S.size, Multiset.count x (d.tasks.map (·.cpuid) : Multiset ℕ) :=
        (Multiset.sum_count_eq_card hmem).symm
    _ ≤ (Finset.range S.size).card • 2 := by
        refine Finset.sum_le_card_nsmul _ _ _ fun x _ => ?_
        have hx := h.told x
        unfold Cpuinfo.told at hx
        rw [Multiset.coe_count]
        omega
    _ = 2 * S.size := by rw [Finset.card_range, smul_eq_mul, Nat.mul_comm]

/-! ## Changes -/

theorem Room.same (h : Room S due d) (htable : InTable S d1) (hguest : ∀ x, (d1.nodeInfo x).guest = (d.nodeInfo x).guest)
    (ht : d1.tasks = d.tasks) : Room S due d1 where
  table := htable
  node := ht ▸ h.node
  told x := by
    rw [told_congr ht]
    exact h.told x
  idle x := by
    rw [told_congr ht, hguest]
    exact h.idle x

theorem Room.congr (h : Room S due d) (hinfo : d1.nodeInfo = d.nodeInfo) (ht : d1.tasks = d.tasks) : Room S due d1 :=
  h.same (h.table.congr hinfo) (fun x => by rw [hinfo]) ht

theorem Room.cpu (h : Room S due d) (new : List CpuinfoTask) (hc : c < S.size)
    (hinfo : d1.nodeInfo = update d.nodeInfo c i) (ht : d1.tasks = d.tasks ++ new)
    (hnew : ∀ t ∈ new, t.cpuid = c) (htold : Cpuinfo.told d c + new.length + due c ≤ 2)
    (hidle : i.guest = 0 → Cpuinfo.told d c + new.length = 0 ∨ Cpuinfo.told d c + new.length + due c ≤ 1) :
    Room S due d1 where
  table := h.table.write hc hinfo
  node t hmem := by
    rw [ht] at hmem
    rcases mem_append.mp hmem with hold | hmem
    · exact h.node t hold
    · rw [hnew t hmem]
      exact hc
  told x := by
    rw [told_append ht hnew]
    split
    · rename_i hx
      rw [hx]
      exact htold
    · exact h.told x
  idle x := by
    rw [told_append ht hnew, hinfo]
    by_cases hx : x = c
    · rw [hx, if_pos rfl, update_self]
      exact hidle
    · rw [if_neg hx, update_of_ne hx]
      exact h.idle x

theorem Room.write (h : Room S due d) (hc : c < S.size) (hinfo : d1.nodeInfo = update d.nodeInfo c i)
    (ht : d1.tasks = d.tasks) (hidle : i.guest = 0 → Cpuinfo.told d c = 0 ∨ Cpuinfo.told d c + due c ≤ 1) :
    Room S due d1 :=
  h.cpu [] hc hinfo (ht.trans (append_nil _).symm) nofun (h.told c) hidle

theorem Room.enable (h : Room S due d) (hdue : due c ≤ 1) (hc : c < S.size) (hg : (d.nodeInfo c).guest = 0)
    (hinfo : d1.nodeInfo = update d.nodeInfo c i) (hi : i.guest ≠ 0)
    (ht : d1.tasks = d.tasks ++ [⟨.enableCpu, p, c⟩]) : Room S due d1 := by
  refine h.cpu _ hc hinfo ht (fun t hmem => ?_) ?_ fun hi0 => absurd hi0 hi
  · rw [mem_singleton.mp hmem]
  · have hidle := h.idle c hg
    rw [length_singleton]
    omega

theorem Room.recall (h : Room S due d) (hdue : due c = 0) (hc : c < S.size) (htold : Cpuinfo.told d c = 0)
    (hinfo : d1.nodeInfo = update d.nodeInfo c i) (hi : i.guest ≠ 0)
    (ht : d1.tasks = d.tasks ++ [⟨.disableCpu, p, c⟩, ⟨.enableCpu, q, c⟩]) : Room S due d1 := by
  refine h.cpu _ hc hinfo ht (fun t hmem => ?_) ?_ fun hi0 => absurd hi0 hi
  · rcases mem_pair.mp hmem with rfl | rfl
    · rfl
    · rfl
  · rw [htold, hdue, length_cons, length_singleton]

theorem Room.disable (h : Room S due d) (hc : c < S.size) (hdue : due' c = 0) (hle : ∀ x, x ≠ c → due' x ≤ due x)
    (htold : due c = 1) : Room S due' (d.push .disableCpu p c) := by
  have hle' : ∀ x, due' x ≤ due x := fun x => by
    by_cases hx : x = c
    · rw [hx, hdue]
      exact Nat.zero_le _
    · exact hle x hx
  have hc2 := h.told c
  refine (h.mono hle').cpu (i := d.nodeInfo c) _ hc (update_eq_self c d.nodeInfo).symm rfl (fun t hmem => ?_) ?_
    fun hg => ?_
  · rw [mem_singleton.mp hmem]
  · rw [hdue, length_singleton]
    omega
  · have hidle := h.idle c hg
    rw [hdue, length_singleton]
    omega

/-! ## Operations on one CPU -/

section Ops

/-- The process does not want a CPU back that it has pushed a task for. -/
def RecallsOnce (pid : Pid) (d : Shdata) (cpuid : ℕ) : Prop :=
  (d.nodeInfo cpuid).owner = pid → (d.nodeInfo cpuid).guest ≠ pid → (d.nodeInfo cpuid).guest ≠ 0 → told d cpuid = 0

/-- The process does not leave a CPU that it has pushed a task for. -/
def LeavesOnce (pid : Pid) (d : Shdata) (cpuid : ℕ) : Prop := (d.nodeInfo cpuid).guest = pid → told d cpuid = 0

instance : Decidable (RecallsOnce q d c) := by
  unfold RecallsOnce
  infer_instance

instance : Decidable (LeavesOnce q d c) := by
  unfold LeavesOnce
  infer_instance

theorem Shdata.recall_tasks {d2 : Shdata} (ht : d2.tasks = d.tasks) : (d2.recall q c).tasks =
    d.tasks ++ [⟨.disableCpu, (d2.nodeInfo c).guest, c⟩, ⟨.enableCpu, q, c⟩] := by
  unfold Shdata.recall Shdata.push
  rw [ht, append_assoc, singleton_append]

theorem reclaimCpu_room (h : Room S due d) (hq0 : q ≠ 0) (hdue : due c = 0) (honce : RecallsOnce q d c) :
    Room S due (reclaimCpu q d c).1 := by
  unfold reclaimCpu
  dsimp only
  split
  · rename_i ho
    have hc := h.table.lt_of_owner (ho ▸ hq0)
    split
    · rename_i hg
      exact h.write hc rfl rfl fun hg0 => absurd (hg.symm.trans hg0) hq0
    split
    · rename_i hg
      exact h.enable (p := q) (hdue.trans_le (Nat.zero_le 1)) hc hg rfl hq0 rfl
    · rename_i hgq hg0
      exact h.recall hdue hc (honce ho hgq hg0) rfl hg0 (Shdata.recall_tasks rfl)
  · exact h

theorem noteOccupied_room (h : Room S due d) : Room S due (noteOccupied S d c) := by
  refine h.congr ?_ noteOccupied_tasks
  unfold noteOccupied
  split
  · rfl
  · rfl

theorem noteOccupiedOwned_room (h : Room S due d) : Room S due (noteOccupiedOwned S d c) :=
  h.congr noteOccupiedOwned_info noteOccupiedOwned_tasks

theorem set_guest (hi : i.guest = (d.nodeInfo c).guest) : ((d.set c i).nodeInfo x).guest = (d.nodeInfo x).guest := by
  show (update d.nodeInfo c i x).guest = _
  by_cases hx : x = c
  · rw [hx, update_self, hi]
  · rw [update_of_ne hx]

theorem Room.requests (h : Room S due d) (requests : Queue Pid) :
    Room S due (d.set c { d.nodeInfo c with requests := requests }) :=
  h.same (h.table.setRequests requests) (fun _ => set_guest rfl) rfl

theorem acquireCpu_room (h : Room S due d) (hq0 : q ≠ 0) (hdue : due c = 0) (honce : RecallsOnce q d c) :
    Room S due (acquireCpu S q d c).1 := by
  have hle : due c ≤ 1 := hdue.trans_le (Nat.zero_le 1)
  unfold acquireCpu
  dsimp only
  split
  · exact h
  rename_i hgq
  split
  · rename_i ho
    have hc := h.table.lt_of_owner (ho ▸ hq0)
    split
    · rename_i hg
      exact h.enable (p := q) hle hc hg rfl hq0 rfl
    · rename_i hg0
      exact noteOccupied_room (h.recall hdue hc (honce ho hgq hg0) rfl hg0 (Shdata.recall_tasks rfl))
  split
  · rename_i havail
    have hc := h.table.lt_of_state (x := c) (by rw [havail.2.1]; exact nofun)
    refine (noteOccupiedOwned_room (c := c) ?_).congr rfl rfl
    exact h.enable (p := q) hle hc havail.1 rfl hq0 rfl
  split
  · split
    · exact h.requests _
    · exact h
  split
  · exact h
  · exact h

theorem borrowCpu_room (h : Room S due d) (hq0 : q ≠ 0) (hdue : due c ≤ 1) : Room S due (borrowCpu S q d c).1 := by
  unfold borrowCpu
  dsimp only
  split
  · exact h
  rename_i hs
  have hc := h.table.lt_of_state hs
  split
  · rename_i hg
    split
    · exact h.enable (p := q) hdue hc hg.1 rfl hq0 rfl
    split
    · exact noteOccupiedOwned_room (h.enable (p := q) hdue hc hg.1 rfl hq0 rfl)
    · exact h
  · exact h

theorem returnCpu_room (h : Room S due d) (hq0 : q ≠ 0) (hdue : due c = 0) (htold : told d c = 0) :
    Room S due (returnCpu S q d c).1 := by
  unfold returnCpu
  dsimp only
  split
  · exact h
  rename_i hret
  have hg : (d.nodeInfo c).guest = q := by tauto
  have hc := h.table.lt_of_guest (hg ▸ hq0)
  have hnew : ∀ t ∈ [(⟨.disableCpu, q, c⟩ : CpuinfoTask)], t.cpuid = c := fun t ht => by rw [mem_singleton.mp ht]
  split
  · refine h.cpu _ hc rfl rfl hnew ?_ fun _ => .inr ?_
    · rw [htold, hdue, length_singleton]
      decide
    · rw [htold, hdue, length_singleton]
  · refine h.cpu _ hc rfl rfl hnew ?_ fun _ => .inr ?_
    · rw [htold, hdue, length_singleton]
      decide
    · rw [htold, hdue, length_singleton]

end Ops

/-! ## Lend -/

section Lend

theorem assignGuest_room (h : Room S due d) (hdue : due c ≤ 1) (hc : c < S.size) (hg : (d.nodeInfo c).guest = 0) :
    Room S due (assignGuest S d c).1 := by
  have hsame := (findNewGuest_only (S := S) (d := d) (c := c)).same
  have hfind : Room S due (findNewGuest S d c).1 :=
    h.same (findNewGuest_inTable h.table) (fun x => (hsame x).guest) findNewGuest_tasks
  unfold assignGuest
  dsimp only
  split
  · exact hfind
  · rename_i hnew
    exact hfind.enable hdue hc ((hsame c).guest.trans hg) rfl hnew rfl

theorem assignRest_room {cpuid : ℕ} (h : Room S due d) (hdue : due c ≤ 1) (hc : c < S.size) :
    Room S due (assignRest S cpuid d c) := by
  unfold assignRest
  split
  · rename_i hrest
    have hassign : Room S due (assignGuest S d c).1 := assignGuest_room h hdue hc hrest.2
    dsimp only
    split
    · exact hassign
    · exact hassign.congr rfl rfl
  · exact h

theorem findGuests_room (h : Room S due d) (hdue : ∀ x, due x ≤ 1) (hc : c < S.size) :
    Room S due (findGuests S d c) := by
  unfold findGuests
  split
  · rename_i hg
    have hassign : Room S due (assignGuest S d c).1 := assignGuest_room h (hdue c) hc hg
    dsimp only
    split
    · exact hassign
    · refine foldlRecOn _ _ hassign fun _ hd e he => assignRest_room hd (hdue e) ?_
      exact coreMask_lt_size (of_decide_eq_true (mem_filter.mp he).2)
  · exact h

theorem lendOwned_guest : ((lendOwned d q c).nodeInfo x).guest = (d.nodeInfo x).guest := by
  unfold lendOwned
  dsimp only
  split
  · exact set_guest rfl
  split
  · exact set_guest rfl
  · rfl

theorem lendOwned_tasks : (lendOwned d q c).tasks = d.tasks := by
  unfold lendOwned
  dsimp only
  split_ifs <;> rfl

theorem lendOwned_room (h : Room S due d) (hc : c < S.size) : Room S due (lendOwned d q c) :=
  h.same (lendOwned_inTable h.table hc) (fun _ => lendOwned_guest) lendOwned_tasks

theorem lendCpu_room (h : Room S due d) (hdue : ∀ x, due x ≤ 1)
    (hleave : (d.nodeInfo c).guest = q → told d c = 0 ∨ told d c + due c ≤ 1) : Room S due (lendCpu S q d c) := by
  unfold lendCpu
  split
  · exact h
  rename_i hs
  have hc := h.table.lt_of_state hs
  have hlend : Room S due (lendOwned d q c) := lendOwned_room h hc
  have hleft : Room S due (leave (lendOwned d q c) q c) := by
    unfold leave
    dsimp only
    split
    · rename_i hg
      refine hlend.write hc rfl rfl fun _ => ?_
      rw [told_congr lendOwned_tasks]
      exact hleave (lendOwned_guest.symm.trans hg)
    · exact hlend
  have hfind : Room S due (findGuests S (leave (lendOwned d q c) q c) c) := findGuests_room hleft hdue hc
  dsimp only
  split
  · exact hfind.congr rfl rfl
  · exact hfind.congr rfl rfl

end Lend

/-! ## Loops -/

section Loops

/-- `k` tasks may be due for the CPUs that a loop has not come to yet. -/
def owing (k : ℕ) (l : List ℕ) (x : ℕ) : ℕ := if x ∈ l then k else 0

variable {k : ℕ} {l : List ℕ}

theorem owing_of_notMem (h : x ∉ l) : owing k l x = 0 := if_neg h

theorem owing_head : owing k (c :: l) c = k := if_pos mem_cons_self

theorem owing_le : owing k l x ≤ k := by
  unfold owing
  split
  · exact le_rfl
  · exact Nat.zero_le k

theorem owing_mono {l' : List ℕ} (h : ∀ x ∈ l', x ∈ l) : owing k l' x ≤ owing k l x := by
  unfold owing
  split
  · rename_i hx
    rw [if_pos (h x hx)]
  · exact Nat.zero_le _

theorem Room.sub {l' : List ℕ} (h : Room S (owing k l) d) (hl : ∀ x ∈ l', x ∈ l) : Room S (owing k l') d :=
  h.mono fun _ => owing_mono hl

theorem Room.tail (h : Room S (owing k (c :: l)) d) : Room S (owing k l) d := h.sub fun _ => mem_cons_of_mem c

theorem Room.untold (h : Room S (owing 2 (c :: l)) d) : Cpuinfo.told d c = 0 := by
  have hc := h.told c
  rw [owing_head] at hc
  omega

theorem foldl_room {σ : Type} {f : σ → ℕ → σ} (shm : σ → Shdata) {Q : σ → ℕ → Prop}
    (hf : ∀ s c l, c ∉ l → Room S (owing k (c :: l)) (shm s) → Q s c → Room S (owing k l) (shm (f s c))) :
    ∀ (l : List ℕ) (s : σ), l.Nodup → Room S (owing k l) (shm s) → Lib.Along f Q s l →
      Room S (owing k []) (shm (l.foldl f s))
  | [], _, _, h, _ => h
  | c :: rest, s, hl, h, hq => by
    obtain ⟨hc, hrest⟩ := nodup_cons.mp hl
    exact foldl_room shm hf rest (f s c) hrest (hf s c rest hc h hq.1) hq.2

theorem foldl_room_of {σ : Type} {f : σ → ℕ → σ} (shm : σ → Shdata) (A : ℕ → Prop)
    (hf : ∀ s c l, A c → c ∉ l → Room S (owing k (c :: l)) (shm s) → Room S (owing k l) (shm (f s c))) :
    ∀ (l : List ℕ) (s : σ), (∀ c ∈ l, A c) → l.Nodup → Room S (owing k l) (shm s) →
      Room S (owing k []) (shm (l.foldl f s))
  | [], _, _, _, h => h
  | c :: rest, s, hA, hl, h => by
    obtain ⟨hc, hrest⟩ := nodup_cons.mp hl
    exact foldl_room_of shm A hf rest (f s c) (fun e he => hA e (mem_cons_of_mem c he)) hrest
      (hf s c rest (hA c mem_cons_self) hc h)

theorem foldl_room_all {σ : Type} {f : σ → ℕ → σ} (shm : σ → Shdata)
    (hf : ∀ s c l, c ∉ l → Room S (owing k (c :: l)) (shm s) → Room S (owing k l) (shm (f s c))) {l : List ℕ} {s : σ}
    (hl : l.Nodup) (h : Room S (owing k l) (shm s)) : Room S (owing k []) (shm (l.foldl f s)) :=
  foldl_room_of shm (fun _ => True) (fun s c l _ => hf s c l) l s (fun _ _ => trivial) hl h

theorem muCpus_nodup (mask : CpuSet) : (muCpus S mask).Nodup := List.Nodup.filter _ nodup_range

theorem reclaimNext_room (hq0 : q ≠ 0) (hc : c ∉ l) (h : Room S (owing 2 (c :: l)) d) :
    Room S (owing 2 l) (reclaimCpu q d c).1 :=
  reclaimCpu_room h.tail hq0 (owing_of_notMem hc) fun _ _ _ => h.untold

theorem returnNext_room (hq0 : q ≠ 0) (hc : c ∉ l) (h : Room S (owing 2 (c :: l)) d) :
    Room S (owing 2 l) (returnCpu S q d c).1 :=
  returnCpu_room h.tail hq0 (owing_of_notMem hc) h.untold

theorem lendNext_room (hc : c ∉ l) (h : Room S (owing 1 (c :: l)) d) : Room S (owing 1 l) (lendCpu S q d c) := by
  refine lendCpu_room h.tail (fun _ => owing_le) fun _ => .inr ?_
  have htold := h.told c
  rw [owing_head] at htold
  rw [owing_of_notMem hc]
  omega

theorem lendDisable_room (hc : c ∉ l) (hsize : c < S.size) (h : Room S (owing 1 (c :: l)) d) (honce : LeavesOnce q d c) :
    Room S (owing 1 l) ((lendCpu S q d c).push .disableCpu q c) := by
  have hlend : Room S (owing 1 (c :: l)) (lendCpu S q d c) := lendCpu_room h (fun _ => owing_le) fun hg => .inl (honce hg)
  exact hlend.disable hsize (owing_of_notMem hc) (fun x _ => owing_mono fun _ => mem_cons_of_mem c) owing_head

theorem reclaimCoreLoop_room (hq0 : q ≠ 0) : ∀ (l later : List ℕ) (d : Shdata) (error : DlbError) (n : ℕ),
    (l ++ later).Nodup → Room S (owing 2 (l ++ later)) d →
      Room S (owing 2 later) (coreLoop (reclaimCpu q) q l d error n).1
  | [], _, _, _, _, _, h => h
  | c :: rest, later, d, error, n, hl, h => by
    obtain ⟨hc, hrest⟩ := nodup_cons.mp hl
    have hnext : Room S (owing 2 (rest ++ later)) (reclaimCpu q d c).1 := reclaimNext_room hq0 hc h
    unfold coreLoop
    dsimp only
    split
    · exact reclaimCoreLoop_room hq0 rest later _ _ _ hrest hnext
    split
    · exact reclaimCoreLoop_room hq0 rest later _ _ _ hrest hnext
    · exact hnext.sub fun _ => mem_append_right rest

theorem reclaimCores_room (hq0 : q ≠ 0) : ∀ (ks : List ℕ) (d : Shdata) (ncpus : ℤ) (error : DlbError),
    (ks.flatMap fun k => coreCpus S (some k)).Nodup →
      Room S (owing 2 (ks.flatMap fun k => coreCpus S (some k))) d →
      Room S (owing 2 []) (reclaimCores S q ks d ncpus error).1
  | [], _, _, _, _, h => h
  | k :: rest, d, ncpus, error, hl, h => by
    unfold reclaimCores
    split
    · exact h.sub (by intros; contradiction)
    · exact reclaimCores_room hq0 rest _ _ _ (nodup_append.mp hl).2.1
        (reclaimCoreLoop_room hq0 _ _ _ _ _ hl h)

theorem mem_coreCpus {k : ℕ} : c ∈ coreCpus S (some k) ↔ ∃ hk : k < S.cores.length, c ∈ S.cores[k] := by
  rw [coreCpus, Option.bind_some, muGetCoreMaskByCoreid]
  constructor
  · intro hc
    have hmem : c ∈ (S.cores[k]?).getD ∅ := of_decide_eq_true (mem_filter.mp hc).2
    by_cases hk : k < S.cores.length
    · rw [getElem?_eq_getElem hk] at hmem
      exact ⟨hk, hmem⟩
    · rw [getElem?_eq_none (by omega)] at hmem
      cases Finset.notMem_empty c hmem
  · rintro ⟨hk, hmem⟩
    rw [getElem?_eq_getElem hk]
    exact mem_filter.mpr ⟨mem_range.mpr (System.lt_bits (S.covered _ (getElem_mem hk) hmem)),
      decide_eq_true hmem⟩

theorem coreCpus_nodup (n : ℕ) : ((range n).flatMap fun k => coreCpus S (some k)).Nodup := by
  refine nodup_flatMap.mpr ⟨fun k _ => muCpus_nodup _, pairwise_lt_range.imp fun {k j} hkj => ?_⟩
  intro e hek hej
  obtain ⟨hk, hek⟩ := mem_coreCpus.mp hek
  obtain ⟨hj, hej⟩ := mem_coreCpus.mp hej
  exact Finset.disjoint_left.mp (pairwise_iff_getElem.mp S.disjoint k j hk hj hkj) hek hej

end Loops

/-! ## Calls -/

section Calls

variable (S) in
/-- The acquisitions of an array recall no CPU twice. -/
def AcquiresOnce (pid : Pid) (d : Shdata) (cpus : List ℕ) (ncpus : ℤ) : Prop :=
  ArrayAlong (acquireCpu S pid) pid (RecallsOnce pid) S (acquireCore S pid) cpus none d ncpus

variable (S) in
/-- The two sub-arrays of owned CPUs of `shmem_cpuinfo__acquire_ncpus_from_cpu_subset`. -/
def StagesOnce (w : Wish) (d : Shdata) (pid : Pid) (ncpus : ℤ) : Prop :=
  let cpus := fun p : CpuInfo → Bool => w.cpusPriorityArray.filter fun c => p (d.nodeInfo c)
  let r1 := stage (acquireCpusInArray S pid) (cpus (ownedIdle pid)) (d, .noupdt, ncpus)
  AcquiresOnce S pid d (cpus (ownedIdle pid)) ncpus ∧ AcquiresOnce S pid r1.1 (cpus (ownedNonIdle pid)) r1.2.2

/-- The first loop of `shmem_cpuinfo__update_max_parallelism` leaves no CPU that it has pushed a task for. -/
def BeyondOnce (pid : Pid) (max : ℕ) (r : Shdata × ℕ × List ℕ) (cpuid : ℕ) : Prop :=
  (r.1.nodeInfo cpuid).owner = pid → max < r.2.1 + 1 → LeavesOnce pid r.1 cpuid

variable (S) in
def GuestedOnce (pid : Pid) (max : ℕ) : List ℕ → ℕ → Shdata → Prop
  | [], _, _ => True
  | cpuid :: rest, count, d =>
    (max < count + 1 → LeavesOnce pid d cpuid) ∧ GuestedOnce pid max rest (count + 1)
      (if max < count + 1 then (lendCpu S pid d cpuid).push .disableCpu pid cpuid else d)

/-- One CPU of `shmem_cpuinfo__reset`. -/
def ResetOnce (pid : Pid) (d : Shdata) (cpuid : ℕ) : Prop :=
  RecallsOnce pid d cpuid ∧ ((d.nodeInfo cpuid).owner ≠ pid → LeavesOnce pid d cpuid)

/-- One CPU of `shmem_cpuinfo__deregister`, which reclaims the ones that will not be public. -/
def LeaveOnce (co : Caller) (pid : Pid) (d : Shdata) (cpuid : ℕ) : Prop := ¬co.public → RecallsOnce pid d cpuid

variable (S) in
/-- The operation comes back to no CPU that it has pushed a task for, to recall it or to lend it on. -/
def Op.TellsOnce (co : Caller) (pid : Pid) (d : Shdata) : Op → Prop
  | .lewi (.acquireFromCpuSubset cpus) => AcquiresOnce S pid d cpus intMax
  | .lewi (.acquireNcpusFromCpuSubset w u) =>
    ¬w.returnsEarly u pid (w.stale u && allOwnedCpusAreGuested u.ownedScan pid w.cpusPriorityArray) →
      StagesOnce S w d pid (w.ncpus S u pid)
  | .lewi .reset => Lib.Along (resetCpu S pid) (ResetOnce pid) (Cpuinfo.removeRequests S d pid) (range S.size)
  | .lewi (.updateMaxParallelism max) =>
    let r := (range S.size).foldl (lendBeyond S pid max) (d, 0, [])
    Lib.Along (lendBeyond S pid max) (BeyondOnce pid max) (d, 0, []) (range S.size) ∧
      GuestedOnce S pid max r.2.2 r.2.1 r.1
  | .deregister => Lib.Along (leaveCpu S co pid) (LeaveOnce co pid) (Cpuinfo.removeRequests S d pid) (range S.size)
  | _ => True

theorem acquireCpus_room {cpus : List ℕ} {ncpus : ℤ} (h : Room S (owing 0 []) d) (hq0 : q ≠ 0)
    (honce : AcquiresOnce S q d cpus ncpus) : Room S (owing 0 []) (acquireCpusInArray S q d cpus ncpus).1 := by
  have hop : ∀ d c, Room S (owing 0 []) d → RecallsOnce q d c → Room S (owing 0 []) (acquireCpu S q d c).1 :=
    fun _ _ h honce => acquireCpu_room h hq0 (owing_of_notMem not_mem_nil) honce
  exact arrayLoop_along (fun _ _ h hq => coreLoop_along hop _ _ _ _ h hq) hop _ _ _ _ _ h honce

theorem borrowCpus_room (hq0 : q ≠ 0) (d : Shdata) (cpus : List ℕ) (ncpus : ℤ) (h : Room S (owing 0 []) d) :
    Room S (owing 0 []) (borrowCpusInArray S q d cpus ncpus).1 :=
  borrowCpus_keep (fun _ _ h => borrowCpu_room h hq0 (owing_le.trans (Nat.zero_le 1))) _ _ _ h

theorem addPetitions_room {w : Wish} (r : Shdata × DlbError × ℤ) (h : Room S due r.1) :
    Room S due (addPetitions w q r).1 := by
  refine addPetitions_keeps (fun d request h => ?_) (fun r c h => ?_) w r h
  · refine h.congr ?_ (petition_tasks request)
    unfold petition
    split
    · rfl
    split
    · rfl
    · rfl
  · unfold petitionCpu
    dsimp only
    split
    · split
      · split
        · exact h.requests _
        · exact h
      · exact h
    · exact h

theorem acquireNcpus_room {w : Wish} {u : Unlocked} (h : Room S (owing 0 []) d) (hq0 : q ≠ 0)
    (honce : (Op.lewi (.acquireNcpusFromCpuSubset w u)).TellsOnce S co q d) :
    Room S (owing 0 []) (shmemAcquireNcpusFromCpuSubset S co d q w u).1 := by
  unfold shmemAcquireNcpusFromCpuSubset
  split
  · exact h
  rename_i hearly
  obtain ⟨hidle, hrest⟩ := honce hearly
  refine addPetitions_room _ ?_
  refine stage_keeps (borrowCpus_room hq0) _ _ ?_
  refine stage_along ?_ (acquireCpus_room ?_ hq0 hrest)
  · exact stage_along h (acquireCpus_room h hq0 hidle)
  · exact stage_along h (acquireCpus_room h hq0 hidle)

theorem removeRequests_room (h : Room S due d) : Room S due (removeRequests S d q) :=
  h.same (removeRequests_inTable h.table) (fun x => (removeRequests_only.same x).guest) removeRequests_tasks

theorem resetCpu_room {l : List ℕ} (hq0 : q ≠ 0) (hc : c ∉ l) (h : Room S (owing 1 (c :: l)) d)
    (honce : ResetOnce q d c) : Room S (owing 1 l) (resetCpu S q d c) := by
  unfold resetCpu
  split
  · exact reclaimCpu_room h.tail hq0 (owing_of_notMem hc) honce.1
  rename_i ho
  split
  · rename_i hg
    exact lendDisable_room hc (h.table.lt_of_guest (hg ▸ hq0)) h (honce.2 ho)
  · exact h.tail

theorem reset_room (h : Room S (owing 1 (range S.size)) d) (hq0 : q ≠ 0)
    (honce : (Op.lewi .reset).TellsOnce S co q d) : Room S (owing 1 []) (shmemReset S co d q).1 := by
  have hrun : Room S (owing 1 []) ((range S.size).foldl (resetCpu S q) (removeRequests S d q)) :=
    foldl_room id (fun _ _ _ hc h honce => resetCpu_room hq0 hc h honce) _ _ nodup_range
      (removeRequests_room h) honce
  exact hrun.congr rfl rfl

theorem reclaimCpu_told_le {l : List ℕ} (h : Room S (owing 1 (c :: l)) d) (ho : (d.nodeInfo c).owner = q)
    (hg : (d.nodeInfo c).guest = q ∨ (d.nodeInfo c).guest = 0) : told (reclaimCpu q d c).1 c ≤ 1 := by
  have htold := h.told c
  have hidle := h.idle c
  rw [owing_head] at htold hidle
  unfold reclaimCpu
  rw [if_pos ho]
  split
  · show told d c ≤ 1
    omega
  · rename_i hgq
    have hg0 := hg.resolve_left hgq
    have hnone := hidle hg0
    rw [if_pos hg0]
    have hpush : told (((d.set c { d.nodeInfo c with state := .busy, guest := q }).push .enableCpu q c).clrFree c) c =
        told d c + if c = c then [(⟨.enableCpu, q, c⟩ : CpuinfoTask)].length else 0 := told_append rfl (by simp)
    rw [hpush, if_pos rfl, length_singleton]
    omega

theorem reclaimCpu_guest (hq : (d.nodeInfo c).guest ≠ q) (h0 : (d.nodeInfo c).guest ≠ 0) :
    ((reclaimCpu q d c).1.nodeInfo c).guest = (d.nodeInfo c).guest := by
  unfold reclaimCpu
  dsimp only
  split
  · exact set_guest rfl
  · rfl

theorem leaveCpu_room {l : List ℕ} (hq0 : q ≠ 0) (hc : c ∉ l) (h : Room S (owing 1 (c :: l)) d)
    (honce : LeaveOnce co q d c) : Room S (owing 1 l) (leaveCpu S co q d c) := by
  unfold leaveCpu
  split
  · rename_i ho
    have hsize := h.table.lt_of_owner (ho ▸ hq0)
    have hdrop : ∀ d1 : Shdata, Room S (owing 1 l) d1 →
        Room S (owing 1 l) { d1.set c { d1.nodeInfo c with owner := 0 } with
          occupiedCores := d1.occupiedCores.erase c } := fun d1 h1 =>
      h1.same (h1.table.write hsize rfl) (fun _ => set_guest rfl) rfl
    unfold leaveOwned
    split
    · exact hdrop _ (lendNext_room hc h)
    rename_i hpublic
    refine hdrop _ ?_
    have hrec : Room S (owing 1 l) (reclaimCpu q d c).1 :=
      reclaimCpu_room h.tail hq0 (owing_of_notMem hc) (honce hpublic)
    refine hrec.write hsize rfl rfl fun hg0 => .inr ?_
    rw [owing_of_notMem hc]
    refine reclaimCpu_told_le h ho ?_
    by_contra hother
    rw [not_or] at hother
    rw [reclaimCpu_guest hother.1 hother.2, if_neg hother.1] at hg0
    exact hother.2 hg0
  split
  · exact lendNext_room hc h
  · exact h.tail

theorem deregister_room (h : Room S (owing 1 (range S.size)) d) (hq0 : q ≠ 0)
    (honce : Op.deregister.TellsOnce S co q d) : Room S (owing 1 []) (shmemDeregister S co d q).1 := by
  have hrun : Room S (owing 1 []) ((range S.size).foldl (leaveCpu S co q) (removeRequests S d q)) :=
    foldl_room id (fun _ _ _ hc h honce => leaveCpu_room hq0 hc h honce) _ _ nodup_range
      (removeRequests_room h) honce
  exact hrun.congr rfl rfl

/-! ### A limit -/

theorem lendBeyond_room {max : ℕ} {l : List ℕ} {r : Shdata × ℕ × List ℕ} (hq0 : q ≠ 0) (hc : c ∉ l ++ r.2.2)
    (h : Room S (owing 1 (c :: l ++ r.2.2)) r.1) (honce : BeyondOnce q max r c) :
    Room S (owing 1 (l ++ (lendBeyond S q max r c).2.2)) (lendBeyond S q max r c).1 := by
  unfold lendBeyond
  split
  · rename_i ho
    split
    · rename_i hmax
      exact lendDisable_room hc (h.table.lt_of_owner (ho ▸ hq0)) h (honce ho hmax)
    · exact h.tail
  split
  · refine h.sub fun x hx => ?_
    rcases mem_append.mp hx with hx | hx
    · exact mem_cons_of_mem c (mem_append_left _ hx)
    rcases mem_append.mp hx with hx | hx
    · exact mem_cons_of_mem c (mem_append_right _ hx)
    · rw [mem_singleton.mp hx]
      exact mem_cons_self
  · exact h.tail

theorem lendBeyond_guested {max : ℕ} {r : Shdata × ℕ × List ℕ} {l : List ℕ} (hl : (c :: l ++ r.2.2).Nodup) :
    (l ++ (lendBeyond S q max r c).2.2).Nodup := by
  have hrest : (l ++ r.2.2).Nodup := hl.of_cons
  have hadd : (l ++ (r.2.2 ++ [c])).Nodup := by
    rw [← append_assoc]
    refine nodup_append.mpr ⟨hrest, nodup_singleton c, fun e he e' he' => ?_⟩
    rw [mem_singleton.mp he']
    rintro rfl
    exact (nodup_cons.mp hl).1 he
  unfold lendBeyond
  split
  · split
    · exact hrest
    · exact hrest
  split
  · exact hadd
  · exact hrest

theorem lendBeyonds_room {max : ℕ} (hq0 : q ≠ 0) : ∀ (l : List ℕ) (r : Shdata × ℕ × List ℕ), (l ++ r.2.2).Nodup →
    Room S (owing 1 (l ++ r.2.2)) r.1 → Lib.Along (lendBeyond S q max) (BeyondOnce q max) r l →
      (l.foldl (lendBeyond S q max) r).2.2.Nodup ∧
        Room S (owing 1 (l.foldl (lendBeyond S q max) r).2.2) (l.foldl (lendBeyond S q max) r).1
  | [], _, hl, h, _ => ⟨hl, h⟩
  | c :: rest, r, hl, h, hq =>
    lendBeyonds_room hq0 rest (lendBeyond S q max r c) (lendBeyond_guested hl)
      (lendBeyond_room hq0 (nodup_cons.mp hl).1 h hq.1) hq.2

theorem lendGuested_room {max : ℕ} : ∀ (l : List ℕ) (count : ℕ) (d : Shdata), l.Nodup → (∀ c ∈ l, c < S.size) →
    Room S (owing 1 l) d → GuestedOnce S q max l count d → Room S (owing 1 []) (lendGuested S q max l count d)
  | [], _, _, _, _, h, _ => h
  | c :: rest, count, d, hl, hsize, h, hq => by
    obtain ⟨hc, hrest⟩ := nodup_cons.mp hl
    obtain ⟨honce, hq⟩ := hq
    have hsize' : ∀ e ∈ rest, e < S.size := fun e he => hsize e (mem_cons_of_mem c he)
    unfold lendGuested
    split
    · rename_i hmax
      rw [if_pos hmax] at hq
      exact lendGuested_room rest _ _ hrest hsize' (lendDisable_room hc (hsize c mem_cons_self) h (honce hmax)) hq
    · rename_i hmax
      rw [if_neg hmax] at hq
      exact lendGuested_room rest _ _ hrest hsize' h.tail hq

theorem lendBeyonds_lt (q : Pid) (max : ℕ) : ∀ (l : List ℕ) (r : Shdata × ℕ × List ℕ), (∀ c ∈ l, c < S.size) →
    (∀ c ∈ r.2.2, c < S.size) → ∀ c ∈ (l.foldl (lendBeyond S q max) r).2.2, c < S.size
  | [], _, _, hr => hr
  | c :: rest, r, hl, hr => by
    refine lendBeyonds_lt q max rest _ (fun e he => hl e (mem_cons_of_mem c he)) fun e he => ?_
    unfold lendBeyond at he
    split at he
    · split at he
      · exact hr e he
      · exact hr e he
    split at he
    · rcases mem_append.mp he with he | he
      · exact hr e he
      · rw [mem_singleton.mp he]
        exact hl c mem_cons_self
    · exact hr e he

theorem updateMaxParallelism_room (co : Caller) {max : ℕ} (h : Room S (owing 1 (range S.size)) d) (hq0 : q ≠ 0)
    (honce : (Op.lewi (.updateMaxParallelism max)).TellsOnce S co q d) :
    Room S (owing 1 []) (shmemUpdateMaxParallelism S co d q max).1 := by
  have hlt := lendBeyonds_lt q max (range S.size) (d, 0, []) (fun _ => mem_range.mp) nofun
  obtain ⟨hnodup, hroom⟩ := lendBeyonds_room hq0 (range S.size) (d, 0, []) (by simpa using nodup_range)
    (by simpa using h) honce.1
  exact (lendGuested_room _ _ _ hnodup hlt hroom honce.2).congr rfl rfl

/-! ### The other calls -/

theorem disableRests_room {cpuid : ℕ} : ∀ (l : List ℕ) (d : Shdata), l.Nodup → (∀ e ∈ l, e < S.size) →
    Room S (owing 2 (l.filter (· ≠ cpuid))) d → Room S (owing 2 []) (l.foldl (disableRest q cpuid) d)
  | [], _, _, _, h => h
  | c :: rest, d, hl, hsize, h => by
    obtain ⟨hc, hrest⟩ := nodup_cons.mp hl
    refine disableRests_room rest _ hrest (fun e he => hsize e (mem_cons_of_mem c he)) ?_
    by_cases hcpu : c = cpuid
    · have hskip : disableRest q cpuid d c = d := if_neg fun hdo => hdo.1 hcpu
      rw [filter_cons_of_neg (by simpa using hcpu)] at h
      rwa [hskip]
    · rw [filter_cons_of_pos (by simpa using hcpu)] at h
      unfold disableRest
      split
      · have hnot : c ∉ rest.filter (· ≠ cpuid) := fun hmem => hc (mem_filter.mp hmem).1
        refine h.tail.cpu (i := d.nodeInfo c) [⟨.disableCpu, (d.nodeInfo c).guest, c⟩]
          (hsize c mem_cons_self) (update_eq_self c d.nodeInfo).symm rfl (by simp) ?_ fun _ => .inr ?_
        · rw [h.untold, owing_of_notMem hnot, length_singleton]
          decide
        · rw [h.untold, owing_of_notMem hnot, length_singleton]
      · exact h.tail

theorem call_room (hd : InTable S d) (hq0 : q ≠ 0) (co : Caller) {call : Call}
    (honce : (Op.lewi call).TellsOnce S co q { d with tasks := [] }) :
    ∃ due, Room S due (exec S co q d call) := by
  have h₀ : ∀ k ≤ 2, ∀ l, Room S (owing k l) { d with tasks := [] } := fun k hk l =>
    .start hd fun _ => owing_le.trans hk
  unfold exec
  generalize { d with tasks := [] } = d0 at h₀ honce ⊢
  have hnone : Room S (owing 0 []) d0 := h₀ 0 (by decide) []
  cases call with
  | lendCpu cpuid =>
    unfold shmemLendCpu
    dsimp only
    split
    · exact ⟨_, hnone⟩
    · have hlend : Room S (owing 1 []) (lendCpu S q d0 cpuid) := lendNext_room not_mem_nil (h₀ 1 (by decide) [cpuid])
      exact ⟨_, hlend.congr rfl rfl⟩
  | lendCpuMask mask =>
    have hrun : Room S (owing 1 []) ((nodeCpus S mask).foldl (lendCpu S q) d0) :=
      foldl_room_all id (fun _ _ _ hc h => lendNext_room hc h) (nodeCpus_nodup mask) (h₀ 1 (by decide) _)
    exact ⟨_, hrun.congr rfl rfl⟩
  | reclaimAll =>
    refine ⟨_, foldl_room_all (k := 2) Prod.fst (fun r c l hc h => ?_) (muCpus_nodup _) (h₀ 2 le_rfl _)⟩
    split
    · exact reclaimNext_room hq0 hc h
    · exact h.tail
  | reclaimCpu cpuid =>
    unfold shmemReclaimCpu
    dsimp only
    split
    · exact ⟨_, hnone⟩
    have hrec : Room S (owing 2 ((muCpus S (coreMask S cpuid)).filter (· ≠ cpuid))) (reclaimCpu q d0 cpuid).1 := by
      refine reclaimNext_room hq0 (fun hmem => ?_) (h₀ 2 le_rfl _)
      simpa using (mem_filter.mp hmem).2
    split
    · refine ⟨_, disableRests_room _ _ (muCpus_nodup _) (fun e he => ?_) hrec⟩
      exact coreMask_lt_size (of_decide_eq_true (mem_filter.mp he).2)
    · exact ⟨_, hrec⟩
  | reclaimCpus ncpus => exact ⟨_, reclaimCores_room hq0 _ _ _ _ (coreCpus_nodup _) (h₀ 2 le_rfl _)⟩
  | reclaimCpuMask mask =>
    refine ⟨_, foldl_room_all (k := 2) Prod.fst (fun r c l hc h => ?_) (nodeCpus_nodup _) (h₀ 2 le_rfl _)⟩
    exact reclaimNext_room hq0 hc h
  | acquireCpu cpuid =>
    unfold shmemAcquireCpu
    dsimp only
    split
    · exact ⟨_, hnone⟩
    · refine ⟨_, acquireCpu_room hnone hq0 (owing_of_notMem not_mem_nil) fun _ _ _ => ?_⟩
      exact (h₀ 2 le_rfl [cpuid]).untold
  | acquireFromCpuSubset cpus => exact ⟨_, acquireCpus_room hnone hq0 honce⟩
  | acquireNcpusFromCpuSubset wish unlocked => exact ⟨_, acquireNcpus_room hnone hq0 honce⟩
  | borrowCpu cpuid =>
    unfold shmemBorrowCpu
    dsimp only
    split
    · exact ⟨_, hnone⟩
    · exact ⟨_, borrowCpu_room hnone hq0 (owing_le.trans (Nat.zero_le 1))⟩
  | borrowFromCpuSubset cpus => exact ⟨_, borrowCpus_room hq0 _ _ _ hnone⟩
  | borrowNcpusFromCpuSubset wish unlocked =>
    unfold shmemBorrowNcpusFromCpuSubset
    dsimp only
    split
    · exact ⟨_, hnone⟩
    · exact ⟨_, borrowFreeNodes_keeps (borrowCpus_room hq0) wish _ (borrowCpus_room hq0 _ _ _ hnone)⟩
  | returnAll =>
    refine ⟨_, foldl_room_all (k := 2) Prod.fst (fun r c l hc h => ?_) nodup_range (h₀ 2 le_rfl _)⟩
    split
    · exact returnNext_room hq0 hc h
    · exact h.tail
  | returnCpu cpuid =>
    unfold shmemReturnCpu
    dsimp only
    split
    · exact ⟨_, hnone⟩
    split
    · exact ⟨_, hnone⟩
    · exact ⟨_, returnNext_room hq0 not_mem_nil (h₀ 2 le_rfl [cpuid])⟩
  | returnCpuMask mask =>
    refine ⟨_, foldl_room_all (k := 2) Prod.fst (fun r c l hc h => ?_) (muCpus_nodup _) (h₀ 2 le_rfl _)⟩
    exact returnNext_room hq0 hc h
  | reset => exact ⟨_, reset_room (h₀ 1 (by decide) _) hq0 honce⟩
  | updateMaxParallelism max => exact ⟨_, updateMaxParallelism_room co (h₀ 1 (by decide) _) hq0 honce⟩

theorem updateOwnershipCpu_room {hasTasks : Bool} {mask : CpuSet} {l : List ℕ} (r : Shdata × Bool) (hq0 : q ≠ 0)
    (hsize : c < S.size) (hc : c ∉ l) (h : Room S (owing 2 (c :: l)) r.1) :
    Room S (owing 2 l) (updateOwnershipCpu S hasTasks q mask r c).1 := by
  have hdue : owing 2 l c = 0 := owing_of_notMem hc
  have htold : told r.1 c = 0 := h.untold
  unfold updateOwnershipCpu
  dsimp only
  split
  · exact h.tail
  split
  · split
    · refine h.tail.cpu _ hsize (stealCpu_info hasTasks) (stealCpu_tasks hasTasks) (fun t ht => ?_) ?_ fun hg => ?_
      · split at ht
        · rcases mem_append.mp ht with ht | ht
          · split at ht
            · rw [mem_singleton.mp ht]
            · cases ht
          · rw [mem_singleton.mp ht]
        · cases ht
      · rw [htold, hdue]
        split_ifs <;> simp
      · dsimp only at hg
        split at hg
        · exact absurd hg hq0
        · exact absurd hg ‹_›
    · exact h.tail
  split
  · have hdrop : ∀ g : Pid, ∀ new : List CpuinfoTask, (∀ t ∈ new, t.cpuid = c) → new.length ≤ 1 → ∀ d1 : Shdata,
        d1.nodeInfo = update r.1.nodeInfo c
          { r.1.nodeInfo c with owner := 0, state := .disabled, guest := g } →
        d1.tasks = r.1.tasks ++ new → Room S (owing 2 l) d1 := by
      intro g new hnew hlength d1 hinfo ht
      refine h.tail.cpu new hsize hinfo ht hnew ?_ fun _ => .inr ?_
      · rw [htold, hdue]
        omega
      · rw [htold, hdue]
        omega
    unfold releaseCpu
    dsimp only
    split
    · split
      · exact hdrop 0 [⟨.disableCpu, q, c⟩] (by simp) le_rfl _ rfl rfl
      · exact hdrop 0 [] nofun (Nat.zero_le 1) _ rfl (append_nil _).symm
    · exact hdrop _ [] nofun (Nat.zero_le 1) _ rfl (append_nil _).symm
  split
  · split
    · exact returnNext_room hq0 hc h
    · exact h.tail
  · exact h.tail

theorem exec_tasks_le (hd : InTable S d) (hq0 : q ≠ 0) {op : Op}
    (honce : op.TellsOnce S co q { d with tasks := [] }) : (op.exec S co q d).1.tasks.length ≤ 2 * S.size := by
  have hd0 : InTable S { d with tasks := [] } := hd
  have hnil : ({ d with tasks := [] } : Shdata).tasks = [] := rfl
  unfold Op.exec
  generalize { d with tasks := [] } = d0 at hd0 hnil honce ⊢
  have hstart : d0 = { d0 with tasks := [] } := by
    rw [← hnil]
  have hnone : ∀ {d1 : Shdata}, d1.tasks = d0.tasks → d1.tasks.length ≤ 2 * S.size := fun ht => by
    rw [ht, hnil]
    exact Nat.zero_le _
  cases op with
  | init preinitPid mask => exact hnone ((init_tasks co preinitPid mask hnil).trans hnil.symm)
  | lewiInit async =>
    refine hnone ?_
    dsimp only
    split
    · rfl
    · rfl
  | lewi call =>
    rw [hstart] at honce
    obtain ⟨due, hroom⟩ := call_room hd0 hq0 co honce
    exact hroom.length_le
  | removeRequests =>
    refine hnone ?_
    show (shmemRemoveRequests S d0 q).tasks = _
    unfold shmemRemoveRequests
    split
    · rfl
    · rfl
  | checkCpuAvailability before cpuid =>
    refine hnone ?_
    show (checkCpuAvailability before d0 q cpuid).1.tasks = _
    unfold checkCpuAvailability
    split_ifs <;> rfl
  | updateOwnership hasTasks mask =>
    have hrun : Room S (owing 2 []) (shmemUpdateOwnership S hasTasks d0 q mask).1 := by
      refine foldl_room_of Prod.fst (· < S.size) (fun r c l hsize hc h => ?_) _ _
        (fun _ => mem_range.mp) nodup_range (hstart ▸ .start hd0 fun _ => owing_le)
      exact updateOwnershipCpu_room r hq0 hsize hc h
    exact hrun.length_le
  | deregister =>
    have hroom : Room S (owing 1 (range S.size)) d0 := hstart ▸ .start hd0 fun _ => owing_le.trans (by decide)
    exact (deregister_room hroom hq0 honce).length_le
  | finalize => exact hnone (finalize_tasks co)

end Calls

/-! ## Runs -/

/-- The capacity of the array that `get_tasks` allocates. -/
def tasksCapacity (S : System) : ℕ := S.size * 2

namespace MortalNode

variable {m : MortalNode} {e : Deed}

/-- The tasks that the last operation has pushed fit into the array. -/
def TasksFit (S : System) (m : MortalNode) : Prop := m.node.shm.tasks.length ≤ tasksCapacity S

/-- The operation comes back to no CPU that it has pushed a task for. -/
def TellsOnce (S : System) (m : MortalNode) : Deed → Prop
  | .event (.op co q op) => op.allowed (m.node.phase q) → op.TellsOnce S co q { m.node.shm with tasks := [] }
  | _ => True

theorem TasksFit.next (h : m.TasksFit S) (hs : m.Sound S) (he : e.Valid S) (honce : m.TellsOnce S e) :
    (m.next S e).TasksFit S := by
  have hle : ∀ {d : Shdata}, d.tasks.length ≤ 2 * S.size → d.tasks.length ≤ tasksCapacity S := fun hd => by
    unfold tasksCapacity
    omega
  have hnil : ∀ {d : Shdata}, d.tasks = [] → d.tasks.length ≤ tasksCapacity S := fun hd => by
    rw [hd]
    exact Nat.zero_le _
  cases e with
  | event e =>
    cases e with
    | op co q op =>
      show (m.node.next S (.op co q op)).shm.tasks.length ≤ _
      unfold AsyncNode.next
      dsimp only
      split
      · rename_i hallowed
        exact hle (exec_tasks_le hs.node.table he.1 (honce hallowed))
      · exact h
    | resolve i =>
      show (m.node.next S (.resolve i)).shm.tasks.length ≤ _
      unfold AsyncNode.next
      dsimp only
      split
      · have hsame : ∀ p (l : List ℕ) (d : Shdata), (l.foldl (returnAsync S p) d).tasks = d.tasks := by
          intro p l d
          refine foldlRecOn (motive := fun r : Shdata => r.tasks = d.tasks) l _ rfl fun r hr c _ => ?_
          rw [← hr]
          unfold returnAsync requestAgain returnGuest updateOccupiedCores
          dsimp only
          split_ifs <;> split <;> rfl
        show (returnAsyncCpuMask S _ _ _).tasks.length ≤ _
        unfold returnAsyncCpuMask
        rw [hsame]
        exact h
      · exact h
  | preinit co pid mask steal =>
    unfold MortalNode.next TasksFit
    dsimp only
    split
    · refine hnil ?_
      show (registerProcess S (initShmem S co { m.node.shm with tasks := [] }) pid 0 mask steal).1.tasks = []
      rw [registerProcess_tasks]
      unfold initShmem
      split
      · rfl
      · rfl
    · exact h
  | postfinalize co pid =>
    refine hnil ?_
    show (finalize S co { m.node.shm with tasks := [] } pid).tasks = []
    exact finalize_tasks co
  | cleanup co pid =>
    unfold MortalNode.next TasksFit
    dsimp only
    split
    · exact h
    · refine hnil ?_
      refine foldlRecOn (motive := fun d : Shdata => d.tasks = []) _ _ rfl fun d hd c _ => ?_
      rw [deregisterCpu_tasks, hd]

end MortalNode

/-- **The array of tasks does not overflow**: along every run of processes, in polling or asynchronous mode, with any
topology, no operation pushes more than two tasks per CPU of the node, if no operation comes back to a CPU that it has
pushed a task for, to recall it from its guest or to lend it on. -/
theorem tasks_fit (S : System) (deeds : List Deed) (hdeeds : ∀ e ∈ deeds, e.Valid S)
    (honce : Lib.Along (MortalNode.next S) (MortalNode.TellsOnce S) {} deeds) :
    Lib.Along (MortalNode.next S) (fun m e => (m.next S e).TasksFit S) {} deeds :=
  (Lib.Along.invariant (R := Deed.Valid S) (I := fun m : MortalNode => m.Sound S ∧ m.TasksFit S)
    (fun _ _ hm he honce => ⟨hm.1.next he, hm.2.next hm.1 he honce⟩) (fun _ _ hm he honce => hm.2.next hm.1 he honce)
    {} deeds ⟨⟨AsyncNode.sound_start, fun p hp => absurd hp (Finset.notMem_empty p)⟩, Nat.zero_le _⟩ hdeeds honce).1

/-! ### Two cores whose CPUs alternate -/

section Decide

variable {op : Shdata → ℕ → Shdata × DlbError} {pid : Pid} {Q : Shdata → ℕ → Prop} [∀ d c, Decidable (Q d c)]
  {core : Shdata → Option ℕ → Shdata × DlbError × ℕ}

instance decidableCoreAlong : ∀ (l : List ℕ) (d : Shdata), Decidable (CoreAlong op pid Q l d)
  | [], _ => inferInstanceAs (Decidable True)
  | c :: rest, d =>
    have := decidableCoreAlong rest (op d c).1
    inferInstanceAs (Decidable (Q d c ∧ (done (op d c).2 ∨ ((op d c).1.nodeInfo c).guest = pid →
      CoreAlong op pid Q rest (op d c).1)))

instance decidableArrayAlong : ∀ (l : List ℕ) (prev : Option ℕ) (d : Shdata) (ncpus : ℤ),
    Decidable (ArrayAlong op pid Q S core l prev d ncpus)
  | [], _, _, _ => inferInstanceAs (Decidable True)
  | c :: rest, prev, d, ncpus => by
    have := decidableArrayAlong rest
    unfold ArrayAlong
    infer_instance

end Decide

instance (cpus : List ℕ) (n : ℤ) : Decidable (AcquiresOnce S q d cpus n) :=
  decidableArrayAlong cpus none d n

instance (w : Wish) (n : ℤ) : Decidable (StagesOnce S w d q n) := by
  unfold StagesOnce
  infer_instance

/-- A system of two cores with two CPUs each. The first CPUs of the cores have the first numbers. -/
def alternatingCores : System where
  sysMask := {0, 1, 2, 3}
  cores := [{0, 2}, {1, 3}]
  disjoint := by decide
  covered := by decide

/-- `1` lends its CPUs and `2` takes them all. -/
def allGuested : List Deed :=
  [.event (.op {} 1 (.init 0 {0, 1, 2, 3})), .event (.op {} 2 (.init 0 ∅)), .event (.op {} 1 (.lewiInit false)),
    .event (.op {} 2 (.lewiInit false)), .event (.op {} 1 (.lewi (.lendCpuMask {0, 1, 2, 3}))),
    .event (.op {} 2 (.lewi (.borrowFromCpuSubset [0, 1, 2, 3])))]

/-- `1` wants two CPUs back. -/
def acquireTwo : Deed := .event (.op {} 1 (.lewi (.acquireNcpusFromCpuSubset
  { requestedNcpus := some 2, cpusPriorityArray := [0, 1, 2, 3] } ({} : Shdata).unlocked)))

theorem tasks_fit_acquireTwo : Lib.Along (MortalNode.next alternatingCores)
    (fun m e => (m.next alternatingCores e).TasksFit alternatingCores) {} (allGuested ++ [acquireTwo]) := by
  refine tasks_fit alternatingCores (allGuested ++ [acquireTwo]) ?_ ?_
  · simp [allGuested, acquireTwo, Deed.Valid, Act.InNode]
  · refine ⟨fun _ => trivial, fun _ => trivial, fun _ => trivial, fun _ => trivial, fun _ => trivial, fun _ => trivial,
      fun _ _ => ?_, trivial⟩
    decide

/-- `1` wants its CPUs back when it leaves a blocking call. -/
def acquireAll : Deed := .event (.op {} 1 (.lewi (.acquireFromCpuSubset [0, 1, 2, 3])))

/-- Each core is entered twice, and all its CPUs are recalled both times: there is room for 8 tasks. -/
theorem tasks_overflow :
    let m := (allGuested ++ [acquireAll]).foldl (MortalNode.next alternatingCores) {}
    (∀ e ∈ allGuested ++ [acquireAll], e.Valid alternatingCores) ∧ m.node.shm.tasks.length = 16 ∧
      tasksCapacity alternatingCores = 8 ∧ ¬Lib.Along (MortalNode.next alternatingCores)
        (fun m e => (m.next alternatingCores e).TasksFit alternatingCores) {} (allGuested ++ [acquireAll]) := by
  intro m
  have htasks : m.node.shm.tasks.length = 16 := by decide
  have hcapacity : tasksCapacity alternatingCores = 8 := by decide
  refine ⟨by simp [allGuested, acquireAll, Deed.Valid, Act.InNode], htasks, hcapacity, fun hrun => ?_⟩
  rw [Lib.Along.append] at hrun
  have hfit : m.TasksFit alternatingCores := hrun.2.1
  unfold MortalNode.TasksFit at hfit
  omega

end Dlb.Cpuinfo

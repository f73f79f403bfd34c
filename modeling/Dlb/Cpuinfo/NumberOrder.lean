import Dlb.Cpuinfo.Racing

/-!
# Acquiring and borrowing a number of CPUs

Without SMT and in polling mode, `shmem_cpuinfo__acquire_ncpus_from_cpu_subset` treats its owned CPUs that are idle, then
its owned CPUs that others guest, then CPUs of others that are lent and idle, each in the order of the array, and stops
when it has the number. `shmem_cpuinfo__borrow_ncpus_from_cpu_subset` takes the CPUs of the array that are lent and idle
in the same way (`number_in_order`). Each pass over a sub-array goes on from a list of CPUs that are taken
(`arrayLoop_takes`).
-/

namespace Dlb.Cpuinfo

open List

variable {S : System} {pid : Pid} {d : Shdata} {c : ℕ}

/-! ## Taking a list of CPUs -/

/-- The entry of a CPU that a process acquires or borrows. A CPU of another process keeps its state. -/
def takenInfo (pid : Pid) (i : CpuInfo) : CpuInfo :=
  if i.owner = pid then reclaimed pid i else { i with guest := pid }

/-- The process gets a CPU of another owner, or wants its own one back from a guest. -/
def Occupies (pid : Pid) (i : CpuInfo) : Prop := i.owner ≠ 0 ∧ (i.owner ≠ pid ∨ i.guest ≠ 0)

instance (pid : Pid) (i : CpuInfo) : Decidable (Occupies pid i) := inferInstanceAs (Decidable (_ ∧ _))

/-- `d` after the process has taken CPUs, one after the other. -/
def Shdata.takes (d : Shdata) (pid : Pid) (l : List ℕ) : Shdata :=
  { d with
    nodeInfo := fun c => if c ∈ l then takenInfo pid (d.nodeInfo c) else d.nodeInfo c
    freeCpus := {c ∈ d.freeCpus | ¬(c ∈ l ∧ (d.nodeInfo c).guest = 0)}
    occupiedCores := d.occupiedCores ∪ {c ∈ l.toFinset | Occupies pid (d.nodeInfo c)}
    tasks := d.tasks ++ l.flatMap fun c => reclaimTasks pid c (d.nodeInfo c) }

theorem takes_nil : d.takes pid [] = d := by
  unfold Shdata.takes
  simp

theorem takes_info_of_notMem {l : List ℕ} (hc : c ∉ l) : (d.takes pid l).nodeInfo c = d.nodeInfo c := if_neg hc

theorem takes_append {l l1 : List ℕ} (hl : l.Disjoint l1) : (d.takes pid l).takes pid l1 = d.takes pid (l ++ l1) := by
  have hsame {x : ℕ} (hx : x ∈ l1) : (d.takes pid l).nodeInfo x = d.nodeInfo x := takes_info_of_notMem fun h => hl h hx
  have hinfo : ((d.takes pid l).takes pid l1).nodeInfo = (d.takes pid (l ++ l1)).nodeInfo := by
    funext x
    by_cases hx1 : x ∈ l1
    · have hright : (d.takes pid (l ++ l1)).nodeInfo x = _ := if_pos (mem_append_right l hx1)
      rw [hright, ← hsame hx1]
      exact if_pos hx1
    · rw [takes_info_of_notMem hx1]
      simp [Shdata.takes, hx1]
  have hfree : ((d.takes pid l).takes pid l1).freeCpus = (d.takes pid (l ++ l1)).freeCpus := by
    ext x
    change x ∈ Finset.filter _ (Finset.filter _ _) ↔ x ∈ Finset.filter _ _
    rw [Finset.mem_filter, Finset.mem_filter, Finset.mem_filter, mem_append, and_assoc]
    refine and_congr_right fun _ => ?_
    by_cases hx1 : x ∈ l1
    · have hx : x ∉ l := fun h => hl h hx1
      rw [hsame hx1]
      tauto
    · tauto
  have hoccupied : ((d.takes pid l).takes pid l1).occupiedCores = (d.takes pid (l ++ l1)).occupiedCores := by
    ext x
    change x ∈ (d.occupiedCores ∪ Finset.filter _ _) ∪ Finset.filter _ _ ↔ x ∈ d.occupiedCores ∪ Finset.filter _ _
    rw [Finset.mem_union, Finset.mem_union, Finset.mem_union, Finset.mem_filter, Finset.mem_filter, Finset.mem_filter,
      mem_toFinset, mem_toFinset, mem_toFinset, mem_append]
    by_cases hx1 : x ∈ l1
    · rw [hsame hx1]
      tauto
    · tauto
  have htasks : ((d.takes pid l).takes pid l1).tasks = (d.takes pid (l ++ l1)).tasks := by
    change (d.tasks ++ _) ++ _ = d.tasks ++ _
    rw [append_assoc, flatMap_append]
    refine congrArg (d.tasks ++ ·) (congrArg (_ ++ ·) (flatMap_congr fun x hx => ?_))
    rw [hsame hx]
  calc (d.takes pid l).takes pid l1
      = { d with
          nodeInfo := ((d.takes pid l).takes pid l1).nodeInfo
          freeCpus := ((d.takes pid l).takes pid l1).freeCpus
          occupiedCores := ((d.takes pid l).takes pid l1).occupiedCores
          tasks := ((d.takes pid l).takes pid l1).tasks } := rfl
    _ = d.takes pid (l ++ l1) := by
        rw [hinfo, hfree, hoccupied, htasks]
        rfl

theorem eq_takes_singleton {d1 : Shdata} {i : CpuInfo} (hi : i = takenInfo pid (d.nodeInfo c))
    (heq : d1 = { d with
      nodeInfo := Function.update d.nodeInfo c i
      freeCpus := d1.freeCpus
      occupiedCores := d1.occupiedCores
      tasks := d.tasks ++ reclaimTasks pid c (d.nodeInfo c) })
    (hfree : d1.freeCpus = if (d.nodeInfo c).guest = 0 then d.freeCpus.erase c else d.freeCpus)
    (hoccupied : d1.occupiedCores = if Occupies pid (d.nodeInfo c) then insert c d.occupiedCores else d.occupiedCores) :
    d1 = d.takes pid [c] := by
  have hinfo : Function.update d.nodeInfo c i = (d.takes pid [c]).nodeInfo := by
    funext x
    by_cases hx : x = c
    · subst hx
      rw [Function.update_self, hi]
      exact (if_pos mem_cons_self).symm
    · rw [Function.update_of_ne hx]
      exact (if_neg (by simpa using hx)).symm
  have hfree' : d1.freeCpus = (d.takes pid [c]).freeCpus := by
    rw [hfree]
    ext x
    change _ ↔ x ∈ Finset.filter _ _
    rw [Finset.mem_filter, mem_singleton]
    split_ifs with hg
    · rw [Finset.mem_erase]
      constructor
      · exact fun h => ⟨h.2, fun h' => h.1 h'.1⟩
      · exact fun h => ⟨fun hx => h.2 ⟨hx, hx ▸ hg⟩, h.1⟩
    · refine (and_iff_left ?_).symm
      rintro ⟨rfl, h⟩
      exact hg h
  have hoccupied' : d1.occupiedCores = (d.takes pid [c]).occupiedCores := by
    rw [hoccupied]
    ext x
    change _ ↔ x ∈ d.occupiedCores ∪ Finset.filter _ _
    rw [Finset.mem_union, Finset.mem_filter, mem_toFinset, mem_singleton]
    split_ifs with ho
    · rw [Finset.mem_insert]
      constructor
      · rintro (rfl | h)
        · exact .inr ⟨rfl, ho⟩
        · exact .inl h
      · rintro (h | h)
        · exact .inr h
        · exact .inl h.1
    · refine (or_iff_left ?_).symm
      rintro ⟨rfl, h⟩
      exact ho h
  rw [heq, hinfo, hfree', hoccupied']
  unfold Shdata.takes
  rw [flatMap_singleton]

/-! ## One CPU -/

theorem noteOccupied_eq (hsmt : d.hwHasSmt = false) (hg : (d.nodeInfo c).guest ≠ 0) (ho : (d.nodeInfo c).owner ≠ 0)
    (hne : (d.nodeInfo c).guest ≠ (d.nodeInfo c).owner) :
    noteOccupied S d c = { d with occupiedCores := insert c d.occupiedCores } := by
  unfold noteOccupied
  split
  · have hocc : cpuIsOccupied d (d.nodeInfo c).owner c = true := decide_eq_true ⟨hg, ho, hne⟩
    unfold updateOccupiedCores occupiedUpdate
    rw [hsmt, if_neg Bool.false_ne_true, hocc, if_pos rfl]
  · rename_i hmem
    rw [not_not] at hmem
    rw [Finset.insert_eq_of_mem hmem]

theorem acquireCpu_owned (hsmt : d.hwHasSmt = false) (hp0 : pid ≠ 0) (ho : (d.nodeInfo c).owner = pid)
    (hg : (d.nodeInfo c).guest ≠ pid) : acquireCpu S pid d c =
      (d.takes pid [c], if (d.nodeInfo c).guest = 0 then .success else .noted) := by
  have htaken : takenInfo pid (d.nodeInfo c) = reclaimed pid (d.nodeInfo c) := if_pos ho
  unfold acquireCpu
  rw [if_neg hg, if_pos ho]
  by_cases hg0 : (d.nodeInfo c).guest = 0
  · have hno : ¬Occupies pid (d.nodeInfo c) := fun h => h.2.elim (fun h' => h' ho) fun h' => h' hg0
    rw [if_pos hg0, if_pos hg0]
    refine Prod.ext (eq_takes_singleton (i := { d.nodeInfo c with state := .busy, guest := pid }) ?_ ?_ ?_ ?_) rfl
    · rw [htaken]
      unfold reclaimed
      rw [if_pos hg0]
    · unfold reclaimTasks
      rw [if_neg hg, if_pos hg0]
      rfl
    · rw [if_pos hg0]
      rfl
    · rw [if_neg hno]
      rfl
  · have hyes : Occupies pid (d.nodeInfo c) := ⟨ho ▸ hp0, .inr hg0⟩
    have hrecall : (((d.set c { d.nodeInfo c with state := .busy }).recall pid c).nodeInfo c) =
        { d.nodeInfo c with state := .busy } := set_info _
    rw [if_neg hg0, if_neg hg0, noteOccupied_eq (by exact hsmt) (by rw [hrecall]; exact hg0)
      (by rw [hrecall]; exact ho ▸ hp0) (by rw [hrecall]; exact ho ▸ hg)]
    refine Prod.ext (eq_takes_singleton (i := { d.nodeInfo c with state := .busy }) ?_ ?_ ?_ ?_) rfl
    · rw [htaken]
      unfold reclaimed
      rw [if_neg hg0]
    · unfold reclaimTasks
      rw [if_neg hg, if_neg hg0]
      simp [Shdata.recall, Shdata.push, Shdata.set]
    · rw [if_neg hg0]
      rfl
    · rw [if_pos hyes]
      rfl

theorem borrowCpu_idle (hsmt : d.hwHasSmt = false) (hp0 : pid ≠ 0) (hidle : (d.nodeInfo c).Idle) :
    borrowCpu S pid d c = (d.takes pid [c], .success) := by
  have hg : (d.nodeInfo c).guest = 0 := hidle.2
  have hstate : (d.nodeInfo c).state ≠ .disabled := by
    rw [hidle.1]
    decide
  have heligible : coreIsEligible S d pid c = true := by
    unfold coreIsEligible
    simp [hsmt, hg]
  have hne : (d.nodeInfo c).guest ≠ pid := hg ▸ hp0.symm
  have htasks : reclaimTasks pid c (d.nodeInfo c) = [⟨.enableCpu, pid, c⟩] := by
    unfold reclaimTasks
    rw [if_neg hne, if_pos hg]
  unfold borrowCpu
  rw [if_neg hstate, if_pos ⟨hg, heligible⟩]
  by_cases ho : (d.nodeInfo c).owner = pid
  · have hno : ¬Occupies pid (d.nodeInfo c) := fun h => h.2.elim (fun h' => h' ho) fun h' => h' hg
    have htaken : takenInfo pid (d.nodeInfo c) = reclaimed pid (d.nodeInfo c) := if_pos ho
    rw [if_pos ho]
    refine Prod.ext (eq_takes_singleton (i := { d.nodeInfo c with state := .busy, guest := pid }) ?_ ?_ ?_ ?_) rfl
    · rw [htaken]
      unfold reclaimed
      rw [if_pos hg]
    · rw [htasks]
      rfl
    · rw [if_pos hg]
      rfl
    · rw [if_neg hno]
      rfl
  · have htaken : takenInfo pid (d.nodeInfo c) = { d.nodeInfo c with guest := pid } := if_neg ho
    have hwrite : ((((d.set c { d.nodeInfo c with guest := pid }).push .enableCpu pid c).clrFree c).nodeInfo c) =
        { d.nodeInfo c with guest := pid } := set_info _
    rw [if_neg ho, if_pos hidle.1]
    unfold noteOccupiedOwned
    rw [hwrite]
    by_cases ho0 : (d.nodeInfo c).owner = 0
    · have hno : ¬Occupies pid (d.nodeInfo c) := fun h => h.1 ho0
      rw [if_neg (not_not.mpr ho0)]
      refine Prod.ext (eq_takes_singleton (i := { d.nodeInfo c with guest := pid }) htaken.symm ?_ ?_ ?_) rfl
      · rw [htasks]
        rfl
      · rw [if_pos hg]
        rfl
      · rw [if_neg hno]
        rfl
    · have hyes : Occupies pid (d.nodeInfo c) := ⟨ho0, .inl ho⟩
      rw [if_pos ho0, noteOccupied_eq (by exact hsmt) (by rw [hwrite]; exact hp0) (by rw [hwrite]; exact ho0)
        (by rw [hwrite]; exact Ne.symm ho)]
      refine Prod.ext (eq_takes_singleton (i := { d.nodeInfo c with guest := pid }) htaken.symm ?_ ?_ ?_) rfl
      · rw [htasks]
        rfl
      · rw [if_pos hg]
        rfl
      · rw [if_pos hyes]
        rfl

/-! ## The loops -/

section Loops

variable {op : Shdata → ℕ → Shdata × DlbError} {core : Shdata → Option ℕ → Shdata × DlbError × ℕ} {p : ℕ → Bool}
  {code : DlbError}

/-- The operation takes the CPUs of a list with a property, and does nothing with the others. -/
structure TakesThose (op : Shdata → ℕ → Shdata × DlbError) (d : Shdata) (pid : Pid) (l : List ℕ) (p : ℕ → Bool)
    (code : DlbError) : Prop where
  takes : ∀ t, ∀ c ∈ l, c ∉ t → p c = true → op (d.takes pid t) c = (d.takes pid (t ++ [c]), code)
  leaves : ∀ t, ∀ c ∈ l, c ∉ t → p c = false → ∃ e, op (d.takes pid t) c = (d.takes pid t, e) ∧ done e = false

theorem mergeDone_mergeDone (error code : DlbError) : mergeDone (mergeDone error code) code = mergeDone error code := by
  unfold mergeDone
  split_ifs <;> simp_all

theorem arrayLoop_takes (hsmt : d.hwHasSmt = false) (hcode : done code = true) :
    ∀ (l t : List ℕ) (prev : Option ℕ) (n : ℤ) (error : DlbError), (t ++ l).Nodup → TakesThose op d pid l p code →
      arrayLoop S core op l prev (d.takes pid t) n error =
        (d.takes pid (t ++ (l.filter p).take n.toNat),
          if (l.filter p).take n.toNat = [] then error else mergeDone error code,
          n - ((l.filter p).take n.toNat).length)
  | [], t, _, n, error, _, _ => by simp [arrayLoop]
  | c :: rest, t, prev, n, error, hnodup, hop => by
    have hc : c ∉ t := fun h => (nodup_append.mp hnodup).2.2 c h c mem_cons_self rfl
    have hrest : TakesThose op d pid rest p code :=
      ⟨fun t x hx => hop.takes t x (mem_cons_of_mem c hx), fun t x hx => hop.leaves t x (mem_cons_of_mem c hx)⟩
    have hflag : (d.takes pid t).hwHasSmt = false := hsmt
    unfold arrayLoop
    by_cases hn : n ≤ 0
    · have hnone : n.toNat = 0 := by omega
      rw [if_pos hn, hnone]
      simp
    rw [if_neg hn, hflag, if_neg Bool.false_ne_true]
    cases hp : p c with
    | true =>
      have hnodup' : ((t ++ [c]) ++ rest).Nodup := by rwa [append_assoc, singleton_append]
      have htake : ((c :: rest).filter p).take n.toNat = c :: (rest.filter p).take (n - 1).toNat := by
        have hsucc : n.toNat = (n - 1).toNat + 1 := by omega
        rw [filter_cons_of_pos hp, hsucc, take_succ_cons]
      rw [hop.takes t c mem_cons_self hc hp, htake, if_pos hcode, if_neg (cons_ne_nil _ _),
        arrayLoop_takes hsmt hcode rest (t ++ [c]) prev (n - 1) _ hnodup' hrest, mergeDone_mergeDone, ite_self,
        append_assoc, singleton_append, length_cons]
      refine Prod.ext rfl (Prod.ext rfl ?_)
      dsimp only
      omega
    | false =>
      obtain ⟨e, heq, hdone⟩ := hop.leaves t c mem_cons_self hc hp
      have hnodup' : (t ++ rest).Nodup := hnodup.sublist (List.Sublist.append_left (sublist_cons_self c rest) t)
      have hno : ¬done e = true := by rw [hdone]; exact Bool.false_ne_true
      rw [heq, if_neg hno, filter_cons_of_neg (by simp [hp])]
      exact arrayLoop_takes hsmt hcode rest t prev n error hnodup' hrest

theorem stage_takes {loop : Shdata → List ℕ → ℤ → Shdata × DlbError × ℤ}
    (hloop : ∀ d l n, loop d l n = arrayLoop S core op l none d n .noupdt) (hsmt : d.hwHasSmt = false)
    (hcode : done code = true) {l t : List ℕ} (hnodup : (t ++ l).Nodup)
    (hop : TakesThose op d pid l (fun _ => true) code) (n : ℤ) (error : DlbError) :
    stage loop l (d.takes pid t, error, n) =
      (d.takes pid (t ++ l.take n.toNat), if l.take n.toNat = [] then error else mergeDone error code,
        n - (l.take n.toNat).length) := by
  unfold stage
  split
  · rename_i hnil
    simp [hnil]
  · have hmerge : mergeDone .noupdt code = code := if_neg nofun
    rw [hloop, arrayLoop_takes hsmt hcode l t none n .noupdt hnodup hop, filter_eq_self.mpr fun _ _ => rfl, hmerge]
    by_cases hnil : l.take n.toNat = []
    · rw [if_pos hnil, if_pos hnil]
      rfl
    · rw [if_neg hnil, if_neg hnil]
      dsimp only
      rw [if_pos hcode]

theorem acquires_takes (hsmt : d.hwHasSmt = false) (hp0 : pid ≠ 0) {l : List ℕ}
    (hl : ∀ c ∈ l, Wants pid (d.nodeInfo c) ∧ code = if (d.nodeInfo c).guest = 0 then .success else .noted) :
    TakesThose (acquireCpu S pid) d pid l (fun _ => true) code where
  takes := fun t c hc hct _ => by
    have hinfo : (d.takes pid t).nodeInfo c = d.nodeInfo c := takes_info_of_notMem hct
    obtain ⟨hwants, hcode⟩ := hl c hc
    rw [acquireCpu_owned (by exact hsmt) hp0 (by rw [hinfo]; exact hwants.1) (by rw [hinfo]; exact hwants.2), hinfo, ← hcode,
      takes_append (disjoint_singleton.mpr hct)]
  leaves := fun _ _ _ _ h => absurd h nofun

theorem borrows_takes (hsmt : d.hwHasSmt = false) (hp0 : pid ≠ 0)
    (hbusy : ∀ c, (d.nodeInfo c).guest = 0 → (d.nodeInfo c).state ≠ .busy) (l : List ℕ) :
    TakesThose (borrowCpu S pid) d pid l (fun c => (d.nodeInfo c).Idle) .success where
  takes := fun t c _ hct hidle => by
    have hinfo : (d.takes pid t).nodeInfo c = d.nodeInfo c := takes_info_of_notMem hct
    rw [borrowCpu_idle (by exact hsmt) hp0 (by rw [hinfo]; exact of_decide_eq_true hidle),
      takes_append (disjoint_singleton.mpr hct)]
  leaves := fun t c _ hct hidle => by
    have hinfo : (d.takes pid t).nodeInfo c = d.nodeInfo c := takes_info_of_notMem hct
    refine borrowCpu_of_not_idle (by rw [hinfo]; exact hbusy c) ?_
    rw [hinfo]
    exact of_decide_eq_false hidle

theorem borrowCpusInArray_takes (hsmt : d.hwHasSmt = false) (hp0 : pid ≠ 0)
    (hbusy : ∀ c, (d.nodeInfo c).guest = 0 → (d.nodeInfo c).state ≠ .busy) {l : List ℕ} (hl : l.Nodup) (n : ℤ) :
    borrowCpusInArray S pid d l n =
      (d.takes pid ((l.filter fun c => (d.nodeInfo c).Idle).take n.toNat),
        if (l.filter fun c => (d.nodeInfo c).Idle).take n.toNat = [] then .noupdt else .success,
        n - ((l.filter fun c => (d.nodeInfo c).Idle).take n.toNat).length) := by
  have hmerge : mergeDone .noupdt .success = .success := if_neg nofun
  have hborrows : TakesThose (borrowCpu S pid) d pid l (fun c => (d.nodeInfo c).Idle) .success :=
    borrows_takes hsmt hp0 hbusy l
  have hloop : arrayLoop S (borrowCore S pid) (borrowCpu S pid) l none (d.takes pid []) n .noupdt = _ :=
    arrayLoop_takes hsmt rfl l [] none n .noupdt hl hborrows
  rw [takes_nil, nil_append, hmerge] at hloop
  exact hloop

theorem TakesThose.all {l : List ℕ} (h : TakesThose op d pid l p code) (hl : ∀ c ∈ l, p c = true) :
    TakesThose op d pid l (fun _ => true) code :=
  ⟨fun t c hc hct _ => h.takes t c hc hct (hl c hc), fun _ _ _ _ h => absurd h nofun⟩

end Loops

/-! ## By number -/

/-- The process owns the CPU; a disabled one is not owned by any process. -/
def OwnedCpu (pid : Pid) (i : CpuInfo) : Prop := i.owner = pid ∧ i.state ≠ .disabled

instance (pid : Pid) (i : CpuInfo) : Decidable (OwnedCpu pid i) := inferInstanceAs (Decidable (_ ∧ _))

/-- The CPUs of an array in the order in which they are acquired: owned ones that nobody guests, owned ones that others
guest, ones of others that are lent and idle. -/
def acquireOrder (d : Shdata) (pid : Pid) (cpus : List ℕ) : List ℕ :=
  (cpus.filter fun c => OwnedCpu pid (d.nodeInfo c) ∧ (d.nodeInfo c).guest = 0) ++
    (cpus.filter fun c => OwnedCpu pid (d.nodeInfo c) ∧ (d.nodeInfo c).guest ≠ 0 ∧ (d.nodeInfo c).guest ≠ pid) ++
    cpus.filter fun c => (d.nodeInfo c).owner ≠ pid ∧ (d.nodeInfo c).Idle

/-- The code of an acquire that has treated some CPUs. -/
def acquireCode (d : Shdata) (pid : Pid) (treated : List ℕ) : DlbError :=
  if ∃ c ∈ treated, (d.nodeInfo c).owner = pid ∧ (d.nodeInfo c).guest ≠ 0 then .noted
  else if treated ≠ [] then .success
  else .noupdt

section Number

variable {w : Wish} {u : Unlocked} {n : ℤ}

theorem take_append_three (l1 l2 l3 : List ℕ) (n : ℤ) :
    (l1 ++ l2 ++ l3).take n.toNat = l1.take n.toNat ++ l2.take (n - (l1.take n.toNat).length).toNat ++
      l3.take (n - (l1.take n.toNat).length - (l2.take (n - (l1.take n.toNat).length).toNat).length).toNat := by
  have h1 : (n - (l1.take n.toNat).length).toNat = n.toNat - l1.length := by
    rw [length_take]
    omega
  have h2 : (n - (l1.take n.toNat).length - (l2.take (n - (l1.take n.toNat).length).toNat).length).toNat =
      n.toNat - (l1 ++ l2).length := by
    rw [h1, length_take, length_take, length_append]
    omega
  rw [h2, h1, take_append, take_append]

theorem mergeDone_three (t1 t2 t3 : List ℕ) :
    (if t3 = [] then if t2 = [] then if t1 = [] then .noupdt else mergeDone .noupdt .success
        else mergeDone (if t1 = [] then .noupdt else mergeDone .noupdt .success) .noted
      else mergeDone (if t2 = [] then if t1 = [] then .noupdt else mergeDone .noupdt .success
        else mergeDone (if t1 = [] then .noupdt else mergeDone .noupdt .success) .noted) .success) =
      if t2 ≠ [] then DlbError.noted else if t1 ++ t2 ++ t3 ≠ [] then .success else .noupdt := by
  by_cases h2 : t2 = []
  · by_cases h1 : t1 = [] <;> by_cases h3 : t3 = [] <;> simp [h1, h2, h3, mergeDone]
  · by_cases h1 : t1 = [] <;> by_cases h3 : t3 = [] <;> simp [h1, h2, h3, mergeDone]

theorem acquireStages_eq (hsmt : d.hwHasSmt = false) (hp0 : pid ≠ 0)
    (hbusy : ∀ c, (d.nodeInfo c).guest = 0 → (d.nodeInfo c).state ≠ .busy) (hnodup : w.cpusPriorityArray.Nodup) :
    (acquireStages S w d pid n).1 = d.takes pid ((acquireOrder d pid w.cpusPriorityArray).take n.toNat) ∧
      (acquireStages S w d pid n).2.1 = acquireCode d pid ((acquireOrder d pid w.cpusPriorityArray).take n.toNat) := by
  let idle := w.cpusPriorityArray.filter fun c => ownedIdle pid (d.nodeInfo c)
  let guested := w.cpusPriorityArray.filter fun c => ownedNonIdle pid (d.nodeInfo c)
  let others := w.cpusPriorityArray.filter fun c => nonOwned pid (d.nodeInfo c)
  have hidle {c : ℕ} (hc : c ∈ idle) : (d.nodeInfo c).owner = pid ∧ (d.nodeInfo c).guest = 0 :=
    (of_decide_eq_true (mem_filter.mp hc).2).2
  have hguested {c : ℕ} (hc : c ∈ guested) :
      (d.nodeInfo c).owner = pid ∧ (d.nodeInfo c).guest ≠ 0 ∧ (d.nodeInfo c).guest ≠ pid :=
    (of_decide_eq_true (mem_filter.mp hc).2).2
  have hothers {c : ℕ} (hc : c ∈ others) : (d.nodeInfo c).owner ≠ pid ∧ (d.nodeInfo c).Idle := by
    obtain ⟨hs, ho, hg⟩ := of_decide_eq_true (mem_filter.mp hc).2
    refine ⟨ho, ?_, hg⟩
    cases hstate : (d.nodeInfo c).state with
    | disabled => exact absurd hstate hs
    | busy => exact absurd hstate (hbusy c hg)
    | lent => rfl
  have horder : acquireOrder d pid w.cpusPriorityArray = idle ++ guested ++ others := by
    unfold acquireOrder OwnedCpu
    refine congrArg₂ _ (congrArg₂ _ ?_ ?_) ?_
    · exact filter_congr fun c _ => by
        exact decide_eq_decide.mpr (by tauto)
    · exact filter_congr fun c _ => by
        exact decide_eq_decide.mpr (by tauto)
    · refine filter_congr fun c hc => ?_
      refine decide_eq_decide.mpr ⟨fun h => ?_, fun h => ?_⟩
      · exact ⟨fun hs => absurd (h.2.1.symm.trans hs) nofun, h.1, h.2.2⟩
      · exact hothers (mem_filter.mpr ⟨hc, decide_eq_true h⟩)
  -- the CPUs that each pass takes
  have hnodup₁ : (([] : List ℕ) ++ idle).Nodup := hnodup.filter _
  have hnodup₂ : (idle ++ guested).Nodup := (hnodup.filter _).append (hnodup.filter _) fun c h h' =>
    (hguested h').2.1 (hidle h).2
  have hnodup₃ : ((idle ++ guested) ++ others).Nodup := hnodup₂.append (hnodup.filter _) fun c h h' => by
    rcases mem_append.mp h with h | h
    · exact (hothers h').1 (hidle h).1
    · exact (hothers h').1 (hguested h).1
  have hacquires₁ : TakesThose (acquireCpu S pid) d pid idle (fun _ => true) .success :=
    acquires_takes hsmt hp0 fun c hc => ⟨⟨(hidle hc).1, by rw [(hidle hc).2]; exact hp0.symm⟩, (if_pos (hidle hc).2).symm⟩
  have hacquires₂ : TakesThose (acquireCpu S pid) d pid guested (fun _ => true) .noted :=
    acquires_takes hsmt hp0 fun c hc => ⟨⟨(hguested hc).1, (hguested hc).2.2⟩, (if_neg (hguested hc).2.1).symm⟩
  have hborrows : TakesThose (borrowCpu S pid) d pid others (fun _ => true) .success :=
    (borrows_takes hsmt hp0 hbusy others).all fun c hc => decide_eq_true (hothers hc).2
  have hloop1 : ∀ d l n, acquireCpusInArray S pid d l n = arrayLoop S (acquireCore S pid) (acquireCpu S pid) l none d n
    .noupdt := fun _ _ _ => rfl
  have hloop3 : ∀ d l n, borrowCpusInArray S pid d l n = arrayLoop S (borrowCore S pid) (borrowCpu S pid) l none d n
    .noupdt := fun _ _ _ => rfl
  let t1 := idle.take n.toNat
  let n1 := n - t1.length
  let t2 := guested.take n1.toNat
  let n2 := n1 - t2.length
  let t3 := others.take n2.toNat
  have hfirst := stage_takes hloop1 hsmt rfl hnodup₁ hacquires₁ n .noupdt
  have hsecond := stage_takes hloop1 hsmt rfl (hnodup₂.sublist ((take_sublist n.toNat idle).append_right guested))
    hacquires₂ n1 (if t1 = [] then .noupdt else mergeDone .noupdt .success)
  have hthird := stage_takes hloop3 hsmt rfl (hnodup₃.sublist ((((take_sublist n.toNat idle).append
    (take_sublist n1.toNat guested))).append_right others)) hborrows n2
    (if t2 = [] then if t1 = [] then .noupdt else mergeDone .noupdt .success
      else mergeDone (if t1 = [] then .noupdt else mergeDone .noupdt .success) .noted)
  rw [takes_nil, nil_append] at hfirst
  have hstages : acquireStages S w d pid n = stage (borrowCpusInArray S pid) others
      (stage (acquireCpusInArray S pid) guested (stage (acquireCpusInArray S pid) idle (d, .noupdt, n))) := rfl
  have htreated : (acquireOrder d pid w.cpusPriorityArray).take n.toNat = t1 ++ t2 ++ t3 := by
    rw [horder]
    exact take_append_three idle guested others n
  rw [hstages, hfirst, hsecond, hthird, htreated]
  refine ⟨rfl, ?_⟩
  have hnoted : (∃ c ∈ t1 ++ t2 ++ t3, (d.nodeInfo c).owner = pid ∧ (d.nodeInfo c).guest ≠ 0) ↔ t2 ≠ [] := by
    constructor
    · rintro ⟨c, hc, ho, hg⟩ hnil
      rw [hnil, append_nil] at hc
      rcases mem_append.mp hc with hc | hc
      · exact hg (hidle (mem_of_mem_take hc)).2
      · exact (hothers (mem_of_mem_take hc)).1 ho
    · intro hnil
      obtain ⟨c, hc⟩ := exists_mem_of_ne_nil _ hnil
      exact ⟨c, mem_append_left _ (mem_append_right _ hc), (hguested (mem_of_mem_take hc)).1,
        (hguested (mem_of_mem_take hc)).2.1⟩
  unfold acquireCode
  rw [if_congr hnoted rfl rfl]
  exact mergeDone_three t1 t2 t3

theorem returnsEarly_false (hn : w.requestedNcpus = some n) (hpos : 0 < n) (hmax : w.maxParallelism = 0) :
    w.returnsEarly u pid false = false := by
  unfold Wish.returnsEarly
  rw [hn, hmax]
  simp [hpos]

theorem ncpus_eq (hn : w.requestedNcpus = some n) (hmax : w.maxParallelism = 0) : w.ncpus S u pid = n := by
  have hleft : w.parallelismLeft u pid = 0 := if_pos hmax
  unfold Wish.ncpus
  rw [hleft, hn, if_neg (lt_irrefl 0)]
  rfl

/-- **The first CPUs in the order of priority** are treated by `shmem_cpuinfo__acquire_ncpus_from_cpu_subset` and
`shmem_cpuinfo__borrow_ncpus_from_cpu_subset`, and no other CPU. -/
theorem number_in_order (S : System) (co : Caller) (hp0 : pid ≠ 0) (hsmt : d.hwHasSmt = false) (hpoll : d.queuesEnabled = false)
    (hfree : ∀ c, c ∈ d.freeCpus ↔ (d.nodeInfo c).Idle)
    (hbusy : ∀ c, (d.nodeInfo c).guest = 0 → (d.nodeInfo c).state ≠ .busy) (hnodup : w.cpusPriorityArray.Nodup)
    (hn : w.requestedNcpus = some n) (hpos : 0 < n) (hmax : w.maxParallelism = 0) (hstale : w.stale u = false) :
    (let treated := (acquireOrder d pid w.cpusPriorityArray).take n.toNat;
      (shmemAcquireNcpusFromCpuSubset S co d pid w u).1 = d.takes pid treated ∧
        (shmemAcquireNcpusFromCpuSubset S co d pid w u).2.error = acquireCode d pid treated) ∧
      (w.lewiAffinity ≠ .spreadIfempty →
        let taken := (w.cpusPriorityArray.filter fun c => (d.nodeInfo c).Idle).take n.toNat;
        (shmemBorrowNcpusFromCpuSubset S co d pid w u).1 = d.takes pid taken ∧
          (shmemBorrowNcpusFromCpuSubset S co d pid w u).2.error = if taken = [] then .noupdt else .success) := by
  have hncpus : w.ncpus S u pid = n := ncpus_eq hn hmax
  have hgo : ¬w.returnsEarly u pid false = true := by
    rw [returnsEarly_false hn hpos hmax]
    exact Bool.false_ne_true
  constructor
  · obtain ⟨hshm, hcode⟩ := acquireStages_eq (S := S) (n := n) hsmt hp0 hbusy hnodup
    have hpoll' : (acquireStages S w d pid n).1.queuesEnabled = false := by
      rw [hshm]
      exact hpoll
    have hnone : addPetitions w pid (acquireStages S w d pid n) =
        ((acquireStages S w d pid n).1, (acquireStages S w d pid n).2.1) := by
      unfold addPetitions
      rw [hpoll', if_neg Bool.false_ne_true]
    unfold shmemAcquireNcpusFromCpuSubset
    rw [hstale, Bool.false_and, if_neg hgo, hncpus, hnone, hshm, hcode]
    exact ⟨rfl, rfl⟩
  · intro haffinity
    have hnodes (r : Shdata × DlbError × ℤ) : borrowFreeNodes S w pid r = r := if_neg fun h => haffinity h.1
    unfold shmemBorrowNcpusFromCpuSubset
    dsimp only
    rw [hstale, if_neg hgo, hncpus, hnodes]
    by_cases hempty : d.freeCpus = ∅
    · have hnone : (w.cpusPriorityArray.filter fun c => (d.nodeInfo c).Idle) = [] := by
        refine filter_eq_nil_iff.mpr fun c _ hc => ?_
        have hmem : c ∈ d.freeCpus := (hfree c).mpr (of_decide_eq_true hc)
        rw [hempty] at hmem
        exact Finset.notMem_empty c hmem
      rw [if_pos hempty, borrowCpusInArray_takes hsmt hp0 hbusy hnodup, hnone, take_nil, take_nil]
      exact ⟨rfl, rfl⟩
    · rw [if_neg hempty, borrowCpusInArray_takes hsmt hp0 hbusy hnodup]
      exact ⟨rfl, rfl⟩

/-- A process owns two CPUs and has lent both: nobody guests CPU `0`, another process guests CPU `1`. That process has
lent CPU `2`. -/
def bothLent : Shdata where
  freeCpus := {0, 2}
  occupiedCores := {1}
  nodeInfo := fun
    | 0 => { owner := 7, guest := 0, state := .lent }
    | 1 => { owner := 7, guest := 8, state := .lent }
    | 2 => { owner := 8, guest := 0, state := .lent }
    | _ => {}

/-- Two CPUs are asked for, in an array that starts with the other process' CPU. -/
theorem number_in_order_bothLent :
    let wish : Wish := { requestedNcpus := some 2, cpusPriorityArray := [2, 1, 0] }
    (shmemAcquireNcpusFromCpuSubset unevenCores {} bothLent 7 wish bothLent.unlocked).1 = bothLent.takes 7 [0, 1] ∧
      (shmemAcquireNcpusFromCpuSubset unevenCores {} bothLent 7 wish bothLent.unlocked).2.error = .noted ∧
      (shmemBorrowNcpusFromCpuSubset unevenCores {} bothLent 7 wish bothLent.unlocked).1 = bothLent.takes 7 [2, 0] := by
  have hfree (c : ℕ) : c ∈ bothLent.freeCpus ↔ (bothLent.nodeInfo c).Idle := match c with
    | 0 | 1 | 2 => by decide
    | c + 3 => by simp [bothLent, CpuInfo.Idle]
  have hbusy (c : ℕ) : (bothLent.nodeInfo c).guest = 0 → (bothLent.nodeInfo c).state ≠ .busy := match c with
    | 0 | 1 | 2 => by decide
    | c + 3 => by simp [bothLent]
  have h := number_in_order (w := { requestedNcpus := some 2, cpusPriorityArray := [2, 1, 0] }) (u := bothLent.unlocked)
    unevenCores {} (by decide : (7 : Pid) ≠ 0) rfl rfl hfree hbusy (by decide) rfl (by decide) rfl rfl
  exact ⟨h.1.1, h.1.2, (h.2 (by decide)).1⟩

end Number

end Dlb.Cpuinfo

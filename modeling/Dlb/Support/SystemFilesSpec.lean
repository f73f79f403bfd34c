import Dlb.Support.SystemFiles
import Dlb.Support.MaskTextSpec
import Mathlib.Data.Finset.Sort

/-!
# The order of the directories does not matter

`Filled T s slots relocated` says what the table of cores holds when the CPUs of `s` have been read, in whatever
order; one more directory keeps it (`saveCore_filled`). Where two tables can still differ is where relocated masks
are, and the reordering at the end takes that away (`filled_unique`, `parseCores_unique`).
-/

namespace Dlb

open List

/-- What the system files say about a machine. The siblings of a CPU are the CPUs of its core. -/
structure Topology (ncpus : ℕ) where
  cpus : CpuSet
  nonempty : cpus.Nonempty
  fits : ∀ c ∈ cpus, c < dlbCpuidInvalid ncpus
  coreId : ℕ → ℕ
  siblings : ℕ → CpuSet
  self : ∀ c ∈ cpus, c ∈ siblings c
  inside : ∀ c ∈ cpus, siblings c ⊆ cpus
  share : ∀ c ∈ cpus, ∀ x ∈ siblings c, siblings x = siblings c ∧ coreId x = coreId c
  nodes : Finset ℕ
  nodeMask : ℕ → CpuSet
  nodeIds : ∀ n ∈ nodes, n ≤ 1024

namespace Topology

variable {ncpus : ℕ} (T : Topology ncpus)

def system : System := systemOf T.cpus

def cpuDir (c : ℕ) : CpuDir := ⟨T.coreId c, T.siblings c⟩

def nodeDir (n : ℕ) : NodeDir := ⟨n, T.nodeMask n⟩

def UniqueIds : Prop := ∀ c ∈ T.cpus, ∀ d ∈ T.cpus, T.coreId c = T.coreId d → T.siblings c = T.siblings d

def coresOf (s : Finset ℕ) : Finset CpuSet := s.image T.siblings

/-- The number of slots that the core ids of some CPUs take. -/
def idSlots (s : Finset ℕ) : ℕ := s.sup (T.coreId · + 1)

variable {T} {s : Finset ℕ} {c d : ℕ}

theorem siblings_nonempty (hc : c ∈ T.cpus) : (T.siblings c).Nonempty := ⟨c, T.self c hc⟩

theorem empty_notMem_coresOf (hs : s ⊆ T.cpus) : ∅ ∉ T.coresOf s := by
  intro h
  obtain ⟨c, hc, he⟩ := Finset.mem_image.mp h
  exact (siblings_nonempty (hs hc)).ne_empty he

theorem coresOf_insert : T.coresOf (insert c s) = insert (T.siblings c) (T.coresOf s) := Finset.image_insert ..

theorem idSlots_insert : T.idSlots (insert c s) = max (T.coreId c + 1) (T.idSlots s) := Finset.sup_insert

theorem coreId_lt_idSlots (hc : c ∈ s) : T.coreId c < T.idSlots s := Finset.le_sup (f := (T.coreId · + 1)) hc

theorem siblings_eq (hc : c ∈ T.cpus) (hd : d ∈ T.cpus) {x : ℕ} (hxc : x ∈ T.siblings c) (hxd : x ∈ T.siblings d) :
    T.siblings c = T.siblings d :=
  (T.share c hc x hxc).1.symm.trans (T.share d hd x hxd).1

theorem coreId_eq (hc : c ∈ T.cpus) (hd : d ∈ T.cpus) (h : T.siblings c = T.siblings d) : T.coreId c = T.coreId d :=
  (T.share d hd c (h ▸ T.self c hc)).2

end Topology

/-! ## The table of the masks themselves -/

/-- The slots after one more directory, and whether a mask has been relocated: `saveCore` on the masks. -/
def placeCore (slots : List CpuSet) (relocated : Bool) (id : ℕ) (mask : CpuSet) : List CpuSet × Bool :=
  let slots := slots ++ replicate (id + 1 - slots.length) ∅
  if slots[id]? = some ∅ then (slots.set id mask, relocated)
  else if mask ∈ slots then (slots, relocated)
  else
    match slots.findIdx? (· = ∅) with
    | some newId => (slots.set newId mask, true)
    | none => (slots ++ [mask], true)

/-- What a table with room for at least `n` slots holds after the CPUs of `s`. -/
structure Filled {ncpus : ℕ} (T : Topology ncpus) (n : ℕ) (s : Finset ℕ) (slots : List CpuSet) (relocated : Bool) :
    Prop where
  entries : ∃ k, slots.Perm (replicate k ∅ ++ (T.coresOf s).toList)
  length : slots.length = max n (max (T.idSlots s) (T.coresOf s).card)
  taken : ∀ c ∈ s, ∃ m, slots[T.coreId c]? = some m ∧ m ≠ ∅
  own : relocated = false → ∀ i m, slots[i]? = some m → m ≠ ∅ → ∃ c ∈ s, T.coreId c = i ∧ T.siblings c = m
  clash : relocated = true → ∃ c ∈ s, ∃ d ∈ s, T.coreId c = T.coreId d ∧ T.siblings c ≠ T.siblings d

theorem set_perm {l : List CpuSet} {i : ℕ} {m : CpuSet} {M : List CpuSet} {k : ℕ} (hi : l[i]? = some ∅)
    (hl : l.Perm (replicate k ∅ ++ M)) (hM : ∅ ∉ M) : ∃ k', (l.set i m).Perm (replicate k' ∅ ++ (m :: M)) := by
  obtain ⟨hlt, hget⟩ := List.getElem?_eq_some_iff.mp hi
  have hmem : (∅ : CpuSet) ∈ replicate k (∅ : CpuSet) := by
    have := hl.mem_iff.mp (mem_of_getElem? hi)
    exact (mem_append.mp this).resolve_right hM
  obtain ⟨k', rfl⟩ : ∃ k', k = k' + 1 := by
    cases k with
    | zero => cases hmem
    | succ k' => exact ⟨k', rfl⟩
  refine ⟨k', ?_⟩
  have hsplit : l = l.take i ++ ∅ :: l.drop (i + 1) := by
    rw [← hget, ← drop_eq_getElem_cons hlt, take_append_drop]
  have hrest : (l.take i ++ l.drop (i + 1)).Perm (replicate k' ∅ ++ M) := by
    refine List.Perm.cons_inv (a := ∅) ?_
    refine perm_middle.symm.trans ?_
    rw [← hsplit]
    exact hl
  rw [set_eq_take_append_cons_drop, if_pos hlt]
  exact (perm_middle.trans (hrest.cons m)).trans perm_middle.symm

section Filled

variable {ncpus n j : ℕ} {T : Topology ncpus} {s : Finset ℕ} {slots : List CpuSet} {relocated : Bool} {c : ℕ} {m : CpuSet}

theorem Filled.mem_iff (h : Filled T n s slots relocated) (hm : m ≠ ∅) : m ∈ slots ↔ m ∈ T.coresOf s := by
  obtain ⟨k, hk⟩ := h.entries
  rw [hk.mem_iff, mem_append, Finset.mem_toList]
  exact or_iff_right fun hr => hm (eq_of_mem_replicate hr)

theorem Filled.clash_insert (h : Filled T n s slots relocated) (hr : relocated = true) :
    ∃ x ∈ insert c s, ∃ y ∈ insert c s, T.coreId x = T.coreId y ∧ T.siblings x ≠ T.siblings y := by
  obtain ⟨x, hx, y, hy, hxy⟩ := h.clash hr
  exact ⟨x, Finset.mem_insert_of_mem hx, y, Finset.mem_insert_of_mem hy, hxy⟩

theorem Filled.grow (h : Filled T 0 s slots relocated) (n : ℕ) :
    Filled T n s (slots ++ replicate (n - slots.length) ∅) relocated := by
  have hget : ∀ (i : ℕ) (m : CpuSet), m ≠ ∅ → ((slots ++ replicate (n - slots.length) ∅)[i]? = some m ↔ slots[i]? = some m) := by
    intro i m hm
    rw [getElem?_append]
    split
    · rfl
    · rename_i hlt
      rw [getElem?_eq_none (not_lt.mp hlt)]
      exact ⟨fun hr => absurd (eq_of_mem_replicate (mem_of_getElem? hr)) hm, nofun⟩
  obtain ⟨k, hk⟩ := h.entries
  refine ⟨⟨n - slots.length + k, ?_⟩, ?_, fun c hc => ?_, fun hr i m hi hm => ?_, h.clash⟩
  · rw [replicate_add, append_assoc]
    exact perm_append_comm.trans (hk.append_left _)
  · rw [length_append, length_replicate, h.length]
    omega
  · obtain ⟨m, hm, hne⟩ := h.taken c hc
    exact ⟨m, (hget _ m hne).mpr hm, hne⟩
  · exact h.own hr i m ((hget i m hm).mp hi) hm

theorem Filled.taken_of_mem (h : Filled T n s slots relocated) (hs : s ⊆ T.cpus) (hc : c ∈ T.cpus)
    (hin : T.siblings c ∈ T.coresOf s) : T.coreId c < T.idSlots s ∧ ∃ m, slots[T.coreId c]? = some m ∧ m ≠ ∅ := by
  obtain ⟨x, hx, hxc⟩ := Finset.mem_image.mp hin
  rw [← Topology.coreId_eq (hs hx) hc hxc]
  exact ⟨Topology.coreId_lt_idSlots hx, h.taken x hx⟩

theorem Filled.again (h : Filled T (T.coreId c + 1) s slots relocated) (hs : s ⊆ T.cpus) (hc : c ∈ T.cpus)
    (hin : T.siblings c ∈ T.coresOf s) : Filled T 0 (insert c s) slots relocated := by
  obtain ⟨hid, m, hm, hne⟩ := h.taken_of_mem hs hc hin
  have hcores : T.coresOf (insert c s) = T.coresOf s := by
    rw [Topology.coresOf_insert, Finset.insert_eq_self.mpr hin]
  have hids : T.idSlots (insert c s) = T.idSlots s := by
    rw [Topology.idSlots_insert]
    exact max_eq_right hid
  refine ⟨hcores ▸ h.entries, ?_, fun y hy => ?_, fun hr i m hi hm => ?_, h.clash_insert⟩
  · rw [hcores, hids, h.length]
    omega
  · rcases Finset.mem_insert.mp hy with rfl | hy
    · exact ⟨m, hm, hne⟩
    · exact h.taken y hy
  · obtain ⟨y, hy, hown⟩ := h.own hr i m hi hm
    exact ⟨y, Finset.mem_insert_of_mem hy, hown⟩

theorem Filled.set_entries (h : Filled T (T.coreId c + 1) s slots relocated) (hs : s ⊆ T.cpus)
    (hnew : T.siblings c ∉ T.coresOf s) (hj : slots[j]? = some ∅) :
    (∃ k, (slots.set j (T.siblings c)).Perm (replicate k ∅ ++ (T.coresOf (insert c s)).toList)) ∧
      (slots.set j (T.siblings c)).length = max 0 (max (T.idSlots (insert c s)) (T.coresOf (insert c s)).card) := by
  obtain ⟨k, hk⟩ := h.entries
  have hempty : ∅ ∉ (T.coresOf s).toList := by
    rw [Finset.mem_toList]
    exact Topology.empty_notMem_coresOf hs
  obtain ⟨k', hk'⟩ := set_perm hj hk hempty (m := T.siblings c)
  refine ⟨⟨k', hk'.trans (List.Perm.append_left _ ?_)⟩, ?_⟩
  · rw [Topology.coresOf_insert]
    exact (Finset.toList_insert hnew).symm
  · have hlen := hk'.length_eq
    rw [length_set, length_append, length_replicate, length_cons, Finset.length_toList] at hlen
    rw [length_set, Topology.idSlots_insert, Topology.coresOf_insert, Finset.card_insert_of_notMem hnew, h.length]
    have := h.length
    omega

theorem Filled.set_taken (h : Filled T n s slots relocated) (hc : c ∈ T.cpus) {x : ℕ} (hx : x ∈ s) :
    ∃ m, (slots.set j (T.siblings c))[T.coreId x]? = some m ∧ m ≠ ∅ := by
  obtain ⟨m, hm, hne⟩ := h.taken x hx
  by_cases hj : j = T.coreId x
  · subst hj
    exact ⟨_, List.getElem?_set_self (List.getElem?_eq_some_iff.mp hm).1, (Topology.siblings_nonempty hc).ne_empty⟩
  · exact ⟨m, by rw [getElem?_set_ne hj, hm], hne⟩

theorem Filled.save (h : Filled T (T.coreId c + 1) s slots relocated) (hs : s ⊆ T.cpus) (hc : c ∈ T.cpus)
    (hnew : T.siblings c ∉ T.coresOf s) (hfree : slots[T.coreId c]? = some ∅) :
    Filled T 0 (insert c s) (slots.set (T.coreId c) (T.siblings c)) relocated := by
  have hself := List.getElem?_set_self (a := T.siblings c) (List.getElem?_eq_some_iff.mp hfree).1
  obtain ⟨hentries, hlen⟩ := h.set_entries hs hnew hfree
  refine ⟨hentries, hlen, fun x hx => ?_, fun hr i m hi hm => ?_, h.clash_insert⟩
  · rcases Finset.mem_insert.mp hx with rfl | hx
    · exact ⟨_, hself, (Topology.siblings_nonempty hc).ne_empty⟩
    · exact h.set_taken hc hx
  · by_cases hid : T.coreId c = i
    · subst hid
      rw [hself] at hi
      exact ⟨c, Finset.mem_insert_self .., rfl, Option.some.inj hi⟩
    · rw [getElem?_set_ne hid] at hi
      obtain ⟨x, hx, hown⟩ := h.own hr i m hi hm
      exact ⟨x, Finset.mem_insert_of_mem hx, hown⟩

theorem Filled.clashes (h : Filled T n s slots relocated) (hnew : T.siblings c ∉ T.coresOf s)
    (hm : slots[T.coreId c]? = some m) (hne : m ≠ ∅) :
    ∃ x ∈ insert c s, ∃ y ∈ insert c s, T.coreId x = T.coreId y ∧ T.siblings x ≠ T.siblings y := by
  cases hr : relocated with
  | true => exact h.clash_insert hr
  | false =>
    obtain ⟨x, hx, hid, hown⟩ := h.own hr _ m hm hne
    refine ⟨x, Finset.mem_insert_of_mem hx, c, Finset.mem_insert_self .., hid, fun he => hnew ?_⟩
    exact he ▸ Finset.mem_image_of_mem _ hx

theorem Filled.relocate (h : Filled T (T.coreId c + 1) s slots relocated) (hs : s ⊆ T.cpus) (hc : c ∈ T.cpus)
    (hnew : T.siblings c ∉ T.coresOf s) (hm : slots[T.coreId c]? = some m) (hne : m ≠ ∅) (hfree : slots[j]? = some ∅) :
    Filled T 0 (insert c s) (slots.set j (T.siblings c)) true := by
  obtain ⟨hentries, hlen⟩ := h.set_entries hs hnew hfree
  refine ⟨hentries, hlen, fun x hx => ?_, nofun, fun _ => h.clashes hnew hm hne⟩
  rcases Finset.mem_insert.mp hx with rfl | hx
  · have hj : j ≠ T.coreId x := by
      rintro rfl
      exact hne (Option.some.inj (hm.symm.trans hfree))
    exact ⟨m, by rw [getElem?_set_ne hj, hm], hne⟩
  · exact h.set_taken hc hx

theorem Filled.append (h : Filled T (T.coreId c + 1) s slots relocated) (hnew : T.siblings c ∉ T.coresOf s)
    (hm : slots[T.coreId c]? = some m) (hne : m ≠ ∅) (hfull : ∅ ∉ slots) :
    Filled T 0 (insert c s) (slots ++ [T.siblings c]) true := by
  obtain ⟨k, hk⟩ := h.entries
  have hk0 : k = 0 := by
    by_contra hk0
    exact hfull (hk.mem_iff.mpr (mem_append_left _ (mem_replicate.mpr ⟨hk0, rfl⟩)))
  rw [hk0, replicate_zero, nil_append] at hk
  have hcard : slots.length = (T.coresOf s).card := by rw [hk.length_eq, Finset.length_toList]
  have happ : ∀ (i : ℕ) (m : CpuSet), slots[i]? = some m → (slots ++ [T.siblings c])[i]? = some m := by
    intro i m hi
    rw [List.getElem?_append_left (List.getElem?_eq_some_iff.mp hi).1, hi]
  refine ⟨⟨0, ?_⟩, ?_, fun x hx => ?_, nofun, fun _ => h.clashes hnew hm hne⟩
  · rw [replicate_zero, nil_append, Topology.coresOf_insert]
    exact (perm_append_comm.trans (hk.cons _)).trans (Finset.toList_insert hnew).symm
  · have := h.length
    rw [length_append, length_singleton, Topology.idSlots_insert, Topology.coresOf_insert,
      Finset.card_insert_of_notMem hnew]
    omega
  · rcases Finset.mem_insert.mp hx with rfl | hx
    · exact ⟨m, happ _ m hm, hne⟩
    · obtain ⟨m, hm, hne⟩ := h.taken x hx
      exact ⟨m, happ _ m hm, hne⟩

theorem placeCore_filled (h : Filled T 0 s slots relocated) (hs : s ⊆ T.cpus) (hc : c ∈ T.cpus) :
    Filled T 0 (insert c s) (placeCore slots relocated (T.coreId c) (T.siblings c)).1
      (placeCore slots relocated (T.coreId c) (T.siblings c)).2 := by
  have hne := (Topology.siblings_nonempty hc).ne_empty
  unfold placeCore
  have hgrown := h.grow (T.coreId c + 1)
  generalize slots ++ replicate (T.coreId c + 1 - slots.length) ∅ = grown at hgrown
  dsimp only
  split
  · rename_i hfree
    refine hgrown.save hs hc (fun hin => ?_) hfree
    obtain ⟨-, m, hm, hm'⟩ := hgrown.taken_of_mem hs hc hin
    exact hm' (Option.some.inj (hm.symm.trans hfree))
  · rename_i hbusy
    split
    · rename_i hin
      exact hgrown.again hs hc ((hgrown.mem_iff hne).mp hin)
    · rename_i hout
      have hnew : T.siblings c ∉ T.coresOf s := fun hin => hout ((hgrown.mem_iff hne).mpr hin)
      have hid : T.coreId c < grown.length := by
        have := hgrown.length
        omega
      have hm := getElem?_eq_getElem hid
      have hm' : grown[T.coreId c] ≠ ∅ := fun he => hbusy (he ▸ hm)
      split
      · rename_i j hj
        obtain ⟨hlt, hp, -⟩ := findIdx?_eq_some_iff_getElem.mp hj
        refine hgrown.relocate hs hc hnew hm hm' ?_
        rw [getElem?_eq_getElem hlt]
        exact congrArg some (by simpa using hp)
      · rename_i hnone
        refine hgrown.append hnew hm hm' fun hmem => ?_
        simpa using findIdx?_eq_none_iff.mp hnone ∅ hmem

/-! ## When all directories are read -/

theorem Filled.relocated_iff (h : Filled T 0 T.cpus slots relocated) : relocated = true ↔ ¬T.UniqueIds := by
  constructor
  · intro hr hu
    obtain ⟨c, hc, d, hd, hid, hne⟩ := h.clash hr
    exact hne (hu c hc d hd hid)
  · intro hu
    by_contra hr
    have hr' : relocated = false := by simpa using hr
    refine hu fun c hc d hd hid => ?_
    have hat : ∀ x ∈ T.cpus, slots[T.coreId x]? = some (T.siblings x) := by
      intro x hx
      have hne := (Topology.siblings_nonempty hx).ne_empty
      have hin : T.siblings x ∈ slots := (h.mem_iff hne).mpr (Finset.mem_image_of_mem _ hx)
      obtain ⟨i, hi⟩ := mem_iff_getElem?.mp hin
      obtain ⟨y, hy, hyi, hyx⟩ := h.own hr' i _ hi hne
      rw [← Topology.coreId_eq hy hx hyx, hyi]
      exact hi
    have := (hat c hc).symm.trans (hid ▸ hat d hd)
    exact Option.some.inj this

theorem Filled.getElem_coreId (h : Filled T 0 T.cpus slots false) (hc : c ∈ T.cpus) :
    slots[T.coreId c]? = some (T.siblings c) := by
  obtain ⟨m, hm, hne⟩ := h.taken c hc
  obtain ⟨d, hd, hid, hdm⟩ := h.own rfl _ m hm hne
  have hu : T.UniqueIds := by
    by_contra hu
    exact absurd (h.relocated_iff.mpr hu) (by decide)
  rw [hm, ← hdm, hu d hd c hc hid]

theorem filled_unique {slots' : List CpuSet} {relocated' : Bool} (h : Filled T 0 T.cpus slots relocated)
    (h' : Filled T 0 T.cpus slots' relocated') :
    relocated = relocated' ∧ slots.Perm slots' ∧ (relocated = false → slots = slots') := by
  have hr : relocated = relocated' := by
    rw [Bool.eq_iff_iff, h.relocated_iff, h'.relocated_iff]
  have hlen : slots.length = slots'.length := h.length.trans h'.length.symm
  refine ⟨hr, ?_, fun hf => ?_⟩
  · obtain ⟨k, hk⟩ := h.entries
    obtain ⟨k', hk'⟩ := h'.entries
    have : k = k' := by
      have h1 := hk.length_eq
      have h2 := hk'.length_eq
      simp only [length_append, length_replicate] at h1 h2
      omega
    exact hk.trans (this ▸ hk'.symm)
  · subst hr
    subst hf
    have hsub : ∀ {a b : List CpuSet}, Filled T 0 T.cpus a false → Filled T 0 T.cpus b false →
        ∀ (i : ℕ) (m : CpuSet), a[i]? = some m → m ≠ ∅ → b[i]? = some m := by
      intro a b ha hb i m hi hne
      obtain ⟨c, hc, rfl, rfl⟩ := ha.own rfl i m hi hne
      exact hb.getElem_coreId hc
    refine ext_getElem? fun i => ?_
    by_cases hi : i < slots.length
    · have hi' : i < slots'.length := hlen ▸ hi
      rw [getElem?_eq_getElem hi, getElem?_eq_getElem hi', Option.some_inj]
      by_cases hne : slots[i] = ∅
      · by_contra hdiff
        have := hsub h' h i _ (getElem?_eq_getElem hi') (fun he => hdiff (hne.trans he.symm))
        rw [getElem?_eq_getElem hi] at this
        exact hdiff (Option.some.inj this)
      · have := hsub h h' i _ (getElem?_eq_getElem hi) hne
        rw [getElem?_eq_getElem hi'] at this
        exact (Option.some.inj this).symm
    · rw [getElem?_eq_none (by omega), getElem?_eq_none (by omega)]

end Filled

/-! ## The masks as `mu_cpuset_t` -/

theorem toCpuid_of_le {ncpus x : ℕ} (h : x ≤ dlbCpuidInvalid ncpus) : toCpuid ncpus x = x := by
  unfold toCpuid
  rw [Int.emod_eq_of_lt (by omega) (by omega), Int.toNat_natCast]

theorem toCpuid_neg_one (ncpus : ℕ) : toCpuid ncpus (-1) = dlbCpuidInvalid ncpus := by
  unfold toCpuid dlbCpuidInvalid
  split <;> decide

section Cpuset

variable {ncpus : ℕ} {T : Topology ncpus} {m m' : CpuSet}

/-- `mu_cpuset_from_glibc_sched_affinity` on the machine. -/
def Topology.cpuset (T : Topology ncpus) (m : CpuSet) : MuCpuset := muCpusetFromGlibcSchedAffinity ncpus T.system m

theorem fits_system (hm : m ⊆ T.cpus) : Fits T.system m := fits_of_subset (S := T.system) hm

theorem cpuset_set (hm : m ⊆ T.cpus) : (T.cpuset m).set = m := Finset.filter_true_of_mem (fits_system hm)

theorem cpuset_count (hm : m ⊆ T.cpus) : (T.cpuset m).count = m.card := by
  have hcount : muCount T.system m = m.card := by
    unfold muCount
    rw [Finset.filter_true_of_mem (fits_system hm)]
  have hsub : m ⊆ Finset.range (dlbCpuidInvalid ncpus) := fun c hc => Finset.mem_range.mpr (T.fits c (hm hc))
  have hcard := Finset.card_le_card hsub
  rw [Finset.card_range] at hcard
  change toCpuid ncpus (muCount T.system m : ℕ) = m.card
  rw [hcount, toCpuid_of_le hcard]

theorem cpuset_count_eq_zero (hm : m ⊆ T.cpus) : (T.cpuset m).count = 0 ↔ m = ∅ := by
  rw [cpuset_count hm, Finset.card_eq_zero]

theorem cpuset_firstCpuid (hm : m ⊆ T.cpus) (hne : m.Nonempty) : (T.cpuset m).firstCpuid = m.min' hne := by
  have hf := muGetFirstCpu_finds T.system m
  change toCpuid ncpus ((muGetFirstCpu T.system m).elim (-1) (↑)) = _
  cases hr : muGetFirstCpu T.system m with
  | none =>
    rw [hr] at hf
    obtain ⟨c, hc⟩ := hne
    exact absurd ⟨hc, fits_system hm c hc⟩ (hf c)
  | some c =>
    rw [hr] at hf
    have hc := hf.1.1
    have heq : m.min' hne = c :=
      le_antisymm (Finset.min'_le _ _ hc) (Finset.le_min' _ _ _ fun x hx => hf.2 x ⟨hx, fits_system hm x hx⟩)
    rw [heq]
    exact toCpuid_of_le (T.fits c (hm hc)).le

theorem muEqual_cpuset (hm : m ⊆ T.cpus) (hm' : m' ⊆ T.cpus) : muEqual T.system (T.cpuset m).set m' = decide (m = m') := by
  unfold muEqual
  rw [cpuset_set hm, Finset.filter_true_of_mem (fits_system hm), Finset.filter_true_of_mem (fits_system hm')]

theorem findIdx?_congr {α : Type} {l : List α} {p q : α → Bool} (h : ∀ a ∈ l, p a = q a) :
    l.findIdx? p = l.findIdx? q := by
  induction l with
  | nil => rfl
  | cons a l ih =>
    rw [findIdx?_cons, findIdx?_cons, h a mem_cons_self,
      ih fun b hb => h b (mem_cons_of_mem a hb)]

theorem saveCore_eq {slots : List CpuSet} {relocated : Bool} {c : ℕ} (hslots : ∀ m ∈ slots, m ⊆ T.cpus)
    (hc : c ∈ T.cpus) :
    saveCore ncpus T.system ⟨slots.map T.cpuset, relocated⟩ (T.cpuDir c) =
      ⟨(placeCore slots relocated (T.coreId c) (T.siblings c)).1.map T.cpuset,
        (placeCore slots relocated (T.coreId c) (T.siblings c)).2⟩ := by
  have hsub := T.inside c hc
  have hne := (Topology.siblings_nonempty hc).ne_empty
  have hgrow : growMasks ncpus T.system (slots.map T.cpuset) (T.coreId c + 1) =
      (slots ++ replicate (T.coreId c + 1 - slots.length) ∅).map T.cpuset := by
    rw [growMasks, map_append, map_replicate, length_map]
    rfl
  have hlen : T.coreId c < (slots ++ replicate (T.coreId c + 1 - slots.length) (∅ : CpuSet)).length := by
    rw [length_append, length_replicate]
    omega
  have hgrown : ∀ m ∈ slots ++ replicate (T.coreId c + 1 - slots.length) (∅ : CpuSet), m ⊆ T.cpus := by
    intro m hm
    rcases mem_append.mp hm with hm | hm
    · exact hslots m hm
    · rw [eq_of_mem_replicate hm]
      exact Finset.empty_subset _
  unfold saveCore placeCore
  dsimp only [Topology.cpuDir]
  rw [hgrow]
  generalize slots ++ replicate (T.coreId c + 1 - slots.length) (∅ : CpuSet) = grown at hlen hgrown
  have hany : (grown.map T.cpuset).any (fun core => core.count ≠ 0 && muEqual T.system core.set (T.siblings c)) =
      decide (T.siblings c ∈ grown) := by
    rw [Bool.eq_iff_iff, any_map, any_eq_true, decide_eq_true_iff]
    constructor
    · rintro ⟨m, hm, h⟩
      have heq : m = T.siblings c := by simpa [muEqual_cpuset (hgrown m hm) hsub] using (Bool.and_eq_true_iff.mp h).2
      exact heq ▸ hm
    · intro hm
      refine ⟨_, hm, ?_⟩
      simp [muEqual_cpuset hsub hsub, cpuset_count_eq_zero hsub, hne]
  have hfind : (grown.map T.cpuset).findIdx? (·.count = 0) = grown.findIdx? (· = ∅) := by
    rw [findIdx?_map]
    refine findIdx?_congr fun m hm => ?_
    simp [cpuset_count_eq_zero (hgrown m hm)]
  have hm := hgrown _ (getElem_mem hlen)
  rw [getElem?_map, getElem?_eq_getElem hlen, Option.map_some]
  simp only [hany, hfind, muEqual_cpuset hm hsub, cpuset_count_eq_zero hm, Option.some_inj, decide_eq_true_eq]
  by_cases hfree : grown[T.coreId c] = ∅
  · rw [if_pos hfree, if_pos hfree, map_set]
    rfl
  · rw [if_neg hfree, if_neg hfree]
    by_cases heq : grown[T.coreId c] = T.siblings c
    · rw [if_pos heq, if_pos (heq ▸ getElem_mem hlen)]
    · rw [if_neg heq]
      by_cases hin : T.siblings c ∈ grown
      · rw [if_pos hin, if_pos hin]
      · rw [if_neg hin, if_neg hin]
        cases grown.findIdx? (· = ∅) with
        | some j =>
          rw [map_set]
          rfl
        | none =>
          rw [map_append]
          rfl

theorem saveCores_filled {order : List ℕ} (horder : order.toFinset ⊆ T.cpus) {s : Finset ℕ} (hs : s ⊆ T.cpus)
    {slots : List CpuSet} {relocated : Bool} (h : Filled T 0 s slots relocated) :
    ∃ slots' relocated', Filled T 0 (s ∪ order.toFinset) slots' relocated' ∧
      (order.map T.cpuDir).foldl (saveCore ncpus T.system) ⟨slots.map T.cpuset, relocated⟩ =
        ⟨slots'.map T.cpuset, relocated'⟩ := by
  induction order generalizing s slots relocated with
  | nil => exact ⟨slots, relocated, by simpa using h, rfl⟩
  | cons c order ih =>
    rw [toFinset_cons, Finset.insert_subset_iff] at horder
    have hslots : ∀ m ∈ slots, m ⊆ T.cpus := by
      intro m hm
      by_cases hne : m = ∅
      · exact hne ▸ Finset.empty_subset _
      · obtain ⟨x, hx, rfl⟩ := Finset.mem_image.mp ((h.mem_iff hne).mp hm)
        exact T.inside x (hs hx)
    have hstep := placeCore_filled h hs horder.1
    obtain ⟨slots', relocated', hfilled, heq⟩ := ih horder.2 (Finset.insert_subset horder.1 hs) hstep
    refine ⟨slots', relocated', ?_, ?_⟩
    · rw [toFinset_cons, Finset.union_insert, ← Finset.insert_union]
      exact hfilled
    · rw [map_cons, foldl_cons, saveCore_eq hslots horder.1]
      exact heq

theorem filled_nil : Filled T 0 ∅ [] false :=
  ⟨⟨0, by simp [Topology.coresOf]⟩, by simp [Topology.idSlots, Topology.coresOf], nofun, nofun, nofun⟩

/-! ## The reordering -/

theorem cmpMuCpuset_nonneg (hm : m ⊆ T.cpus) (hm' : m' ⊆ T.cpus) :
    0 ≤ cmpMuCpuset (T.cpuset m') (T.cpuset m) ↔ m.min ≤ m'.min := by
  unfold cmpMuCpuset
  simp only [cpuset_count_eq_zero hm, cpuset_count_eq_zero hm']
  split
  · rename_i h
    simp [h]
  · rename_i h'
    have hne' := Finset.nonempty_iff_ne_empty.mpr h'
    split
    · rename_i h
      simp [h, ← Finset.coe_min' hne']
    · rename_i h
      have hne := Finset.nonempty_iff_ne_empty.mpr h
      rw [cpuset_firstCpuid hm hne, cpuset_firstCpuid hm' hne', ← Finset.coe_min' hne, ← Finset.coe_min' hne',
        WithTop.coe_le_coe]
      omega

theorem min_le_of_cmpMuCpuset (hm : m ⊆ T.cpus) (hm' : m' ⊆ T.cpus)
    (h : cmpMuCpuset (T.cpuset m) (T.cpuset m') ≤ 0) : m.min ≤ m'.min := by
  unfold cmpMuCpuset at h
  simp only [cpuset_count_eq_zero hm, cpuset_count_eq_zero hm'] at h
  split at h
  · omega
  · rename_i hne
    replace hne := Finset.nonempty_iff_ne_empty.mpr hne
    split at h
    · rename_i he
      simp [he]
    · rename_i hne'
      replace hne' := Finset.nonempty_iff_ne_empty.mpr hne'
      rw [cpuset_firstCpuid hm hne, cpuset_firstCpuid hm' hne'] at h
      rw [← Finset.coe_min' hne, ← Finset.coe_min' hne', WithTop.coe_le_coe]
      omega

/-- A slot's mask is empty or a core of the machine. -/
def IsSlot (T : Topology ncpus) (m : CpuSet) : Prop := m = ∅ ∨ ∃ c ∈ T.cpus, T.siblings c = m

theorem IsSlot.subset (h : IsSlot T m) : m ⊆ T.cpus := by
  rcases h with rfl | ⟨c, hc, rfl⟩
  · exact Finset.empty_subset _
  · exact T.inside c hc

theorem IsSlot.eq_of_min (h : IsSlot T m) (h' : IsSlot T m') (heq : m.min = m'.min) : m = m' := by
  rcases h with rfl | ⟨c, hc, rfl⟩
  · rw [Finset.min_empty] at heq
    exact (Finset.min_eq_top.mp heq.symm).symm
  · rcases h' with rfl | ⟨d, hd, rfl⟩
    · rw [Finset.min_empty] at heq
      exact Finset.min_eq_top.mp heq
    · have hne := Topology.siblings_nonempty hc
      have hmem := Finset.mem_of_min (heq ▸ (Finset.coe_min' hne).symm)
      exact Topology.siblings_eq hc hd (Finset.min'_mem _ hne) hmem

theorem weakOrder_slots {slots : List CpuSet} (h : ∀ m ∈ slots, IsSlot T m) :
    Lib.WeakOrder cmpMuCpuset (slots.map T.cpuset) := by
  have hof : ∀ a ∈ slots.map T.cpuset, ∃ m ∈ slots, T.cpuset m = a := fun a ha => mem_map.mp ha
  constructor
  · intro a ha b hb hab
    obtain ⟨m, hm, rfl⟩ := hof a ha
    obtain ⟨m', hm', rfl⟩ := hof b hb
    exact (cmpMuCpuset_nonneg (h m hm).subset (h m' hm').subset).mpr
      (min_le_of_cmpMuCpuset (h m hm).subset (h m' hm').subset hab)
  · intro a ha b hb c hc hba hcb
    obtain ⟨m1, hm1, rfl⟩ := hof a ha
    obtain ⟨m2, hm2, rfl⟩ := hof b hb
    obtain ⟨m3, hm3, rfl⟩ := hof c hc
    rw [cmpMuCpuset_nonneg (h _ ‹_›).subset (h _ ‹_›).subset] at hba hcb ⊢
    exact hba.trans hcb

theorem sort_unique (Q : Lib.StrictQsort) {slots slots' : List CpuSet} (h : ∀ m ∈ slots, IsSlot T m)
    (hperm : slots.Perm slots') :
    Q.sort cmpMuCpuset (slots.map T.cpuset) = Q.sort cmpMuCpuset (slots'.map T.cpuset) := by
  have h' : ∀ m ∈ slots', IsSlot T m := fun m hm => h m (hperm.mem_iff.mpr hm)
  have hsorted := Q.ordered cmpMuCpuset _ (weakOrder_slots h)
  have hsorted' := Q.ordered cmpMuCpuset _ (weakOrder_slots h')
  refine List.Perm.eq_of_pairwise ?_ hsorted hsorted' ?_
  · intro a b ha hb hab hba
    obtain ⟨m, hm, rfl⟩ := mem_map.mp ((Q.perm _ _).mem_iff.mp ha)
    obtain ⟨m', hm', rfl⟩ := mem_map.mp ((Q.perm _ _).mem_iff.mp hb)
    rw [cmpMuCpuset_nonneg (h _ hm).subset (h' _ hm').subset] at hab
    rw [cmpMuCpuset_nonneg (h' _ hm').subset (h _ hm).subset] at hba
    rw [(h _ hm).eq_of_min (h' _ hm') (le_antisymm hab hba)]
  · exact ((Q.perm _ _).trans (hperm.map _)).trans (Q.perm _ _).symm

theorem Filled.isSlot {slots : List CpuSet} {relocated : Bool} (h : Filled T 0 T.cpus slots relocated) :
    ∀ m ∈ slots, IsSlot T m := by
  intro m hm
  by_cases hne : m = ∅
  · exact Or.inl hne
  · exact Or.inr (Finset.mem_image.mp ((h.mem_iff hne).mp hm))

theorem parseCores_filled (Q : Lib.StrictQsort) {order : List ℕ} (horder : order.toFinset = T.cpus) :
    ∃ slots relocated, Filled T 0 T.cpus slots relocated ∧ parseCores ncpus T.system Q (order.map T.cpuDir) =
      if relocated then Q.sort cmpMuCpuset (slots.map T.cpuset) else slots.map T.cpuset := by
  obtain ⟨slots, relocated, hfilled, heq⟩ :=
    saveCores_filled horder.subset (Finset.empty_subset T.cpus) (filled_nil (T := T))
  rw [Finset.empty_union, horder] at hfilled
  refine ⟨slots, relocated, hfilled, ?_⟩
  unfold parseCores
  rw [map_nil] at heq
  rw [heq]

theorem parseCores_unique (Q : Lib.StrictQsort) {order order' : List ℕ} (horder : order.toFinset = T.cpus)
    (horder' : order'.toFinset = T.cpus) :
    parseCores ncpus T.system Q (order.map T.cpuDir) = parseCores ncpus T.system Q (order'.map T.cpuDir) := by
  obtain ⟨slots, relocated, hfilled, heq⟩ := parseCores_filled Q horder
  obtain ⟨slots', relocated', hfilled', heq'⟩ := parseCores_filled Q horder'
  obtain ⟨rfl, hperm, hsame⟩ := filled_unique hfilled hfilled'
  rw [heq, heq']
  cases relocated with
  | true => exact sort_unique Q hfilled.isSlot hperm
  | false => rw [hsame rfl]

/-! ## The references by CPU id -/

theorem visitFrom_mem (hm : m ⊆ T.cpus) {c : ℕ} (hc : c ∈ m) (x : ℕ) :
    x ∈ visitFrom ncpus T.system m c ↔ x ∈ m ∧ c ≤ x := by
  have hfits := fits_system hm
  induction h : T.system.bits - c using Nat.strong_induction_on generalizing c with
  | _ n ih =>
    rw [visitFrom, if_neg (T.fits c (hm hc)).ne]
    split
    · rename_i next hnext
      obtain ⟨hmem, hlt, hset⟩ := next_interval hfits hnext
      have hx : x ∈ m → (c < x ↔ next ≤ x) := by
        intro hxm
        simpa [hxm] using Finset.ext_iff.mp hset x
      have hbits := hfits next hmem
      have hrest : x ∈ visitFrom ncpus T.system m next ↔ x ∈ m ∧ next ≤ x := ih _ (by omega) hmem rfl
      rw [mem_cons, hrest]
      constructor
      · rintro (rfl | ⟨hxm, hle⟩)
        · exact ⟨hc, le_rfl⟩
        · exact ⟨hxm, by omega⟩
      · rintro ⟨hxm, hle⟩
        rcases hle.eq_or_lt with rfl | hlt
        · exact Or.inl rfl
        · exact Or.inr ⟨hxm, (hx hxm).mp hlt⟩
    · rename_i hnone
      have hset := next_interval hfits hnone
      rw [mem_singleton]
      constructor
      · rintro rfl
        exact ⟨hc, le_rfl⟩
      · rintro ⟨hxm, hle⟩
        by_contra hne
        exact Finset.filter_eq_empty_iff.mp hset hxm (by omega)

theorem visit_mem (hm : m ⊆ T.cpus) (x : ℕ) :
    x ∈ visitFrom ncpus T.system (T.cpuset m).set (T.cpuset m).firstCpuid ↔ x ∈ m := by
  rcases m.eq_empty_or_nonempty with rfl | hne
  · have hf := muGetFirstCpu_finds T.system ∅
    have hfirst : (T.cpuset ∅).firstCpuid = dlbCpuidInvalid ncpus := by
      change toCpuid ncpus ((muGetFirstCpu T.system ∅).elim (-1) (↑)) = _
      cases hr : muGetFirstCpu T.system ∅ with
      | none => exact toCpuid_neg_one ncpus
      | some c =>
        rw [hr] at hf
        exact absurd hf.1.1 (Finset.notMem_empty c)
    rw [visitFrom, if_pos hfirst]
    simp
  · rw [cpuset_firstCpuid hm hne, cpuset_set hm, visitFrom_mem hm (Finset.min'_mem _ hne)]
    exact and_iff_left_of_imp fun hx => Finset.min'_le _ _ hx

theorem foldl_set_getElem {l : List ℕ} {v : Option ℕ} (byCpuid : List (Option ℕ)) {c : ℕ} (hc : c < byCpuid.length) :
    (l.foldl (fun byCpuid c => byCpuid.set c v) byCpuid)[c]? = if c ∈ l then some v else byCpuid[c]? := by
  induction l generalizing byCpuid with
  | nil => rfl
  | cons a l ih =>
    rw [foldl_cons, ih _ (by rwa [length_set])]
    by_cases hl : c ∈ l
    · rw [if_pos hl, if_pos (mem_cons_of_mem a hl)]
    · rw [if_neg hl, getElem?_set]
      by_cases ha : a = c
      · subst ha
        simp [hc]
      · have : c ∉ a :: l := by simp [hl, Ne.symm ha]
        rw [if_neg ha, if_neg this]

theorem foldl_set_length {l : List ℕ} {v : Option ℕ} (byCpuid : List (Option ℕ)) :
    (l.foldl (fun byCpuid c => byCpuid.set c v) byCpuid).length = byCpuid.length := by
  induction l generalizing byCpuid with
  | nil => rfl
  | cons a l ih => rw [foldl_cons, ih, length_set]

theorem referCores_getElem {S : System} {cores : List MuCpuset} {c : ℕ} (id : ℕ) (byCpuid : List (Option ℕ))
    (hc : c < byCpuid.length) :
    ((∀ core ∈ cores, c ∉ visitFrom ncpus S core.set core.firstCpuid) ∧
      (referCores ncpus S id byCpuid cores)[c]? = byCpuid[c]?) ∨
    ∃ i core, cores[i]? = some core ∧ c ∈ visitFrom ncpus S core.set core.firstCpuid ∧
      (referCores ncpus S id byCpuid cores)[c]? = some (some (id + i)) := by
  induction cores generalizing id byCpuid with
  | nil => exact Or.inl ⟨nofun, rfl⟩
  | cons core cores ih =>
    rw [referCores]
    have hlen := (foldl_set_length (l := visitFrom ncpus S core.set core.firstCpuid) (v := some id) byCpuid).symm
    rcases ih (id + 1) _ (hlen ▸ hc) with ⟨hnone, heq⟩ | ⟨i, core', hi, hmem, heq⟩
    · rw [heq, foldl_set_getElem _ hc]
      by_cases hv : c ∈ visitFrom ncpus S core.set core.firstCpuid
      · rw [if_pos hv]
        exact Or.inr ⟨0, core, rfl, hv, rfl⟩
      · rw [if_neg hv]
        refine Or.inl ⟨fun k hk => ?_, rfl⟩
        rcases mem_cons.mp hk with rfl | hk
        · exact hv
        · exact hnone k hk
    · refine Or.inr ⟨i + 1, core', hi, hmem, ?_⟩
      rw [heq, Nat.add_assoc, Nat.add_comm 1 i]

/-! ## The NUMA nodes -/

/-- The number of slots for the nodes that have a CPU. -/
def Topology.nodeSlots (T : Topology ncpus) (s : Finset ℕ) : ℕ := {n ∈ s | T.nodeMask n ≠ ∅}.sup (· + 1)

/-- What the table of nodes holds after the nodes of `s`: the masks under their node ids, the other slots free. -/
def NodesFilled (T : Topology ncpus) (s : Finset ℕ) (masks : List MuCpuset) : Prop :=
  masks = (range (T.nodeSlots s)).map fun i => T.cpuset (if i ∈ s then T.nodeMask i else ∅)

theorem saveNode_filled {s : Finset ℕ} {masks : List MuCpuset} {n : ℕ} (h : NodesFilled T s masks) (hn : n ∉ s) :
    NodesFilled T (insert n s) (saveNode ncpus T.system masks (T.nodeDir n)) := by
  have hlen : masks.length = T.nodeSlots s := by rw [h, length_map, length_range]
  have hget : ∀ i, i < T.nodeSlots s → masks[i]? = some (T.cpuset (if i ∈ s then T.nodeMask i else ∅)) := by
    intro i hi
    rw [h, getElem?_map, getElem?_range hi, Option.map_some]
  have hout : ∀ i ∈ s, T.nodeSlots s ≤ i → T.nodeMask i = ∅ := by
    intro i hi hle
    by_contra hne
    have : i + 1 ≤ T.nodeSlots s := Finset.le_sup (f := (· + 1)) (Finset.mem_filter.mpr ⟨hi, hne⟩)
    omega
  change (if 0 < (T.nodeMask n).card then
    (growMasks ncpus T.system masks (n + 1)).set n (T.cpuset (T.nodeMask n)) else masks) = _
  simp only [Finset.card_pos, Finset.nonempty_iff_ne_empty]
  by_cases hne : T.nodeMask n = ∅
  · have hslots : T.nodeSlots (insert n s) = T.nodeSlots s := by
      unfold Topology.nodeSlots
      rw [Finset.filter_insert, if_neg (not_not.mpr hne)]
    rw [if_neg (not_not.mpr hne), hslots, h]
    refine map_congr_left fun i _ => ?_
    by_cases hi : i = n
    · subst hi
      rw [if_neg hn, if_pos (Finset.mem_insert_self ..), hne]
    · simp only [Finset.mem_insert, hi, false_or]
  · have hslots : T.nodeSlots (insert n s) = max (n + 1) (T.nodeSlots s) := by
      unfold Topology.nodeSlots
      rw [Finset.filter_insert, if_pos hne, Finset.sup_insert]
    rw [if_pos hne, hslots]
    refine ext_getElem? fun i => ?_
    have hgrown : (growMasks ncpus T.system masks (n + 1)).length = max (n + 1) (T.nodeSlots s) := by
      rw [growMasks, length_append, length_replicate, hlen]
      omega
    by_cases hi : i < max (n + 1) (T.nodeSlots s)
    · rw [getElem?_map, getElem?_range hi, Option.map_some]
      by_cases hin : n = i
      · subst hin
        rw [getElem?_set_self (by omega), if_pos (Finset.mem_insert_self ..)]
      · rw [getElem?_set_ne hin, growMasks]
        simp only [Finset.mem_insert, Ne.symm hin, false_or]
        by_cases hlt : i < T.nodeSlots s
        · rw [getElem?_append_left (by omega), hget i hlt]
        · rw [getElem?_append_right (by omega), getElem?_replicate, if_pos (by omega)]
          by_cases his : i ∈ s
          · rw [if_pos his, hout i his (by omega)]
            rfl
          · rw [if_neg his]
            rfl
    · rw [getElem?_eq_none (by rw [length_set]; omega),
        getElem?_eq_none (by rw [length_map, length_range]; omega)]

theorem parseNodes_filled {order : List ℕ} (hnodup : order.Nodup) (horder : order.toFinset = T.nodes) :
    ∃ masks, NodesFilled T T.nodes masks ∧ parseNodes ncpus T.system (order.map T.nodeDir) = some masks := by
  have hrun : ∀ (order : List ℕ) (s : Finset ℕ) (masks : List MuCpuset), order.Nodup → (∀ n ∈ order, n ∉ s ∧ n ≤ 1024) →
      NodesFilled T s masks → ∃ masks', NodesFilled T (s ∪ order.toFinset) masks' ∧
        (order.map T.nodeDir).foldlM
          (fun masks d => if 1024 < d.nodeId then none else some (saveNode ncpus T.system masks d)) masks =
            some masks' := by
    intro order
    induction order with
    | nil => exact fun s masks _ _ h => ⟨masks, by simpa using h, rfl⟩
    | cons n order ih =>
      intro s masks hnodup hs h
      obtain ⟨hnotin, hnodup⟩ := nodup_cons.mp hnodup
      obtain ⟨hn, hle⟩ := hs n mem_cons_self
      have hs' : ∀ x ∈ order, x ∉ insert n s ∧ x ≤ 1024 := by
        intro x hx
        obtain ⟨hx', hxle⟩ := hs x (mem_cons_of_mem n hx)
        refine ⟨fun hmem => ?_, hxle⟩
        rcases Finset.mem_insert.mp hmem with rfl | hmem
        · exact hnotin hx
        · exact hx' hmem
      obtain ⟨masks', hfilled, heq⟩ := ih (insert n s) _ hnodup hs' (saveNode_filled h hn)
      refine ⟨masks', ?_, ?_⟩
      · rw [toFinset_cons, Finset.union_insert, ← Finset.insert_union]
        exact hfilled
      · have : ¬1024 < (T.nodeDir n).nodeId := not_lt.mpr hle
        rw [map_cons, foldlM_cons, if_neg this]
        exact heq
  have hstart : NodesFilled T ∅ [] := by simp [NodesFilled, Topology.nodeSlots]
  obtain ⟨masks, hfilled, heq⟩ := hrun order ∅ [] hnodup
    (fun n hn => ⟨Finset.notMem_empty n, T.nodeIds n (horder ▸ mem_toFinset.mpr hn)⟩) hstart
  rw [Finset.empty_union, horder] at hfilled
  exact ⟨masks, hfilled, heq⟩

/-! ## The whole topology -/

/-- The tables of the machine: every core once; the references lead to the CPUs' cores; as many slots as core ids or
cores; the cores under their core ids if these tell them apart, else by their first CPU, the free slots last. -/
structure IsTopology (T : Topology ncpus) (sys : SysLoc) : Prop where
  once : ∀ c ∈ T.cpus, sys.coreMasksByCoreid.countP (·.set = T.siblings c) = 1
  reference : ∀ c ∈ T.cpus, ∃ id core, sys.coreMasksByCpuid[c]? = some (some id) ∧
    sys.coreMasksByCoreid[id]? = some core ∧ core.set = T.siblings c
  slots : sys.coreMasksByCoreid.length = max (T.idSlots T.cpus) (T.coresOf T.cpus).card
  byId : T.UniqueIds → ∀ c ∈ T.cpus, ∃ core, sys.coreMasksByCoreid[T.coreId c]? = some core ∧ core.set = T.siblings c
  byFirst : ¬T.UniqueIds →
    sys.coreMasksByCoreid.Pairwise fun a b => a.set.min < b.set.min ∨ (a.set = ∅ ∧ b.set = ∅)

theorem Filled.apart {slots : List CpuSet} {relocated : Bool} (h : Filled T 0 T.cpus slots relocated) :
    slots.Pairwise fun m m' => m = m' → m = ∅ := by
  obtain ⟨k, hk⟩ := h.entries
  rw [hk.pairwise_iff fun heq => fun he => he ▸ heq he.symm]
  rw [pairwise_append]
  refine ⟨?_, ?_, fun m hm m' hm' _ => eq_of_mem_replicate hm⟩
  · exact pairwise_replicate.mpr (Or.inr fun _ => rfl)
  · exact (Finset.nodup_toList _).imp fun hne he => absurd he hne

theorem parseCores_isTopology (Q : Lib.StrictQsort) {order : List ℕ} (horder : order.toFinset = T.cpus) {sys : SysLoc}
    (hcores : sys.coreMasksByCoreid = parseCores ncpus T.system Q (order.map T.cpuDir))
    (hrefs : sys.coreMasksByCpuid =
      referCores ncpus T.system 0 (replicate T.system.size none) sys.coreMasksByCoreid) : IsTopology T sys := by
  obtain ⟨slots, relocated, hfilled, htable⟩ := parseCores_filled Q horder
  rw [← hcores] at htable
  have hslot := hfilled.isSlot
  have hperm : sys.coreMasksByCoreid.Perm (slots.map T.cpuset) := by
    rw [htable]
    split
    · exact Q.perm _ _
    · exact List.Perm.refl _
  have hmem : ∀ core ∈ sys.coreMasksByCoreid, ∃ m ∈ slots, T.cpuset m = core := fun core hcore =>
    mem_map.mp (hperm.mem_iff.mp hcore)
  have hin : ∀ c ∈ T.cpus, T.siblings c ∈ slots := fun c hc =>
    (hfilled.mem_iff (Topology.siblings_nonempty hc).ne_empty).mpr (Finset.mem_image_of_mem _ hc)
  constructor
  · intro c hc
    obtain ⟨k, hk⟩ := hfilled.entries
    have hne := (Topology.siblings_nonempty hc).ne_empty
    have hcount : slots.countP (· = T.siblings c) = 1 := by
      rw [hk.countP_eq, countP_append, countP_replicate, if_neg (by simpa using hne.symm), Nat.zero_add]
      exact count_eq_one_of_mem (Finset.nodup_toList _)
        (Finset.mem_toList.mpr (Finset.mem_image_of_mem _ hc))
    rw [hperm.countP_eq, countP_map, ← hcount]
    refine countP_congr fun m hm => ?_
    simp [cpuset_set (hslot m hm).subset]
  · intro c hc
    have hlt : c < (replicate T.system.size (none : Option ℕ)).length := by
      rw [length_replicate]
      exact System.lt_size (S := T.system) hc
    rw [hrefs]
    rcases referCores_getElem 0 _ hlt with ⟨hnone, -⟩ | ⟨i, core, hi, hv, heq⟩
    · have hcore : T.cpuset (T.siblings c) ∈ sys.coreMasksByCoreid :=
        hperm.mem_iff.mpr (mem_map_of_mem (hin c hc))
      exact absurd ((visit_mem (T.inside c hc) c).mpr (T.self c hc)) (hnone _ hcore)
    · obtain ⟨m, hm, rfl⟩ := hmem core (mem_of_getElem? hi)
      have hcm := (visit_mem (hslot m hm).subset c).mp hv
      refine ⟨i, _, by rw [heq, Nat.zero_add], hi, ?_⟩
      rw [cpuset_set (hslot m hm).subset]
      rcases hslot m hm with rfl | ⟨d, hd, rfl⟩
      · exact absurd hcm (Finset.notMem_empty c)
      · exact (T.share d hd c hcm).1.symm
  · rw [hperm.length_eq, length_map, hfilled.length, Nat.zero_max]
  · intro hu c hc
    have hr : relocated = false := by
      by_contra hr
      exact hfilled.relocated_iff.mp (by simpa using hr) hu
    subst hr
    refine ⟨T.cpuset (T.siblings c), ?_, cpuset_set (T.inside c hc)⟩
    rw [htable, if_neg (by decide), getElem?_map, hfilled.getElem_coreId hc, Option.map_some]
  · intro hu
    have hr := hfilled.relocated_iff.mpr hu
    have hsorted := Q.ordered cmpMuCpuset _ (weakOrder_slots hslot)
    have hapart : (slots.map T.cpuset).Pairwise fun a b => a.set = b.set → a.set = ∅ := by
      rw [pairwise_map]
      refine hfilled.apart.imp_of_mem fun hm hm' h => ?_
      rwa [cpuset_set (hslot _ hm).subset, cpuset_set (hslot _ hm').subset]
    have hapart' := (hperm.pairwise_iff fun h he => he ▸ h he.symm).mpr hapart
    rw [htable, if_pos hr] at hapart' ⊢
    refine (hsorted.and hapart').imp_of_mem fun {a b} ha hb h => ?_
    obtain ⟨m, hm, rfl⟩ := mem_map.mp ((Q.perm _ _).mem_iff.mp ha)
    obtain ⟨m', hm', rfl⟩ := mem_map.mp ((Q.perm _ _).mem_iff.mp hb)
    rw [cmpMuCpuset_nonneg (hslot m hm).subset (hslot m' hm').subset, cpuset_set (hslot m hm).subset,
      cpuset_set (hslot m' hm').subset] at h
    rw [cpuset_set (hslot m hm).subset, cpuset_set (hslot m' hm').subset]
    refine h.1.lt_or_eq.imp_right fun heq => ?_
    have hsame := (hslot m hm).eq_of_min (hslot m' hm') heq
    exact ⟨h.2 hsame, hsame ▸ h.2 hsame⟩

/-- In whatever order `readdir` returns the directories, the tables are the same, and they are those of the machine. -/
theorem parseSystemFiles_order (Q : Lib.StrictQsort) (T : Topology ncpus) (nprocOnln : ℕ) :
    ∃ sys, IsTopology T sys ∧ ∀ cpuOrder nodeOrder : List ℕ, cpuOrder.Nodup → cpuOrder.toFinset = T.cpus →
      nodeOrder.Nodup → nodeOrder.toFinset = T.nodes →
      parseSystemFiles ncpus Q T.cpus (cpuOrder.map T.cpuDir) (nodeOrder.map T.nodeDir) nprocOnln = some sys := by
  have hcount : (T.cpuset T.cpus).count ≠ 0 := (cpuset_count_eq_zero subset_rfl).not.mpr T.nonempty.ne_empty
  have hcpus : T.cpus.toList.toFinset = T.cpus := Finset.toList_toFinset _
  obtain ⟨nodes, hnodes, -⟩ := parseNodes_filled (T := T) (Finset.nodup_toList _) (Finset.toList_toFinset _)
  let cores := parseCores ncpus T.system Q (T.cpus.toList.map T.cpuDir)
  let sys : SysLoc := ⟨T.system.size, T.cpuset T.cpus, cores,
    referCores ncpus T.system 0 (replicate T.system.size none) cores, nodes⟩
  refine ⟨sys, parseCores_isTopology Q hcpus rfl rfl, fun cpuOrder nodeOrder _ hcpu hnodup hnode => ?_⟩
  obtain ⟨nodes', hnodes', heq⟩ := parseNodes_filled hnodup hnode
  have hcores := parseCores_unique Q hcpu hcpus
  have hsame : nodes' = nodes := hnodes'.trans hnodes.symm
  have hparse : parseNodes ncpus (systemOf T.cpus) (nodeOrder.map T.nodeDir) = some nodes := hsame ▸ heq
  unfold parseSystemFiles
  dsimp only
  rw [hparse]
  refine (if_neg hcount).trans ?_
  exact congrArg (fun cores => some (SysLoc.mk T.system.size (T.cpuset T.cpus) cores
    (referCores ncpus T.system 0 (replicate T.system.size none) cores) nodes)) hcores

end Cpuset

/-- Two cores with core id `0`, a third one with core id `3`, and one NUMA node. -/
def sharedIds : Topology 6 where
  cpus := Finset.range 6
  nonempty := by decide
  fits := by decide
  coreId := fun c => if c < 4 then 0 else 3
  siblings := fun c => {c / 2 * 2, c / 2 * 2 + 1}
  self := by decide
  inside := by decide
  share := by decide
  nodes := {0}
  nodeMask := fun _ => Finset.range 6
  nodeIds := by decide

theorem parseSystemFiles_order_sharedIds :
    ∃ sys, IsTopology sharedIds sys ∧
      parseSystemFiles 6 Lib.insertionStrictQsort sharedIds.cpus ([4, 1, 3, 0, 5, 2].map sharedIds.cpuDir)
        ([0].map sharedIds.nodeDir) 0 = some sys := by
  obtain ⟨sys, htopology, hall⟩ := parseSystemFiles_order Lib.insertionStrictQsort sharedIds 0
  exact ⟨sys, htopology, hall _ _ (by decide) (by decide) (by decide) (by decide)⟩

end Dlb

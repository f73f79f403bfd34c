import Dlb.Support.MaskTextSpec
import Dlb.Support.Types
import Dlb.Talp.Registration
import Mathlib.Algebra.GroupWithZero.Nat

/-!
# Regions common to all MPI processes

`talp_mpi_finalize` enters collective calls for every region of its tree, and before that
`talp_register_common_mpi_regions` registers the regions of every rank in every rank, so that all have the same ones.
What it does not send is `flags.internal`, which MNGO sets in the regions it registers and for which the summaries
return at once.

* `Registered`: what the trees of all reachable ranks have in common, kept by every call (`Registered.exec`);
* `registerCommonMpiRegions_regions`: the tree of a rank afterwards.
-/

namespace Dlb.Talp

open List Lib

/-! ## Sorted maps -/

section SortedMap

variable {α β : Type*} {cmp : α → α → Ordering} [Std.TransCmp cmp] [Std.LawfulEqCmp cmp]

theorem keys_eq_of_mem_iff {t t' : Std.TreeMap α β cmp} (h : ∀ k, k ∈ t ↔ k ∈ t') : t.keys = t'.keys := by
  have hnodup (t : Std.TreeMap α β cmp) : t.keys.Nodup :=
    t.distinct_keys.imp fun hne heq => hne (Std.LawfulEqCmp.compare_eq_iff_eq.mpr heq)
  have hperm : t.keys.Perm t'.keys :=
    (perm_ext_iff_of_nodup (hnodup t) (hnodup t')).mpr fun k => by
      rw [Std.TreeMap.mem_keys, Std.TreeMap.mem_keys, h]
  refine hperm.eq_of_pairwise (fun a b _ _ hab hba => ?_) t.ordered_keys t'.ordered_keys
  have hswap : cmp a b = (cmp b a).swap := Std.OrientedCmp.eq_swap
  rw [hswap, hba] at hab
  cases hab

end SortedMap

/-! ## The regions of a rank -/

/-- The tree `talp_info->regions`, sorted by name, with `flags.internal` of each region, and the anonymous regions so
far. -/
structure RankRegions where
  regions : Std.TreeMap (List Char) Bool := ∅
  anonymousId : ℕ := 0

namespace RankRegions

/-- `region_register`, with the name of the region that it returns. -/
def regionRegister (r : RankRegions) (name : RegionName) : RankRegions × Option (List Char) :=
  if name.isForbidden then (r, none)
  else
    match name.key with
    | some key =>
      if key ∈ r.regions then (r, some key)
      else ({ r with regions := r.regions.insert key false }, some key)
    | none =>
      let key := anonymousName (r.anonymousId + 1)
      (⟨r.regions.insert key false, r.anonymousId + 1⟩, some key)

/-- `region_set_internal` -/
def regionSetInternal (r : RankRegions) (key : List Char) (internal : Bool) : RankRegions :=
  { r with regions := r.regions.modify key fun _ => internal }

/-- `mngo_talp__region_register` -/
def mngoTalpRegionRegister (r : RankRegions) (name : RegionName) : RankRegions × DlbError :=
  match r.regionRegister name with
  | (r, none) => (r, .noupdt)
  | (r, some key) => (r.regionSetInternal key true, .success)

/-- `talp_init` registers the global region. The identifiers of anonymous regions go on from those of earlier
initializations. -/
def talpInit (anonymousId : ℕ) : RankRegions :=
  ((⟨∅, anonymousId⟩ : RankRegions).regionRegister (.text globalRegionName)).1

end RankRegions

/-- Who registers a region: the program, or MNGO for its own measurements. -/
inductive RegionCall where
  | regionRegister (name : RegionName)
  | mngoTalpRegionRegister (name : RegionName)

/-- The text of a name has no end of string in it. -/
def RegionName.IsString : RegionName → Prop
  | .text name => '\x00' ∉ name
  | _ => True

def RegionCall.name : RegionCall → RegionName
  | .regionRegister name | .mngoTalpRegionRegister name => name

def RankRegions.exec (r : RankRegions) : RegionCall → RankRegions
  | .regionRegister name => (r.regionRegister name).1
  | .mngoTalpRegionRegister name => (r.mngoTalpRegionRegister name).1

/-- The regions that a rank can come with to `MPI_Finalize`. -/
def RankRegions.Reachable (r : RankRegions) : Prop :=
  ∃ (anonymousId : ℕ) (calls : List RegionCall), (∀ call ∈ calls, call.name.IsString) ∧
    calls.foldl RankRegions.exec (.talpInit anonymousId) = r

/-! ## Gathering the names -/

/-- `DLB_MONITOR_NAME_MAX` characters of the send buffer, of which `strcpy` writes the name and its end. The others are
those of `malloc`. -/
def slot (junk : ℕ → Char) (name : List Char) : List Char :=
  name ++ '\x00' :: (range (monitorNameMax - 1 - name.length)).map junk

def cString (buffer : List Char) : List Char := buffer.takeWhile (· ≠ '\x00')

namespace RankRegions

def charsToSend (r : RankRegions) : ℕ := r.regions.size * monitorNameMax

def sendbuffer (junk : ℕ → Char) (r : RankRegions) : List Char := r.regions.keys.flatMap (slot junk)

end RankRegions

/-- `talp_register_common_mpi_regions` in all ranks. `MPI_Allgatherv` appends what they send in the order of the ranks.
There is no result when the characters do not fit in the `int total_chars`. -/
def registerCommonMpiRegions (junk : ℕ → Char) (ranks : List RankRegions) : Option (List RankRegions) :=
  let totalChars := (ranks.map RankRegions.charsToSend).sum
  if 2 ^ 31 ≤ totalChars then none
  else if 0 < totalChars then
    let recvbuffer := ranks.flatMap (RankRegions.sendbuffer junk)
    some (ranks.map fun r => (range (totalChars / monitorNameMax)).foldl (fun r i =>
      (r.regionRegister (.text (cString (recvbuffer.drop (i * monitorNameMax))))).1) r)
  else some ranks

/-! ## The collectives -/

/-- The two options of `talp_summary` that need all ranks. -/
structure SummaryOptions where
  popMetrics : Bool
  process : Bool

/-- The collective calls of one summary of one region. -/
inductive Collective where
  | popSummary (name : List Char)
  | processSummary (name : List Char)

/-- `talp_record_pop_summary`: internal monitors will not be recorded. -/
def talpRecordPopSummary (name : List Char) (internal : Bool) : List Collective :=
  if internal then [] else [.popSummary name]

/-- `talp_record_process_summary`: internal monitors will not be recorded. -/
def talpRecordProcessSummary (name : List Char) (internal : Bool) : List Collective :=
  if internal then [] else [.processSummary name]

/-- The collectives that `talp_mpi_finalize` enters over the regions of the tree. -/
def RankRegions.talpMpiFinalize (o : SummaryOptions) (r : RankRegions) : List Collective :=
  r.regions.toList.flatMap fun region =>
    (if o.popMetrics then talpRecordPopSummary region.1 region.2 else []) ++
      (if o.process then talpRecordProcessSummary region.1 region.2 else [])

/-- All ranks go through the same regions, and a collective is entered by all of them or by none. -/
structure Gathers (ranks : List RankRegions) : Prop where
  sameNames : ∀ r ∈ ranks, ∀ r' ∈ ranks, r.regions.keys = r'.regions.keys
  allOrNone : ∀ (o : SummaryOptions) (c : Collective),
    (∀ r ∈ ranks, c ∈ r.talpMpiFinalize o) ∨ ∀ r ∈ ranks, c ∉ r.talpMpiFinalize o

/-- A region that is internal in one rank is an internal region of all ranks. -/
def SameInternal (ranks : List RankRegions) : Prop :=
  ∀ r ∈ ranks, ∀ name : List Char, r.regions[name]? = some true → ∀ r' ∈ ranks, r'.regions[name]? = some true

/-! ## Names in the tree -/

/-- A name under which a region can be found again: what `region_register` inserts. -/
structure Proper (key : List Char) : Prop where
  ne_nil : key ≠ []
  length : key.length ≤ monitorNameMax - 1
  string : '\x00' ∉ key
  allowed : (RegionName.text key).isForbidden = false
  own : regionKey key = key

theorem Proper.key {key : List Char} (h : Proper key) : (RegionName.text key).key = some key := by
  cases key with
  | nil => exact absurd rfl h.ne_nil
  | cons c cs => exact congrArg some h.own

theorem proper_global : Proper globalRegionName := ⟨by decide, by decide, by decide, by decide, by decide⟩

theorem take_take_self (l : List Char) (n : ℕ) : (l.take n).take n = l.take n := by rw [take_take, Nat.min_self]

theorem proper_regionKey {name : List Char} (hne : name ≠ []) (hs : '\x00' ∉ name)
    (hallowed : (RegionName.text name).isForbidden = false) : Proper (regionKey name) := by
  by_cases hglobal : strncaseEq globalRegionName name (monitorNameMax - 1)
  · have hkey : regionKey name = globalRegionName := by
      rw [regionKey, if_pos hglobal]
      rfl
    exact hkey ▸ proper_global
  have hkey : regionKey name = name.take (monitorNameMax - 1) := by rw [regionKey, if_neg hglobal]
  have hsame (a : List Char) :
      strncaseEq a (name.take (monitorNameMax - 1)) (monitorNameMax - 1) = strncaseEq a name (monitorNameMax - 1) :=
    strncaseEq_congr (take_take_self name _)
  rw [hkey]
  exact {
    ne_nil := fun h => (take_eq_nil_iff.mp h).elim (by decide) hne
    length := length_take_le _ _
    string := fun h => hs (mem_of_mem_take h)
    allowed := (hsame _).trans hallowed
    own := by rw [regionKey, hsame, if_neg hglobal, take_take_self] }

theorem digit_ne_nul {n : ℕ} {c : Char} (h : c ∈ decimal n) : c ≠ '\x00' := by
  rintro rfl
  exact absurd (isDigit_of_mem_decimal h) (by decide)

theorem proper_anonymousName (n : ℕ) : Proper (anonymousName n) := by
  obtain ⟨rest, hrest⟩ : ∃ rest, anonymousName n = 'A' :: 'n' :: rest := ⟨_, rfl⟩
  exact {
    ne_nil := by rw [hrest]; exact cons_ne_nil _ _
    length := length_take_le _ _
    string := fun h => by
      rcases mem_append.mp (mem_of_mem_take h) with h | h
      · exact absurd h (by decide)
      · exact digit_ne_nul h rfl
    allowed := by simp [hrest, RegionName.isForbidden, strncaseEq, monitorNameMax]
    own := by
      have hne : ¬strncaseEq globalRegionName (anonymousName n) (monitorNameMax - 1) := by
        simp [hrest, strncaseEq, monitorNameMax, globalRegionName]
      exact take_take_self _ _ }

/-! ## What a rank has registered -/

namespace RankRegions

variable {r : RankRegions} {name k : List Char}

theorem regionRegister_getElem? (h : Proper name) : (r.regionRegister (.text name)).1.regions[k]? =
    if k = name then some (r.regions[k]?.getD false) else r.regions[k]? := by
  unfold regionRegister
  rw [if_neg (by rw [h.allowed]; decide), h.key]
  dsimp only
  by_cases hmem : name ∈ r.regions
  · rw [if_pos hmem]
    split_ifs with hk
    · obtain ⟨internal, hi⟩ := Option.isSome_iff_exists.mp (Std.TreeMap.mem_iff_isSome_getElem?.mp hmem)
      rw [hk, hi]
      rfl
    · rfl
  · rw [if_neg hmem, Std.TreeMap.getElem?_insert]
    by_cases hk : k = name
    · have hnone : r.regions[k]? = none := by
        rw [hk]
        exact Std.TreeMap.getElem?_eq_none hmem
      rw [if_pos hk, hnone, hk, if_pos (Std.ReflCmp.compare_self)]
      rfl
    · rw [if_neg hk, if_neg fun heq => hk (Std.LawfulEqCmp.compare_eq_iff_eq.mp heq).symm]

theorem foldl_regionRegister_getElem? {names : List (List Char)} (h : ∀ name ∈ names, Proper name) :
    (names.foldl (fun r name => (r.regionRegister (.text name)).1) r).regions[k]? =
      if k ∈ names then some (r.regions[k]?.getD false) else r.regions[k]? := by
  induction names generalizing r with
  | nil => rfl
  | cons name names ih =>
    rw [foldl_cons, ih fun n hn => h n (mem_cons_of_mem _ hn),
      regionRegister_getElem? (h name mem_cons_self)]
    by_cases hk : k = name
    · subst hk
      simp
    · simp [hk]

def Registered (r : RankRegions) : Prop := ∀ key ∈ r.regions, Proper key

theorem Registered.insert (h : r.Registered) {key : List Char} (hkey : Proper key) (n : ℕ) :
    Registered ⟨r.regions.insert key false, n⟩ := by
  intro k hk
  rcases Std.TreeMap.mem_insert.mp hk with heq | hmem
  · exact Std.LawfulEqCmp.compare_eq_iff_eq.mp heq ▸ hkey
  · exact h k hmem

theorem Registered.regionRegister (h : r.Registered) {name : RegionName} (hs : name.IsString) :
    (r.regionRegister name).1.Registered := by
  unfold RankRegions.regionRegister
  split
  · exact h
  rename_i hallowed
  rw [Bool.not_eq_true] at hallowed
  cases name with
  | null => exact h.insert (proper_anonymousName _) _
  | lastOpenRegion => exact absurd hallowed (by decide)
  | text text =>
    cases text with
    | nil => exact h.insert (proper_anonymousName _) _
    | cons c cs =>
      dsimp only [RegionName.key]
      split
      · exact h
      · exact h.insert (proper_regionKey (cons_ne_nil _ _) hs hallowed) _

theorem Registered.regionSetInternal (h : r.Registered) (key : List Char) (internal : Bool) :
    (r.regionSetInternal key internal).Registered :=
  fun k hk => h k (Std.TreeMap.mem_modify.mp hk)

theorem Registered.exec (h : r.Registered) {call : RegionCall} (hs : call.name.IsString) :
    (r.exec call).Registered := by
  cases call with
  | regionRegister name => exact h.regionRegister hs
  | mngoTalpRegionRegister name =>
    have hr : (r.regionRegister name).1.Registered := h.regionRegister hs
    dsimp only [RankRegions.exec, mngoTalpRegionRegister]
    rcases hreg : r.regionRegister name with ⟨r', key⟩
    rw [hreg] at hr
    cases key with
    | none => exact hr
    | some key => exact hr.regionSetInternal key true

theorem Reachable.registered (h : r.Reachable) : r.Registered := by
  obtain ⟨anonymousId, calls, hs, rfl⟩ := h
  refine foldlRecOn calls RankRegions.exec (motive := Registered) ?_ fun r hr call hcall => hr.exec (hs call hcall)
  have hempty : Registered ⟨∅, anonymousId⟩ := fun key hkey => absurd hkey Std.TreeMap.not_mem_emptyc
  have hproper : '\x00' ∉ globalRegionName := by decide
  exact hempty.regionRegister hproper

end RankRegions

/-! ## What is received -/

theorem slot_length {junk : ℕ → Char} {name : List Char} (h : Proper name) : (slot junk name).length = monitorNameMax := by
  have hlen := h.length
  unfold monitorNameMax at hlen
  simp only [slot, length_append, length_cons, length_map, length_range, monitorNameMax]
  omega

theorem cString_slot {junk : ℕ → Char} {name : List Char} (h : Proper name) (rest : List Char) :
    cString (slot junk name ++ rest) = name := by
  have hall : ∀ c ∈ name, decide (c ≠ '\x00') = true := fun c hc => by
    rw [decide_eq_true_eq]
    rintro rfl
    exact h.string hc
  rw [cString, slot, append_assoc, takeWhile_append_of_pos hall, cons_append,
    takeWhile_cons_of_neg (by decide), append_nil]

theorem strings_sent (junk : ℕ → Char) {names : List (List Char)} (h : ∀ name ∈ names, Proper name) :
    ((range names.length).map fun i => cString ((names.flatMap (slot junk)).drop (i * monitorNameMax))) =
      names := by
  induction names with
  | nil => rfl
  | cons name names ih =>
    have hname := h name mem_cons_self
    have htail (i : ℕ) : (slot junk name ++ names.flatMap (slot junk)).drop ((i + 1) * monitorNameMax) =
        (names.flatMap (slot junk)).drop (i * monitorNameMax) := by
      have hlength : (slot junk name).length = monitorNameMax := slot_length hname
      rw [Nat.add_mul, Nat.one_mul, Nat.add_comm, ← drop_drop, ← hlength, drop_left]
    rw [length_cons, range_succ_eq_map, map_cons, map_map, flatMap_cons, Nat.zero_mul,
      drop_zero, cString_slot hname]
    refine congrArg (name :: ·) (Eq.trans (map_congr_left fun i _ => ?_) (ih fun n hn => h n (mem_cons_of_mem _ hn)))
    exact congrArg cString (htail i)

section Common

variable {junk : ℕ → Char} {ranks : List RankRegions}

theorem totalChars_eq (ranks : List RankRegions) : (ranks.map RankRegions.charsToSend).sum =
    (ranks.flatMap (·.regions.keys)).length * monitorNameMax := by
  induction ranks with
  | nil => rfl
  | cons r ranks ih =>
    rw [map_cons, sum_cons, ih, flatMap_cons, length_append, Nat.add_mul, RankRegions.charsToSend,
      Std.TreeMap.length_keys]

theorem registerCommonMpiRegions_eq (h : ∀ r ∈ ranks, r.Registered) :
    registerCommonMpiRegions junk ranks =
      if 2 ^ 31 ≤ (ranks.map RankRegions.charsToSend).sum then none
      else some (ranks.map fun r =>
        (ranks.flatMap (·.regions.keys)).foldl (fun r name => (r.regionRegister (.text name)).1) r) := by
  have hproper : ∀ name ∈ ranks.flatMap (·.regions.keys), Proper name := fun name hname => by
    obtain ⟨r, hr, hmem⟩ := mem_flatMap.mp hname
    exact h r hr name (Std.TreeMap.mem_keys.mp hmem)
  have hbuffer : ranks.flatMap (RankRegions.sendbuffer junk) = (ranks.flatMap (·.regions.keys)).flatMap (slot junk) :=
    flatMap_assoc.symm
  unfold registerCommonMpiRegions
  dsimp only
  split_ifs with hbig hpos
  · rfl
  · refine congrArg some (map_congr_left fun r _ => ?_)
    have hcount : (ranks.map RankRegions.charsToSend).sum / monitorNameMax =
        (ranks.flatMap (·.regions.keys)).length := by
      rw [totalChars_eq]
      exact Nat.mul_div_cancel _ (by decide)
    conv_rhs => rw [← strings_sent junk hproper]
    rw [hcount, hbuffer, foldl_map]
  · have hnil : ranks.flatMap (·.regions.keys) = [] := by
      rw [Nat.not_lt, Nat.le_zero, totalChars_eq] at hpos
      exact length_eq_zero_iff.mp ((Nat.mul_eq_zero.mp hpos).resolve_right (by decide))
    rw [hnil]
    exact congrArg some (map_id' _).symm

theorem registerCommonMpiRegions_regions (h : ∀ r ∈ ranks, r.Registered) {r : RankRegions} (hr : r ∈ ranks)
    (k : List Char) :
    ((ranks.flatMap (·.regions.keys)).foldl (fun r name => (r.regionRegister (.text name)).1) r).regions[k]? =
      if ∃ r' ∈ ranks, k ∈ r'.regions then some (r.regions[k]?.getD false) else none := by
  have hmem : k ∈ ranks.flatMap (·.regions.keys) ↔ ∃ r' ∈ ranks, k ∈ r'.regions := by
    simp only [mem_flatMap, Std.TreeMap.mem_keys]
  rw [RankRegions.foldl_regionRegister_getElem? fun name hname => by
    obtain ⟨r', hr', hn⟩ := mem_flatMap.mp hname
    exact h r' hr' name (Std.TreeMap.mem_keys.mp hn)]
  simp only [hmem]
  split_ifs with hsome
  · rfl
  · exact Std.TreeMap.getElem?_eq_none fun hk => hsome ⟨r, hr, hk⟩

theorem mem_talpMpiFinalize_pop {r : RankRegions} {o : SummaryOptions} {name : List Char} :
    .popSummary name ∈ r.talpMpiFinalize o ↔ o.popMetrics ∧ r.regions[name]? = some false := by
  simp only [RankRegions.talpMpiFinalize, mem_flatMap, Prod.exists, Std.TreeMap.mem_toList_iff_getElem?_eq_some,
    mem_append, talpRecordPopSummary, talpRecordProcessSummary]
  constructor
  · rintro ⟨k, internal, hk, hc⟩
    cases internal <;> cases hpop : o.popMetrics <;> simp [hpop] at hc
    exact ⟨rfl, hc ▸ hk⟩
  · rintro ⟨hpop, hk⟩
    exact ⟨name, false, hk, .inl (by simp [hpop])⟩

theorem mem_talpMpiFinalize_process {r : RankRegions} {o : SummaryOptions} {name : List Char} :
    .processSummary name ∈ r.talpMpiFinalize o ↔ o.process ∧ r.regions[name]? = some false := by
  simp only [RankRegions.talpMpiFinalize, mem_flatMap, Prod.exists, Std.TreeMap.mem_toList_iff_getElem?_eq_some,
    mem_append, talpRecordPopSummary, talpRecordProcessSummary]
  constructor
  · rintro ⟨k, internal, hk, hc⟩
    cases internal <;> cases hprocess : o.process <;> simp [hprocess] at hc
    exact ⟨rfl, hc ▸ hk⟩
  · rintro ⟨hprocess, hk⟩
    exact ⟨name, false, hk, .inr (by simp [hprocess])⟩

theorem allOrNone_iff : (∀ (o : SummaryOptions) (c : Collective),
    (∀ r ∈ ranks, c ∈ r.talpMpiFinalize o) ∨ ∀ r ∈ ranks, c ∉ r.talpMpiFinalize o) ↔
      ∀ name : List Char, (∀ r ∈ ranks, r.regions[name]? = some false) ∨ ∀ r ∈ ranks, r.regions[name]? ≠ some false := by
  constructor
  · intro h name
    rcases h ⟨true, false⟩ (.popSummary name) with h | h
    · exact .inl fun r hr => (mem_talpMpiFinalize_pop.mp (h r hr)).2
    · exact .inr fun r hr heq => h r hr (mem_talpMpiFinalize_pop.mpr ⟨rfl, heq⟩)
  · intro h o c
    cases c with
    | popSummary name =>
      rcases h name with h | h
      · by_cases hpop : o.popMetrics = true
        · exact .inl fun r hr => mem_talpMpiFinalize_pop.mpr ⟨hpop, h r hr⟩
        · exact .inr fun r _ hc => hpop (mem_talpMpiFinalize_pop.mp hc).1
      · exact .inr fun r hr hc => h r hr (mem_talpMpiFinalize_pop.mp hc).2
    | processSummary name =>
      rcases h name with h | h
      · by_cases hprocess : o.process = true
        · exact .inl fun r hr => mem_talpMpiFinalize_process.mpr ⟨hprocess, h r hr⟩
        · exact .inr fun r _ hc => hprocess (mem_talpMpiFinalize_process.mp hc).1
      · exact .inr fun r hr hc => h r hr (mem_talpMpiFinalize_process.mp hc).2

theorem gathers_common_iff (h : ∀ r ∈ ranks, r.Registered) :
    Gathers (ranks.map fun r =>
      (ranks.flatMap (·.regions.keys)).foldl (fun r name => (r.regionRegister (.text name)).1) r) ↔
        SameInternal ranks := by
  have hregions {r : RankRegions} (hr : r ∈ ranks) := registerCommonMpiRegions_regions h hr
  constructor
  · intro hg r hr name hinternal r' hr'
    have hthere : ∃ r' ∈ ranks, name ∈ r'.regions :=
      ⟨r, hr, Std.TreeMap.mem_iff_isSome_getElem?.mpr (by rw [hinternal]; rfl)⟩
    have hname := allOrNone_iff.mp hg.allOrNone name
    simp only [forall_mem_map] at hname
    rcases hname with hall | hnone
    · have heq := hall r hr
      rw [hregions hr, if_pos hthere, hinternal] at heq
      cases heq
    · have hne := hnone r' hr'
      rw [hregions hr', if_pos hthere] at hne
      cases hget : r'.regions[name]? with
      | none => exact absurd (by rw [hget]; rfl) hne
      | some internal =>
        cases internal with
        | false => exact absurd (by rw [hget]; rfl) hne
        | true => rfl
  · intro hsame
    refine ⟨?_, allOrNone_iff.mpr fun name => ?_⟩
    · simp only [forall_mem_map]
      refine fun r hr r' hr' => keys_eq_of_mem_iff fun k => ?_
      simp only [Std.TreeMap.mem_iff_isSome_getElem?, hregions hr, hregions hr']
      split_ifs <;> rfl
    · simp only [forall_mem_map]
      by_cases hthere : ∃ r' ∈ ranks, name ∈ r'.regions
      · by_cases hinternal : ∃ r ∈ ranks, r.regions[name]? = some true
        · obtain ⟨r, hr, htrue⟩ := hinternal
          refine .inr fun r' hr' => ?_
          rw [hregions hr', if_pos hthere, hsame r hr name htrue r' hr']
          exact fun heq => nomatch heq
        · refine .inl fun r hr => ?_
          rw [hregions hr, if_pos hthere]
          cases hget : r.regions[name]? with
          | none => rfl
          | some internal =>
            cases internal with
            | false => rfl
            | true => exact absurd ⟨r, hr, hget⟩ hinternal
      · refine .inr fun r hr => ?_
        rw [hregions hr, if_neg hthere]
        exact fun heq => nomatch heq

/-- **All ranks gather the same regions**, whatever each has registered before, if and only if the names fit in the
buffer of an `int` length and the internal regions are the same in all ranks. -/
theorem gathers_iff (junk : ℕ → Char) (ranks : List RankRegions) (h : ∀ r ∈ ranks, r.Reachable) :
    (∃ after, registerCommonMpiRegions junk ranks = some after ∧ Gathers after) ↔
      (ranks.map RankRegions.charsToSend).sum < 2 ^ 31 ∧ SameInternal ranks := by
  have hregistered : ∀ r ∈ ranks, r.Registered := fun r hr => (h r hr).registered
  rw [registerCommonMpiRegions_eq hregistered, ← gathers_common_iff hregistered]
  split_ifs with hbig
  · exact iff_of_false (fun ⟨_, heq, _⟩ => nomatch heq) fun hfits => absurd hbig (Nat.not_le.mpr hfits.1)
  · constructor
    · rintro ⟨after, heq, hg⟩
      exact ⟨Nat.not_le.mp hbig, Option.some.inj heq ▸ hg⟩
    · exact fun hfits => ⟨_, rfl, hfits.2⟩

end Common

/-- The name of the region of the helper thread of MNGO. -/
def helperThreadRegionName : List Char := "helper-thread".toList

/-- The helper thread of MNGO registers its region, under the given name. -/
def helped (r : RankRegions) : RankRegions := r.exec (.mngoTalpRegionRegister (.text helperThreadRegionName))

theorem talpInit_reachable (n : ℕ) : (RankRegions.talpInit n).Reachable := ⟨n, [], by simp, rfl⟩

theorem helped_reachable (n : ℕ) : (helped (.talpInit n)).Reachable :=
  ⟨n, [.mngoTalpRegionRegister (.text helperThreadRegionName)], by
    intro call hcall
    rw [mem_singleton.mp hcall]
    change '\x00' ∉ helperThreadRegionName
    decide, rfl⟩

/-- Two ranks with helper threads. -/
theorem gathers_helped : ∃ after, registerCommonMpiRegions (fun _ => '?') [helped (.talpInit 0), helped (.talpInit 0)] =
    some after ∧ Gathers after :=
  (gathers_iff _ _ fun r hr => by
    simp only [mem_cons, not_mem_nil, or_false, or_self] at hr
    exact hr ▸ helped_reachable 0).mpr ⟨by decide, fun r hr name htrue r' hr' => by
      simp only [mem_cons, not_mem_nil, or_false, or_self] at hr hr'
      rw [hr']
      exact hr ▸ htrue⟩

/-- Only one rank has a helper thread. -/
theorem helper_thread_alone : (∀ r ∈ [helped (.talpInit 0), .talpInit 0], r.Reachable) ∧
    ¬∃ after, registerCommonMpiRegions (fun _ => '?') [helped (.talpInit 0), .talpInit 0] = some after ∧
      Gathers after := by
  have hreachable : ∀ r ∈ [helped (.talpInit 0), .talpInit 0], r.Reachable := by
    intro r hr
    rcases mem_cons.mp hr with rfl | hr
    · exact helped_reachable 0
    · exact mem_singleton.mp hr ▸ talpInit_reachable 0
  have hregistered : ∀ r ∈ [helped (.talpInit 0), .talpInit 0], r.Registered := fun r hr => (hreachable r hr).registered
  refine ⟨hreachable, ?_⟩
  rintro ⟨after, heq, hg⟩
  have hsame := (gathers_common_iff hregistered).mp (Option.some.inj heq ▸ hg)
  have hinternal := hsame _ mem_cons_self helperThreadRegionName (by decide) _
    (mem_cons_of_mem _ mem_cons_self)
  exact absurd hinternal (by decide)

end Dlb.Talp

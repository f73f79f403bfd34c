import Dlb.Talp.CommonRegions

/-!
# The table of MNGO regions

`mngo_region_register` looks a name up in its table, and otherwise makes an entry before `region_register` is asked for the
monitor, whose name becomes that of the entry. An entry has no name where none has been written, or where its monitor has been
freed, and a lookup that comes to it has no result.

* `Tabled.register`, `Tabled.fits`: a call keeps the table in order exactly if TALP takes its name, and under no name that is
  in the table already.
-/

namespace Dlb.Mngo

open Talp Function

/-! ## Regions -/

/-- The tree of TALP regions, with the number of the monitor of each name. -/
structure TalpRegions where
  regions : List Char → Option ℕ
  allocated : ℕ
  anonymousId : ℕ
  lt : ∀ {key monitor}, regions key = some monitor → monitor < allocated
  injective : ∀ {key key' monitor}, regions key = some monitor → regions key' = some monitor → key = key'

namespace TalpRegions

variable (t : TalpRegions)

def insert (key : List Char) (anonymousId : ℕ) : TalpRegions where
  regions := update t.regions key (some t.allocated)
  allocated := t.allocated + 1
  anonymousId := anonymousId
  lt := fun {key' monitor} h => by
    rw [update_apply] at h
    split at h
    · exact Option.some.inj h ▸ Nat.lt_succ_self _
    · exact Nat.lt_succ_of_lt (t.lt h)
  injective := fun {key' key'' monitor} h h' => by
    rw [update_apply] at h h'
    split at h <;> split at h'
    · next heq heq' => exact heq.trans heq'.symm
    · exact absurd (t.lt h') (Option.some.inj h ▸ Nat.lt_irrefl _)
    · exact absurd (t.lt h) (Option.some.inj h' ▸ Nat.lt_irrefl _)
    · exact t.injective h h'

/-- The name of the monitor that is registered with a name. -/
def nameOf (name : List Char) : List Char := if name = [] then anonymousName (t.anonymousId + 1) else regionKey name

/-- `region_register`, with the monitor and the one that `g_tree_insert` frees. -/
def regionRegister (name : List Char) : Option (TalpRegions × ℕ × Option ℕ) :=
  if (RegionName.text name).isForbidden then none
  else if name = [] then
    some (t.insert (t.nameOf name) (t.anonymousId + 1), t.allocated, t.regions (t.nameOf name))
  else
    match t.regions (t.nameOf name) with
    | some monitor => some (t, monitor, none)
    | none => some (t.insert (t.nameOf name) t.anonymousId, t.allocated, none)

end TalpRegions

/-- `dlb_mngo_region_t` and its pointer. -/
structure MngoRegion where
  region : ℕ
  name : Option (List Char) := none
  monitor : Option ℕ := none

def MngoRegion.free (freed : Option ℕ) (r : MngoRegion) : MngoRegion :=
  if freed.isSome ∧ r.monitor = freed then { r with name := none } else r

/-- A call of `mngo_region_register` by a thread. -/
structure RegisterCall where
  name : List Char
  string : '\x00' ∉ name
  haveMngo : Bool := true
  haveHelperThread : Bool := false
  imHelperThread : Bool := false

/-- `mngo_info_t` and the tree of TALP regions, if there is one, with what the calls so far have returned. -/
structure MngoInfo where
  talp : Option TalpRegions
  regions : List MngoRegion := []
  returned : List (List Char × ℕ) := []

namespace MngoInfo

/-- `mngo_regions_find_foreach` over the entries. -/
def findForeach (name : List Char) : Option ℕ → List MngoRegion → Option (Option ℕ)
  | found, [] => some found
  | found, r :: rest => r.name.bind fun n => findForeach name (if n = name then some r.region else found) rest

variable (s : MngoInfo)

/-- `mngo_regions__find` -/
def find (name : List Char) : Option (Option ℕ) := findForeach name none s.regions

def returns (name : List Char) (region : ℕ) : MngoInfo × Option ℕ :=
  ({ s with returned := (name, region) :: s.returned }, some region)

/-- `mngo_region_register` -/
def mngoRegionRegister (call : RegisterCall) : Option (MngoInfo × Option ℕ) :=
  if !call.haveMngo ∨ call.haveHelperThread ∧ !call.imHelperThread then some (s, none)
  else (s.find call.name).map fun found =>
    match found with
    | some region => s.returns call.name region
    | none =>
      let region := s.regions.length
      match s.talp.bind fun talp => (talp.regionRegister call.name).map (talp.nameOf call.name, ·) with
      | none => ({ s with regions := { region := region } :: s.regions }, none)
      | some (name, talp, monitor, freed) => returns { s with
          talp := some talp
          regions := ⟨region, some name, some monitor⟩ :: s.regions.map (·.free freed) } call.name region

def next (call : RegisterCall) : MngoInfo := (s.mngoRegionRegister call).elim s Prod.fst

/-! ## What is expected -/

/-- All calls of a name have returned the same region, no two regions share a monitor, and every entry has a name. -/
structure Sound : Prop where
  same : ∀ name p p', (name, p) ∈ s.returned → (name, p') ∈ s.returned → p = p'
  monitors : s.regions.Pairwise fun a b => a.monitor = none ∨ a.monitor ≠ b.monitor
  named : ∀ r ∈ s.regions, r.name.isSome

/-- A call has a result, which leaves everything in order, and the table unchanged if it is `NULL`. -/
def Registers (call : RegisterCall) : Prop :=
  ∃ s' result, s.mngoRegionRegister call = some (s', result) ∧ s'.Sound ∧ (result = none → s'.regions = s.regions)

/-- A name that is not in the table is one that TALP takes, under a name that is not in the table either, and not the second
empty one. -/
def Fits (call : RegisterCall) : Prop :=
  call.haveMngo → (call.haveHelperThread → call.imHelperThread) → (∀ r ∈ s.regions, r.name ≠ some call.name) →
    ∃ talp, s.talp = some talp ∧ (RegionName.text call.name).isForbidden = false ∧
      (∀ r ∈ s.regions, r.name ≠ some (talp.nameOf call.name)) ∧ (call.name = [] → ∀ p, ([], p) ∉ s.returned)

/-! ## The table in order -/

/-- What holds of the table as long as the calls fit. -/
structure Tabled : Prop where
  entries : ∀ r ∈ s.regions, ∃ key monitor talp, r.name = some key ∧ r.monitor = some monitor ∧ s.talp = some talp ∧
    talp.regions key = some monitor ∧ Proper key
  distinct : s.regions.Pairwise fun a b => a.name ≠ b.name
  pointers : ∀ e ∈ s.returned, e.2 < s.regions.length
  returned : ∀ e ∈ s.returned, e.1 ≠ [] → ∃ r ∈ s.regions, r.region = e.2 ∧ r.name = some (regionKey e.1)
  empty : ∀ p p', ([], p) ∈ s.returned → ([], p') ∈ s.returned → p = p'
  regions : ∀ r ∈ s.regions, r.region < s.regions.length

variable {s} {call : RegisterCall}

theorem findForeach_spec {name : List Char} : ∀ {l : List MngoRegion} (found : Option ℕ), (∀ r ∈ l, r.name.isSome) →
    ∃ p, findForeach name found l = some p ∧
      ((p = found ∧ ∀ r ∈ l, r.name ≠ some name) ∨ ∃ r ∈ l, r.name = some name ∧ p = some r.region)
  | [], found, _ => ⟨found, rfl, .inl ⟨rfl, nofun⟩⟩
  | r :: rest, found, h => by
    obtain ⟨hr, hrest⟩ := List.forall_mem_cons.mp h
    obtain ⟨n, hn⟩ := Option.isSome_iff_exists.mp hr
    obtain ⟨p, hp, hcases⟩ := findForeach_spec (if n = name then some r.region else found) hrest
    refine ⟨p, by rw [findForeach, hn]; exact hp, ?_⟩
    rcases hcases with ⟨rfl, hno⟩ | ⟨r', hr', h'⟩
    · by_cases hname : n = name
      · exact .inr ⟨r, List.mem_cons_self, hname ▸ hn, if_pos hname⟩
      · exact .inl ⟨if_neg hname, List.forall_mem_cons.mpr ⟨fun heq => hname (Option.some.inj (hn.symm.trans heq)), hno⟩⟩
    · exact .inr ⟨r', List.mem_cons_of_mem _ hr', h'⟩

theorem Tabled.inj (h : s.Tabled) {r r' : MngoRegion} (hr : r ∈ s.regions) (hr' : r' ∈ s.regions) (heq : r.name = r'.name) :
    r = r' := by
  have : Std.Symm fun a b : MngoRegion => a.name ≠ b.name := ⟨fun _ _ hab => hab.symm⟩
  by_contra hne
  exact h.distinct.forall hr hr' hne heq

theorem Tabled.sound (h : s.Tabled) : s.Sound where
  same := fun name p p' hp hp' => by
    by_cases hname : name = []
    · subst hname
      exact h.empty p p' hp hp'
    · obtain ⟨r, hr, rfl, hkey⟩ := h.returned _ hp hname
      obtain ⟨r', hr', rfl, hkey'⟩ := h.returned _ hp' hname
      rw [h.inj hr hr' (hkey.trans hkey'.symm)]
  monitors := by
    refine h.distinct.imp_of_mem fun {a b} ha hb hne => .inr fun heq => hne ?_
    obtain ⟨key, monitor, talp, hname, hmonitor, htalp, hkey, -⟩ := h.entries a ha
    obtain ⟨key', monitor', talp', hname', hmonitor', htalp', hkey', -⟩ := h.entries b hb
    obtain rfl : talp = talp' := Option.some.inj (htalp.symm.trans htalp')
    obtain rfl : monitor = monitor' := Option.some.inj (hmonitor.symm.trans (heq.trans hmonitor'))
    rw [hname, hname', talp.injective hkey hkey']
  named := fun r hr => by
    obtain ⟨key, -, -, hname, -⟩ := h.entries r hr
    rw [hname]
    rfl

theorem regionRegister_spec (talp : TalpRegions) {name : List Char} (hallowed : (RegionName.text name).isForbidden = false) :
    ∃ talp' monitor freed, talp.regionRegister name = some (talp', monitor, freed) ∧
      talp'.regions = update talp.regions (talp.nameOf name) (some monitor) ∧
      (freed = none ∧ (∀ m, talp.regions (talp.nameOf name) = some m → monitor = m) ∨
        freed = talp.regions (talp.nameOf name)) := by
  unfold TalpRegions.regionRegister
  rw [if_neg (by rw [hallowed]; decide)]
  by_cases hname : name = []
  · rw [if_pos hname]
    exact ⟨_, _, _, rfl, rfl, .inr rfl⟩
  · rw [if_neg hname]
    cases hfound : talp.regions (talp.nameOf name) with
    | none => exact ⟨_, _, _, rfl, rfl, .inl ⟨rfl, nofun⟩⟩
    | some m =>
      exact ⟨_, _, _, rfl, (update_eq_self_iff.mpr hfound.symm).symm, .inl ⟨rfl, fun m' hm => Option.some.inj hm⟩⟩

theorem Tabled.cases (h : s.Tabled) (call : RegisterCall) :
    (s.mngoRegionRegister call = some (s, none) ∧ s.Fits call) ∨
    (∃ r ∈ s.regions, r.name = some call.name ∧ s.mngoRegionRegister call = some (s.returns call.name r.region) ∧ s.Fits call) ∨
    ((∀ r ∈ s.regions, r.name ≠ some call.name) ∧ call.haveMngo ∧ (call.haveHelperThread → call.imHelperThread) ∧
      s.mngoRegionRegister call = some (match s.talp.bind fun talp =>
          (talp.regionRegister call.name).map (talp.nameOf call.name, ·) with
        | none => ({ s with regions := { region := s.regions.length } :: s.regions }, none)
        | some (name, talp, monitor, freed) => returns { s with
            talp := some talp
            regions := ⟨s.regions.length, some name, some monitor⟩ :: s.regions.map (·.free freed) } call.name
              s.regions.length)) := by
  unfold mngoRegionRegister
  by_cases hgate : !call.haveMngo ∨ call.haveHelperThread ∧ !call.imHelperThread
  · rw [if_pos hgate]
    refine .inl ⟨rfl, fun hmngo hhelper => ?_⟩
    simp only [hmngo, Bool.not_true, Bool.false_eq_true, false_or] at hgate
    simp [hhelper hgate.1] at hgate
  · rw [if_neg hgate]
    obtain ⟨p, hp, hcases⟩ := @findForeach_spec call.name _ none h.sound.named
    rw [find, hp]
    rcases hcases with ⟨rfl, hno⟩ | ⟨r, hr, hname, rfl⟩
    · simp only [not_or, not_and, Bool.not_eq_true', Bool.not_eq_false] at hgate
      exact .inr (.inr ⟨hno, hgate.1, hgate.2, rfl⟩)
    · exact .inr (.inl ⟨r, hr, hname, rfl, fun _ _ hno => absurd hname (hno r hr)⟩)

theorem Tabled.found (h : s.Tabled) {r : MngoRegion} (hr : r ∈ s.regions) {name : List Char} (hname : r.name = some name) :
    (s.returns name r.region).1.Tabled := by
  obtain ⟨key, -, -, hkey, -, -, -, hproper⟩ := h.entries r hr
  obtain rfl : name = key := Option.some.inj (hname.symm.trans hkey)
  refine ⟨h.entries, h.distinct, List.forall_mem_cons.mpr ⟨h.regions r hr, h.pointers⟩,
    List.forall_mem_cons.mpr ⟨fun _ => ⟨r, hr, rfl, hproper.own.symm ▸ hname⟩, h.returned⟩, fun p p' hp hp' => ?_, h.regions⟩
  have hold {p : ℕ} (hp : ([], p) ∈ (name, r.region) :: s.returned) : ([], p) ∈ s.returned :=
    (List.mem_cons.mp hp).resolve_left fun heq => hproper.ne_nil (Prod.mk.inj heq).1.symm
  exact h.empty p p' (hold hp) (hold hp')

theorem Tabled.created (h : s.Tabled) {talp talp' : TalpRegions} {monitor : ℕ} (hs : s.talp = some talp) {name : List Char}
    (hproper : Proper (talp.nameOf name)) (hregions : talp'.regions = update talp.regions (talp.nameOf name) (some monitor))
    (hnew : ∀ r ∈ s.regions, r.name ≠ some (talp.nameOf name)) (hempty : name = [] → ∀ p, ([], p) ∉ s.returned) :
    (returns { s with
      talp := some talp'
      regions := ⟨s.regions.length, some (talp.nameOf name), some monitor⟩ :: s.regions } name s.regions.length).1.Tabled where
  entries := by
    refine List.forall_mem_cons.mpr ⟨⟨_, monitor, talp', rfl, rfl, rfl, by rw [hregions, update_self], hproper⟩, fun r hr => ?_⟩
    obtain ⟨key, monitor, talp'', hname, hmonitor, htalp, hkey, hproper⟩ := h.entries r hr
    obtain rfl : talp = talp'' := Option.some.inj (hs.symm.trans htalp)
    have hne : key ≠ talp.nameOf name := fun heq => hnew r hr (heq ▸ hname)
    exact ⟨key, monitor, talp', hname, hmonitor, rfl, by rw [hregions, update_of_ne hne, hkey], hproper⟩
  distinct := List.pairwise_cons.mpr ⟨fun r hr heq => hnew r hr heq.symm, h.distinct⟩
  pointers := List.forall_mem_cons.mpr ⟨Nat.lt_succ_self _, fun e he => Nat.lt_succ_of_lt (h.pointers e he)⟩
  returned := by
    refine List.forall_mem_cons.mpr ⟨fun hne => ⟨_, List.mem_cons_self, rfl, congrArg some (if_neg hne)⟩, fun e he hne => ?_⟩
    obtain ⟨r, hr, h'⟩ := h.returned e he hne
    exact ⟨r, List.mem_cons_of_mem _ hr, h'⟩
  empty := fun p p' hp hp' => by
    rcases List.mem_cons.mp hp with heq | hold <;> rcases List.mem_cons.mp hp' with heq' | hold'
    · exact (Prod.mk.inj heq).2.trans (Prod.mk.inj heq').2.symm
    · exact absurd hold' (hempty (Prod.mk.inj heq).1.symm p')
    · exact absurd hold (hempty (Prod.mk.inj heq').1.symm p)
    · exact h.empty p p' hold hold'
  regions := List.forall_mem_cons.mpr ⟨Nat.lt_succ_self _, fun r hr => Nat.lt_succ_of_lt (h.regions r hr)⟩

theorem map_free_none (l : List MngoRegion) : l.map (·.free none) = l :=
  (List.map_congr_left fun _ _ => if_neg fun h => nomatch h.1).trans (List.map_id _)

theorem Tabled.register (h : s.Tabled) (hfits : s.Fits call) : ∃ s' result, s.mngoRegionRegister call = some (s', result) ∧
    s'.Tabled ∧ (result = none → s'.regions = s.regions) := by
  obtain ⟨heq, -⟩ | ⟨r, hr, hname, heq, -⟩ | ⟨hno, hmngo, hhelper, heq⟩ := h.cases call
  · exact ⟨s, none, heq, h, fun _ => rfl⟩
  · exact ⟨_, _, heq, h.found hr hname, nofun⟩
  · obtain ⟨talp, htalp, hallowed, hnew, hempty⟩ := hfits hmngo hhelper hno
    obtain ⟨talp', monitor, freed, hregister, hregions, hfreed⟩ := regionRegister_spec talp hallowed
    have hproper : Proper (talp.nameOf call.name) := by
      unfold TalpRegions.nameOf
      split
      · exact proper_anonymousName _
      · next hne => exact proper_regionKey hne call.string hallowed
    have hfree : s.regions.map (·.free freed) = s.regions := by
      refine (List.map_congr_left fun r hr => if_neg fun ⟨hsome, hmonitor⟩ => ?_).trans (List.map_id _)
      obtain ⟨key, m, talp'', hname, hm, htalp', hkey, -⟩ := h.entries r hr
      obtain rfl : talp = talp'' := Option.some.inj (htalp.symm.trans htalp')
      rcases hfreed with ⟨rfl, -⟩ | rfl
      · cases hsome
      · exact hnew r hr (talp.injective (hmonitor.symm.trans hm) hkey ▸ hname)
    rw [htalp, Option.bind_some, hregister, Option.map_some] at heq
    dsimp only at heq
    rw [hfree] at heq
    exact ⟨_, _, heq, h.created htalp hproper hregions hnew hempty, nofun⟩

theorem Tabled.fits (h : s.Tabled) (hright : s.Registers call) : s.Fits call := by
  obtain ⟨s', result, heq', hsound, hatomic⟩ := hright
  obtain ⟨-, hfits⟩ | ⟨-, -, -, -, hfits⟩ | ⟨hno, -, -, heq⟩ := h.cases call
  · exact hfits
  · exact hfits
  · have hresult := Option.some.inj (heq'.symm.trans heq)
    -- the entry that has been made for a name that TALP does not take
    have hnull (hnone : (s.talp.bind fun talp => (talp.regionRegister call.name).map (talp.nameOf call.name, ·)) = none) :
        False := by
      rw [hnone] at hresult
      obtain ⟨rfl, rfl⟩ := Prod.mk.inj hresult
      exact List.cons_ne_self _ _ (hatomic rfl)
    refine fun _ _ _ => ?_
    cases htalp : s.talp with
    | none => exact (hnull (by rw [htalp]; rfl)).elim
    | some talp =>
      have hallowed : (RegionName.text call.name).isForbidden = false := by
        by_contra hforbidden
        refine hnull ?_
        rw [htalp, Option.bind_some, TalpRegions.regionRegister, if_pos (by simpa using hforbidden)]
        rfl
      obtain ⟨talp', monitor, freed, hregister, -, hfreed⟩ := regionRegister_spec talp hallowed
      rw [htalp, Option.bind_some, hregister, Option.map_some] at hresult
      obtain ⟨rfl, -⟩ := Prod.mk.inj hresult
      refine ⟨talp, rfl, hallowed, fun r hr hname => ?_, fun hempty p hp => ?_⟩
      · obtain ⟨key, m, talp'', hkey, hm, htalp', htree, -⟩ := h.entries r hr
        obtain rfl : talp = talp'' := Option.some.inj (htalp.symm.trans htalp')
        rw [← Option.some.inj (hname.symm.trans hkey)] at htree
        rcases hfreed with ⟨rfl, hsame⟩ | rfl
        · have hfirst := (List.pairwise_cons.mp hsound.monitors).1 r (by rw [map_free_none]; exact hr)
          rw [hm, hsame m htree] at hfirst
          exact hfirst.elim nofun fun hne => hne rfl
        · have hnamed := hsound.named _ (List.mem_cons_of_mem _ (List.mem_map_of_mem hr))
          rw [MngoRegion.free, if_pos ⟨by rw [htree]; rfl, hm.trans htree.symm⟩] at hnamed
          cases hnamed
      · have hsame := hsound.same [] s.regions.length p (List.mem_cons.mpr (.inl (by rw [hempty])))
          (List.mem_cons_of_mem _ hp)
        exact absurd (h.pointers _ hp) (hsame ▸ Nat.lt_irrefl _)

/-- **The registration** keeps everything in order in a run exactly if each of its calls fits. -/
theorem registration_sound_iff (talp : Option TalpRegions) (calls : List RegisterCall) :
    Lib.Along next Registers { talp := talp } calls ↔ Lib.Along next Fits { talp := talp } calls := by
  refine Lib.Along.congr (I := Tabled) (R := fun _ => True) (fun s call h _ hfits => ?_) (fun s call h _ => ?_) _ calls
    ⟨nofun, .nil, nofun, nofun, nofun, nofun⟩ fun _ _ => trivial
  · obtain ⟨s', result, heq, h', -⟩ := h.register hfits
    rw [next, heq]
    exact h'
  · refine ⟨h.fits, fun hfits => ?_⟩
    obtain ⟨s', result, heq, h', hatomic⟩ := h.register hfits
    exact ⟨s', result, heq, h'.sound, hatomic⟩

/-- The tree after `talp_init`. -/
def onlyGlobal : TalpRegions where
  regions := update (fun _ => none) globalRegionName (some 0)
  allocated := 1
  anonymousId := 0
  lt := fun {key monitor} h => by
    rw [update_apply] at h
    split at h
    · exact Option.some.inj h ▸ Nat.one_pos
    · cases h
  injective := fun {key key' monitor} h h' => by
    rw [update_apply] at h h'
    split at h <;> split at h' <;> first | contradiction | exact ‹key = _›.trans ‹key' = _›.symm

/-- The region `All` is refused, and its entry is left. -/
theorem all_refused : ¬Lib.Along next Registers { talp := some onlyGlobal } [⟨"All".toList, by decide, true, false, false⟩] := by
  rintro ⟨⟨s', result, heq, -, hatomic⟩, -⟩
  cases heq
  exact nomatch hatomic rfl

end MngoInfo

end Dlb.Mngo

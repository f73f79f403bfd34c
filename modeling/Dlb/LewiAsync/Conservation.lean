import Dlb.LewiAsync.Ops

/-!
# LeWI-async conserves CPUs

Idle CPUs and CPUs of processes make up the CPUs that the registered processes started with, in every state of every
run in which no reclaim meets two surpluses `2 ^ 31` or more apart (`conservation`). The comparison function of the
queue returns an unsigned difference as an `int`, so beyond that distance it does not sort, a reclaim can fail, and a
process that leaves takes CPUs with it (`not_conserved`).
-/

namespace Dlb.LewiAsync

open Finset (range)

/-! ## What each call keeps -/

/-- The computation returns in a release build, and whatever it returns meets `P`. -/
structure Keeps {β : Type} (E : Env) (P : Shdata → β → Prop) (x : Option (Shdata × β)) : Prop where
  returns : E.debug = false → ∃ r, x = some r
  meets : ∀ s' b, x = some (s', b) → P s' b

section Keeps

variable {β γ : Type} {E : Env} {P : Shdata → β → Prop} {P' : Shdata → γ → Prop} {x : Option (Shdata × β)}

theorem Keeps.of_some {s' : Shdata} {b : β} (h : P s' b) : Keeps E P (some (s', b)) :=
  ⟨fun _ => ⟨_, rfl⟩, by rintro _ _ ⟨⟩; exact h⟩

theorem Keeps.bind {f : Shdata × β → Option (Shdata × γ)} (h : Keeps E P x)
    (hf : ∀ s' b, P s' b → Keeps E P' (f (s', b))) : Keeps E P' (x.bind f) := by
  constructor
  · intro hE
    obtain ⟨⟨s', b⟩, hx⟩ := h.returns hE
    rw [hx]
    exact (hf s' b (h.meets s' b hx)).returns hE
  · intro s'' o ho
    obtain ⟨⟨s', b⟩, hx, hfo⟩ := Option.bind_eq_some_iff.mp ho
    exact (hf s' b (h.meets s' b hx)).meets s'' o hfo

end Keeps

section Calls

variable {E : Env} {c : Caller} {s : Shdata} {pid : Pid} {i n k maxreqs : ℕ}

/-- The invariant between calls, with the registrations of `s`. -/
def Same (s s' : Shdata) : Prop := Good 0 s' ∧ Frame s s'

theorem lend_keeps {d : ℕ} (g : Good (d + n) s) :
    Keeps E (fun s' _ => Good d s' ∧ Lent s s') (lendNcpusToShmem E c s n maxreqs) where
  returns hE := by obtain ⟨s', out, h⟩ := lendNcpusToShmem_returns (c := c) g hE; exact ⟨_, h⟩
  meets _ _ h := lendNcpusToShmem_good g h

theorem lendFrom_keeps (g : Good 0 s) (hi : (s.processes i).pid ≠ 0) (hn : n ≤ (s.processes i).currentNcpus) :
    Keeps E (fun s' _ => Same s s') (lendFrom E c s i (s.processes i).pid n maxreqs) := by
  have g1 := remove_good g hi
  have g2 := subNcpus_good g1 hi hn
  refine (lend_keeps g2).bind fun s' _ h => .of_some ⟨h.1, ?_⟩
  have hf := setNcpus_frame { s with requests := (queueLewiReqsRemove s.requests (s.processes i).pid).2 } i
    ((s.processes i).currentNcpus - n)
  exact Frame.trans ⟨hf.head, hf.pid, hf.initialNcpus⟩ h.2.frame

theorem lendCpus_keeps (g : Good 0 s) (hp : pid ≠ 0) :
    Keeps E (fun s' _ => Same s s') (lendCpus E c s pid n maxreqs) := by
  unfold lendCpus
  split
  · exact .of_some ⟨g, .refl s⟩
  · split
    · exact .of_some ⟨g, .refl s⟩
    · rename_i i hget
      have hi := getProcess_pid hget
      subst hi
      split
      · exact .of_some ⟨g, .refl s⟩
      · split
        · exact .of_some ⟨g, .refl s⟩
        · exact (lendFrom_keeps g hp (by omega)).bind fun _ _ h => .of_some h

theorem lendKeepCpus_keeps (g : Good 0 s) (hp : pid ≠ 0) :
    Keeps E (fun s' _ => Same s s') (lendKeepCpus E c s pid n maxreqs) := by
  unfold lendKeepCpus
  split
  · exact .of_some ⟨g, .refl s⟩
  · split
    · exact .of_some ⟨g, .refl s⟩
    · rename_i i hget
      have hi := getProcess_pid hget
      subst hi
      split
      · exact .of_some ⟨g, .refl s⟩
      · split
        · exact .of_some ⟨g, .refl s⟩
        · exact (lendFrom_keeps g hp (Nat.sub_le _ _)).bind fun _ _ h => .of_some h

theorem borrowAndReclaim_keeps (g : Good 0 s) (hr : (registered s).card < queueLewiReqsCapacity)
    (hm : (registered s).card ≤ maxreqs) (hs : Lacks s i → Spread (surplusQueue s)) (hi : (s.processes i).pid ≠ 0)
    (hlt : (s.processes i).currentNcpus < (s.processes i).initialNcpus) :
    Keeps E (fun s' r => Good 0 s' ∧ r.1 ≠ .errReqst ∧
        Reclaimed i ((s.processes i).initialNcpus - (s.processes i).currentNcpus) s s')
      (borrowAndReclaim E c s i ((s.processes i).initialNcpus - (s.processes i).currentNcpus) maxreqs) := by
  obtain ⟨s', e, out, h, he, g', hrec⟩ := borrowAndReclaim_spec (E := E) (c := c)
    (k := (s.processes i).initialNcpus - (s.processes i).currentNcpus) g hr hm
    (fun _ => hs) hi (by omega)
  rw [h]
  exact .of_some ⟨g', he, hrec⟩

theorem reclaim_keeps (g : Good 0 s) (hr : (registered s).card < queueLewiReqsCapacity)
    (hm : (registered s).card ≤ maxreqs)
    (hs : ∀ i, getProcess c s pid = some i → Lacks s i → Spread (surplusQueue s)) (hp : pid ≠ 0) :
    Keeps E (fun s' _ => Same s s') (reclaim E c s pid maxreqs k) := by
  unfold reclaim
  split
  · exact .of_some ⟨g, .refl s⟩
  · split
    · exact .of_some ⟨g, .refl s⟩
    · rename_i i hget
      have hi := getProcess_pid hget
      have hs' := hs i hget
      subst hi
      split
      · rename_i hlt
        refine (borrowAndReclaim_keeps g hr hm hs' hp hlt).bind fun s1 r h => .of_some ?_
        obtain ⟨g1, -, hrec⟩ := h
        have hf := hrec.frame
        split
        · obtain ⟨s2, he, g2, hf2, -⟩ := attendPrevRequested_spec (k := k) (i := i) g1
            (by rw [hf.registered]; exact hr) (by rw [hf.pid]; exact hp)
          rw [hf.pid] at he
          rw [he]
          exact ⟨g2, hf.trans hf2⟩
        · exact ⟨g1, hf⟩
      · exact .of_some ⟨g, .refl s⟩

theorem borrowCpus_same (g : Good 0 s) (hp : pid ≠ 0) : Same s (borrowCpus c s pid n).1 := by
  unfold borrowCpus
  split
  · exact ⟨g, .refl s⟩
  · split
    · exact ⟨g, .refl s⟩
    · rename_i i hget
      obtain ⟨g', hb⟩ := borrowFirst_spec g (by rw [getProcess_pid hget]; exact hp) n
      exact ⟨g', hb.frame⟩

theorem removeRequests_same (g : Good 0 s) (hp : pid ≠ 0) : Same s (removeRequests c s pid) := by
  unfold removeRequests
  split
  · exact ⟨g, .refl s⟩
  · exact ⟨remove_good g hp, rfl, fun _ => rfl, fun _ => rfl⟩

theorem pushRest_same {s2 : Shdata} (g : Good 0 s2) (hf : Frame s s2) (hp : (s.processes i).pid ≠ 0)
    (hr : (registered s).card < queueLewiReqsCapacity) :
    Same s (if 0 < n then
      { s2 with requests := (queueLewiReqsPush s2.requests (s.processes i).pid n).2 } else s2) := by
  split
  · rename_i hn
    have := push_good (i := i) g (by rw [hf.registered]; exact hr) (by rw [hf.pid]; exact hp) hn
    rw [hf.pid] at this
    exact ⟨this, hf.requests _⟩
  · exact ⟨g, hf⟩

theorem acquireCpus_keeps (g : Good 0 s) (hr : (registered s).card < queueLewiReqsCapacity)
    (hm : (registered s).card ≤ maxreqs)
    (hs : ∀ i, getProcess c s pid = some i → s.idleCpus < n → Lacks s i → Spread (surplusQueue s)) (hp : pid ≠ 0) :
    Keeps E (fun s' _ => Same s s') (acquireCpus E c s pid n maxreqs) := by
  unfold acquireCpus
  split
  · exact .of_some ⟨g, .refl s⟩
  split
  · exact .of_some ⟨g, .refl s⟩
  split
  · exact .of_some ⟨g, .refl s⟩
  rename_i i hget
  have hi := getProcess_pid hget
  have hs' := hs i hget
  subst hi
  obtain ⟨g1, hb⟩ := borrowFirst_spec g hp n
  dsimp only
  refine Keeps.bind (P := fun s' _ => Same s s') ?_ fun s2 r h => .of_some (pushRest_same h.1 h.2 hp hr)
  unfold reclaimLater
  split
  · rename_i hpos
    obtain ⟨s', out, he, g', hrec, -⟩ := reclaimAfterBorrow_spec (E := E) (c := c) g hr hm hs' hp hpos
      (Nat.min_le_left _ _) (hb.ncpusToReclaim_le _)
    rw [he]
    exact .of_some ⟨g', hb.frame.trans hrec.frame⟩
  · exact .of_some ⟨g1, hb.frame⟩

theorem resetProcess_keeps (g : Good 0 s) (hr : (registered s).card < queueLewiReqsCapacity)
    (hm : (registered s).card ≤ maxreqs) (hs : Lacks s i → Spread (surplusQueue s)) (hi : (s.processes i).pid ≠ 0) :
    Keeps E (fun s' r => Good 0 s' ∧ Frame s s' ∧ r.1 ≠ .errReqst ∧
      (s'.processes i).currentNcpus = (s.processes i).initialNcpus ∧ (s.processes i).pid ∉ pids s'.requests)
      (resetProcess E c s i maxreqs) := by
  have hgone : (s.processes i).pid ∉ pids (queueLewiReqsRemove s.requests (s.processes i).pid).2 := fun hm => by
    obtain ⟨x, hx, hxi⟩ := List.mem_map.mp hm
    exact (((remove_spec g.nodup hi).2.2 x).mp hx).2 hxi
  have g1 := remove_good g hi
  let s1 := { s with requests := (queueLewiReqsRemove s.requests (s.processes i).pid).2 }
  unfold resetProcess
  dsimp only
  split
  · rename_i hlt
    have g2 := subNcpus_good (n := (s.processes i).currentNcpus - (s.processes i).initialNcpus) g1 hi (Nat.sub_le _ _)
    refine (lend_keeps g2).bind fun s' _ h => .of_some ⟨h.1, ?_, nofun, ?_, fun hm => ?_⟩
    · have hf := setNcpus_frame s1 i ((s.processes i).currentNcpus -
        ((s.processes i).currentNcpus - (s.processes i).initialNcpus))
      exact Frame.trans ⟨hf.head, hf.pid, hf.initialNcpus⟩ h.2.frame
    · rw [h.2.others i (by rw [subNcpus_eq, setNcpus_pid]; exact hgone), subNcpus_eq, setNcpus_currentNcpus, if_pos rfl]
      show (s.processes i).currentNcpus - ((s.processes i).currentNcpus - (s.processes i).initialNcpus) = _
      omega
    · exact hgone (h.2.queued _ hm)
  · split
    · rename_i hge hlt
      refine (borrowAndReclaim_keeps (s := s1) g1 hr hm hs hi hlt).bind fun s' r h => .of_some ⟨h.1, ?_, h.2.1, ?_, ?_⟩
      · exact ⟨h.2.2.frame.head, h.2.2.frame.pid, h.2.2.frame.initialNcpus⟩
      · rw [h.2.2.own]
        show (s.processes i).currentNcpus + ((s.processes i).initialNcpus - (s.processes i).currentNcpus) = _
        omega
      · exact fun hm => hgone (h.2.2.queued hm)
    · exact .of_some ⟨g1, ⟨rfl, fun _ => rfl, fun _ => rfl⟩, nofun,
        show (s.processes i).currentNcpus = _ by omega, hgone⟩

theorem reset_keeps (g : Good 0 s) (hr : (registered s).card < queueLewiReqsCapacity)
    (hm : (registered s).card ≤ maxreqs)
    (hs : ∀ i, getProcess c s pid = some i → Lacks s i → Spread (surplusQueue s)) (hp : pid ≠ 0) :
    Keeps E (fun s' _ => Same s s') (reset E c s pid maxreqs) := by
  unfold reset
  split
  · exact .of_some ⟨g, .refl s⟩
  split
  · exact .of_some ⟨g, .refl s⟩
  rename_i i hget
  have hi := getProcess_pid hget
  have hs' := hs i hget
  subst hi
  split
  · exact (resetProcess_keeps g hr hm hs' hp).bind fun _ _ h => .of_some ⟨h.1, h.2.1⟩
  · exact .of_some ⟨g, .refl s⟩

theorem unregister_good (g : Good 0 s) (hi : (s.processes i).pid ≠ 0)
    (hcur : (s.processes i).currentNcpus = (s.processes i).initialNcpus) (hq : (s.processes i).pid ∉ pids s.requests) :
    Good 0 { s.set i {} with attachedNprocs := s.attachedNprocs - 1 } ∧
      registered { s.set i {} with attachedNprocs := s.attachedNprocs - 1 } = (registered s).erase i := by
  have hmem := (mem_registered g).mpr hi
  have hreg : registered { s.set i {} with attachedNprocs := s.attachedNprocs - 1 } = (registered s).erase i := by
    ext j
    rw [Finset.mem_erase, registered, registered, Finset.mem_filter, Finset.mem_filter]
    by_cases hj : j = i
    · subst hj; simp [Shdata.set]
    · simp [Shdata.set, hj]
  have hc := Lib.sum_update s.processes (·.currentNcpus) i {} (g.lt_head hi)
  have hn := Lib.sum_update s.processes (·.initialNcpus) i {} (g.lt_head hi)
  have hcons := g.conserved
  have hfits := g.fits
  have hslot : ∀ j, ((s.set i {}).processes j).pid ≠ 0 → j ≠ i ∧ (s.set i {}).processes j = s.processes j := by
    intro j hj
    have hji : j ≠ i := by rintro rfl; exact hj (by simp [Shdata.set])
    exact ⟨hji, Function.update_of_ne hji _ _⟩
  refine ⟨⟨fun j hj => ?_, fun j hj => ?_, fun j k hj hjk => ?_, fun p hp => ?_, g.nodup, ?_, ?_, ?_⟩, hreg⟩
  · by_contra h0
    obtain ⟨-, he⟩ := hslot j h0
    exact h0 (by simpa [he] using g.beyond j hj)
  · by_cases hji : j = i
    · subst hji; simp [Shdata.set]
    · have he : (s.set i {}).processes j = s.processes j := Function.update_of_ne hji _ _
      rw [he] at hj ⊢
      exact g.empty j hj
  · have hk : ((s.set i {}).processes k).pid ≠ 0 := hjk ▸ hj
    obtain ⟨-, hej⟩ := hslot j hj
    obtain ⟨-, hek⟩ := hslot k hk
    rw [hej] at hj hjk
    rw [hek] at hjk
    exact g.distinct j k hj hjk
  · obtain ⟨hp0, j, hj⟩ := g.queued p hp
    have hji : j ≠ i := by rintro rfl; exact hq (hj ▸ hp)
    exact ⟨hp0, j, by dsimp only [Shdata.set]; rw [Function.update_of_ne hji]; exact hj⟩
  · rw [hreg, Finset.card_erase_of_mem hmem, ← g.attached]
  · show s.idleCpus + current (s.set i {}) + 0 = initial (s.set i {})
    simp only [current, initial, Shdata.set] at *
    omega
  · show initial (s.set i {}) < 2 ^ 32
    simp only [initial, Shdata.set] at *
    omega

/-- The invariant of runs: the memory is well formed and at most 255 processes are registered. -/
def Inv (s : Shdata) : Prop := Good 0 s ∧ (registered s).card < queueLewiReqsCapacity

theorem Same.inv {s' : Shdata} (h : Same s s') (hr : (registered s).card < queueLewiReqsCapacity) : Inv s' :=
  ⟨h.1, by rw [h.2.registered]; exact hr⟩

theorem finalize_keeps (g : Good 0 s) (hr : (registered s).card < queueLewiReqsCapacity)
    (hm : (registered s).card ≤ maxreqs)
    (hs : ∀ i, getProcess c s pid = some i → Lacks s i → Spread (surplusQueue s)) (hp : pid ≠ 0) :
    Keeps E (fun s' _ => Inv s') (finalize E c s pid maxreqs) := by
  unfold finalize
  split
  · exact .of_some ⟨g, hr⟩
  split
  · exact .of_some ⟨g, hr⟩
  rename_i i hget
  have hi := getProcess_pid hget
  have hs' := hs i hget
  subst hi
  refine (resetProcess_keeps g hr hm hs' hp).bind fun s' r h => .of_some ?_
  obtain ⟨g', hf, -, hcur, hq⟩ := h
  obtain ⟨g1, hreg⟩ := unregister_good g' (by rw [hf.pid]; exact hp) (by rw [hf.initialNcpus]; exact hcur)
    (by rw [hf.pid]; exact hq)
  refine ⟨g1, ?_⟩
  rw [hreg]
  exact (Finset.card_erase_le).trans_lt (by rw [hf.registered]; exact hr)

/-- The common part of an init: the counter of processes is one ahead, nothing is idle that was not. -/
structure Attaching (s s1 : Shdata) : Prop where
  processes : s1.processes = s.processes
  head : s1.procListHead = s.procListHead
  attached : s1.attachedNprocs = s.attachedNprocs + 1
  idle : s1.idleCpus = s.idleCpus
  requests : s1.requests = s.requests

theorem Good.of_detached (g : Good 0 s) (h0 : s.attachedNprocs = 0) : s.idleCpus = 0 ∧ s.requests = [] := by
  have hempty : registered s = ∅ := Finset.card_eq_zero.mp (g.attached ▸ h0)
  have hslot : ∀ j, s.processes j = {} := fun j => g.empty j (by
    by_contra hj
    have := (mem_registered g).mpr hj
    rw [hempty] at this
    exact absurd this (Finset.notMem_empty j))
  constructor
  · have hini : initial s = 0 := by simp [initial, hslot]
    have := g.conserved
    omega
  · rw [← List.length_eq_zero_iff]
    have := g.requests_length
    rw [hempty, Finset.card_empty] at this
    omega

theorem Attaching.undo_good {s1 : Shdata} (ha : Attaching s s1) (g : Good 0 s) :
    Good 0 { s1 with attachedNprocs := s1.attachedNprocs - 1 } ∧
      registered { s1 with attachedNprocs := s1.attachedNprocs - 1 } = registered s := by
  obtain ⟨hp, hh, hat, hid, hrq⟩ := ha
  have hreg : registered { s1 with attachedNprocs := s1.attachedNprocs - 1 } = registered s := by
    simp only [registered, hp, hh]
  refine ⟨⟨by rw [hp, hh]; exact g.beyond, by rw [hp]; exact g.empty, by rw [hp]; exact g.distinct,
    by rw [hp, hrq]; exact g.queued, by rw [hrq]; exact g.nodup, ?_, ?_, ?_⟩, hreg⟩
  · rw [hreg, ← g.attached, hat]; rfl
  · simpa only [current, initial, hp, hh, hid] using g.conserved
  · simpa only [initial, hp, hh] using g.fits

theorem Attaching.register_good {s1 : Shdata} (ha : Attaching s s1) (g : Good 0 s) (hp0 : pid ≠ 0)
    (hnew : ∀ j, (s.processes j).pid ≠ pid) (hi : (s.processes i).pid = 0) (hfit : initial s + n < 2 ^ 32) :
    Good 0 ({ s1 with procListHead := max s1.procListHead (i + 1) }.set i ⟨pid, n, n⟩) ∧
      registered ({ s1 with procListHead := max s1.procListHead (i + 1) }.set i ⟨pid, n, n⟩) =
        insert i (registered s) := by
  obtain ⟨hp, hh, hat, hid, hrq⟩ := ha
  have hproc : ∀ j, j ≠ i → ({ s1 with procListHead := max s1.procListHead (i + 1) }.set i ⟨pid, n, n⟩).processes j =
      s.processes j := fun j hj => by simp [Shdata.set, Function.update_of_ne hj, hp]
  have hslot : ({ s1 with procListHead := max s1.procListHead (i + 1) }.set i ⟨pid, n, n⟩).processes i =
      ⟨pid, n, n⟩ := by simp [Shdata.set]
  have hhead : ({ s1 with procListHead := max s1.procListHead (i + 1) }.set i ⟨pid, n, n⟩).procListHead =
      max s.procListHead (i + 1) := by simp [Shdata.set, hh]
  generalize hS : { s1 with procListHead := max s1.procListHead (i + 1) }.set i ⟨pid, n, n⟩ = s' at *
  have hupd : s'.processes = Function.update s.processes i ⟨pid, n, n⟩ := by
    funext j
    by_cases hj : j = i
    · subst hj; rw [hslot, Function.update_self]
    · rw [hproc j hj, Function.update_of_ne hj]
  have hsum : ∀ f : LewiProcess → ℕ, f {} = 0 → f ⟨pid, n, n⟩ = n →
      ∑ j ∈ range s'.procListHead, f (s'.processes j) = ∑ j ∈ range s.procListHead, f (s.processes j) + n := by
    intro f hf0 hfn
    have h₁ := Lib.sum_update s.processes f i ⟨pid, n, n⟩ (show i < max s.procListHead (i + 1) by omega)
    have h₂ := Lib.sum_extend (fun j => f (s.processes j)) (m := s.procListHead) (n := max s.procListHead (i + 1))
      (fun j hj => by simp only [g.empty j (g.beyond j hj), hf0]) (by omega)
    rw [hhead, hupd]
    rw [g.empty i hi, hf0, hfn] at h₁
    omega
  have hreg : registered s' = insert i (registered s) := by
    ext j
    rw [Finset.mem_insert, registered, Finset.mem_filter, Finset.mem_range, hhead, mem_registered g]
    by_cases hj : j = i
    · subst hj; simp [hslot, hp0]
    · rw [hproc j hj]
      constructor
      · exact fun h => Or.inr h.2
      · exact fun h => ⟨by have := g.lt_head (h.resolve_left hj); omega, h.resolve_left hj⟩
  have hnot : i ∉ registered s := fun h => (mem_registered g).mp h hi
  have hrest : s'.idleCpus = s.idleCpus ∧ s'.requests = s.requests ∧ s'.attachedNprocs = s.attachedNprocs + 1 := by
    rw [← hS]; exact ⟨hid, hrq, hat⟩
  refine ⟨⟨fun j hj => ?_, fun j hj => ?_, fun j k hj hjk => ?_, fun p hp => ?_, ?_, ?_, ?_, ?_⟩, hreg⟩
  · rw [hproc j (by omega)]; exact g.beyond j (by omega)
  · have hji : j ≠ i := by rintro rfl; rw [hslot] at hj; exact hp0 hj
    rw [hproc j hji] at hj ⊢
    exact g.empty j hj
  · by_cases hji : j = i <;> by_cases hki : k = i
    · rw [hji, hki]
    · subst hji; rw [hslot, hproc k hki] at hjk; exact absurd hjk.symm (hnew k)
    · subst hki; rw [hslot, hproc j hji] at hjk; exact absurd hjk (hnew j)
    · rw [hproc j hji] at hj hjk; rw [hproc k hki] at hjk; exact g.distinct j k hj hjk
  · rw [hrest.2.1] at hp
    obtain ⟨h0, j, hj⟩ := g.queued p hp
    have hji : j ≠ i := by rintro rfl; exact h0 (hj ▸ hi)
    exact ⟨h0, j, by rw [hproc j hji]; exact hj⟩
  · rw [hrest.2.1]; exact g.nodup
  · rw [hreg, Finset.card_insert_of_notMem hnot, ← g.attached, hrest.2.2]
  · have hc := hsum (·.currentNcpus) rfl rfl
    have hn := hsum (·.initialNcpus) rfl rfl
    have := g.conserved
    have := hrest.1
    simp only [current, initial] at *
    omega
  · have hn := hsum (·.initialNcpus) rfl rfl
    simp only [initial] at *
    omega

theorem init_inv (hv : Inv s) (hp : pid ≠ 0) (hnew : ∀ j, (s.processes j).pid ≠ pid)
    (hr : (registered s).card + 1 < queueLewiReqsCapacity) (hfit : initial s + n < 2 ^ 32) :
    Inv (init c s pid n).1 := by
  obtain ⟨g, -⟩ := hv
  have ha : ∃ s1, Attaching s s1 ∧ (if s.attachedNprocs + 1 = 1 then
      { s with attachedNprocs := 1, maxProcesses := c.maxProcesses, idleCpus := 0, requests := [] }
      else { s with attachedNprocs := s.attachedNprocs + 1 }) = s1 := by
    refine ⟨_, ?_, rfl⟩
    split
    · rename_i h1
      obtain ⟨h2, h3⟩ := g.of_detached (by omega)
      exact ⟨rfl, rfl, h1.symm, h2.symm, h3.symm⟩
    · exact ⟨rfl, rfl, rfl, rfl, rfl⟩
  obtain ⟨s1, ha, he⟩ := ha
  unfold init
  simp only [he]
  have hundo := ha.undo_good g
  have hcard : (registered s).card < queueLewiReqsCapacity := by omega
  split
  · split
    · rename_i p hscan
      have hslot : (s.processes p).pid = 0 := by
        have := (Lib.scan_some hscan).2.1
        rw [ha.processes] at this
        simpa using this
      obtain ⟨g', hreg⟩ := ha.register_good g hp hnew hslot hfit
      exact ⟨g', by rw [hreg]; exact (Finset.card_insert_le _ _).trans_lt hr⟩
    · exact ⟨hundo.1, by rw [hundo.2]; exact hcard⟩
  · exact ⟨hundo.1, by rw [hundo.2]; exact hcard⟩

end Calls

/-! ## Runs -/

/-- The calls of the system: distinct processes, at most 255 of them, and room for a request of each in the caller's
array. -/
def Admitted (s : Shdata) : Op → Prop
  | .init pid _ => pid ≠ 0 ∧ (∀ i < s.procListHead, (s.processes i).pid ≠ pid) ∧ (registered s).card < 255
  | .lendCpus pid _ maxreqs | .lendKeepCpus pid _ maxreqs | .reclaim pid maxreqs _ | .acquireCpus pid _ maxreqs
  | .reset pid maxreqs | .finalize pid maxreqs => pid ≠ 0 ∧ (registered s).card ≤ maxreqs
  | .borrowCpus pid _ | .removeRequests pid => pid ≠ 0

/-- The calls whose arithmetic fits: the initial CPUs of all processes fit in an `unsigned int`, and two surpluses that
a reclaim has to sort differ by less than `2 ^ 31`. -/
def Orderly (c : Caller) (s : Shdata) : Op → Prop
  | .init _ ncpus => initial s + ncpus < 2 ^ 32
  | .reclaim pid _ _ | .reset pid _ | .finalize pid _ =>
    ∀ i ∈ getProcess c s pid, Lacks s i → Spread (surplusQueue s)
  | .acquireCpus pid ncpus _ =>
    ∀ i ∈ getProcess c s pid, s.idleCpus < ncpus → Lacks s i → Spread (surplusQueue s)
  | .lendCpus .. | .lendKeepCpus .. | .borrowCpus .. | .removeRequests .. => True

instance (queue : List LewiRequest) : Decidable (Spread queue) := inferInstanceAs (Decidable (∀ a ∈ queue, _))

instance (s : Shdata) : DecidablePred (Admitted s)
  | .init _ _ => inferInstanceAs (Decidable (_ ∧ _ ∧ _))
  | .lendCpus _ _ _ | .lendKeepCpus _ _ _ | .reclaim _ _ _ | .acquireCpus _ _ _ | .reset _ _ | .finalize _ _ =>
    inferInstanceAs (Decidable (_ ∧ _))
  | .borrowCpus _ _ | .removeRequests _ => inferInstanceAs (Decidable (_ ≠ _))

instance (c : Caller) (s : Shdata) : DecidablePred (Orderly c s)
  | .init _ _ => inferInstanceAs (Decidable (_ < _))
  | .reclaim pid _ _ | .reset pid _ | .finalize pid _ =>
    inferInstanceAs (Decidable (∀ i ∈ getProcess c s pid, Lacks s i → Spread (surplusQueue s)))
  | .acquireCpus pid ncpus _ =>
    inferInstanceAs (Decidable (∀ i ∈ getProcess c s pid, s.idleCpus < ncpus → Lacks s i → Spread (surplusQueue s)))
  | .lendCpus _ _ _ | .lendKeepCpus _ _ _ | .borrowCpus _ _ | .removeRequests _ => inferInstanceAs (Decidable True)

section Runs

variable {E : Env} {s : Shdata}

theorem inv_empty : Inv {} := by
  refine ⟨⟨fun _ _ => rfl, fun _ _ => rfl, fun _ _ h => absurd rfl h, nofun, List.nodup_nil, rfl, rfl, ?_⟩, ?_⟩
  · simp [initial]
  · simp [registered, queueLewiReqsCapacity]

theorem exec_keeps {c : Caller} {op : Op} (hv : Inv s) (ha : Admitted s op) (ho : Orderly c s op) :
    Keeps E (fun s' _ => Inv s') (exec E c s op) := by
  obtain ⟨g, hr⟩ := hv
  have hsame : ∀ {x : Option (Shdata × Output)}, Keeps E (fun s' _ => Same s s') x → Keeps E (fun s' _ => Inv s') x :=
    fun h => ⟨h.returns, fun s' b hb => (h.meets s' b hb).inv hr⟩
  cases op with
  | init pid n =>
    obtain ⟨hp, hnew, hcard⟩ := ha
    refine .of_some (init_inv ⟨g, hr⟩ hp (fun j => ?_) (show _ < 256 by omega) ho)
    rcases Nat.lt_or_ge j s.procListHead with hj | hj
    · exact hnew j hj
    · rw [g.beyond j hj]; exact hp.symm
  | lendCpus pid n maxreqs => exact hsame (lendCpus_keeps g ha.1)
  | lendKeepCpus pid n maxreqs => exact hsame (lendKeepCpus_keeps g ha.1)
  | reclaim pid maxreqs k => exact hsame (reclaim_keeps g hr ha.2 ho ha.1)
  | acquireCpus pid n maxreqs => exact hsame (acquireCpus_keeps g hr ha.2 ho ha.1)
  | borrowCpus pid n => exact .of_some ((borrowCpus_same g ha).inv hr)
  | reset pid maxreqs => exact hsame (reset_keeps g hr ha.2 ho ha.1)
  | removeRequests pid => exact .of_some ((removeRequests_same g ha).inv hr)
  | finalize pid maxreqs => exact finalize_keeps g hr ha.2 ho ha.1

theorem reachable_inv (h : Reachable E (fun c s op => Admitted s op ∧ Orderly c s op) s) : Inv s := by
  refine Lib.Run.invariant h inv_empty fun a b hv hstep => ?_
  cases hstep with
  | call c op hadm he => exact (exec_keeps hv hadm.1 hadm.2).meets _ _ he
  | unlink _ => exact inv_empty

theorem Good.sum_registered {d : ℕ} (g : Good d s) (f : LewiProcess → ℕ) (hf : f {} = 0) :
    ∑ i ∈ registered s, f (s.processes i) = ∑ i ∈ range s.procListHead, f (s.processes i) := by
  refine Finset.sum_subset (Finset.filter_subset _ _) fun i hi hni => ?_
  have h0 : (s.processes i).pid = 0 := by
    by_contra h
    exact hni ((mem_registered g).mpr h)
  rw [g.empty i h0, hf]

/-- **CPUs are conserved** along every run of orderly calls: idle CPUs and CPUs of the registered processes make up the
CPUs that these started with, without a wrapped counter; the queue names registered processes only, and no call of a
release build fails to return because it looks up a missing one. -/
theorem conservation (h : Reachable E (fun c s op => Admitted s op ∧ Orderly c s op) s) :
    s.idleCpus + ∑ i ∈ registered s, (s.processes i).currentNcpus =
      ∑ i ∈ registered s, (s.processes i).initialNcpus ∧
    ∑ i ∈ registered s, (s.processes i).initialNcpus < 2 ^ 32 ∧
    (∀ p ∈ pids s.requests, ∃ i ∈ registered s, (s.processes i).pid = p ∧ ∀ c, getProcess c s p = some i) ∧
    (E.debug = false → ∀ c op, Admitted s op → Orderly c s op → ∃ r, exec E c s op = some r) := by
  have hv := reachable_inv h
  obtain ⟨g, hr⟩ := hv
  rw [g.sum_registered (·.currentNcpus) rfl, g.sum_registered (·.initialNcpus) rfl]
  refine ⟨g.conserved, g.fits, fun p hp => ?_, fun hE c op ha ho => (exec_keeps ⟨g, hr⟩ ha ho).returns hE⟩
  obtain ⟨hp0, i, hi⟩ := g.queued p hp
  subst hi
  exact ⟨i, (mem_registered g).mpr hp0, rfl, fun c => g.getProcess c hp0⟩

end Runs

/-- A release build with a sorting function that computes. -/
def release : Env := ⟨Lib.insertionQsort, false⟩

/-- Calls of processes that share a memory of four slots. -/
def calls (ops : List Op) : List (Caller × Op) := ops.map fun op => ({ maxProcesses := 4 }, op)

/-- A run with a lend, a queued request, a reclaim and an exit. -/
theorem conservation_run : ∃ s, replay release (fun c s op => Admitted s op ∧ Orderly c s op)
    (calls [.init 1 4, .init 2 2, .lendCpus 1 3 4, .acquireCpus 2 5 4, .reclaim 1 4 0, .finalize 2 4]) {} = some s ∧
    s.idleCpus + ∑ i ∈ registered s, (s.processes i).currentNcpus =
      ∑ i ∈ registered s, (s.processes i).initialNcpus := by
  obtain ⟨s, hs⟩ := Option.isSome_iff_exists.mp (by decide : (replay release
    (fun c s op => Admitted s op ∧ Orderly c s op) (calls [.init 1 4, .init 2 2, .lendCpus 1 3 4, .acquireCpus 2 5 4,
      .reclaim 1 4 0, .finalize 2 4]) {}).isSome = true)
  exact ⟨s, hs, (conservation (replay_run hs)).1⟩

/-- **Beyond `2 ^ 31` CPUs are lost.** Process 3 has a surplus of `2 ^ 31 + 2` CPUs and process 4 of one; the smaller
one is sorted first, half of what process 1 needs is asked from each, the reclaim fails, and process 1 leaves without
its CPUs. -/
theorem not_conserved : ¬∀ s, Reachable release (fun _ s op => Admitted s op) s →
    s.idleCpus + ∑ i ∈ registered s, (s.processes i).currentNcpus =
      ∑ i ∈ registered s, (s.processes i).initialNcpus := by
  intro h
  have hrun : ((replay release (fun _ s op => Admitted s op) (calls [.init 1 (2 ^ 31), .init 2 3, .init 3 1, .init 4 1,
      .lendCpus 1 (2 ^ 31) 4, .lendCpus 2 3 4, .borrowCpus 3 (2 ^ 31 + 2), .borrowCpus 4 1, .finalize 1 4]) {}).map
      fun s => decide (s.idleCpus + ∑ i ∈ registered s, (s.processes i).currentNcpus =
        ∑ i ∈ registered s, (s.processes i).initialNcpus)) = some false := by decide
  obtain ⟨s, hs, hf⟩ := Option.map_eq_some_iff.mp hrun
  exact of_decide_eq_false hf (h s (replay_run hs))

end Dlb.LewiAsync

import Dlb.Shmem.PidList

/-!
# One shared memory for each name

`shmem_init` opens the object that is linked under the name, or creates one, and registers later, under the lock of that
object. `shmem_finalize` decides under the lock whether to delete the memory, and unlinks the name after the unlock. A
process that opens the object in between loses its name.

* `Linked`: a process that has opened an object and not started to finalize has the object that is linked, and a process
  that is to unlink the name knows all of these;
* `two_memories`: a process that comes between the decision and the unlink stays alone.
-/

namespace Dlb.Shmem

open List Function

/-- A shared memory object, as far as `shmem_init` and `shmem_finalize` use it. -/
structure ShmObject where
  initializing : Bool := false
  initialized : Bool := false
  pidlist : List Pid

/-- How far a process is with `shmem_init` and `shmem_finalize`, and the object that it has mapped. -/
inductive Stage where
  | out
  | opened (o : ℕ)
  | creating (o : ℕ)
  | waiting (o : ℕ)
  | attached (o : ℕ)
  | leaving (deleteShmem : Bool)
  | unmapped (deleteShmem : Bool)
deriving DecidableEq

namespace Stage

/-- The object of a process that has opened it and not started to finalize. -/
def object : Stage → Option ℕ
  | .opened o => some o
  | .creating o => some o
  | .waiting o => some o
  | .attached o => some o
  | _ => none

/-- The process has completed `shmem_init`. -/
def isAttached : Stage → Bool
  | .attached _ => true
  | _ => false

/-- The process has decided to unlink the name. -/
def deletes : Stage → Bool
  | .leaving deleteShmem => deleteShmem
  | .unmapped deleteShmem => deleteShmem
  | _ => false

end Stage

/-- The objects, the one that is linked under the name, the processes, those that have opened an object and not started
to finalize, and those of them that came after the decision of another process: they had not registered at its decision,
or have opened the object since. -/
structure Named where
  objects : ℕ → ShmObject
  created : ℕ := 0
  linked : Option ℕ := none
  stage : Pid → Stage := fun _ => .out
  inside : Finset Pid := ∅
  late : Pid → Finset Pid := fun _ => ∅

inductive NameEvent where
  | shmOpen (pid : Pid)
  | compareAndSwap (pid : Pid)
  | setInitialized (pid : Pid)
  | register (pid : Pid)
  | finalize (pid : Pid) (isEmpty : Bool)
  | munmap (pid : Pid)
  | shmUnlink (pid : Pid)
deriving DecidableEq

namespace Named

variable {m : Named} {e : NameEvent} {size o : ℕ} {p q pid : Pid}

/-- The name is not linked, and each object will be zero when it is created. -/
def fresh (size : ℕ) : Named where
  objects _ := { pidlist := replicate size 0 }

def move (m : Named) (pid : Pid) (stage : Stage) : Named := { m with stage := update m.stage pid stage }

/-- An object is written, and the process gets to another stage. -/
def write (m : Named) (pid : Pid) (stage : Stage) (o : ℕ) (object : ShmObject) : Named :=
  { m with
    objects := update m.objects o object
    stage := update m.stage pid stage }

/-- One step of `shmem_init` or of `shmem_finalize`. -/
def next (m : Named) : NameEvent → Named
  | .shmOpen pid =>
    let o := m.linked.getD m.created
    { m with
      created := if m.linked = none then m.created + 1 else m.created
      linked := some o
      stage := update m.stage pid (.opened o)
      inside := insert pid m.inside
      late := fun q => insert pid (m.late q) }
  | .compareAndSwap pid =>
    match m.stage pid with
    | .opened o =>
      if (m.objects o).initializing then m.move pid (.waiting o)
      else m.write pid (.creating o) o { m.objects o with initializing := true }
    | _ => m
  | .setInitialized pid =>
    match m.stage pid with
    | .creating o => m.write pid (.waiting o) o { m.objects o with initialized := true }
    | _ => m
  | .register pid =>
    match m.stage pid with
    | .waiting o =>
      let r := checkPids (fun _ => true) (some fun (_ : Unit) _ => ()) pid (m.objects o).pidlist false ()
      m.write pid (.attached o) o { m.objects o with pidlist := r.1 }
    | _ => m
  | .finalize pid isEmpty =>
    match m.stage pid with
    | .attached o =>
      let r := removePid pid (m.objects o).pidlist
      let m' := m.write pid (.leaving (isEmpty && r.2)) o { m.objects o with pidlist := r.1 }
      { m' with
        inside := m.inside.erase pid
        late := update (fun q => (m.late q).erase pid) pid
          ((m.inside.erase pid).filter fun q => (m.stage q).isAttached = false) }
    | _ => m
  | .munmap pid =>
    match m.stage pid with
    | .leaving deleteShmem => m.move pid (.unmapped deleteShmem)
    | _ => m
  | .shmUnlink pid =>
    match m.stage pid with
    | .unmapped deleteShmem => { m.move pid .out with linked := if deleteShmem then none else m.linked }
    | _ => m

/-- The steps of a process come in order, it waits until the object is initialized, and no more processes are attached
than the system has CPUs. -/
def Allowed (size : ℕ) (m : Named) : NameEvent → Prop
  | .shmOpen pid => pid ≠ 0 ∧ m.stage pid = .out
  | .compareAndSwap pid => ∃ o ∈ (m.stage pid).object, m.stage pid = .opened o
  | .setInitialized pid => ∃ o ∈ (m.stage pid).object, m.stage pid = .creating o
  | .register pid => (∃ o ∈ (m.stage pid).object, m.stage pid = .waiting o ∧ (m.objects o).initialized) ∧
    (m.inside.filter fun q => (m.stage q).isAttached).card < size
  | .finalize pid _ => ∃ o ∈ (m.stage pid).object, m.stage pid = .attached o
  | .munmap pid => ∃ deleteShmem, m.stage pid = .leaving deleteShmem
  | .shmUnlink pid => ∃ deleteShmem, m.stage pid = .unmapped deleteShmem

/-- Who has completed `shmem_init` and not started `shmem_finalize` is attached to the object that is linked. -/
def OneMemory (m : Named) : Prop := ∀ p o, m.stage p = .attached o → m.linked = some o

/-- A process that unlinks the name is alone: who came after its decision is not there any more. -/
def Alone (m : Named) : NameEvent → Prop
  | .shmUnlink pid => (m.stage pid).deletes → m.late pid = ∅
  | _ => True

/-- Who has opened an object has the one that is linked, its list names those who are attached, and who is to unlink the
name is alone but for those who came late. -/
structure Linked (size : ℕ) (m : Named) : Prop where
  nonzero : ∀ p ∈ m.inside, p ≠ 0
  inside : ∀ p, p ∈ m.inside ↔ (m.stage p).object.isSome
  object : ∀ p, ∀ o ∈ (m.stage p).object, m.linked = some o
  listed : ∀ o ∈ m.linked, ∀ q, q ≠ 0 → (m.objects o).pidlist.count q = if m.stage q = .attached o then 1 else 0
  length : ∀ o, (m.objects o).pidlist.length = size
  created : ∀ o ∈ m.linked, o < m.created
  untouched : ∀ o, m.created ≤ o → m.objects o = { pidlist := replicate size 0 }
  late : ∀ p, (m.stage p).deletes → m.inside ⊆ m.late p

theorem Linked.start : Linked size (fresh size) where
  nonzero := nofun
  inside := fun _ => iff_of_false (Finset.notMem_empty _) nofun
  object := nofun
  listed := nofun
  length := fun _ => length_replicate
  created := nofun
  untouched := fun _ _ => rfl
  late := nofun

theorem Linked.oneMemory (h : Linked size m) : m.OneMemory := fun p o hp => h.object p o (by rw [hp]; rfl)

/-! ## One step -/

variable {x : Stage} {object : ShmObject}

theorem Stage.deletes_of_object (h : o ∈ x.object) : x.deletes = false := by
  cases x with
  | opened | creating | waiting | attached => rfl
  | out | leaving | unmapped => exact nomatch h

theorem write_self : m.write pid x o (m.objects o) = m.move pid x := by
  unfold write
  rw [update_eq_self]
  rfl

theorem Linked.write (h : Linked size m) (hpid : o ∈ (m.stage pid).object) (hx : o ∈ x.object)
    (hlength : object.pidlist.length = size)
    (hcount : ∀ q, q ≠ 0 → object.pidlist.count q =
      if q = pid then if x = .attached o then 1 else 0 else (m.objects o).pidlist.count q) :
    Linked size (m.write pid x o object) where
  nonzero := h.nonzero
  inside p := by
    show p ∈ m.inside ↔ (update m.stage pid x p).object.isSome
    by_cases hp : p = pid
    · rw [h.inside, hp, update_self, hpid, hx]
    · rw [update_of_ne hp]
      exact h.inside p
  object p o' ho' := by
    have ho' : o' ∈ (update m.stage pid x p).object := ho'
    by_cases hp : p = pid
    · rw [hp, update_self, hx] at ho'
      obtain rfl := Option.some.inj ho'
      exact h.object pid o hpid
    · rw [update_of_ne hp] at ho'
      exact h.object p o' ho'
  listed o' ho' q hq := by
    obtain rfl : o' = o := Option.some.inj (ho'.symm.trans (h.object pid o hpid))
    show (update m.objects o' object o').pidlist.count q =
      if update m.stage pid x q = .attached o' then 1 else 0
    rw [update_self, hcount q hq]
    by_cases hqp : q = pid
    · rw [if_pos hqp, hqp, update_self]
    · rw [if_neg hqp, update_of_ne hqp]
      exact h.listed o' ho' q hq
  length o' := by
    show (update m.objects o object o').pidlist.length = size
    by_cases ho' : o' = o
    · rw [ho', update_self, hlength]
    · rw [update_of_ne ho']
      exact h.length o'
  created := h.created
  untouched o' ho' := by
    have hlt := h.created o (h.object pid o hpid)
    show update m.objects o object o' = _
    rw [update_of_ne (hlt.trans_le ho').ne']
    exact h.untouched o' ho'
  late p hp := by
    have hp : (update m.stage pid x p).deletes := hp
    have hne : p ≠ pid := by
      rintro rfl
      rw [update_self, Stage.deletes_of_object hx] at hp
      exact nomatch hp
    rw [update_of_ne hne] at hp
    exact h.late p hp

theorem Linked.shmOpen (h : Linked size m) (hpid : pid ≠ 0) (hout : m.stage pid = .out) :
    Linked size (m.next (.shmOpen pid)) := by
  have hlinked : ∀ p, ∀ o ∈ (m.stage p).object, o = m.linked.getD m.created := fun p o ho => by
    rw [h.object p o ho]
    rfl
  refine ⟨fun p hp => ?_, fun p => ?_, fun p o ho => ?_, fun o ho q hq => ?_, h.length, fun o ho => ?_, fun o ho => ?_,
    fun p hp q hq => ?_⟩
  · rcases Finset.mem_insert.mp hp with rfl | hp
    · exact hpid
    · exact h.nonzero p hp
  · show p ∈ insert pid m.inside ↔ (update m.stage pid _ p).object.isSome
    rw [Finset.mem_insert]
    by_cases hp : p = pid
    · rw [hp, update_self]
      exact iff_of_true (.inl rfl) rfl
    · rw [update_of_ne hp, h.inside]
      exact or_iff_right hp
  · have ho : o ∈ (update m.stage pid (.opened (m.linked.getD m.created)) p).object := ho
    show some (m.linked.getD m.created) = some o
    by_cases hp : p = pid
    · rw [hp, update_self] at ho
      exact ho
    · rw [update_of_ne hp] at ho
      rw [hlinked p o ho]
  · obtain rfl : m.linked.getD m.created = o := Option.some.inj ho
    show (m.objects _).pidlist.count q = if update m.stage pid _ q = .attached _ then 1 else 0
    have hstage : (update m.stage pid (.opened (m.linked.getD m.created)) q =
        .attached (m.linked.getD m.created)) ↔ m.stage q = .attached (m.linked.getD m.created) := by
      by_cases hqp : q = pid
      · rw [hqp, update_self, hout]
        exact iff_of_false nofun nofun
      · rw [update_of_ne hqp]
    simp only [hstage]
    cases hold : m.linked with
    | some o => exact h.listed o hold q hq
    | none =>
      have hno : m.stage q ≠ .attached m.created := fun hq' => by
        have hobject := h.object q m.created (by rw [hq']; rfl)
        exact nomatch hold.symm.trans hobject
      rw [Option.getD_none, h.untouched m.created le_rfl, if_neg hno]
      exact count_eq_zero.mpr fun hmem => hq (eq_of_mem_replicate hmem)
  · obtain rfl : m.linked.getD m.created = o := Option.some.inj ho
    show _ < if m.linked = none then m.created + 1 else m.created
    cases hold : m.linked with
    | some o =>
      exact h.created o hold
    | none =>
      exact Nat.lt_succ_self _
  · refine h.untouched o (le_trans ?_ ho)
    show m.created ≤ if m.linked = none then m.created + 1 else m.created
    split
    · exact Nat.le_succ _
    · exact le_rfl
  · have hp : (update m.stage pid (.opened (m.linked.getD m.created)) p).deletes := hp
    have hne : p ≠ pid := by
      rintro rfl
      rw [update_self] at hp
      exact nomatch hp
    rw [update_of_ne hne] at hp
    exact Finset.insert_subset_insert _ (h.late p hp) hq

theorem Linked.register (h : Linked size m) (hpid : m.stage pid = .waiting o)
    (hroom : (m.inside.filter fun q => (m.stage q).isAttached).card < size) :
    Linked size (m.next (.register pid)) := by
  have hobject : o ∈ (m.stage pid).object := by rw [hpid]; rfl
  have hlinked : m.linked = some o := h.object pid o hobject
  have hpid0 : pid ≠ 0 := h.nonzero pid ((h.inside pid).mpr (by rw [hobject]; rfl))
  have hattached : ∀ q ∈ (m.objects o).pidlist, q ≠ 0 → m.stage q = .attached o := fun q hq h0 => by
    by_contra hno
    have hcount := h.listed o hlinked q h0
    rw [if_neg hno] at hcount
    exact count_eq_zero.mp hcount hq
  have hfree : 0 ∈ (m.objects o).pidlist := by
    by_contra h0
    have hne : ∀ q ∈ (m.objects o).pidlist, q ≠ 0 := fun q hq he => h0 (he ▸ hq)
    have hnodup : (m.objects o).pidlist.Nodup := nodup_iff_count_le_one.mpr fun q => by
      by_cases hq : q = 0
      · rw [hq, count_eq_zero.mpr h0]
        exact Nat.zero_le 1
      · rw [h.listed o hlinked q hq]
        split
        · exact le_rfl
        · exact Nat.zero_le 1
    have hsub : (m.objects o).pidlist.toFinset ⊆ m.inside.filter fun q => (m.stage q).isAttached := fun q hq => by
      have hstage := hattached q (mem_toFinset.mp hq) (hne q (mem_toFinset.mp hq))
      refine Finset.mem_filter.mpr ⟨(h.inside q).mpr ?_, ?_⟩
      · rw [hstage]
        rfl
      · rw [hstage]
        rfl
    have hcard := Finset.card_le_card hsub
    rw [toFinset_card_of_nodup hnodup, h.length o] at hcard
    omega
  have hnext : m.next (.register pid) = m.write pid (.attached o) o { m.objects o with
      pidlist := (checkPids (fun _ => true) (some fun (_ : Unit) _ => ()) pid (m.objects o).pidlist false ()).1 } := by
    unfold Named.next
    dsimp only
    rw [hpid]
  rw [hnext]
  refine h.write hobject rfl (checkPids_length.trans (h.length o)) fun q hq => ?_
  rw [count_checkPids hq, if_pos rfl]
  by_cases hqp : q = pid
  · have hno : m.stage q ≠ .attached o := by
      rw [hqp, hpid]
      exact nofun
    rw [h.listed o hlinked q hq, if_neg hno, if_pos ⟨hqp, rfl, hfree⟩, if_pos hqp, if_pos rfl]
  · rw [if_neg fun he => hqp he.1, if_neg hqp, Nat.add_zero]

theorem Linked.finalize (h : Linked size m) (hpid : m.stage pid = .attached o) (isEmpty : Bool) :
    Linked size (m.next (.finalize pid isEmpty)) := by
  have hobject : o ∈ (m.stage pid).object := by rw [hpid]; rfl
  have hlinked : m.linked = some o := h.object pid o hobject
  have hne : ∀ q ∈ m.inside.erase pid, q ≠ pid ∧ q ∈ m.inside := fun q hq => Finset.mem_erase.mp hq
  unfold Named.next
  dsimp only
  rw [hpid]
  refine ⟨fun p hp => h.nonzero p (hne p hp).2, fun p => ?_, fun p o' ho' => ?_, fun o' ho' q hq => ?_, fun o' => ?_,
    h.created, fun o' ho' => ?_, fun p hp => ?_⟩
  · show p ∈ m.inside.erase pid ↔ (update m.stage pid (.leaving _) p).object.isSome
    rw [Finset.mem_erase]
    by_cases hp : p = pid
    · rw [hp, update_self]
      exact iff_of_false (fun he => he.1 rfl) nofun
    · rw [update_of_ne hp, h.inside]
      exact and_iff_right hp
  · have ho' : o' ∈ (update m.stage pid (.leaving _) p).object := ho'
    by_cases hp : p = pid
    · rw [hp, update_self] at ho'
      exact nomatch ho'
    · rw [update_of_ne hp] at ho'
      exact h.object p o' ho'
  · obtain rfl : o' = o := Option.some.inj (ho'.symm.trans hlinked)
    show (update m.objects o' _ o').pidlist.count q =
      if update m.stage pid (.leaving _) q = .attached o' then 1 else 0
    rw [update_self]
    rw [count_removePid hq]
    by_cases hqp : q = pid
    · rw [if_pos hqp, hqp, update_self, if_neg nofun]
    · rw [if_neg hqp, update_of_ne hqp]
      exact h.listed o' hlinked q hq
  · show (update m.objects o _ o').pidlist.length = size
    by_cases ho' : o' = o
    · rw [ho', update_self]
      exact removePid_length.trans (h.length o)
    · rw [update_of_ne ho']
      exact h.length o'
  · show update m.objects o _ o' = _
    rw [update_of_ne ((h.created o hlinked).trans_le ho').ne']
    exact h.untouched o' ho'
  · have hp : (update m.stage pid (.leaving (isEmpty && (removePid pid (m.objects o).pidlist).2)) p).deletes := hp
    show m.inside.erase pid ⊆ update (fun q => (m.late q).erase pid) pid _ p
    by_cases hpp : p = pid
    · rw [hpp, update_self] at hp ⊢
      have hlast : ∀ q ∈ (m.objects o).pidlist, q ≠ 0 → q = pid := removePid_last.mp ((Bool.and_eq_true _ _).mp hp).2
      intro q hq
      obtain ⟨hqp, hq⟩ := hne q hq
      refine Finset.mem_filter.mpr ⟨Finset.mem_erase.mpr ⟨hqp, hq⟩, ?_⟩
      -- who is attached is listed, and the process has found nobody else in the list
      cases hstage : m.stage q with
      | attached o' =>
        obtain rfl : o' = o := Option.some.inj ((h.object q o' (by rw [hstage]; rfl)).symm.trans hlinked)
        have hcount := h.listed o' hlinked q (h.nonzero q hq)
        rw [if_pos hstage] at hcount
        exact absurd (hlast q (count_pos_iff.mp (by omega)) (h.nonzero q hq)) hqp
      | _ => rfl
    · rw [update_of_ne hpp] at hp ⊢
      exact Finset.erase_subset_erase pid (h.late p hp)

theorem Linked.leave (h : Linked size m) (hpid : (m.stage pid).object = none) (hx : x.object = none)
    (hdeletes : x.deletes → (m.stage pid).deletes) {linked : Option ℕ} (hlinked : linked = m.linked ∨
      linked = none ∧ m.inside = ∅) : Linked size { m.move pid x with linked := linked } := by
  have hobject : ∀ p, (update m.stage pid x p).object = (m.stage p).object := fun p => by
    by_cases hp : p = pid
    · rw [hp, update_self, hx, hpid]
    · rw [update_of_ne hp]
  have hsub : ∀ o ∈ linked, o ∈ m.linked := fun o ho => by
    rcases hlinked with rfl | ⟨rfl, -⟩
    · exact ho
    · exact nomatch ho
  refine ⟨h.nonzero, fun p => (h.inside p).trans (by rw [← hobject p]; rfl), fun p o ho => ?_, fun o ho q hq => ?_,
    h.length, fun o ho => h.created o (hsub o ho), h.untouched, fun p hp => ?_⟩
  · have hold : o ∈ (m.stage p).object := hobject p ▸ (show o ∈ (update m.stage pid x p).object from ho)
    rcases hlinked with rfl | ⟨-, hempty⟩
    · exact h.object p o hold
    · have hp : p ∈ m.inside := (h.inside p).mpr (by rw [hold]; rfl)
      exact absurd (hempty ▸ hp) (Finset.notMem_empty p)
  · have hstage : (update m.stage pid x q = .attached o) ↔ m.stage q = .attached o := by
      by_cases hqp : q = pid
      · rw [hqp, update_self]
        exact iff_of_false (fun he => by rw [he] at hx; exact nomatch hx) fun he => by rw [he] at hpid; exact nomatch hpid
      · rw [update_of_ne hqp]
    show (m.objects o).pidlist.count q = if update m.stage pid x q = .attached o then 1 else 0
    simp only [hstage]
    exact h.listed o (hsub o ho) q hq
  · have hp : (update m.stage pid x p).deletes := hp
    by_cases hpp : p = pid
    · rw [hpp, update_self] at hp
      exact hpp ▸ h.late pid (hdeletes hp)
    · rw [update_of_ne hpp] at hp
      exact h.late p hp

theorem Linked.next (h : Linked size m) (hallowed : m.Allowed size e) (halone : m.Alone e) : Linked size (m.next e) := by
  have hsame : ∀ {pid o}, o ∈ (m.stage pid).object → (∀ o', m.stage pid ≠ .attached o') → ∀ q, q ≠ 0 →
      (m.objects o).pidlist.count q = if q = pid then 0 else (m.objects o).pidlist.count q := fun {pid o} ho hno q hq => by
    split
    · rename_i hqp
      rw [h.listed o (h.object pid o ho) q hq, if_neg (hqp ▸ hno o)]
    · rfl
  cases e with
  | shmOpen pid => exact h.shmOpen hallowed.1 hallowed.2
  | compareAndSwap pid =>
    obtain ⟨o, ho, hstage⟩ := hallowed
    have hcount := hsame ho (fun o' he => nomatch hstage.symm.trans he)
    unfold Named.next
    dsimp only
    rw [hstage]
    dsimp only
    split
    · rw [← write_self (o := o)]
      exact h.write ho rfl (h.length o) hcount
    · exact h.write ho rfl (h.length o) hcount
  | setInitialized pid =>
    obtain ⟨o, ho, hstage⟩ := hallowed
    unfold Named.next
    dsimp only
    rw [hstage]
    exact h.write ho rfl (h.length o) (hsame ho fun o' he => nomatch hstage.symm.trans he)
  | register pid =>
    obtain ⟨⟨o, -, hstage, -⟩, hroom⟩ := hallowed
    exact h.register hstage hroom
  | finalize pid isEmpty =>
    obtain ⟨o, -, hstage⟩ := hallowed
    exact h.finalize hstage isEmpty
  | munmap pid =>
    obtain ⟨deleteShmem, hstage⟩ := hallowed
    have hleave : Linked size { m.move pid (.unmapped deleteShmem) with linked := m.linked } :=
      h.leave (by rw [hstage]; rfl) rfl (fun hd => by rw [hstage]; exact hd) (.inl rfl)
    unfold Named.next
    dsimp only
    rw [hstage]
    exact hleave
  | shmUnlink pid =>
    obtain ⟨deleteShmem, hstage⟩ := hallowed
    have hdeletes : (m.stage pid).deletes = deleteShmem := by rw [hstage]; rfl
    have hleave : Linked size { m.move pid .out with linked := if deleteShmem then none else m.linked } := by
      refine h.leave (x := .out) (by rw [hstage]; rfl) rfl nofun ?_
      cases deleteShmem with
      | false => exact .inl rfl
      | true =>
        refine .inr ⟨rfl, Finset.subset_empty.mp ?_⟩
        exact halone hdeletes ▸ h.late pid hdeletes
    unfold Named.next
    dsimp only
    rw [hstage]
    exact hleave

end Named

/-- **One shared memory for each name**: along every run of processes that attach and detach, no more of them attached
than there are entries, with any interleaving of their steps, all processes that have completed `shmem_init` and not
started `shmem_finalize` are attached to the object that is linked under the name, if no process unlinks the name while
one is there that came after its decision. -/
theorem one_memory (size : ℕ) (events : List NameEvent)
    (hallowed : Lib.Along Named.next (Named.Allowed size) (.fresh size) events)
    (halone : Lib.Along Named.next Named.Alone (.fresh size) events) :
    Lib.Along Named.next (fun m e => (m.next e).OneMemory) (.fresh size) events :=
  (Lib.Along.invariant_of (I := Named.Linked size) (fun _ _ hm he halone => hm.next he halone)
    (fun _ _ hm he halone => (hm.next he halone).oneMemory) (.fresh size) events .start hallowed halone).1

/-! ### A newcomer between the decision and the unlink -/

instance {m : Named} {e : NameEvent} {size : ℕ} : Decidable (m.Allowed size e) := by
  cases e <;> unfold Named.Allowed <;> infer_instance

instance {m : Named} {e : NameEvent} : Decidable (m.Alone e) := by
  cases e <;> unfold Named.Alone <;> infer_instance

/-- All steps of `shmem_init`, for the process that creates the object. -/
def create (pid : Pid) : List NameEvent := [.shmOpen pid, .compareAndSwap pid, .setInitialized pid, .register pid]

/-- All steps of `shmem_finalize`. -/
def leave (pid : Pid) : List NameEvent := [.finalize pid true, .munmap pid, .shmUnlink pid]

theorem one_memory_twice : Lib.Along Named.next (fun m e => (m.next e).OneMemory) (.fresh 2)
    (create 1 ++ leave 1 ++ create 2) :=
  one_memory 2 (create 1 ++ leave 1 ++ create 2) (by decide) (by decide)

/-- `2` opens the memory after `1` has decided to delete it, and `3` comes after the unlink. -/
def newcomer : List NameEvent :=
  create 1 ++ [.finalize 1 true, .shmOpen 2, .munmap 1, .shmUnlink 1, .compareAndSwap 2, .register 2] ++ create 3

theorem two_memories :
    let m := newcomer.foldl Named.next (.fresh 4)
    Lib.Along Named.next (Named.Allowed 4) (.fresh 4) newcomer ∧ m.stage 2 = .attached 0 ∧ m.stage 3 = .attached 1 ∧
      m.linked = some 1 ∧ ¬Lib.Along Named.next (fun m e => (m.next e).OneMemory) (.fresh 4) newcomer := by
  refine ⟨by decide, by decide, by decide, by decide, fun hrun => ?_⟩
  -- the last event of the run
  have hone := hrun.2.2.2.2.2.2.2.2.2.2.2.2.2.1
  exact absurd (hone 2 0 (by decide)) (by decide)

end Dlb.Shmem

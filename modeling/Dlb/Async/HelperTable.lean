import Dlb.Lib.Packed
import Dlb.Lib.Run
import Dlb.Support.Types
import Mathlib.Data.List.Nodup

/-!
# The table of helpers

Registration in `shmem_async.c`. The shared memory has a slot for each helper thread, free where its `pid` is zero, and
`num_helpers` bounds the search of `get_helper`. A registration takes the first free slot and counts; to leave clears
the slot and does not.

A run is of one shared memory, from its creation with zeros on: by `shmem_async_init` and `shmem_async_finalize` of the
subprocesses of any processes, and by the cleanups of dead processes.
-/

namespace Dlb.Async

open List Lib

/-- The static variables of a process: its own `max_helpers`, whether `shdata` is there, and how many of its
subprocesses are attached. -/
structure AsyncProcess where
  maxHelpers : ℕ := 0
  attached : Bool := false
  subprocessesAttached : ℤ := 0

/-- The shared memory with the pid of each slot, the processes, and the ids that are registered: those that were
accepted, and have neither left nor been cleaned up. -/
structure AsyncShmem (π : Type*) where
  initialized : Bool := false
  maxHelpers : ℕ := 0
  numHelpers : ℕ := 0
  helpers : List Pid := []
  process : π → AsyncProcess := fun _ => {}
  registered : List Pid := []

/-- What happens to the table. A process that attaches may find others dead, and cleans up with its own
`max_helpers`. -/
inductive AsyncEvent where
  | init (pid : Pid) (size : ℕ)
  | finalize (pid : Pid)
  | cleanup (pid : Pid) (size : ℕ)

def AsyncEvent.pid : AsyncEvent → Pid
  | .init pid _ | .finalize pid | .cleanup pid _ => pid

variable {π : Type*} [DecidableEq π]

namespace AsyncShmem

variable (s : AsyncShmem π) (q : π) (pid : Pid) (size : ℕ)

/-- `get_helper` in the process `q`. The search ends at the last slot, beyond which the source reads foreign memory. -/
def getHelper : Option ℕ :=
  if (s.process q).attached then (s.helpers.take s.numHelpers).findIdx? (· = pid) else none

def cleanupShmem : AsyncShmem π :=
  { s with
    helpers := (s.helpers.take size).map (fun p => if p = pid then 0 else p) ++ s.helpers.drop size
    registered := if pid ∈ s.helpers.take size then s.registered.erase pid else s.registered }

/-- The `max_helpers` of a process that registers. -/
def ownSize : ℕ := if (s.process q).attached then (s.process q).maxHelpers else size

/-- `shmem_init`, unless the process is attached, and the initialisation of a new shared memory. -/
def attach : AsyncShmem π :=
  { s with
    initialized := true
    maxHelpers := if s.initialized then s.maxHelpers else s.ownSize q size
    numHelpers := if s.initialized then s.numHelpers else 0
    helpers := if s.initialized then s.helpers else replicate (s.ownSize q size) 0
    process := Function.update s.process q
      { maxHelpers := s.ownSize q size
        attached := true
        subprocessesAttached := if (s.process q).attached then (s.process q).subprocessesAttached + 1 else 1 } }

/-- The shared memory is given up after an error. -/
def detach : AsyncShmem π :=
  { s with process := Function.update s.process q { s.process q with attached := false } }

@[simp] theorem attach_attached : ((s.attach q size).process q).attached = true := by
  simp [attach]

@[simp] theorem attach_ownSize : ((s.attach q size).process q).maxHelpers = s.ownSize q size := by
  simp [attach]

@[simp] theorem detach_attached : ((s.detach q).process q).attached = false := by
  simp [detach]

variable {q} in
theorem attach_process_of_ne {q' : π} (h : q' ≠ q) : (s.attach q size).process q' = s.process q' :=
  Function.update_of_ne h _ _

variable {q} in
theorem detach_process_of_ne {q' : π} (h : q' ≠ q) : (s.detach q).process q' = s.process q' :=
  Function.update_of_ne h _ _

def register (h : ℕ) : AsyncShmem π :=
  { s with helpers := s.helpers.set h pid, numHelpers := s.numHelpers + 1, registered := s.registered ++ [pid] }

/-- The locked part of `shmem_async_init`, and its error paths. -/
def registerFree : AsyncShmem π × DlbError :=
  if s.maxHelpers ≠ (s.process q).maxHelpers then (s.detach q, .errInit)
  else
    match s.helpers.findIdx? (· = 0) with
    | some h => (s.register pid h, .success)
    | none => (s.detach q, .errNomem)

def shmemAsyncInit : AsyncShmem π × DlbError := (s.attach q size).registerFree q pid

/-- `shmem_async_finalize`. The last subprocess of a process gives the shared memory up. -/
def shmemAsyncFinalize : AsyncShmem π × DlbError :=
  match s.getHelper q pid with
  | none => (s, .errNoproc)
  | some h =>
    ({ s with
        helpers := s.helpers.set h 0
        process := Function.update s.process q
          { s.process q with
            attached := (s.process q).subprocessesAttached - 1 ≠ 0
            subprocessesAttached := (s.process q).subprocessesAttached - 1 }
        registered := s.registered.erase pid }, .success)

/-- One event. The ids are not `NOBODY`, and one that is registered does not register again. -/
def exec (host : Pid → π) (e : AsyncEvent) : AsyncShmem π × DlbError :=
  if e.pid = 0 then (s, .success)
  else
    match e with
    | .init pid size => if pid ∈ s.registered then (s, .success) else s.shmemAsyncInit (host pid) pid size
    | .finalize pid => s.shmemAsyncFinalize (host pid) pid
    | .cleanup pid size => (s.cleanupShmem pid size, .success)

end AsyncShmem

/-! ## The table is right -/

/-- `num_helpers` does not exceed `max_helpers`, and in each process that has a subprocess registered, `get_helper`
finds the slot of each registered id and nothing for another one, be it zero. -/
structure TableOk (host : Pid → π) (s : AsyncShmem π) : Prop where
  size : s.numHelpers ≤ s.maxHelpers
  found : ∀ p' ∈ s.registered, ∀ p ∈ s.registered, ∃ h, s.getHelper (host p') p = some h ∧ s.helpers[h]? = some p
  null : ∀ p' ∈ s.registered, ∀ p, p ∉ s.registered → s.getHelper (host p') p = none

/-- After an event the table is right, and the event has not failed for lack of room unless `max_helpers` ids are
registered. -/
def StepOk (host : Pid → π) (s : AsyncShmem π) (e : AsyncEvent) : Prop :=
  TableOk host (s.exec host e).1 ∧
    ((s.exec host e).2 = .errNomem → (s.exec host e).1.registered.length = (s.exec host e).1.maxHelpers)

/-- There is room for one more, and the process has the size of the shared memory. -/
def AsyncShmem.Accepts (s : AsyncShmem π) (q : π) (size : ℕ) : Prop :=
  if s.initialized then s.maxHelpers = s.ownSize q size ∧ s.registered.length < s.maxHelpers else 0 < s.ownSize q size

/-- An id registers while all that have been counted are still registered, one that is refused has no other subprocess
registered in its process, and who leaves or is cleaned up is the only one left. -/
def NoneLeaves (host : Pid → π) (s : AsyncShmem π) (e : AsyncEvent) : Prop :=
  e.pid ≠ 0 →
    match e with
    | .init pid size => pid ∉ s.registered →
      (s.Accepts (host pid) size → s.numHelpers = s.registered.length) ∧
        (¬ s.Accepts (host pid) size → ∀ p ∈ s.registered, host p ≠ host pid)
    | .finalize pid => pid ∈ s.registered → s.registered = [pid]
    | .cleanup pid size => pid ∈ s.helpers.take size → s.registered = [pid]

/-! ## The invariant -/

/-- The slots are the registered ids in the order of their registration and then free, each of them in a process that
has the shared memory, and `num_helpers` counts them unless all have left. -/
structure Filled (host : Pid → π) (s : AsyncShmem π) : Prop where
  helpers : s.helpers = s.registered ++ replicate (s.maxHelpers - s.registered.length) 0
  room : s.registered.length ≤ s.maxHelpers
  nodup : s.registered.Nodup
  nobody : 0 ∉ s.registered
  counted : s.registered = [] ∨ s.numHelpers = s.registered.length
  size : s.numHelpers ≤ s.maxHelpers
  attached : ∀ p ∈ s.registered, (s.process (host p)).attached = true
  fresh : s.initialized = false → s.registered = [] ∧ s.numHelpers = 0

section Table

variable {host : Pid → π} {s : AsyncShmem π} {p pid : Pid} {size h : ℕ}

omit [DecidableEq π] in
theorem Filled.init : Filled host {} where
  helpers := rfl
  room := Nat.le_refl _
  nodup := nodup_nil
  nobody := not_mem_nil
  counted := .inl rfl
  size := Nat.le_refl _
  attached := nofun
  fresh := fun _ => ⟨rfl, rfl⟩

omit [DecidableEq π] in
theorem AsyncShmem.getHelper_of_attached {q : π} (h : (s.process q).attached = true) (pid : Pid) :
    s.getHelper q pid = (s.helpers.take s.numHelpers).findIdx? (· = pid) :=
  if_pos h

omit [DecidableEq π] in
theorem AsyncShmem.getHelper_of_detached {q : π} (h : (s.process q).attached = false) (pid : Pid) :
    s.getHelper q pid = none := by
  rw [AsyncShmem.getHelper, h]
  rfl

theorem exists_findIdx?_of_mem {l : List Pid} (h : p ∈ l) : ∃ i, l.findIdx? (· = p) = some i ∧ l[i]? = some p := by
  cases hfind : l.findIdx? (· = p) with
  | none => exact absurd (findIdx?_eq_none_iff.mp hfind p h) (by simp)
  | some i =>
    obtain ⟨hi, hp, -⟩ := findIdx?_eq_some_iff_getElem.mp hfind
    exact ⟨i, rfl, by rw [getElem?_eq_getElem hi, of_decide_eq_true hp]⟩

theorem findIdx?_of_not_mem {l : List Pid} (h : p ∉ l) : l.findIdx? (· = p) = none :=
  findIdx?_eq_none_iff.mpr fun _ hx => decide_eq_false fun heq => h (heq ▸ hx)

omit [DecidableEq π] in
theorem Filled.packed (hf : Filled host s) :
    s.helpers = packed 0 s.registered (s.maxHelpers - s.registered.length) := hf.helpers

omit [DecidableEq π] in
theorem Filled.searched (hf : Filled host s) (hp : p ∈ s.registered) : s.helpers.take s.numHelpers = s.registered := by
  obtain hnil | hcount := hf.counted
  · exact absurd (hnil ▸ hp) not_mem_nil
  · rw [hf.helpers, hcount, take_left]

omit [DecidableEq π] in
theorem Filled.tableOk (hf : Filled host s) : TableOk host s where
  size := hf.size
  found := by
    intro p' hp' p hp
    obtain ⟨i, hi, hget⟩ := exists_findIdx?_of_mem hp
    refine ⟨i, ?_, ?_⟩
    · rw [AsyncShmem.getHelper_of_attached (hf.attached p' hp'), hf.searched hp, hi]
    · obtain ⟨hlt, -⟩ := List.getElem?_eq_some_iff.mp hget
      rw [hf.helpers, getElem?_append_left hlt, hget]
  null := by
    intro p' hp' p hp
    rw [AsyncShmem.getHelper_of_attached (hf.attached p' hp'), hf.searched hp', findIdx?_of_not_mem hp]

omit [DecidableEq π] in
theorem not_tableOk_of_free (hnobody : 0 ∉ s.registered) (hp : p ∈ s.registered) (hh : h < s.numHelpers)
    (hfree : s.helpers[h]? = some 0) : ¬ TableOk host s := by
  intro hok
  cases hatt : (s.process (host p)).attached with
  | false =>
    obtain ⟨i, hi, -⟩ := hok.found p hp p hp
    exact nomatch (AsyncShmem.getHelper_of_detached hatt p).symm.trans hi
  | true =>
    have hnull := hok.null p hp 0 hnobody
    rw [AsyncShmem.getHelper_of_attached hatt] at hnull
    have hmem : 0 ∈ s.helpers.take s.numHelpers := by
      refine mem_of_getElem? (i := h) ?_
      rw [getElem?_take_of_lt hh, hfree]
    obtain ⟨i, hi, -⟩ := exists_findIdx?_of_mem hmem
    exact nomatch hnull.symm.trans hi

end Table

/-! ## Registration -/

section Registration

variable {host : Pid → π} {s : AsyncShmem π} {q : π} {pid : Pid} {size : ℕ}

omit [DecidableEq π] in
theorem Filled.free (hf : Filled host s) (hroom : s.registered.length < s.maxHelpers) :
    s.helpers.findIdx? (· = 0) = some s.registered.length := by
  obtain ⟨n, hn⟩ := Nat.exists_eq_add_of_lt hroom
  have hlen : s.maxHelpers - s.registered.length = n + 1 := by omega
  rw [hf.helpers, hlen, findIdx?_append, findIdx?_of_not_mem hf.nobody, replicate_succ, findIdx?_cons]
  simp

omit [DecidableEq π] in
theorem Filled.full (hf : Filled host s) (hfull : s.registered.length = s.maxHelpers) :
    s.helpers.findIdx? (· = 0) = none := by
  rw [hf.helpers, hfull, Nat.sub_self, replicate_zero, append_nil]
  exact findIdx?_of_not_mem hf.nobody

theorem Filled.attach (hf : Filled host s) : Filled host (s.attach q size) := by
  have hatt : ∀ p ∈ s.registered, ((s.attach q size).process (host p)).attached = true := by
    intro p hp
    obtain hq | hne := eq_or_ne (host p) q
    · rw [hq, AsyncShmem.attach_attached]
    · rw [AsyncShmem.attach_process_of_ne _ _ hne]
      exact hf.attached p hp
  cases hinit : s.initialized with
  | true =>
    exact { helpers := by simpa [AsyncShmem.attach, hinit] using hf.helpers
            room := by simpa [AsyncShmem.attach, hinit] using hf.room
            nodup := hf.nodup
            nobody := hf.nobody
            counted := by simpa [AsyncShmem.attach, hinit] using hf.counted
            size := by simpa [AsyncShmem.attach, hinit] using hf.size
            attached := hatt
            fresh := nofun }
  | false =>
    obtain ⟨hnil, -⟩ := hf.fresh hinit
    exact { helpers := by simp [AsyncShmem.attach, hinit, hnil]
            room := by simp [AsyncShmem.attach, hnil]
            nodup := hf.nodup
            nobody := hf.nobody
            counted := .inl hnil
            size := by simp [AsyncShmem.attach, hinit]
            attached := hatt
            fresh := nofun }

theorem Filled.accepts_iff (hf : Filled host s) :
    s.Accepts q size ↔ (s.attach q size).maxHelpers = ((s.attach q size).process q).maxHelpers ∧
      s.registered.length < (s.attach q size).maxHelpers := by
  rw [AsyncShmem.attach_ownSize, AsyncShmem.Accepts, AsyncShmem.attach]
  cases hinit : s.initialized with
  | true => simp
  | false => simp [(hf.fresh hinit).1]

theorem Filled.attach_numHelpers (hf : Filled host s) : (s.attach q size).numHelpers = s.numHelpers := by
  rw [AsyncShmem.attach]
  cases hinit : s.initialized with
  | true => rfl
  | false => exact (hf.fresh hinit).2.symm

theorem Filled.detach (hf : Filled host s) (hq : ∀ p ∈ s.registered, host p ≠ q) : Filled host (s.detach q) :=
  { hf with
    attached := by
      intro p hp
      rw [AsyncShmem.detach_process_of_ne _ (hq p hp)]
      exact hf.attached p hp }

omit [DecidableEq π] in
theorem Filled.register (hf : Filled host s) (hroom : s.registered.length < s.maxHelpers) (hpid : pid ≠ 0)
    (hnew : pid ∉ s.registered) (hatt : (s.process (host pid)).attached = true)
    (hcount : s.numHelpers = s.registered.length) (hinit : s.initialized = true) :
    Filled host (s.register pid s.registered.length) where
  helpers := by
    obtain ⟨n, hn⟩ := Nat.exists_eq_add_of_lt hroom
    have hlen : s.maxHelpers - s.registered.length = n + 1 := by omega
    have hlen' : s.maxHelpers - (s.registered ++ [pid]).length = n := by
      rw [length_append, length_singleton]
      omega
    rw [AsyncShmem.register]
    rw [hf.packed, hlen, hlen', packed_set]
    rfl
  room := by
    rw [AsyncShmem.register, length_append, length_singleton]
    exact hroom
  nodup := List.Nodup.append hf.nodup (nodup_singleton _) (disjoint_singleton.mpr hnew)
  nobody := by
    intro h0
    obtain h0 | h0 := mem_append.mp h0
    · exact hf.nobody h0
    · exact hpid (mem_singleton.mp h0).symm
  counted := by
    right
    rw [AsyncShmem.register, length_append, length_singleton, hcount]
  size := by
    rw [AsyncShmem.register, hcount]
    exact hroom
  attached := by
    intro p hp
    obtain hp | hp := mem_append.mp hp
    · exact hf.attached p hp
    · rw [mem_singleton.mp hp]
      exact hatt
  fresh := fun h => nomatch hinit.symm.trans h

omit [DecidableEq π] in
theorem Filled.tableOk_register (hf : Filled host s) (hroom : s.registered.length < s.maxHelpers) (hpid : pid ≠ 0)
    (hnew : pid ∉ s.registered) (hatt : (s.process (host pid)).attached = true) (hinit : s.initialized = true) :
    TableOk host (s.register pid s.registered.length) ↔ s.numHelpers = s.registered.length := by
  refine ⟨fun hok => ?_, fun hcount => (hf.register hroom hpid hnew hatt hcount hinit).tableOk⟩
  obtain hnil | hcount := hf.counted
  · -- all have left, so that the new one is in the first slot and the second one is free
    by_contra hne
    have hsize : s.numHelpers + 1 ≤ s.maxHelpers := hok.size
    have hlen : s.registered.length = 0 := by rw [hnil]; rfl
    refine not_tableOk_of_free (p := pid) (h := 1) ?_ ?_ ?_ ?_ hok
    · exact fun h0 => absurd h0 (by simp [AsyncShmem.register, hnil, Ne.symm hpid])
    · exact mem_append_right _ (mem_singleton_self _)
    · rw [AsyncShmem.register]
      dsimp only
      omega
    · have h1 : 1 < s.maxHelpers := by omega
      rw [AsyncShmem.register, hf.helpers, hnil]
      simp [h1]
  · exact hcount

theorem Filled.tableOk_detach (hf : Filled host s) :
    TableOk host (s.detach q) ↔ ∀ p ∈ s.registered, host p ≠ q := by
  refine ⟨fun hok p hp heq => ?_, fun hq => (hf.detach hq).tableOk⟩
  obtain ⟨i, hi, -⟩ := hok.found p hp p hp
  have hdetached : ((s.detach q).process (host p)).attached = false := by rw [heq, AsyncShmem.detach_attached]
  exact nomatch (AsyncShmem.getHelper_of_detached hdetached p).symm.trans hi

theorem AsyncShmem.exec_init (host : Pid → π) (hpid : pid ≠ 0) (hnew : pid ∉ s.registered) :
    s.exec host (.init pid size) = (s.attach (host pid) size).registerFree (host pid) pid :=
  (if_neg hpid).trans (if_neg hnew)

theorem Filled.exec_init (hf : Filled host s) (hpid : pid ≠ 0) (hnew : pid ∉ s.registered) :
    (s.Accepts (host pid) size ∧
      s.exec host (.init pid size) = ((s.attach (host pid) size).register pid s.registered.length, .success)) ∨
    (¬ s.Accepts (host pid) size ∧ ∃ error,
      s.exec host (.init pid size) = ((s.attach (host pid) size).detach (host pid), error) ∧
      (error = .errNomem → s.registered.length = (s.attach (host pid) size).maxHelpers)) := by
  have ha : Filled host (s.attach (host pid) size) := hf.attach
  rw [AsyncShmem.exec_init host hpid hnew, hf.accepts_iff, AsyncShmem.registerFree]
  by_cases hsize : (s.attach (host pid) size).maxHelpers = ((s.attach (host pid) size).process (host pid)).maxHelpers
  · rw [if_neg (not_not_intro hsize)]
    by_cases hroom : s.registered.length < (s.attach (host pid) size).maxHelpers
    · left
      refine ⟨⟨hsize, hroom⟩, ?_⟩
      rw [ha.free hroom]
      rfl
    · right
      have hfull : s.registered.length = (s.attach (host pid) size).maxHelpers := by
        have hle : s.registered.length ≤ (s.attach (host pid) size).maxHelpers := ha.room
        omega
      refine ⟨fun h => hroom h.2, .errNomem, ?_, fun _ => hfull⟩
      rw [ha.full hfull]
  · right
    rw [if_pos hsize]
    exact ⟨fun h => hsize h.1, .errInit, rfl, nofun⟩

theorem Filled.stepOk_init (hf : Filled host s) (hpid : pid ≠ 0) (hnew : pid ∉ s.registered) :
    StepOk host s (.init pid size) ↔ (s.Accepts (host pid) size → s.numHelpers = s.registered.length) ∧
      (¬ s.Accepts (host pid) size → ∀ p ∈ s.registered, host p ≠ host pid) := by
  have ha : Filled host (s.attach (host pid) size) := hf.attach
  obtain ⟨hacc, hexec⟩ | ⟨hacc, error, hexec, hfull⟩ := hf.exec_init hpid hnew
  · have hroom := (hf.accepts_iff.mp hacc).2
    have hok := ha.tableOk_register hroom hpid hnew (AsyncShmem.attach_attached _ _ _) rfl
    rw [hf.attach_numHelpers] at hok
    rw [StepOk, hexec]
    exact ⟨fun h => ⟨fun _ => hok.mp h.1, fun hno => absurd hacc hno⟩, fun h => ⟨hok.mpr (h.1 hacc), nofun⟩⟩
  · rw [StepOk, hexec]
    exact ⟨fun h => ⟨fun hyes => absurd hyes hacc, fun _ => ha.tableOk_detach.mp h.1⟩,
      fun h => ⟨ha.tableOk_detach.mpr (h.2 hacc), hfull⟩⟩

theorem Filled.exec_init_filled (hf : Filled host s) (hpid : pid ≠ 0) (hnew : pid ∉ s.registered)
    (hcount : s.Accepts (host pid) size → s.numHelpers = s.registered.length)
    (hother : ¬ s.Accepts (host pid) size → ∀ p ∈ s.registered, host p ≠ host pid) :
    Filled host (s.exec host (.init pid size)).1 := by
  have ha : Filled host (s.attach (host pid) size) := hf.attach
  obtain ⟨hacc, hexec⟩ | ⟨hacc, error, hexec, -⟩ := hf.exec_init hpid hnew
  · rw [hexec]
    exact ha.register (hf.accepts_iff.mp hacc).2 hpid hnew (AsyncShmem.attach_attached _ _ _)
      (hf.attach_numHelpers.trans (hcount hacc)) rfl
  · rw [hexec]
    exact ha.detach (hother hacc)

end Registration

/-! ## Leaving -/

section Leaving

variable {host : Pid → π} {s : AsyncShmem π} {pid : Pid} {size h : ℕ}

omit [DecidableEq π] in
theorem Filled.mem_helpers (hf : Filled host s) (hpid : pid ≠ 0) (hmem : pid ∈ s.helpers) : pid ∈ s.registered := by
  rwa [hf.packed, mem_packed hpid] at hmem

omit [DecidableEq π] in
theorem Filled.leave_last (hf : Filled host s) (hlast : s.registered = [pid]) {helpers : List Pid}
    (hlen : helpers.length = s.helpers.length) (hzero : ∀ p ∈ helpers, p = 0) (process : π → AsyncProcess) :
    Filled host { s with helpers := helpers, process := process, registered := s.registered.erase pid } := by
  have hnil : s.registered.erase pid = [] := by rw [hlast, erase_cons_head]
  have hroom := hf.room
  have hsize : s.helpers.length = s.maxHelpers := by
    rw [hf.packed, packed_length]
    omega
  exact { helpers := by
            rw [hnil, nil_append]
            exact eq_replicate_iff.mpr ⟨hlen.trans hsize, hzero⟩
          room := by
            rw [hnil]
            exact Nat.zero_le _
          nodup := hf.nodup.erase pid
          nobody := fun h0 => hf.nobody (mem_of_mem_erase h0)
          counted := .inl hnil
          size := hf.size
          attached := by
            rw [hnil]
            nofun
          fresh := fun hinit => ⟨hnil, (hf.fresh hinit).2⟩ }

omit [DecidableEq π] in
theorem Filled.not_leave (hf : Filled host s) (hpid : s.registered[h]? = some pid) (hother : s.registered ≠ [pid])
    {helpers : List Pid} (hfree : helpers[h]? = some 0) (process : π → AsyncProcess) :
    ¬ TableOk host { s with helpers := helpers, process := process, registered := s.registered.erase pid } := by
  have hmem : pid ∈ s.registered := mem_of_getElem? hpid
  have hlen : 0 < (s.registered.erase pid).length := by
    rw [length_erase_of_mem hmem]
    by_contra hle
    have hpos := length_pos_of_mem hmem
    have hone : s.registered.length = 1 := by omega
    obtain ⟨x, hx⟩ := length_eq_one_iff.mp hone
    rw [hx] at hmem
    exact hother (by rw [hx, mem_singleton.mp hmem])
  obtain ⟨p', hp'⟩ := exists_mem_of_length_pos hlen
  obtain ⟨hlt, -⟩ := List.getElem?_eq_some_iff.mp hpid
  refine not_tableOk_of_free (h := h) (fun h0 => hf.nobody (mem_of_mem_erase h0)) hp' ?_ hfree
  obtain hnil | hcount := hf.counted
  · exact absurd (hnil ▸ hmem) not_mem_nil
  · exact hcount.symm ▸ hlt

theorem AsyncShmem.exec_finalize (host : Pid → π) (hpid : pid ≠ 0) :
    s.exec host (.finalize pid) = s.shmemAsyncFinalize (host pid) pid :=
  if_neg hpid

theorem Filled.exec_finalize (hf : Filled host s) (hpid : pid ≠ 0) (hmem : pid ∈ s.registered) :
    ∃ h process, s.registered[h]? = some pid ∧ s.exec host (.finalize pid) =
      ({ s with helpers := s.helpers.set h 0, process := process, registered := s.registered.erase pid }, .success) := by
  obtain ⟨h, hfind, hget⟩ := exists_findIdx?_of_mem hmem
  have hhelper : s.getHelper (host pid) pid = some h := by
    rw [AsyncShmem.getHelper_of_attached (hf.attached pid hmem), hf.searched hmem, hfind]
  rw [AsyncShmem.exec_finalize host hpid, AsyncShmem.shmemAsyncFinalize, hhelper]
  exact ⟨h, _, hget, rfl⟩

theorem Filled.exec_finalize_absent (hf : Filled host s) (hpid : pid ≠ 0) (hmem : pid ∉ s.registered) :
    s.exec host (.finalize pid) = (s, .errNoproc) := by
  have hhelper : s.getHelper (host pid) pid = none := by
    cases hatt : (s.process (host pid)).attached with
    | false => exact AsyncShmem.getHelper_of_detached hatt pid
    | true =>
      rw [AsyncShmem.getHelper_of_attached hatt]
      exact findIdx?_of_not_mem fun h => hmem (hf.mem_helpers hpid (mem_of_mem_take h))
  rw [AsyncShmem.exec_finalize host hpid, AsyncShmem.shmemAsyncFinalize, hhelper]

theorem Filled.exec_finalize_last (hf : Filled host s) (hpid : pid ≠ 0) (hlast : s.registered = [pid]) :
    Filled host (s.exec host (.finalize pid)).1 := by
  obtain ⟨h, process, hget, hexec⟩ := hf.exec_finalize hpid (hlast ▸ mem_singleton_self pid)
  rw [hexec]
  have h0 : h = 0 := by
    obtain ⟨hlt, -⟩ := List.getElem?_eq_some_iff.mp hget
    rw [hlast, length_singleton] at hlt
    omega
  refine hf.leave_last hlast (length_set ..) (fun p hp => ?_) process
  rw [hf.helpers, hlast, h0, singleton_append, set_cons_zero] at hp
  obtain hp | hp := mem_cons.mp hp
  · exact hp
  · exact eq_of_mem_replicate hp

theorem Filled.stepOk_finalize (hf : Filled host s) (hpid : pid ≠ 0) :
    StepOk host s (.finalize pid) ↔ (pid ∈ s.registered → s.registered = [pid]) := by
  by_cases hmem : pid ∈ s.registered
  · obtain ⟨h, process, hget, hexec⟩ := hf.exec_finalize hpid hmem
    constructor
    · rintro ⟨hok, -⟩ -
      by_contra hother
      rw [hexec] at hok
      refine hf.not_leave hget hother ?_ process hok
      obtain ⟨hlt, -⟩ := List.getElem?_eq_some_iff.mp hget
      have hlt' : h < s.helpers.length := by
        rw [hf.helpers, length_append]
        exact Nat.lt_add_right _ hlt
      rw [getElem?_set_self hlt']
    · intro hlast
      refine ⟨(hf.exec_finalize_last hpid (hlast hmem)).tableOk, ?_⟩
      rw [hexec]
      nofun
  · rw [StepOk, hf.exec_finalize_absent hpid hmem]
    exact ⟨fun _ h => absurd h hmem, fun _ => ⟨hf.tableOk, nofun⟩⟩

theorem AsyncShmem.exec_cleanup (host : Pid → π) (hpid : pid ≠ 0) :
    s.exec host (.cleanup pid size) = (s.cleanupShmem pid size, .success) :=
  if_neg hpid

omit [DecidableEq π] in
theorem AsyncShmem.cleanupShmem_absent (hmem : pid ∉ s.helpers.take size) : s.cleanupShmem pid size = s := by
  have hmap : (s.helpers.take size).map (fun p => if p = pid then 0 else p) = s.helpers.take size := by
    refine (map_congr_left (g := id) fun p hp => ?_).trans (map_id _)
    have hne : p ≠ pid := by
      rintro rfl
      exact hmem hp
    exact if_neg hne
  rw [AsyncShmem.cleanupShmem, hmap, take_append_drop, if_neg hmem]

omit [DecidableEq π] in
theorem Filled.cleanupShmem (hf : Filled host s) (hpid : pid ≠ 0) (hmem : pid ∈ s.helpers.take size) :
    ∃ (h : ℕ) (helpers : List Pid), s.registered[h]? = some pid ∧ helpers[h]? = some 0 ∧
      helpers.length = s.helpers.length ∧ (s.registered = [pid] → ∀ p ∈ helpers, p = 0) ∧
      s.cleanupShmem pid size = { s with helpers := helpers, registered := s.registered.erase pid } := by
  obtain ⟨h, hh⟩ := mem_iff_getElem?.mp hmem
  have hlt : h < (s.helpers.take size).length := (List.getElem?_eq_some_iff.mp hh).1
  have hsize : h < size := Nat.lt_of_lt_of_le hlt (length_take_le _ _)
  have hget : s.helpers[h]? = some pid := by rwa [getElem?_take_of_lt hsize] at hh
  refine ⟨h, _, ?_, ?_, ?_, ?_, by rw [AsyncShmem.cleanupShmem, if_pos hmem]⟩
  · rw [hf.helpers] at hget
    by_cases hreg : h < s.registered.length
    · rwa [getElem?_append_left hreg] at hget
    · rw [getElem?_append_right (Nat.le_of_not_lt hreg)] at hget
      exact absurd (eq_of_mem_replicate (mem_of_getElem? hget)) hpid
  · rw [getElem?_append_left (by rwa [length_map]), getElem?_map, hh, Option.map_some, if_pos rfl]
  · rw [length_append, length_map, ← length_append, take_append_drop]
  · intro hlast p hp
    have hhelpers : s.helpers = pid :: replicate (s.maxHelpers - 1) 0 := by rw [hf.helpers, hlast]; rfl
    obtain ⟨n, rfl⟩ := Nat.exists_eq_succ_of_ne_zero (Nat.ne_zero_of_lt hsize)
    rw [hhelpers, take_succ_cons, drop_succ_cons, map_cons, if_pos rfl] at hp
    obtain hp | hp := mem_append.mp hp
    · obtain hp | hp := mem_cons.mp hp
      · exact hp
      · obtain ⟨x, hx, rfl⟩ := mem_map.mp hp
        split
        · rfl
        · exact eq_of_mem_replicate (mem_of_mem_take hx)
    · exact eq_of_mem_replicate (mem_of_mem_drop hp)

theorem Filled.exec_cleanup_filled (hf : Filled host s) (hpid : pid ≠ 0)
    (hlast : pid ∈ s.helpers.take size → s.registered = [pid]) :
    Filled host (s.exec host (.cleanup pid size)).1 := by
  rw [AsyncShmem.exec_cleanup host hpid]
  by_cases hmem : pid ∈ s.helpers.take size
  · obtain ⟨h, helpers, -, -, hlen, hzero, heq⟩ := hf.cleanupShmem hpid hmem
    rw [heq]
    exact hf.leave_last (hlast hmem) hlen (hzero (hlast hmem)) s.process
  · rw [AsyncShmem.cleanupShmem_absent hmem]
    exact hf

theorem Filled.stepOk_cleanup (hf : Filled host s) (hpid : pid ≠ 0) :
    StepOk host s (.cleanup pid size) ↔ (pid ∈ s.helpers.take size → s.registered = [pid]) := by
  refine ⟨fun hok hmem => ?_, fun hlast => ⟨(hf.exec_cleanup_filled hpid hlast).tableOk, ?_⟩⟩
  · have htable := hok.1
    rw [AsyncShmem.exec_cleanup host hpid] at htable
    obtain ⟨h, helpers, hget, hfree, -, -, heq⟩ := hf.cleanupShmem hpid hmem
    rw [heq] at htable
    by_contra hother
    exact hf.not_leave hget hother hfree s.process htable
  · rw [AsyncShmem.exec_cleanup host hpid]
    nofun

end Leaving

/-! ## Runs -/

section Runs

variable {host : Pid → π} {s : AsyncShmem π}

theorem AsyncShmem.exec_nobody {e : AsyncEvent} (h0 : e.pid = 0) : s.exec host e = (s, .success) := if_pos h0

/-- **A step keeps the table right exactly when none leaves while others stay**, and no process loses the shared memory
while it has a subprocess registered. -/
theorem Filled.stepOk_iff (hf : Filled host s) (e : AsyncEvent) : StepOk host s e ↔ NoneLeaves host s e := by
  by_cases hpid : e.pid = 0
  · rw [StepOk, AsyncShmem.exec_nobody hpid]
    exact ⟨fun _ hne => absurd hpid hne, fun _ => ⟨hf.tableOk, nofun⟩⟩
  cases e with
  | init pid size =>
    have hpid : pid ≠ 0 := hpid
    by_cases hnew : pid ∈ s.registered
    · have hexec : s.exec host (.init pid size) = (s, .success) := (if_neg hpid).trans (if_pos hnew)
      rw [StepOk, hexec]
      exact ⟨fun _ _ hno => absurd hnew hno, fun _ => ⟨hf.tableOk, nofun⟩⟩
    · rw [hf.stepOk_init hpid hnew]
      exact ⟨fun h _ _ => h, fun h => h hpid hnew⟩
  | finalize pid =>
    have hpid : pid ≠ 0 := hpid
    rw [hf.stepOk_finalize hpid]
    exact ⟨fun h _ => h, fun h => h hpid⟩
  | cleanup pid size =>
    have hpid : pid ≠ 0 := hpid
    rw [hf.stepOk_cleanup hpid]
    exact ⟨fun h _ => h, fun h => h hpid⟩

theorem Filled.exec (hf : Filled host s) (e : AsyncEvent) (hnone : NoneLeaves host s e) :
    Filled host (s.exec host e).1 := by
  by_cases hpid : e.pid = 0
  · rw [AsyncShmem.exec_nobody hpid]
    exact hf
  have hnone := hnone hpid
  cases e with
  | init pid size =>
    have hpid : pid ≠ 0 := hpid
    by_cases hnew : pid ∈ s.registered
    · have hexec : s.exec host (.init pid size) = (s, .success) := (if_neg hpid).trans (if_pos hnew)
      rw [hexec]
      exact hf
    · exact hf.exec_init_filled hpid hnew (hnone hnew).1 (hnone hnew).2
  | finalize pid =>
    have hpid : pid ≠ 0 := hpid
    by_cases hmem : pid ∈ s.registered
    · exact hf.exec_finalize_last hpid (hnone hmem)
    · rw [hf.exec_finalize_absent hpid hmem]
      exact hf
  | cleanup pid size => exact hf.exec_cleanup_filled hpid hnone

/-- **The table of helpers stays right in a run exactly when no process leaves, or is cleaned up, while others stay
registered or before another one registers, and no process with a registered subprocess is refused another one.** -/
theorem helper_table_iff (host : Pid → π) (events : List AsyncEvent) :
    Along (fun s e => (AsyncShmem.exec s host e).1) (StepOk host) {} events ↔
      Along (fun s e => (AsyncShmem.exec s host e).1) (NoneLeaves host) {} events :=
  Along.congr (I := Filled host) (R := fun _ => True) (fun _ e hf _ hnone => hf.exec e hnone)
    (fun _ e hf _ => hf.stepOk_iff e) _ events Filled.init fun _ _ => trivial

end Runs

/-- With room for two, a process stays while others come and go one after the other: the third registration counts to
three. -/
theorem num_helpers_exceeds :
    ¬ Along (fun s e => (AsyncShmem.exec s id e).1) (StepOk id) {} [.init 1 2, .init 2 2, .finalize 2, .init 3 2] := by
  rintro ⟨-, -, -, hlast, -⟩
  exact absurd hlast.1.size (by decide)

end Dlb.Async

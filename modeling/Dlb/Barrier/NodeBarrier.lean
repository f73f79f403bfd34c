import Dlb.Barrier.Shmem
import Dlb.Lib.Packed
import Dlb.Support.MaskText

/-!
# Barriers of a process

`node_barrier.c`. A process has a default barrier, for which it never shows the pointer, and a list of the named
barriers that it takes part in: an array that ends at its first `NULL`. To register a name is to ask for its pointer,
too, so that a process that has a named barrier looks into the shared memory first.
-/

namespace Dlb.Barrier

/-- The options of a process that concern barriers, and its `max_barriers`. -/
structure BarrierOptions where
  barrierId : ℤ := 0
  lewiBarrier : Bool := false
  lewiBarrierSelect : List Char := []
  maxBarriers : ℕ

/-- The `DLB_BARRIER_LEWI` flags. -/
inductive BarrierFlags where
  | lewiOff | lewiOn | lewiRuntime

/-- `barrier_info_t`: a pointer is the number of a slot. -/
structure BarrierInfo where
  defaultBarrierName : List Char
  defaultBarrier : Option ℕ
  barrierList : List (Option ℕ)

/-- `default_barrier_name`. -/
def defaultName : List Char := "default".toList

/-- The name of the default barrier, which depends on `--barrier-id`. -/
def defaultBarrierName (barrierId : ℤ) : List Char :=
  if barrierId = 0 then defaultName
  else
    ("default (id: ".toList ++ (if barrierId < 0 then ['-'] else []) ++ decimal barrierId.natAbs ++ [')']).take
      (barrierNameMax - 1)

/-- The search of a name in `--lewi-barrier-select`, a list separated by commas. -/
def findInSelect (select name : List Char) : Bool := (select.splitOn ',').any fun token => token ≠ [] ∧ token = name

def parseLewiBarrier (name : List Char) (opts : BarrierOptions) (flags : BarrierFlags) : Bool :=
  if name.take barrierNameMax = defaultName then
    if opts.lewiBarrierSelect = [] then opts.lewiBarrier else findInSelect opts.lewiBarrierSelect name
  else
    match flags with
    | .lewiOn => true
    | .lewiOff => false
    | .lewiRuntime => findInSelect opts.lewiBarrierSelect name

namespace BarrierInfo

variable (info : BarrierInfo) (b : ℕ)

/-- The index of the first `NULL` of the list, or of the barrier, or behind the last one. -/
def position : ℕ := Lib.search none (some b) info.barrierList

def isListed : Bool := info.barrierList[info.position b]? = some (some b)

/-- The barrier is written at the first `NULL` of the list; without one, it is not written, or past the end. -/
def add : BarrierInfo :=
  { info with barrierList := info.barrierList.set (info.barrierList.findIdx (· = none)) (some b) }

def remove : BarrierInfo := { info with barrierList := info.barrierList.eraseIdx (info.position b) ++ [none] }

end BarrierInfo

/-- The shared memory, and the `barrier_info` of each process. -/
structure NodeState (π : Type*) where
  shmem : BarrierShmem := {}
  info : π → Option BarrierInfo := fun _ => none

inductive NodeCall where
  | init | finalize
  | register (name : List Char) (flags : BarrierFlags)
  | attach (barrier : Option ℕ)
  | detach (barrier : Option ℕ)

/-- `shmem_barrier__detach` of a pointer that may be `NULL`. -/
def BarrierShmem.detachPointer (d : BarrierShmem) : Option ℕ → BarrierShmem × Except DlbError ℕ
  | none => (d, .error .errUnknown)
  | some b => d.shmemBarrierDetach b

variable {π : Type*} [DecidableEq π]

namespace NodeState

variable (opts : π → BarrierOptions) (s : NodeState π) (p : π)

/-- The shared memory and the information of one process are written. -/
def write (d : BarrierShmem) (info : Option BarrierInfo) : NodeState π :=
  { shmem := d, info := Function.update s.info p info }

/-- `shmem_barrier__register` of the default barrier of a process. -/
def registerDefault (d : BarrierShmem) (name : List Char) : BarrierShmem × Option ℕ :=
  d.shmemBarrierRegister name (parseLewiBarrier defaultName (opts p) .lewiOff) (opts p).maxBarriers

/-- `shmem_barrier__init` and `node_barrier_init`, which is fatal if the process has called it already. -/
def nodeBarrierInit : NodeState π :=
  match s.info p with
  | some _ => s
  | none =>
    let name := defaultBarrierName (opts p).barrierId
    let r := registerDefault opts p (s.shmem.shmemBarrierInit (opts p).maxBarriers).1 name
    s.write p r.1 (some
      { defaultBarrierName := name
        defaultBarrier := r.2
        barrierList := List.replicate (opts p).maxBarriers none })

def nodeBarrierFinalize : NodeState π :=
  match s.info p with
  | none => s
  | some info =>
    s.write p ((info.defaultBarrier :: info.barrierList).foldl (fun d b => (d.detachPointer b).1) s.shmem) none

/-- The barrier of that name, if it is in the list of the process. The shared memory is only searched if the list has
a first barrier. -/
def registered (info : BarrierInfo) (name : List Char) : Option ℕ :=
  match info.barrierList[0]? with
  | some (some _) => (s.shmem.find name).filter fun b => some b ∈ info.barrierList
  | _ => none

def nodeBarrierRegister (name : List Char) (flags : BarrierFlags) : NodeState π × Option ℕ :=
  match s.info p with
  | none => (s, none)
  | some info =>
    match s.registered info name with
    | some b => (s, some b)
    | none =>
      let r := s.shmem.shmemBarrierRegister name (parseLewiBarrier name (opts p) flags) (opts p).maxBarriers
      match r.2 with
      | none => (s.write p r.1 (some info), none)
      | some b => (s.write p r.1 (some (info.add b)), some b)

def nodeBarrierAttach (barrier : Option ℕ) : NodeState π × Except DlbError ℕ :=
  match s.info p with
  | none => (s, .error .errNocomp)
  | some info =>
    match barrier, info.defaultBarrier with
    | none, some _ => (s, .error .errPerm)
    | none, none =>
      let r := registerDefault opts p s.shmem info.defaultBarrierName
      (s.write p r.1 (some { info with defaultBarrier := r.2 }), if r.2.isSome then .ok 1 else .error .errNomem)
    | some b, default =>
      if default = some b then (s, .error .errPerm)
      else if info.isListed b then (s, .error .errPerm)
      else
        let r := s.shmem.shmemBarrierAttach b
        (s.write p r.1 (some (if r.2.isOk then info.add b else info)), r.2)

def nodeBarrierDetach (barrier : Option ℕ) : NodeState π × Except DlbError ℕ :=
  match s.info p with
  | none => (s, .error .errNocomp)
  | some info =>
    match barrier, info.defaultBarrier with
    | none, none => (s, .error .errPerm)
    | none, some b =>
      let r := s.shmem.shmemBarrierDetach b
      (s.write p r.1 (some (if r.2.isOk then { info with defaultBarrier := none } else info)), r.2)
    | some b, default =>
      if default = some b then
        let r := s.shmem.shmemBarrierDetach b
        (s.write p r.1 (some (if r.2.isOk then { info with defaultBarrier := none } else info)), r.2)
      else if info.isListed b then
        let r := s.shmem.shmemBarrierDetach b
        (s.write p r.1 (some (if r.2.isOk then info.remove b else info)), r.2)
      else (s, .error .errPerm)

def exec : π × NodeCall → NodeState π
  | (p, .init) => s.nodeBarrierInit opts p
  | (p, .finalize) => s.nodeBarrierFinalize p
  | (p, .register name flags) => (s.nodeBarrierRegister opts p name flags).1
  | (p, .attach barrier) => (s.nodeBarrierAttach opts p barrier).1
  | (p, .detach barrier) => (s.nodeBarrierDetach p barrier).1

end NodeState

end Dlb.Barrier

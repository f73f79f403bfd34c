import Mathlib.Data.List.Perm.Basic
import Dlb.Lib.Qsort
import Dlb.Support.Types

/-!
# `queue_lewi_reqs_t`: the queue of CPU requests

The first `head` entries of the C array are a list; the slots from `head` on are never read. `popLoop` is the
distribution loop of `queue_lewi_reqs_pop_ncpus`, over the sorted entries from the last one to the first.
-/

namespace Dlb

/-- `lewi_request_t` -/
structure LewiRequest where
  pid : Pid
  howmany : ℕ
deriving DecidableEq, Repr

/-- `QUEUE_LEWI_REQS_SIZE` -/
def queueLewiReqsCapacity : ℕ := 256

/-- `queue_lewi_reqs_size` -/
def queueLewiReqsSize (queue : List LewiRequest) : ℕ := queue.length

/-- `queue_lewi_reqs_remove`: drop the entry of `pid` and return its value; the last entry takes its place. -/
def queueLewiReqsRemove (queue : List LewiRequest) (pid : Pid) : ℕ × List LewiRequest :=
  if pid = 0 then (0, queue) else
  match queue.findIdx? (·.pid = pid) with
  | none => (0, queue)
  | some i =>
    let howmany := (queue.getD i ⟨0, 0⟩).howmany
    if i + 1 < queue.length then
      (howmany, (queue.set i (queue.getD (queue.length - 1) ⟨0, 0⟩)).dropLast)
    else (howmany, queue.dropLast)

/-- `queue_lewi_reqs_push`: add to the entry of `pid`, or append one; the last array position is reserved. -/
def queueLewiReqsPush (queue : List LewiRequest) (pid : Pid) (howmany : ℕ) : DlbError × List LewiRequest :=
  if pid = 0 then (.noupdt, queue)
  else if howmany = 0 then (.success, (queueLewiReqsRemove queue pid).2)
  else match queue.findIdx? (·.pid = pid) with
    | some i => (.success, queue.modify i fun r => { r with howmany := addU32 r.howmany howmany })
    | none =>
      if queue.length = queueLewiReqsCapacity - 1 then (.errReqst, queue)
      else (.success, queue ++ [⟨pid, howmany⟩])

/-- `queue_lewi_reqs_pack`: remove the entries with no value. -/
def queueLewiReqsPack (queue : List LewiRequest) : List LewiRequest := queue.filter (0 < ·.howmany)

/-- `sort_queue_lewi_reqs`: an unsigned difference returned as `int`. -/
def sortQueueLewiReqs (elem1 elem2 : LewiRequest) : ℤ := subToInt elem2.howmany elem1.howmany

/-- What `queue_lewi_reqs_pop_ncpus` leaves: the queue, the accepted requests and the CPUs not assigned. -/
structure Popped where
  queue : List LewiRequest
  requests : List LewiRequest
  ncpus : ℕ

/-- The loop of `queue_lewi_reqs_pop_ncpus`. With `rest` still to come after `request`, the index is
`rest.length`. -/
def popLoop (maxreqs : ℕ) : List LewiRequest → (ncpus j : ℕ) → Popped
  | [], ncpus, _ => ⟨[], [], ncpus⟩
  | request :: rest, ncpus, j =>
    if 0 < ncpus ∧ j < maxreqs then
      let ncpusPopped := min (ncpus / (rest.length + 1)) request.howmany
      if 0 < ncpusPopped then
        let r := popLoop maxreqs rest (ncpus - ncpusPopped) (j + 1)
        ⟨{ request with howmany := request.howmany - ncpusPopped } :: r.queue,
          ⟨request.pid, ncpusPopped⟩ :: r.requests, r.ncpus⟩
      else
        let r := popLoop maxreqs rest ncpus j
        ⟨request :: r.queue, r.requests, r.ncpus⟩
    else ⟨request :: rest, [], ncpus⟩

/-- `queue_lewi_reqs_pop_ncpus` -/
def queueLewiReqsPopNcpus (Q : Lib.Qsort) (debug : Bool) (queue : List LewiRequest) (ncpus maxreqs : ℕ) :
    Option Popped := do
  if queueLewiReqsSize queue = 0 then
    return ⟨queue, [], ncpus⟩
  let sorted := Q.sort sortQueueLewiReqs queue
  -- "Empty spots in the queue"
  ensure debug (0 < (sorted.getD (sorted.length - 1) ⟨0, 0⟩).howmany)
  let r := popLoop maxreqs sorted.reverse ncpus 0
  return ⟨queueLewiReqsPack r.queue.reverse, r.requests, r.ncpus⟩

/-- `queue_lewi_reqs_get` -/
def queueLewiReqsGet (queue : List LewiRequest) (pid : Pid) : ℕ :=
  if pid = 0 then 0 else ((queue.find? (·.pid = pid)).map (·.howmany)).getD 0

end Dlb

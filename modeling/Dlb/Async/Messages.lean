import Dlb.Lib.Ring
import Dlb.Lib.Run
import Dlb.Support.MaskUtils

/-!
# Messages to a helper thread

The queue of a helper in `shmem_async.c`: any number of senders, and the helper thread. A sender tests `joinable`
without the lock and then writes its message under the lock; the helper thread tests whether it is to end without the
lock, too. The end of a helper is a message as well, that of `shmem_async_finalize`.

* `Fifo`: what has been processed, the message at hand and the queue are what has been enqueued, in that order, kept by
  every step (`Fifo.exec`).
-/

namespace Dlb.Async

open List Function Lib

def queueSize : ℕ := 100

/-- `action_t`. -/
inductive HelperAction where
  | none | enableCpu | enableCpuSet | disableCpu | disableCpuSet | setCpuSet | setNumCpus | join
deriving DecidableEq

/-- `message_t`. -/
structure Message where
  action : HelperAction
  cpuid : ℤ := 0
  ncpus : ℤ := 0
  cpuSet : CpuSet := ∅
deriving DecidableEq

/-- Where a sender is in `enqueue_message`: not in it, past the test of `joinable` with its message, or aborted by a
full queue. -/
inductive SenderState where
  | idle
  | checked (message : Message)
  | aborted
deriving DecidableEq

/-- Where the helper thread is in `thread_start`, with its variable `join`: at the test of the loop, at
`dequeue_message`, with a message to attend to, or returned. -/
inductive HelperThread (σ : Type*) where
  | testing (join : Bool)
  | dequeuing (join : Bool)
  | attending (join : Bool) (message : σ × Message)
  | returned
deriving DecidableEq

/-- `helper_t` with its queue and its thread, and the senders. The messages carry their sender. Besides, what has been
accepted from each sender, what has been enqueued and what has been processed. -/
structure HelperQueue (σ : Type*) where
  queue : ℕ → σ × Message
  qHead : ℕ := 0
  qTail : ℕ := 0
  joinable : Bool := false
  thread : HelperThread σ := .testing false
  sender : σ → SenderState := fun _ => .idle
  accepted : σ → List Message := fun _ => []
  enqueued : List (σ × Message) := []
  processed : List (σ × Message) := []

/-- The steps of the senders and of the helper thread. -/
inductive HelperStep (σ : Type*) where
  | check (sender : σ) (message : Message)
  | enqueue (sender : σ)
  | test | dequeue | attend

variable {σ : Type*} [DecidableEq σ]

namespace HelperQueue

variable (s : HelperQueue σ) (x : σ)

/-- The test of `joinable` in `enqueue_message`: the message is discarded, or will be enqueued. -/
def check (message : Message) : HelperQueue σ :=
  if s.joinable then s
  else
    { s with
      sender := update s.sender x (.checked message)
      accepted := update s.accepted x (s.accepted x ++ [message]) }

/-- The locked part of `enqueue_message`. A full queue aborts the sender. -/
def enqueue (message : Message) : HelperQueue σ :=
  if (s.qHead + 1) % queueSize = s.qTail then
    { s with
      joinable := s.joinable || message.action = .join
      sender := update s.sender x .aborted }
  else
    { s with
      queue := update s.queue s.qHead (x, message)
      qHead := (s.qHead + 1) % queueSize
      joinable := s.joinable || message.action = .join
      sender := update s.sender x .idle
      enqueued := s.enqueued ++ [(x, message)] }

/-- The test of the loop of `thread_start`. -/
def test (join : Bool) : HelperQueue σ :=
  { s with thread := if join = false ∨ s.qHead ≠ s.qTail then .dequeuing join else .returned }

/-- `dequeue_message`, which blocks while the queue is empty. -/
def dequeue (join : Bool) : HelperQueue σ :=
  if s.qHead = s.qTail then s
  else { s with qTail := (s.qTail + 1) % queueSize, thread := .attending join (s.queue s.qTail) }

def attend (join : Bool) (message : σ × Message) : HelperQueue σ :=
  { s with
    thread := .testing (join || message.2.action = .join)
    processed := s.processed ++ [message] }

/-- One step, which does nothing where its sender, or the helper thread, is not at that step. -/
def exec : HelperStep σ → HelperQueue σ
  | .check x message =>
    match s.sender x with
    | .idle => s.check x message
    | _ => s
  | .enqueue x =>
    match s.sender x with
    | .checked message => s.enqueue x message
    | _ => s
  | .test =>
    match s.thread with
    | .testing join => s.test join
    | _ => s
  | .dequeue =>
    match s.thread with
    | .dequeuing join => s.dequeue join
    | _ => s
  | .attend =>
    match s.thread with
    | .attending join message => s.attend join message
    | _ => s

end HelperQueue

/-! ## Delivery -/

def ofSender (x : σ) (l : List (σ × Message)) : List Message := (l.filter (·.1 = x)).map (·.2)

/-- What has been processed is a first part of what has been enqueued, from each sender a first part of what was
accepted from it, and all that has been enqueued once the helper thread has returned. -/
structure Delivered (s : HelperQueue σ) : Prop where
  prefix_enqueued : s.processed <+: s.enqueued
  prefix_accepted : ∀ x, ofSender x s.processed <+: s.accepted x
  all : s.thread = .returned → s.processed = s.enqueued

def Enqueues (s : HelperQueue σ) (e : HelperStep σ) : Prop := (s.exec e).enqueued ≠ s.enqueued

/-- The test of the loop that ends the helper thread finds no sender between its test of `joinable` and its message. -/
def NoneBetween (s : HelperQueue σ) : HelperStep σ → Prop
  | .test => s.thread = .testing true → s.qHead = s.qTail → ∀ x m, s.sender x ≠ .checked m
  | _ => True

/-! ## The order of the messages -/

/-- The message that the helper thread attends to. -/
def HelperThread.atHand : HelperThread σ → List (σ × Message)
  | .attending _ message => [message]
  | _ => []

/-- The helper thread has seen that it is to end. -/
def HelperThread.joins : HelperThread σ → Bool
  | .testing join | .dequeuing join | .attending join _ => join
  | .returned => true

/-- What has been accepted from a sender, given what has been enqueued from it: one message more where the sender is
about to enqueue it, and maybe where it was aborted. -/
def SenderState.Accepted (enqueued accepted : List Message) : SenderState → Prop
  | .idle => accepted = enqueued
  | .checked message => accepted = enqueued ++ [message]
  | .aborted => enqueued <+: accepted

/-- The queue holds what has been enqueued and not been taken out, in that order. Who is to join has flagged the
helper. -/
structure Fifo (s : HelperQueue σ) : Prop where
  order : ∃ n < queueSize, s.qTail < queueSize ∧ s.qHead = Ring.slot queueSize s.qTail n ∧
    s.processed ++ s.thread.atHand ++ (Ring.contents s.queue queueSize s.qTail n).reverse = s.enqueued
  accepted : ∀ x, (s.sender x).Accepted (ofSender x s.enqueued) (s.accepted x)
  flagged : ∀ m ∈ s.enqueued, m.2.action = .join → s.joinable = true
  joined : s.thread.joins = true → s.joinable = true

section Steps

variable {s : HelperQueue σ} {x : σ} {message : Message} {join : Bool}

theorem next_queueSize {i : ℕ} (h : i < queueSize) : (i + 1) % queueSize = Ring.next queueSize i := by
  unfold Ring.next
  split
  · exact Nat.mod_eq_of_lt ‹_›
  · have hi : i + 1 = queueSize := by omega
    rw [hi, Nat.mod_self]

theorem ofSender_append (x : σ) (l m : List (σ × Message)) : ofSender x (l ++ m) = ofSender x l ++ ofSender x m := by
  rw [ofSender, filter_append, map_append]
  rfl

theorem ofSender_self (x : σ) (message : Message) : ofSender x [(x, message)] = [message] := by
  rw [ofSender, filter_cons_of_pos (by simp)]
  rfl

theorem ofSender_of_ne {x y : σ} (h : y ≠ x) (message : Message) : ofSender x [(y, message)] = [] := by
  rw [ofSender, filter_cons_of_neg (by simpa using h)]
  rfl

omit [DecidableEq σ] in
theorem SenderState.Accepted.isPrefix {t : SenderState} {enqueued accepted : List Message}
    (h : t.Accepted enqueued accepted) : enqueued <+: accepted := by
  cases t with
  | idle => exact h ▸ prefix_refl _
  | checked message => exact h ▸ prefix_append _ _
  | aborted => exact h

theorem Fifo.init (queue : ℕ → σ × Message) : Fifo { queue := queue } where
  order := ⟨0, Nat.succ_pos _, Nat.succ_pos _, rfl, rfl⟩
  accepted := fun _ => rfl
  flagged := nofun
  joined := nofun

theorem Fifo.check (h : Fifo s) (hx : s.sender x = .idle) : Fifo (s.check x message) := by
  rw [HelperQueue.check]
  split
  · exact h
  · refine { h with accepted := fun y => ?_ }
    dsimp only
    obtain rfl | hne := eq_or_ne y x
    · have hbefore := h.accepted y
      rw [hx] at hbefore
      rw [update_self, update_self, show s.accepted y = ofSender y s.enqueued from hbefore]
      rfl
    · rw [update_of_ne hne, update_of_ne hne]
      exact h.accepted y

theorem Fifo.enqueue (h : Fifo s) (hx : s.sender x = .checked message) : Fifo (s.enqueue x message) := by
  have hbefore := h.accepted x
  rw [hx] at hbefore
  have hflag : s.joinable = true → (s.joinable || decide (message.action = .join)) = true := fun hj => by rw [hj]; rfl
  rw [HelperQueue.enqueue]
  split
  · refine { order := h.order, accepted := fun y => ?_, flagged := fun m hm ha => hflag (h.flagged m hm ha),
             joined := fun hj => hflag (h.joined hj) }
    dsimp only
    obtain rfl | hne := eq_or_ne y x
    · rw [update_self]
      exact SenderState.Accepted.isPrefix (t := .checked message) hbefore
    · rw [update_of_ne hne]
      exact h.accepted y
  · rename_i hroom
    refine { order := ?_, accepted := fun y => ?_, flagged := ?_, joined := fun hj => hflag (h.joined hj) }
    · obtain ⟨n, hn, htail, hhead, horder⟩ := h.order
      have hlt : s.qHead < queueSize := hhead ▸ Ring.slot_lt htail (Nat.le_of_lt hn)
      have hnext : (s.qHead + 1) % queueSize = Ring.slot queueSize s.qTail (n + 1) := by
        rw [next_queueSize hlt, hhead, Ring.next_slot htail hn]
      have hmore : n + 1 < queueSize := by
        refine Nat.lt_of_le_of_ne hn fun hfull => hroom ?_
        rw [hnext, hfull, Ring.slot_full]
      refine ⟨n + 1, hmore, htail, hnext, ?_⟩
      rw [hhead, Ring.contents_push _ hn, reverse_cons, ← append_assoc, horder]
    · dsimp only
      rw [ofSender_append]
      obtain rfl | hne := eq_or_ne y x
      · rw [update_self, ofSender_self]
        exact hbefore
      · rw [update_of_ne hne, ofSender_of_ne (Ne.symm hne), append_nil]
        exact h.accepted y
    · intro m hm ha
      obtain hm | hm := mem_append.mp hm
      · exact hflag (h.flagged m hm ha)
      · rw [mem_singleton.mp hm] at ha
        change (s.joinable || decide (message.action = .join)) = true
        rw [ha, decide_eq_true rfl, Bool.or_true]

theorem Fifo.test (h : Fifo s) (ht : s.thread = .testing join) : Fifo (s.test join) := by
  have horder := h.order
  have hjoined := h.joined
  rw [ht] at horder hjoined
  rw [HelperQueue.test]
  by_cases hmore : join = false ∨ s.qHead ≠ s.qTail
  · rw [if_pos hmore]
    exact { order := horder, accepted := h.accepted, flagged := h.flagged, joined := hjoined }
  · rw [if_neg hmore]
    have hjoin : join = true := by
      cases join with
      | true => rfl
      | false => exact absurd (.inl rfl) hmore
    exact { order := horder, accepted := h.accepted, flagged := h.flagged, joined := fun _ => hjoined hjoin }

theorem Fifo.dequeue (h : Fifo s) (ht : s.thread = .dequeuing join) : Fifo (s.dequeue join) := by
  obtain ⟨n, hn, htail, hhead, horder⟩ := h.order
  have hjoined := h.joined
  rw [ht] at horder hjoined
  rw [HelperQueue.dequeue]
  split
  · exact h
  · rename_i hne
    cases n with
    | zero => exact absurd (hhead.trans (Ring.slot_zero htail)) hne
    | succ n =>
      have hn' : n < queueSize := Nat.lt_of_succ_lt hn
      refine { order := ⟨n, hn', ?_, ?_, ?_⟩, accepted := h.accepted, flagged := h.flagged, joined := hjoined }
      · dsimp only
        rw [next_queueSize htail]
        exact Ring.next_lt htail
      · dsimp only
        rw [next_queueSize htail, Ring.slot_next htail hn', hhead]
      · dsimp only [HelperThread.atHand] at horder ⊢
        rw [next_queueSize htail, ← horder, Ring.contents_succ htail hn', reverse_append, append_nil,
          append_assoc]
        rfl

theorem Fifo.attend (h : Fifo s) {m : σ × Message} (ht : s.thread = .attending join m) : Fifo (s.attend join m) := by
  obtain ⟨n, hn, htail, hhead, horder⟩ := h.order
  have hjoined := h.joined
  rw [ht] at horder hjoined
  have hmem : m ∈ s.enqueued := by
    rw [← horder]
    exact mem_append_left _ (mem_append_right _ (mem_singleton_self _))
  refine { order := ⟨n, hn, htail, hhead, ?_⟩, accepted := h.accepted, flagged := h.flagged, joined := fun hj => ?_ }
  · refine Eq.trans ?_ horder
    rw [HelperQueue.attend]
    dsimp only [HelperThread.atHand]
    rw [append_nil]
  · change (join || decide (m.2.action = .join)) = true at hj
    obtain hj | hj := Bool.or_eq_true_iff.mp hj
    · exact hjoined hj
    · exact h.flagged m hmem (of_decide_eq_true hj)

theorem Fifo.exec (h : Fifo s) (e : HelperStep σ) : Fifo (s.exec e) := by
  cases e with
  | check x message =>
    rw [HelperQueue.exec]
    split
    · exact h.check ‹_›
    · exact h
  | enqueue x =>
    rw [HelperQueue.exec]
    split
    · exact h.enqueue ‹_›
    · exact h
  | test =>
    rw [HelperQueue.exec]
    split
    · exact h.test ‹_›
    · exact h
  | dequeue =>
    rw [HelperQueue.exec]
    split
    · exact h.dequeue ‹_›
    · exact h
  | attend =>
    rw [HelperQueue.exec]
    split
    · exact h.attend ‹_›
    · exact h

/-! ## The end of the helper thread -/

/-- Once the helper thread has returned, the queue is empty and no sender is about to enqueue a message. -/
def Closed (s : HelperQueue σ) : Prop :=
  s.thread = .returned → s.qHead = s.qTail ∧ ∀ x m, s.sender x ≠ .checked m

theorem Enqueues.checked {e : HelperStep σ} (h : Enqueues s e) : ∃ x m, e = .enqueue x ∧ s.sender x = .checked m := by
  cases e with
  | enqueue x =>
    cases hx : s.sender x with
    | checked m => exact ⟨x, m, rfl, hx⟩
    | _ => exact absurd (by rw [HelperQueue.exec, hx]) h
  | check x message =>
    refine absurd ?_ h
    rw [HelperQueue.exec]
    split
    · rw [HelperQueue.check]
      split <;> rfl
    · rfl
  | test =>
    refine absurd ?_ h
    rw [HelperQueue.exec]
    split <;> rfl
  | dequeue =>
    refine absurd ?_ h
    rw [HelperQueue.exec]
    split
    · rw [HelperQueue.dequeue]
      split <;> rfl
    · rfl
  | attend =>
    refine absurd ?_ h
    rw [HelperQueue.exec]
    split <;> rfl

theorem Closed.exec (hclosed : Closed s) (h : Fifo s) (e : HelperStep σ) (hnone : NoneBetween s e) :
    Closed (s.exec e) := by
  cases e with
  | check x message =>
    rw [HelperQueue.exec]
    split
    · rw [HelperQueue.check]
      split
      · exact hclosed
      · rename_i hj
        intro ht
        have hjoins : s.thread.joins = true := by rw [show s.thread = .returned from ht]; rfl
        exact absurd (h.joined hjoins) hj
    · exact hclosed
  | enqueue x =>
    rw [HelperQueue.exec]
    split
    · rename_i message hx
      have hthread : (s.enqueue x message).thread = s.thread := by
        rw [HelperQueue.enqueue]
        split <;> rfl
      intro ht
      exact absurd hx ((hclosed (hthread.symm.trans ht)).2 x message)
    · exact hclosed
  | test =>
    rw [HelperQueue.exec]
    split
    · rename_i join hthread
      intro ht
      rw [HelperQueue.test] at ht
      split at ht
      · exact nomatch ht
      · rename_i hend
        cases join with
        | false => exact absurd (.inl rfl) hend
        | true =>
          have hempty : s.qHead = s.qTail := by
            by_contra hne
            exact hend (.inr hne)
          exact ⟨hempty, hnone hthread hempty⟩
    · exact hclosed
  | dequeue =>
    rw [HelperQueue.exec]
    split
    · rw [HelperQueue.dequeue]
      split
      · exact hclosed
      · exact nofun
    · exact hclosed
  | attend =>
    rw [HelperQueue.exec]
    split
    · exact nofun
    · exact hclosed

end Steps

end Dlb.Async

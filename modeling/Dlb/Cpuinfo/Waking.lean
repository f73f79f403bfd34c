import Dlb.Cpuinfo.Fitting

/-!
# Which requests a lent CPU wakes up

With SMT a process may use a CPU only with the rest of its core, so a request for one CPU can become eligible when
another one of the core is lent. `lend_cpu` looks at the rest of the core only if the CPU itself has found a new guest.
Then nobody is left waiting in the core; otherwise everybody who could use a CPU of it is (`lend_wakes_core_iff`).

A search of a queue also serves requests of `NOBODY`, which reclaims leave behind, and can end at the first of them.
-/

namespace Dlb.Cpuinfo

variable {S : System} {pid p : Pid} {d d1 d2 : Shdata} {c e x : ℕ}

/-- A lent CPU without guest that some process could get. -/
def Waits (S : System) (d : Shdata) (x : ℕ) : Prop :=
  (d.nodeInfo x).state = .lent ∧ (d.nodeInfo x).guest = 0 ∧ ∃ p, Taker S d x p

/-- The search of the queue of the CPU ends at its first request: it is of `NOBODY`, and the queue goes round the end of
its array. -/
def CutShort (S : System) (d : Shdata) (c : ℕ) : Prop :=
  coreIsEligible S d 0 c = true ∧ (d.nodeInfo c).requests.items.head? = some 0 ∧
    queuePidSize ≤ (d.nodeInfo c).requests.front + (d.nodeInfo c).requests.items.length

/-- A CPU without guest that goes to the owner that has claimed it, or to a process that has requested it. -/
def Served (S : System) (d : Shdata) (c : ℕ) : Prop :=
  (d.nodeInfo c).guest = 0 ∧ (((d.nodeInfo c).state = .busy ∧ (d.nodeInfo c).owner ≠ 0) ∨
    ((d.nodeInfo c).state ≠ .busy ∧ ∃ p, Taker S d c p ∧ (CutShort S d c → p ∉ (d.nodeInfo c).requests.items ∨
      ∃ it ∈ d.lewiMaskRequests.items, c ∈ it.allowed ∧ it.pid = p)))

/-! ## Who may use a core -/

theorem coreIsEligible_all (hsmt : d.hwHasSmt = true) (h0 : coreIsEligible S d 0 c = true) (hp0 : p ≠ 0)
    (hp : coreIsEligible S d p c = true) (q : Pid) : coreIsEligible S d q c = true := by
  unfold coreIsEligible at h0 hp ⊢
  rw [if_pos hsmt] at h0 hp ⊢
  have h0 := of_decide_eq_true h0
  have hp := of_decide_eq_true hp
  refine decide_eq_true fun e he hblock => ?_
  rcases hblock with ⟨-, hguest⟩ | ⟨hbusy, -⟩
  · exact h0 e he (.inl ⟨hguest, hguest⟩)
  · by_cases ho : (d.nodeInfo e).owner = 0
    · exact hp e he (.inr ⟨hbusy, ho ▸ hp0.symm⟩)
    · exact h0 e he (.inr ⟨hbusy, ho⟩)

theorem coreIsEligible_zero (hsmt : d.hwHasSmt = true) (he : e ∈ coreMask S x) (hg : (d.nodeInfo e).guest ≠ 0) :
    coreIsEligible S d 0 x = false := by
  unfold coreIsEligible
  rw [if_pos hsmt]
  exact decide_eq_false fun h => h e he (.inl ⟨hg, hg⟩)

/-! ## One search -/

theorem popRequest_zero_iff (h : QueuesFit d) (hsmt : d.hwHasSmt = true) : (popRequest S d c).2 = 0 ↔
    (∀ p ∈ (d.nodeInfo c).requests.items, p ≠ 0 → coreIsEligible S d p c = false) ∨ CutShort S d c := by
  by_cases hzero : coreIsEligible S d 0 c = true ∧ ∃ p ∈ (d.nodeInfo c).requests.items, p ≠ 0 ∧
      coreIsEligible S d p c = true
  · -- all may use the core
    obtain ⟨h0, p, hmem, hp0, hp⟩ := hzero
    have hall : ∀ q, coreIsEligible S d q c = true := coreIsEligible_all hsmt h0 hp0 hp
    refine (Queue.take_zeros queuePidSize _ (h.own c) (fun q _ => hall q) (Nat.le_of_lt (h.own c).length)).1.trans
      (or_congr (iff_of_false (fun hc => hp0 (hc p hmem)) fun hc => ?_) (and_iff_right h0).symm)
    exact Bool.false_ne_true ((hc p hmem hp0).symm.trans hp)
  · constructor
    · intro hnone
      left
      intro p hmem hp0
      by_contra hp
      have hp : coreIsEligible S d p c = true := by simpa using hp
      have h0 : coreIsEligible S d 0 c ≠ true := fun h0 => hzero ⟨h0, p, hmem, hp0, hp⟩
      have hkey : ∀ q ∈ (d.nodeInfo c).requests.items, coreIsEligible S d q c = true → id q ≠ 0 :=
        fun q _ hq hq0 => h0 (by rwa [← show q = 0 from hq0])
      have hfalse := (Queue.take_first_none (h.own c) hkey hnone).2 p hmem
      exact Bool.false_ne_true (hfalse.symm.trans hp)
    · intro hcase
      by_contra hfound
      have hsame : ∀ q q' : Pid, (none : Option Pid) = some q' →
          coreIsEligible S d q' c = coreIsEligible S d q c ∧ id q' = id q := nofun
      obtain ⟨p, hmem, hp, hkey⟩ := Queue.take_found hsame _ _ _ hfound
      have hp0 : p ≠ 0 := fun h0 => hfound (hkey.symm.trans h0)
      rcases hcase with hnobody | hcut
      · exact Bool.false_ne_true ((hnobody p hmem hp0).symm.trans hp)
      · exact hzero ⟨hcut.1, p, hmem, hp0, hp⟩

theorem popRequest_keeps (h : QueuesFit d) (hsmt : d.hwHasSmt = true) (hnone : (popRequest S d c).2 = 0)
    (hmem : p ∈ (d.nodeInfo c).requests.items) (hp0 : p ≠ 0) (hp : coreIsEligible S d p c = true) :
    p ∈ ((popRequest S d c).1.nodeInfo c).requests.items := by
  rcases (popRequest_zero_iff h hsmt).mp hnone with hnobody | hcut
  · exact absurd ((hnobody p hmem hp0).symm.trans hp) Bool.false_ne_true
  · have hall : ∀ q, coreIsEligible S d q c = true := coreIsEligible_all hsmt hcut.1 hp0 hp
    have hkeep := (Queue.take_zeros queuePidSize _ (h.own c) (fun q _ => hall q) (Nat.le_of_lt (h.own c).length)).2
      hnone p hmem hp0
    unfold popRequest
    rw [set_info]
    exact hkeep

theorem popGlobalRequest_zero_iff (h : QueuesFit d) (hn : GlobalNamed d) : (popGlobalRequest S d c).2 = 0 ↔
    ∀ it ∈ d.lewiMaskRequests.items, c ∈ it.allowed → coreIsEligible S d it.pid c = false := by
  constructor
  · intro hnone it hit hallowed
    have hfalse := (Queue.take_first_none h.global (fun it hit _ => hn it hit) hnone).2 it hit
    by_contra hp
    exact of_decide_eq_false hfalse ⟨hallowed, by simpa using hp⟩
  · intro hnobody
    by_contra hfound
    have hsame : ∀ it it' : LewiMaskRequest, useOne it = some it' →
        decide (c ∈ it'.allowed ∧ coreIsEligible S d it'.pid c) = decide (c ∈ it.allowed ∧ coreIsEligible S d it.pid c) ∧
          it'.pid = it.pid := by
      intro it it' huse
      obtain ⟨hpid, hallowed⟩ := useOne_same huse
      rw [hpid, hallowed]
      exact ⟨rfl, rfl⟩
    obtain ⟨it, hit, htest, -⟩ := Queue.take_found hsame _ _ _ hfound
    obtain ⟨hallowed, hp⟩ := of_decide_eq_true htest
    exact Bool.false_ne_true ((hnobody it hit hallowed).symm.trans hp)

theorem popGlobalRequest_same (h : QueuesFit d) (hn : GlobalNamed d) (hnone : (popGlobalRequest S d c).2 = 0) :
    (popGlobalRequest S d c).1.lewiMaskRequests = d.lewiMaskRequests :=
  (Queue.take_first_none h.global (fun it hit _ => hn it hit) hnone).1

theorem popRequest_fits (h : QueuesFit d) : QueuesFit (popRequest S d c).1 := h.write rfl rfl ((h.own c).take _ _)

theorem findNewGuest_found_iff (h : QueuesFit d) (hn : GlobalNamed d) (hsmt : d.hwHasSmt = true)
    (hq : d.queuesEnabled = true) (hg : (d.nodeInfo c).guest = 0) : (findNewGuest S d c).2 ≠ 0 ↔ Served S d c := by
  unfold findNewGuest Served
  by_cases hb : (d.nodeInfo c).state = .busy
  · rw [if_pos hb]
    simp [hb, hg]
  rw [if_neg hb, if_pos hq]
  have honly : OnlyRequests d (popRequest S d c).1 := popRequest_only
  have hsame : ∀ p, coreIsEligible S (popRequest S d c).1 p c = coreIsEligible S d p c :=
    fun p => coreIsEligible_congr honly.flags.smt honly.same
  have hglobal : (popGlobalRequest S (popRequest S d c).1 c).2 = 0 ↔ _ :=
    popGlobalRequest_zero_iff (popRequest_fits h) hn
  simp only [hg, hb, false_and, false_or, true_and, not_false_eq_true, ne_eq]
  constructor
  · intro hfound
    by_cases hpop : (popRequest S d c).2 = 0
    · rw [if_pos hpop, hglobal] at hfound
      push Not at hfound
      obtain ⟨it, hit, hallowed, hp⟩ := hfound
      have hp : coreIsEligible S d it.pid c = true := by
        rw [← hsame]
        simpa using hp
      exact ⟨it.pid, ⟨hn it hit, hq, .inr ⟨it, hit, hallowed, rfl⟩, hp⟩, fun _ => .inr ⟨it, hit, hallowed, rfl⟩⟩
    · have htaker : Taker S d c (popRequest S d c).2 := popRequest_taker hq hpop
      exact ⟨_, htaker, fun hcut => absurd ((popRequest_zero_iff h hsmt).mpr (.inr hcut)) hpop⟩
  · rintro ⟨p, htaker, hcase⟩
    by_cases hpop : (popRequest S d c).2 = 0
    · rw [if_pos hpop, hglobal]
      intro hnobody
      have hin : ∃ it ∈ d.lewiMaskRequests.items, c ∈ it.allowed ∧ it.pid = p := by
        rcases (popRequest_zero_iff h hsmt).mp hpop with hown | hcut
        · refine htaker.requested.resolve_left fun hmem => ?_
          exact Bool.false_ne_true ((hown p hmem htaker.pid).symm.trans htaker.eligible)
        · rcases hcase hcut with hnot | hin
          · exact htaker.requested.resolve_left hnot
          · exact hin
      obtain ⟨it, hit, hallowed, rfl⟩ := hin
      have hfalse := hnobody it hit hallowed
      rw [hsame, htaker.eligible] at hfalse
      cases hfalse
    · rwa [if_neg hpop]

theorem not_waits_of_none (h : QueuesFit d) (hn : GlobalNamed d) (hsmt : d.hwHasSmt = true)
    (hq : d.queuesEnabled = true) (hzero : coreIsEligible S d 0 e = false) (hnone : (findNewGuest S d e).2 = 0) :
    ¬Waits S d e := by
  rintro ⟨hlent, hg, p, htaker⟩
  refine absurd hnone ((findNewGuest_found_iff h hn hsmt hq hg).mpr ⟨hg, .inr ⟨?_, p, htaker, fun hcut => ?_⟩⟩)
  · rw [hlent]
    exact nofun
  · exact absurd (hzero.symm.trans hcut.1) Bool.false_ne_true

/-! ## The rest of the core -/

/-- CPUs without guest get guests, and requests go. -/
structure Narrows (d d1 : Shdata) : Prop where
  flags : SameFlags d d1
  owner : ∀ x, (d1.nodeInfo x).owner = (d.nodeInfo x).owner
  state : ∀ x, (d1.nodeInfo x).state = (d.nodeInfo x).state
  guest : ∀ x, (d1.nodeInfo x).guest = (d.nodeInfo x).guest ∨ (d.nodeInfo x).guest = 0
  fewer : FewerRequests d d1

theorem Narrows.globalNamed (h : Narrows d d1) (hn : GlobalNamed d) : GlobalNamed d1 := by
  intro it hit
  obtain ⟨it', hit', hpid, -⟩ := h.fewer.global it hit
  rw [hpid]
  exact hn it' hit'

theorem Narrows.eligible (h : Narrows d d1) (hsmt : d.hwHasSmt = true) (hp : coreIsEligible S d1 p x = true) :
    coreIsEligible S d p x = true := by
  unfold coreIsEligible at hp ⊢
  rw [h.flags.smt, if_pos hsmt] at hp
  rw [if_pos hsmt]
  have hp := of_decide_eq_true hp
  refine decide_eq_true fun e he hblock => hp e he ?_
  rw [h.owner, h.state]
  refine hblock.imp_left fun hguest => ?_
  rcases h.guest e with hk | hzero
  · rw [hk]
    exact hguest
  · exact absurd hzero hguest.2

theorem Narrows.waits (h : Narrows d d1) (hsmt : d.hwHasSmt = true) (hw : Waits S d1 x) : Waits S d x := by
  obtain ⟨hlent, hg, p, htaker⟩ := hw
  refine ⟨(h.state x).symm.trans hlent, ?_, p, htaker.pid, h.flags.queues ▸ htaker.queues, ?_,
    h.eligible hsmt htaker.eligible⟩
  · rcases h.guest x with hk | hzero
    · exact hk.symm.trans hg
    · exact hzero
  · rcases htaker.requested with hown | ⟨it, hit, hallowed, hpid⟩
    · exact .inl (h.fewer.own x p hown)
    · obtain ⟨it', hit', hpid', hallowed'⟩ := h.fewer.global it hit
      exact .inr ⟨it', hit', hallowed' ▸ hallowed, hpid'.symm.trans hpid⟩

theorem assignGuest_narrows (hg : (d.nodeInfo e).guest = 0) : Narrows d (assignGuest S d e).1 := by
  have ha : Assigned S e d (assignGuest S d e).1 (assignGuest S d e).2 := assignGuest_assigned
  refine ⟨ha.flags, fun x => ?_, fun x => ?_, fun x => ?_, assignGuest_fewer⟩
  · by_cases hx : x = e
    · rw [hx, ha.owner]
    · rw [(ha.rest x hx).owner]
  · by_cases hx : x = e
    · rw [hx, ha.state]
    · rw [(ha.rest x hx).state]
  · by_cases hx : x = e
    · rw [hx]
      exact .inr hg
    · exact .inl (ha.rest x hx).guest

theorem assignRest_narrows : Narrows d (assignRest S c d e) := by
  unfold assignRest
  split
  · rename_i hrest
    have hn : Narrows d (assignGuest S d e).1 := assignGuest_narrows hrest.2
    dsimp only
    split
    · exact hn
    · exact ⟨⟨hn.flags.initialized, hn.flags.queues, hn.flags.smt⟩, hn.owner, hn.state, hn.guest,
        hn.fewer.trans (.of_info rfl rfl)⟩
  · exact ⟨.refl d, fun _ => rfl, fun _ => rfl, fun _ => .inl rfl, .refl d⟩

/-- The CPU has a guest, and nobody waits for the CPUs of its core that are `done`. -/
structure Woken (S : System) (c : ℕ) (d : Shdata) (done : ℕ → Prop) : Prop where
  fits : QueuesFit d
  named : GlobalNamed d
  smt : d.hwHasSmt = true
  queues : d.queuesEnabled = true
  guest : (d.nodeInfo c).guest ≠ 0
  done : ∀ x, done x → ¬Waits S d x

theorem Woken.step {done : ℕ → Prop} (h : Woken S c d done) (he : e ∈ coreMask S c) :
    Woken S c (assignRest S c d e) (fun x => x = e ∨ done x) := by
  have hn : Narrows d (assignRest S c d e) := assignRest_narrows
  refine ⟨assignRest_fits h.fits, hn.globalNamed h.named, hn.flags.smt.trans h.smt, hn.flags.queues.trans h.queues, ?_, ?_⟩
  · rcases hn.guest c with hk | hzero
    · rw [hk]
      exact h.guest
    · exact absurd hzero h.guest
  rintro x (rfl | hx)
  swap
  · exact fun hw => h.done x hx (hn.waits h.smt hw)
  by_cases hrest : x ≠ c ∧ (d.nodeInfo x).guest = 0
  swap
  · -- a CPU that has a guest does not wait
    intro hw
    have hg := (hn.waits h.smt hw).2.1
    have hxc : x = c := by
      by_contra hne
      exact hrest ⟨hne, hg⟩
    exact h.guest (hxc ▸ hg)
  by_cases hfound : (assignGuest S d x).2 = 0
  · have hcore : c ∈ coreMask S x := coreMask_of_mem (coreMask_mem he).1 he ▸ (coreMask_mem he).2
    exact fun hw => not_waits_of_none h.fits h.named h.smt h.queues (coreIsEligible_zero h.smt hcore h.guest)
      (assignGuest_snd.symm.trans hfound) (hn.waits h.smt hw)
  · have ha : Assigned S x d (assignGuest S d x).1 (assignGuest S d x).2 := assignGuest_assigned
    have hguest : ((assignRest S c d x).nodeInfo x).guest = (assignGuest S d x).2 := by
      unfold assignRest
      rw [if_pos hrest]
      rw [if_neg hfound]
      exact ha.guest.trans (if_neg hfound)
    exact fun hw => hfound (hguest.symm.trans hw.2.1)

theorem Woken.run : ∀ (l : List ℕ) {d : Shdata} {done : ℕ → Prop}, Woken S c d done → (∀ e ∈ l, e ∈ coreMask S c) →
    Woken S c (l.foldl (assignRest S c) d) (fun x => x ∈ l ∨ done x)
  | [], d, done, h, _ => ⟨h.fits, h.named, h.smt, h.queues, h.guest, fun x hx => h.done x (hx.resolve_left List.not_mem_nil)⟩
  | e :: rest, d, done, h, hl => by
    have hrun := Woken.run rest (h.step (hl e List.mem_cons_self)) fun e' he' => hl e' (List.mem_cons_of_mem e he')
    refine ⟨hrun.fits, hrun.named, hrun.smt, hrun.queues, hrun.guest, fun x hx => hrun.done x ?_⟩
    rcases hx with hx | hx
    · rcases List.mem_cons.mp hx with rfl | hx
      · exact .inr (.inl rfl)
      · exact .inl hx
    · exact .inr (.inr hx)

/-! ## The whole operation -/

def vacated (pid : Pid) (d : Shdata) (c : ℕ) : Shdata :=
  d.set c { lentInfo pid (d.nodeInfo c) with
    requests := if (d.nodeInfo c).owner = pid then (d.nodeInfo c).requests
      else (d.nodeInfo c).requests.remove queuePidSize (· = pid) }

theorem leave_vacated (hq : d.queuesEnabled = true) : leave (lendOwned d pid c) pid c = vacated pid d c := by
  unfold leave lendOwned vacated lentInfo
  by_cases ho : (d.nodeInfo c).owner = pid
  · simp only [ho, if_true, set_info]
    split
    · simp [Shdata.set]
    · rfl
  · simp only [ho, if_false, hq, if_true, set_info]
    split
    · simp [Shdata.set]
    · rfl

theorem waits_congr (hinfo : d1.nodeInfo = d.nodeInfo) (hglobal : d1.lewiMaskRequests = d.lewiMaskRequests)
    (hflags : SameFlags d d1) : Waits S d1 x ↔ Waits S d x := by
  have htaker : ∀ p, Taker S d1 x p ↔ Taker S d x p := by
    intro p
    have heligible : coreIsEligible S d1 p x = coreIsEligible S d p x :=
      coreIsEligible_congr hflags.smt fun e => hinfo ▸ .refl _
    constructor
    · rintro ⟨hp0, hq, hrequested, hp⟩
      exact ⟨hp0, hflags.queues ▸ hq, by rwa [hinfo, hglobal] at hrequested, heligible ▸ hp⟩
    · rintro ⟨hp0, hq, hrequested, hp⟩
      exact ⟨hp0, hflags.queues.trans hq, by rwa [hinfo, hglobal], heligible.trans hp⟩
  unfold Waits
  rw [hinfo]
  simp only [htaker]

theorem findNewGuest_waits (h : QueuesFit d) (hn : GlobalNamed d) (hsmt : d.hwHasSmt = true)
    (hnone : (findNewGuest S d c).2 = 0) : Waits S (findNewGuest S d c).1 x ↔ Waits S d x := by
  have honly : OnlyRequests d (findNewGuest S d c).1 := findNewGuest_only
  have hnarrows : Narrows d (findNewGuest S d c).1 :=
    ⟨honly.flags, fun x => (honly.same x).owner, fun x => (honly.same x).state, fun x => .inl (honly.same x).guest,
      findNewGuest_fewer⟩
  refine ⟨hnarrows.waits hsmt, ?_⟩
  rintro ⟨hlent, hg, p, htaker⟩
  refine ⟨(honly.same x).state.trans hlent, (honly.same x).guest.trans hg, p, htaker.pid,
    honly.flags.queues.trans htaker.queues, ?_, (coreIsEligible_congr honly.flags.smt honly.same).trans htaker.eligible⟩
  unfold findNewGuest at hnone ⊢
  by_cases hb : (d.nodeInfo c).state = .busy
  · rw [if_pos hb]
    exact htaker.requested
  rw [if_neg hb, if_pos htaker.queues] at hnone ⊢
  have hpop : (popRequest S d c).2 = 0 := by
    by_contra hfound
    rw [if_neg hfound] at hnone
    exact hfound hnone
  rw [if_pos hpop] at hnone ⊢
  have hsame := popGlobalRequest_same (popRequest_fits (S := S) (c := c) h) hn hnone
  rcases htaker.requested with hown | hglobal
  · left
    show p ∈ ((popRequest S d c).1.nodeInfo x).requests.items
    by_cases hx : x = c
    · subst hx
      exact popRequest_keeps h hsmt hpop hown htaker.pid htaker.eligible
    · unfold popRequest Shdata.set
      dsimp only
      rwa [Function.update_of_ne hx]
  · right
    rw [hsame]
    exact hglobal

theorem findGuests_wakes_iff (h : QueuesFit d) (hn : GlobalNamed d) (hsmt : d.hwHasSmt = true)
    (hq : d.queuesEnabled = true) : (∀ x ∈ coreMask S c, ¬Waits S (findGuests S d c) x) ↔
      Served S d c ∨ ∀ x ∈ coreMask S c, ¬Waits S d x := by
  unfold findGuests
  by_cases hg : (d.nodeInfo c).guest = 0
  swap
  · rw [if_neg hg]
    exact (or_iff_right fun hserved => hg hserved.1).symm
  rw [if_pos hg]
  have hfound := findNewGuest_found_iff (S := S) h hn hsmt hq hg
  by_cases hnone : (assignGuest S d c).2 = 0
  · rw [if_pos hnone]
    have hnobody : (findNewGuest S d c).2 = 0 := assignGuest_snd.symm.trans hnone
    have heq : (assignGuest S d c).1 = (findNewGuest S d c).1 := by
      unfold assignGuest
      rw [if_pos hnobody]
    rw [heq]
    simp only [findNewGuest_waits h hn hsmt hnobody]
    exact (or_iff_right fun hserved => hfound.mpr hserved hnobody).symm
  · rw [if_neg hnone]
    have ha : Assigned S c d (assignGuest S d c).1 (assignGuest S d c).2 := assignGuest_assigned
    have hnarrows : Narrows d (assignGuest S d c).1 := assignGuest_narrows hg
    have hguest : ((assignGuest S d c).1.nodeInfo c).guest ≠ 0 := by
      rw [ha.guest, if_neg hnone]
      exact hnone
    have hstart : Woken S c (assignGuest S d c).1 fun _ => False :=
      ⟨assignGuest_fits h, hnarrows.globalNamed hn, hnarrows.flags.smt.trans hsmt, hnarrows.flags.queues.trans hq, hguest,
        fun _ => False.elim⟩
    have hrun := hstart.run (muCpus S (coreMask S c)) fun e he => of_decide_eq_true (List.mem_filter.mp he).2
    refine iff_of_true (fun x hx => hrun.done x (.inl ?_)) (.inl (hfound.mp (assignGuest_snd ▸ hnone)))
    exact List.mem_filter.mpr ⟨List.mem_range.mpr (coreMask_lt_bits hx), decide_eq_true hx⟩

theorem lendCpu_wakes_iff (h : QueuesFit d) (hn : GlobalNamed d) (hsmt : d.hwHasSmt = true)
    (hq : d.queuesEnabled = true) (hs : (d.nodeInfo c).state ≠ .disabled) :
    (∀ x ∈ coreMask S c, ¬Waits S (lendCpu S pid d c) x) ↔
      Served S (vacated pid d c) c ∨ ∀ x ∈ coreMask S c, ¬Waits S (vacated pid d c) x := by
  have hfits : QueuesFit (vacated pid d c) := by
    rw [← leave_vacated hq]
    exact leave_fits h
  have hrest : ∀ d1 : Shdata, ∀ x, Waits S (updateOccupiedCores S
      (if (d1.nodeInfo c).guest = 0 then d1.setFree c else d1)
      ((if (d1.nodeInfo c).guest = 0 then d1.setFree c else d1).nodeInfo c).owner c) x ↔ Waits S d1 x := by
    intro d1 x
    split
    · exact waits_congr rfl rfl ⟨rfl, rfl, rfl⟩
    · exact waits_congr rfl rfl ⟨rfl, rfl, rfl⟩
  unfold lendCpu
  rw [if_neg hs, leave_vacated hq]
  simp only [hrest]
  exact findGuests_wakes_iff hfits hn hsmt hq

/-- **Lending wakes up the requests of the core**, in every state of a node with SMT and request queues, if and only if
the CPU itself is served once the process has left it, or nobody could then use another CPU of the core. -/
theorem lend_wakes_core_iff (S : System) (deeds : List Deed) (hdeeds : ∀ e ∈ deeds, e.Valid S) (pid : Pid) (c : ℕ)
    (hsmt : (deeds.foldl (MortalNode.next S) {}).node.shm.hwHasSmt = true)
    (hq : (deeds.foldl (MortalNode.next S) {}).node.shm.queuesEnabled = true)
    (hs : ((deeds.foldl (MortalNode.next S) {}).node.shm.nodeInfo c).state ≠ .disabled) :
    (∀ x ∈ coreMask S c, ¬Waits S (lendCpu S pid (deeds.foldl (MortalNode.next S) {}).node.shm c) x) ↔
      Served S (vacated pid (deeds.foldl (MortalNode.next S) {}).node.shm c) c ∨
        ∀ x ∈ coreMask S c, ¬Waits S (vacated pid (deeds.foldl (MortalNode.next S) {}).node.shm c) x :=
  have hfitting := MortalNode.reachable_fitting deeds hdeeds
  lendCpu_wakes_iff hfitting.fits hfitting.named hsmt hq hs

/-- `1` has a core with two CPUs and lends CPU `1` of it, after `2` has asked for the CPU `asked`. -/
def siblingLent (asked : ℕ) : List Deed :=
  [.event (.op {} 1 (.init 0 {0, 1})), .event (.op {} 2 (.init 0 ∅)), .event (.op {} 1 (.lewiInit true)),
    .event (.op {} 2 (.lewiInit true)), .event (.op {} 2 (.lewi (.acquireCpu asked))),
    .event (.op {} 1 (.lewi (.lendCpu 1)))]

theorem siblingLent_valid (asked : ℕ) : ∀ e ∈ siblingLent asked, e.Valid oneCore := by
  simp [siblingLent, Deed.Valid, Act.InNode, oneCore]

/-- With a request for CPU `0` nobody waits any more when `1` lends this one, for CPU `1` neither. -/
theorem lend_wakes_core_iff_asked :
    ¬Waits oneCore (lendCpu oneCore 1 ((siblingLent 0).foldl (MortalNode.next oneCore) {}).node.shm 0) 0 ∧
      ¬Waits oneCore (lendCpu oneCore 1 ((siblingLent 0).foldl (MortalNode.next oneCore) {}).node.shm 0) 1 := by
  have hserved : Served oneCore (vacated 1 ((siblingLent 0).foldl (MortalNode.next oneCore) {}).node.shm 0) 0 :=
    ⟨by decide, .inr ⟨by decide, 2, ⟨by decide, by decide, .inl (by decide),
      by decide⟩, fun hcut => absurd hcut.2.1 (by decide)⟩⟩
  have hnobody := (lend_wakes_core_iff oneCore (siblingLent 0) (siblingLent_valid 0) 1 0 (by decide)
    (by decide) (by decide)).mpr (.inl hserved)
  exact ⟨hnobody 0 (by decide), hnobody 1 (by decide)⟩

/-- With a request for CPU `1`, process `2` still waits for it when the whole core is lent. -/
theorem sibling_still_waits :
    let d := ((siblingLent 1).foldl (MortalNode.next oneCore) {}).node.shm
    (∀ e ∈ siblingLent 1, e.Valid oneCore) ∧ d.hwHasSmt = true ∧ d.queuesEnabled = true ∧
      (d.nodeInfo 0).state ≠ .disabled ∧ ¬∀ x ∈ coreMask oneCore 0, ¬Waits oneCore (lendCpu oneCore 1 d 0) x := by
  intro d
  refine ⟨siblingLent_valid 1, by decide, by decide, by decide, fun hall => ?_⟩
  refine hall 1 (by decide) ⟨by decide, by decide, 2, by decide, by decide, ?_,
    by decide⟩
  exact .inl (by decide)

end Dlb.Cpuinfo

import StageLens.Proofs.Gate.Order
import StageLens.Proofs.Lists

/-!
# Closing is final

A gate that has been closed stays closed, and nobody comes in any more: neither those who start to
wait, nor those who waited when it closed, be they in the queue or with a permit in hand, nor those
who only try. What is left is to give up: the permits that were held at the closing count until they
are dropped, and once they are, and nobody waits any more, all permits are free.

A gate may also keep its being closed in two marks, one with the permits and a latch in front of
them. The two agree in every state, so that it answers like a gate with one
(`Latched.run_agreeing`).
-/

namespace StageLens.Gate

variable {Ticket : Type}

theorem tryAcquire_of_closed {g : Gate Ticket} (h : g.closed = true) : g.tryAcquire = none := by
  unfold tryAcquire
  rw [if_pos h]

variable [DecidableEq Ticket]

/-- A closed gate turns away whoever asks, and takes back what it had put into their hand. -/
theorem poll_of_closed {g : Gate Ticket} (h : g.closed = true) (t : Ticket) :
    g.poll t = (g.leave t, .closed) := by
  unfold poll
  rw [if_pos h]

/-- Nothing is given back by those whom the gate does not know. -/
theorem leave_of_not_mem {g : Gate Ticket} {t : Ticket} (h : t ∉ g.handed ++ g.queue) :
    g.leave t = g := by
  rw [List.mem_append, not_or] at h
  unfold leave
  rw [if_neg h.1, List.erase_of_not_mem h.2]

end StageLens.Gate

namespace StageLens.Lobby

variable {Name : Type}

/-- The names that are given up by a move. -/
def dropsBy : Move Name → List Name
  | .drop n => [n]
  | _ => []

variable [DecidableEq Name] {l : Lobby Name} {c : Nat}

theorem run_append (l : Lobby Name) (ms ns : List (Move Name)) :
    (l.run (ms ++ ns)).1 = ((l.run ms).1.run ns).1 := by
  induction ms generalizing l with
  | nil => rfl
  | cons m ms ih => exact ih (l.step m).1

/-! ## One move on a closed gate -/

theorem ask_of_closed (h : l.gate.closed = true) (n : Name) :
    l.ask n = (⟨l.gate.leave n, l.permits, l.waiters.erase n⟩, .closed) := by
  unfold ask
  rw [Gate.poll_of_closed h]

/-- Whoever starts to wait is turned away and is no waiter. -/
theorem acquire_of_closed (h : l.gate.closed = true) (n : Name) :
    l.step (.acquire n) = (⟨l.gate.leave n, l.permits, l.waiters.erase n⟩, .closed) := by
  have hwaiters : (l.waiters.insert n).erase n = l.waiters.erase n := by
    by_cases hn : n ∈ l.waiters
    · rw [List.insert_of_mem hn]
    · rw [List.insert_of_not_mem hn, List.erase_cons_head, List.erase_of_not_mem hn]
  rw [← hwaiters]
  exact ask_of_closed (l := { l with waiters := l.waiters.insert n }) h n

/-- It is as if nobody had come. -/
theorem acquire_of_closed_of_new (hsound : l.Sound c) (h : l.gate.closed = true) {n : Name}
    (hn : n ∉ l.waiters) : l.step (.acquire n) = (l, .closed) := by
  have hgate : l.gate.leave n = l.gate :=
    Gate.leave_of_not_mem fun hmem => hn (hsound.ledger.waits n hmem)
  rw [acquire_of_closed h, hgate, List.erase_of_not_mem hn]

/-- Whoever waited when the gate closed is turned away too. -/
theorem poll_of_closed (h : l.gate.closed = true) {n : Name} (hn : n ∈ l.waiters) :
    l.step (.poll n) = (⟨l.gate.leave n, l.permits, l.waiters.erase n⟩, .closed) := by
  simp only [step, if_pos hn]
  exact ask_of_closed h n

theorem tryAcquire_of_closed (h : l.gate.closed = true) (n : Name) :
    l.step (.tryAcquire n) = (l, .refused) := by
  simp only [step, Gate.tryAcquire_of_closed h]

/-- On a closed gate permits are dropped and none is added. -/
theorem permits_step_of_closed (h : l.gate.closed = true) (m : Move Name) :
    (l.step m).1.permits = l.permits.diff (dropsBy m) := by
  cases m with
  | acquire n =>
    rw [acquire_of_closed h]
    rfl
  | poll n =>
    by_cases hn : n ∈ l.waiters
    · rw [poll_of_closed h hn]
      rfl
    · simp only [step, if_neg hn, dropsBy, List.diff_nil]
  | tryAcquire n =>
    rw [tryAcquire_of_closed h]
    rfl
  | drop n =>
    by_cases hn : n ∈ l.permits
    · simp only [step, if_pos hn, dropsBy, List.diff_cons, List.diff_nil]
    · have hkept : l.permits.diff (dropsBy (.drop n)) = l.permits := by
        simp only [dropsBy, List.diff_cons, List.diff_nil, List.erase_of_not_mem hn]
      rw [hkept]
      simp only [step, if_neg hn]
      split <;> rfl
  | close => rfl

/-- On a closed gate nobody becomes a waiter. -/
theorem waiters_step_of_closed (h : l.gate.closed = true) (m : Move Name) :
    (l.step m).1.waiters.Sublist l.waiters := by
  cases m with
  | acquire n =>
    rw [acquire_of_closed h]
    exact List.erase_sublist
  | poll n =>
    by_cases hn : n ∈ l.waiters
    · rw [poll_of_closed h hn]
      exact List.erase_sublist
    · simp only [step, if_neg hn, List.Sublist.refl]
  | tryAcquire n => rw [tryAcquire_of_closed h]
  | drop n =>
    simp only [step]
    split
    · exact .refl _
    · split
      · exact List.erase_sublist
      · exact .refl _
  | close => exact .refl _

/-! ## Runs on a closed gate -/

theorem closed_run (h : l.gate.closed = true) (ms : List (Move Name)) :
    (l.run ms).1.gate.closed = true := by
  induction ms generalizing l with
  | nil => exact h
  | cons m ms ih => exact ih (closed_step m h)

/-- What is held after a closing is what was held then, less what has been dropped since. -/
theorem permits_run_of_closed (h : l.gate.closed = true) (ms : List (Move Name)) :
    (l.run ms).1.permits = l.permits.diff (ms.flatMap dropsBy) := by
  induction ms generalizing l with
  | nil => rfl
  | cons m ms ih =>
    rw [run_cons, ih (closed_step m h), permits_step_of_closed h, List.flatMap_cons,
      List.diff_append]

theorem waiters_run_of_closed (h : l.gate.closed = true) (ms : List (Move Name)) :
    (l.run ms).1.waiters.Sublist l.waiters := by
  induction ms generalizing l with
  | nil => exact .refl _
  | cons m ms ih => exact (ih (closed_step m h)).trans (waiters_step_of_closed h m)

/-! ## Giving up what is left -/

/-- The moves by which all that is left is given up: the waiters ask once more, and the permits are
dropped. -/
def clearing (l : Lobby Name) : List (Move Name) :=
  l.waiters.map .poll ++ l.permits.map .drop

theorem waiters_polls_of_closed (h : l.gate.closed = true) (ns : List Name) :
    (l.run (ns.map .poll)).1.waiters = l.waiters.diff ns := by
  induction ns generalizing l with
  | nil => rfl
  | cons n ns ih =>
    rw [List.map_cons, run_cons, ih (closed_step _ h), List.diff_cons]
    by_cases hn : n ∈ l.waiters
    · rw [poll_of_closed h hn]
    · rw [List.erase_of_not_mem hn]
      simp only [step, if_neg hn]

theorem empty_of_clearing (h : l.gate.closed = true) :
    (l.run l.clearing).1.permits = [] ∧ (l.run l.clearing).1.waiters = [] := by
  have hdrops : l.clearing.flatMap dropsBy = l.permits := by
    simp [clearing, dropsBy, List.flatMap_append, List.flatMap_map]
  constructor
  · rw [permits_run_of_closed h, hdrops, List.diff_self]
  · have hpolled : (l.run (l.waiters.map .poll)).1.waiters = [] := by
      rw [waiters_polls_of_closed h, List.diff_self]
    rw [clearing, run_append, ← List.sublist_nil, ← hpolled]
    exact waiters_run_of_closed (closed_run h _) _

omit [DecidableEq Name] in
/-- When nobody holds or waits, all permits are free. -/
theorem Sound.available_eq (h : l.Sound c) (hpermits : l.permits = []) (hwaiters : l.waiters = []) :
    l.gate.available = c ∧ l.gate.inFlight = 0 := by
  have hhanded : l.gate.handed = [] := by
    rw [List.eq_nil_iff_forall_not_mem]
    intro n hn
    have hw := h.ledger.waits n (List.mem_append_left _ hn)
    rw [hwaiters] at hw
    cases hw
  have htotal := h.ledger.total
  have hcount := h.ledger.inFlight
  rw [hpermits, List.length_nil] at htotal hcount
  rw [hhanded, List.length_nil] at htotal
  exact ⟨by omega, hcount⟩

/-! ## Two marks -/

/-- A lobby whose gate has a latch: a mark that is looked at before anyone starts to wait or tries.
Those who wait already do not see it; they are turned away by the permits' own mark. -/
structure Latched (Name : Type) where
  lobby : Lobby Name
  latched : Bool := false

namespace Latched

def step (d : Latched Name) : Move Name → Latched Name × Reply
  | .acquire n =>
    if d.latched ∧ n ∉ d.lobby.waiters then (d, .closed)
    else ({ d with lobby := (d.lobby.step (.acquire n)).1 }, (d.lobby.step (.acquire n)).2)
  | .tryAcquire n =>
    if d.latched then (d, .refused)
    else ({ d with lobby := (d.lobby.step (.tryAcquire n)).1 }, (d.lobby.step (.tryAcquire n)).2)
  | .close => (⟨(d.lobby.step .close).1, true⟩, .done)
  | m => ({ d with lobby := (d.lobby.step m).1 }, (d.lobby.step m).2)

def run (d : Latched Name) : List (Move Name) → Latched Name × List Reply
  | [] => (d, [])
  | m :: ms => ((d.step m).1.run ms |>.1, (d.step m).2 :: ((d.step m).1.run ms).2)

/-- A lobby with its latch as the permits' mark is. -/
def agreeing (l : Lobby Name) : Latched Name := ⟨l, l.gate.closed⟩

end Latched

namespace Latched

/-- A latch that agrees with the permits' mark does so after every move, and the replies are those
of a gate with one mark. -/
theorem step_agreeing (h : l.Sound c) (m : Move Name) :
    (agreeing l).step m = (agreeing (l.step m).1, (l.step m).2) := by
  have hsame : m ≠ .close → agreeing (l.step m).1 = ⟨(l.step m).1, l.gate.closed⟩ := by
    intro hm
    rw [agreeing, closed_step_of_ne hm]
  cases m with
  | acquire n =>
    simp only [step]
    split
    · rename_i hbarred
      obtain ⟨hclosed, hn⟩ : l.gate.closed = true ∧ n ∉ l.waiters := hbarred
      rw [acquire_of_closed_of_new h hclosed hn]
    · rw [hsame (by simp)]
      rfl
  | tryAcquire n =>
    simp only [step]
    split
    · rename_i hclosed
      rw [Lobby.tryAcquire_of_closed hclosed]
    · rw [hsame (by simp)]
      rfl
  | close => rfl
  | poll n =>
    rw [hsame (by simp)]
    rfl
  | drop n =>
    rw [hsame (by simp)]
    rfl

/-- In every run the two marks agree, and nobody can tell the gate from one with one mark. -/
theorem run_agreeing (h : l.Sound c) (ms : List (Move Name)) :
    (agreeing l).run ms = (agreeing (l.run ms).1, (l.run ms).2) := by
  induction ms generalizing l with
  | nil => rfl
  | cons m ms ih => rw [run, step_agreeing h, ih (sound_step h m)]; rfl

end Latched

/-- **Closing is final and leaks nothing.** Whatever callers did before a gate was closed, and
whatever they do afterwards:

* the gate stays closed, also for a gate that keeps this in two marks, which always agree;
* whoever starts to wait, whoever waits and asks again, in the queue or with a permit in hand, and
  whoever tries is turned away, and nobody is a waiter or a holder afterwards who was none before;
* the count of holders never goes up: those that are held were held at the closing and have not been
  dropped since, and each permit is held, free or in the hand of a waiter that has not asked since;
* when no permit is held and nobody waits, all permits are free, and it comes to this when the
  waiters ask once more and the permits are dropped. -/
theorem closing_is_final {capacity : Nat} {g : Gate Name}
    (hg : Gate.ofCapacity? capacity = some g) (before after : List (Move Name)) :
    let closing := ((start g).run before).1
    let l := ((start g).run (before ++ .close :: after)).1
    l.gate.closed = true ∧
    (∀ ms, (Latched.agreeing (start g)).run ms =
      (Latched.agreeing ((start g).run ms).1, ((start g).run ms).2)) ∧
    (∀ n, (l.step (.acquire n)).2 = .closed ∧ n ∉ (l.step (.acquire n)).1.waiters ∧
      (n ∉ l.waiters → (l.step (.acquire n)).1 = l)) ∧
    (∀ n ∈ l.waiters, (l.step (.poll n)).2 = .closed ∧ n ∉ (l.step (.poll n)).1.waiters) ∧
    (∀ n, l.step (.tryAcquire n) = (l, .refused)) ∧
    (∀ m, (l.step m).1.gate.inFlight ≤ l.gate.inFlight) ∧
    l.gate.inFlight = l.permits.length ∧
    l.permits = closing.permits.diff (after.flatMap dropsBy) ∧
    l.waiters.Sublist closing.waiters ∧
    l.gate.available + l.served.length + l.permits.length = capacity ∧
    (l.permits = [] → l.waiters = [] → l.gate.available = capacity ∧ l.gate.inFlight = 0) ∧
    let cleared := (l.run l.clearing).1
    cleared.permits = [] ∧ cleared.waiters = [] ∧ cleared.gate.available = capacity ∧
      cleared.gate.inFlight = 0 := by
  obtain rfl := Gate.eq_fresh_of_ofCapacity? hg
  intro closing l
  have hsound : l.Sound capacity := sound_run (sound_start capacity) _
  -- The gate is closed at once, and the rest of the run is one on a closed gate.
  have hsplit : l = ((closing.step .close).1.run after).1 := by
    show ((start _).run (before ++ .close :: after)).1 = _
    rw [run_append, run_cons]
  have hclosing : (closing.step .close).1.gate.closed = true := rfl
  have hclosed : l.gate.closed = true := by
    rw [hsplit]
    exact closed_run hclosing after
  have hpermits : l.permits = closing.permits.diff (after.flatMap dropsBy) := by
    rw [hsplit]
    exact permits_run_of_closed hclosing after
  have hwaiters : l.waiters.Sublist closing.waiters := by
    rw [hsplit]
    exact waiters_run_of_closed hclosing after
  have hgone : ∀ n, n ∉ l.waiters.erase n := fun n => hsound.nodup.not_mem_erase
  refine ⟨hclosed, Latched.run_agreeing (sound_start capacity), fun n => ?_, fun n hn => ?_,
    fun n => tryAcquire_of_closed hclosed n, fun m => ?_, hsound.ledger.inFlight, hpermits,
    hwaiters, ?_, hsound.available_eq, ?_⟩
  · refine ⟨?_, ?_, fun hn => ?_⟩
    · rw [acquire_of_closed hclosed]
    · rw [acquire_of_closed hclosed]
      exact hgone n
    · rw [acquire_of_closed_of_new hsound hclosed hn]
  · rw [poll_of_closed hclosed hn]
    exact ⟨rfl, hgone n⟩
  · rw [(sound_step hsound m).ledger.inFlight, hsound.ledger.inFlight,
      permits_step_of_closed hclosed]
    exact (List.diff_sublist _ _).length_le
  · have htotal := hsound.ledger.total
    rw [hsound.length_served]
    omega
  · obtain ⟨hnone, hnobody⟩ := empty_of_clearing hclosed
    exact ⟨hnone, hnobody, (sound_run hsound _).available_eq hnone hnobody⟩

/-- A gate of two permits closes while one waiter has a permit in hand and another queues. After
that a newcomer is turned away, as is the one with the permit in hand, and one holder goes. -/
theorem closing_is_final_two :
    let before : List (Move Nat) :=
      [.acquire 1, .acquire 2, .acquire 3, .acquire 4, .drop 1]
    let after : List (Move Nat) := [.acquire 5, .close, .poll 3, .tryAcquire 6]
    let closing := ((start (Gate.fresh 2)).run before).1
    let l := ((start (Gate.fresh 2)).run (before ++ .close :: after)).1
    Gate.ofCapacity? 2 = some (Gate.fresh 2 : Gate Nat) ∧ closing.served = [3] ∧
    closing.gate.queue = [4] ∧ closing.permits = [2] ∧ l.waiters = [4] ∧ l.permits = [2] ∧
    l.gate.available = 1 ∧ l.gate.closed = true ∧ (l.step (.poll 4)).2 = .closed ∧
    (l.run l.clearing).1.gate.available = 2 ∧ (l.run l.clearing).1.gate.inFlight = 0 := by
  intro before after closing l
  have hg : Gate.ofCapacity? 2 = some (Gate.fresh 2 : Gate Nat) := by decide
  obtain ⟨hclosed, -, -, hpoll, -, -, -, -, -, -, -, -, -, hall, hnone⟩ :=
    closing_is_final hg before after
  exact ⟨hg, by decide, by decide, by decide, by decide, by decide, by decide, hclosed,
    (hpoll 4 (by decide)).1, hall, hnone⟩

end StageLens.Lobby

import StageLens.Gate.Lobby
import StageLens.Proofs.Gate.Ledger

/-!
# Permits are conserved

In every state that callers can bring a gate to, in whatever order they start to wait, ask again,
try, drop what they have and close, each permit is free, in the hand of a waiter that was not told
yet, or held; and the count of holders is the number of permits that are alive.
-/

namespace StageLens.Lobby

variable {Name : Type}

/-- The waiters that were handed a permit and have not asked since. -/
def served [DecidableEq Name] (l : Lobby Name) : List Name := l.waiters.filter (· ∈ l.gate.handed)

/-- The gate's accounts are right for the permits and the waiters that there are. -/
structure Sound (l : Lobby Name) (capacity : Nat) : Prop where
  nodup : l.waiters.Nodup
  ledger : l.gate.Ledger capacity (· ∈ l.waiters) l.permits.length 0

theorem sound_start (capacity : Nat) :
    (start (Gate.fresh capacity) : Lobby Name).Sound capacity where
  nodup := List.nodup_nil
  ledger := (Gate.ledger_fresh capacity).congr (by simp [start])

variable [DecidableEq Name]

/-- Asking settles the accounts of a waiter, also of one that the gate does not know yet. -/
theorem sound_ask {l : Lobby Name} {c : Nat} (Waits : Name → Prop) {n : Name}
    (hnodup : l.waiters.Nodup) (hn : n ∈ l.waiters)
    (h : l.gate.Ledger c Waits l.permits.length 0)
    (hw : ∀ u, u ≠ n → (Waits u ↔ u ∈ l.waiters)) : (l.ask n).1.Sound c := by
  have hleft : ∀ u, Waits u ∧ u ≠ n ↔ u ∈ l.waiters.erase n := by
    intro u
    rw [hnodup.mem_erase_iff]
    exact ⟨fun ⟨hu, hne⟩ => ⟨hne, (hw u hne).mp hu⟩, fun ⟨hne, hu⟩ => ⟨(hw u hne).mpr hu, hne⟩⟩
  unfold ask
  split
  · rename_i g hp
    exact ⟨hnodup.erase n, (h.admitted hp).congr hleft⟩
  · rename_i g hp
    refine ⟨hnodup, (h.pending hp).congr fun u => ?_⟩
    by_cases hu : u = n
    · subst hu
      exact ⟨fun _ => hn, fun _ => .inr rfl⟩
    · exact ⟨fun h => (hw u hu).mp (h.resolve_right hu), fun h => .inl ((hw u hu).mpr h)⟩
  · rename_i g hp
    exact ⟨hnodup.erase n, (h.turnedAway hp).congr hleft⟩

theorem sound_step {l : Lobby Name} {c : Nat} (h : l.Sound c) (m : Move Name) :
    (l.step m).1.Sound c := by
  cases m with
  | acquire n =>
    refine sound_ask (· ∈ l.waiters) h.nodup.insert List.mem_insert_self h.ledger ?_
    intro u hu
    show u ∈ l.waiters ↔ u ∈ l.waiters.insert n
    rw [List.mem_insert_iff]
    exact ⟨.inr, fun h => h.resolve_left hu⟩
  | poll n =>
    simp only [step]
    split
    · rename_i hn
      exact sound_ask _ h.nodup hn h.ledger fun _ _ => Iff.rfl
    · exact h
  | tryAcquire n =>
    simp only [step]
    split
    · rename_i g hg
      exact ⟨h.nodup, h.ledger.tryAcquire hg⟩
    · exact h
  | drop n =>
    simp only [step]
    split
    · rename_i hn
      refine ⟨h.nodup, Gate.Ledger.release ?_⟩
      have hlen : (l.permits.erase n).length + 1 = l.permits.length := by
        have := List.length_erase_of_mem hn
        have := List.length_pos_of_mem hn
        omega
      rw [hlen]
      exact h.ledger
    · split
      · rename_i hn
        refine ⟨h.nodup.erase n, (h.ledger.leave n).congr fun u => ?_⟩
        rw [h.nodup.mem_erase_iff, and_comm]
      · exact h
  | close => exact ⟨h.nodup, h.ledger.close⟩

@[simp] theorem run_nil (l : Lobby Name) : (l.run []).1 = l := rfl

@[simp] theorem run_cons (l : Lobby Name) (m : Move Name) (ms : List (Move Name)) :
    (l.run (m :: ms)).1 = ((l.step m).1.run ms).1 := rfl

theorem sound_run {l : Lobby Name} {c : Nat} (h : l.Sound c) (ms : List (Move Name)) :
    (l.run ms).1.Sound c := by
  induction ms generalizing l with
  | nil => exact h
  | cons m ms ih => exact ih (sound_step h m)

/-- Those with a permit in hand are among the waiters, so that it does not matter which of the two
lists is counted. -/
theorem Sound.length_served {l : Lobby Name} {c : Nat} (h : l.Sound c) :
    l.served.length = l.gate.handed.length := by
  have hserved : l.served.Nodup := h.nodup.filter _
  refine ((List.perm_ext_iff_of_nodup hserved h.ledger.handed_nodup).mpr fun u => ?_).length_eq
  simp only [served, List.mem_filter, decide_eq_true_eq]
  exact ⟨And.right, fun hu => ⟨h.ledger.waits u (List.mem_append_left _ hu), hu⟩⟩

/-- The count of holders goes down by one when a permit is dropped, and not below zero. -/
theorem Sound.inFlight_drop {l : Lobby Name} {c : Nat} (h : l.Sound c) {n : Name}
    (hn : n ∈ l.permits) : (l.step (.drop n)).1.gate.inFlight + 1 = l.gate.inFlight := by
  have hnext := (sound_step h (.drop n)).ledger.inFlight
  have hpermits : (l.step (.drop n)).1.permits = l.permits.erase n := by
    simp only [step, if_pos hn]
  rw [hnext, hpermits, h.ledger.inFlight, List.length_erase_of_mem hn]
  have := List.length_pos_of_mem hn
  omega

/-- **Conservation.** Whatever callers do, the free permits, those in the hands of waiters and those
that are held make up the capacity of the gate; the count of holders is the number of permits that
are alive, and it never falls below zero. -/
theorem run_conserves_permits {capacity : Nat} {g : Gate Name}
    (hg : Gate.ofCapacity? capacity = some g) (ms : List (Move Name)) :
    let l := ((start g).run ms).1
    l.gate.available + l.served.length + l.permits.length = capacity ∧
    l.gate.inFlight = l.permits.length ∧ l.permits.length ≤ capacity ∧
    ∀ n ∈ l.permits, (l.step (.drop n)).1.gate.inFlight + 1 = l.gate.inFlight := by
  obtain rfl := Gate.eq_fresh_of_ofCapacity? hg
  intro l
  have hsound : l.Sound capacity := sound_run (sound_start capacity) ms
  have htotal := hsound.ledger.total
  refine ⟨?_, hsound.ledger.inFlight, hsound.ledger.held_le, fun n hn => hsound.inFlight_drop hn⟩
  rw [hsound.length_served]
  omega

/-- One of two permits goes from hand to hand while the gate closes: the third caller has it in hand
when nobody is admitted any more. -/
theorem run_conserves_permits_two :
    let l := ((start (Gate.fresh 2)).run
      [.acquire 1, .acquire 2, .acquire 3, .acquire 4, .drop 1, .close]).1
    Gate.ofCapacity? 2 = some (Gate.fresh 2 : Gate Nat) ∧ l.served = [3] ∧ l.permits = [2] ∧
    l.waiters = [4, 3] ∧
    (l.gate.available + l.served.length + l.permits.length = 2 ∧
      l.gate.inFlight = l.permits.length ∧ l.permits.length ≤ 2 ∧
      ∀ n ∈ l.permits, (l.step (.drop n)).1.gate.inFlight + 1 = l.gate.inFlight) :=
  ⟨by decide, by decide, by decide, by decide, run_conserves_permits (by decide) _⟩

end StageLens.Lobby

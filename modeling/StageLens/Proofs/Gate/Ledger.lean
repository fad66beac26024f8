import Mathlib.Data.List.Nodup
import Mathlib.Tactic.Common
import StageLens.Gate.Basic

/-!
# The ledger of a gate

Where the permits of a gate are, and who waits for one. `Gate.Ledger g capacity Waits held loose`
says that

* every permit is free, handed to a waiter, held, or `loose`, on its way from one owner to the next;
* the count of holders is right;
* while the gate is open, the waiters are exactly those in the queue and those with a permit in
  hand;
* nobody queues while a permit is free.

Each operation of the gate has one lemma here, which says what it does to the ledger. Those who use
a gate know it through these lemmas only.
-/

namespace StageLens.Gate

variable {Ticket : Type}

/-- The accounts of a gate with these waiters and so many holders. -/
structure Ledger (g : Gate Ticket) (capacity : Nat) (Waits : Ticket → Prop) (held loose : Nat) :
    Prop where
  size : g.capacity = capacity
  total : g.available + g.handed.length + held + loose = capacity
  inFlight : g.inFlight = held
  nodup : (g.handed ++ g.queue).Nodup
  waits : ∀ t ∈ g.handed ++ g.queue, Waits t
  listed : g.closed = false → ∀ t, Waits t → t ∈ g.handed ++ g.queue
  full : g.queue ≠ [] → g.available = 0
  shut : g.closed = true → g.queue = []

theorem ledger_fresh (capacity : Nat) :
    (fresh capacity : Gate Ticket).Ledger capacity (fun _ => False) 0 0 where
  size := rfl
  total := by simp [fresh]
  inFlight := rfl
  nodup := by simp [fresh]
  waits := by simp [fresh]
  listed := by simp
  full := by simp [fresh]
  shut := by simp [fresh]

theorem eq_fresh_of_ofCapacity? {capacity : Nat} {g : Gate Ticket}
    (h : ofCapacity? capacity = some g) : g = fresh capacity := by
  unfold ofCapacity? at h
  split at h
  · exact (Option.some.inj h).symm
  · cases h

namespace Ledger

variable {g : Gate Ticket} {Waits Waits' : Ticket → Prop} {c held loose : Nat}

/-- Who waits may be said in other words. -/
theorem congr (h : g.Ledger c Waits held loose) (hw : ∀ t, Waits t ↔ Waits' t) :
    g.Ledger c Waits' held loose := by
  have he : Waits = Waits' := funext fun t => propext (hw t)
  rwa [he] at h

theorem held_le (h : g.Ledger c Waits held loose) : held ≤ c := by
  have := h.total
  omega

theorem handed_nodup (h : g.Ledger c Waits held loose) : g.handed.Nodup :=
  (List.nodup_append.mp h.nodup).1

/-- Who has a permit in hand is in the queue no more. -/
theorem not_mem_queue (h : g.Ledger c Waits held loose) {t : Ticket} (ht : t ∈ g.handed) :
    t ∉ g.queue := by
  intro hq
  exact (List.nodup_append.mp h.nodup).2.2 t ht t hq rfl

/-- A loose permit goes to the oldest waiter or becomes free. -/
theorem giveBack (h : g.Ledger c Waits held (loose + 1)) :
    g.giveBack.Ledger c Waits held loose := by
  have htotal := h.total
  unfold Gate.giveBack
  split
  · rename_i hq
    refine ⟨h.size, ?_, h.inFlight, h.nodup, h.waits, h.listed, fun hne => absurd hq hne, h.shut⟩
    show g.available + 1 + g.handed.length + held + loose = c
    omega
  · rename_i t rest hq
    -- The order of handed and queue together stays; only the border between them moves.
    have hsame : (g.handed ++ [t]) ++ rest = g.handed ++ g.queue := by simp [hq]
    refine ⟨h.size, ?_, h.inFlight, ?_, ?_, ?_, ?_, ?_⟩
    · show g.available + (g.handed ++ [t]).length + held + loose = c
      rw [List.length_append, List.length_singleton]
      omega
    · show ((g.handed ++ [t]) ++ rest).Nodup
      rw [hsame]
      exact h.nodup
    · show ∀ u ∈ (g.handed ++ [t]) ++ rest, Waits u
      rw [hsame]
      exact h.waits
    · show g.closed = false → ∀ u, Waits u → u ∈ (g.handed ++ [t]) ++ rest
      rw [hsame]
      exact h.listed
    · intro _
      exact h.full (by rw [hq]; exact List.cons_ne_nil t rest)
    · intro hc
      have := h.shut hc
      rw [hq] at this
      cases this

/-- A permit that was held is loose, and then it is given back. -/
theorem release (h : g.Ledger c Waits (held + 1) loose) : g.release.Ledger c Waits held loose := by
  apply giveBack
  have htotal := h.total
  have hcount := h.inFlight
  refine ⟨h.size, ?_, ?_, h.nodup, h.waits, h.listed, h.full, h.shut⟩
  · show g.available + g.handed.length + held + (loose + 1) = c
    omega
  · show g.inFlight - 1 = held
    omega

theorem close (h : g.Ledger c Waits held loose) : g.close.Ledger c Waits held loose where
  size := h.size
  total := h.total
  inFlight := h.inFlight
  nodup := by simpa [Gate.close] using h.handed_nodup
  waits := by
    intro t ht
    have ht : t ∈ g.handed := by simpa [Gate.close] using ht
    exact h.waits t (List.mem_append_left _ ht)
  listed := by simp [Gate.close]
  full := by simp [Gate.close]
  shut := fun _ => rfl

/-- A free permit is taken. -/
theorem tryAcquire {g' : Gate Ticket} (h : g.Ledger c Waits held loose)
    (ht : g.tryAcquire = some g') : g'.Ledger c Waits (held + 1) loose := by
  have htotal := h.total
  unfold Gate.tryAcquire at ht
  split at ht
  · cases ht
  · split at ht
    · cases ht
    · rename_i n hn
      obtain rfl := Option.some.inj ht
      refine ⟨h.size, ?_, ?_, h.nodup, h.waits, h.listed, ?_, h.shut⟩
      · show n + g.handed.length + (held + 1) + loose = c
        omega
      · show g.inFlight + 1 = held + 1
        rw [h.inFlight]
      · intro hq
        have := h.full hq
        omega

/-- A loose permit is held from now on. -/
theorem hold (h : g.Ledger c Waits held (loose + 1)) :
    { g with inFlight := g.inFlight + 1 }.Ledger c Waits (held + 1) loose := by
  have htotal := h.total
  refine ⟨h.size, ?_, ?_, h.nodup, h.waits, h.listed, h.full, h.shut⟩
  · show g.available + g.handed.length + (held + 1) + loose = c
    omega
  · show g.inFlight + 1 = held + 1
    rw [h.inFlight]

variable [DecidableEq Ticket]

/-- A permit in hand becomes loose when it is taken from a waiter. -/
theorem takeFrom (h : g.Ledger c Waits held loose) {t : Ticket} (ht : t ∈ g.handed) :
    { g with handed := g.handed.erase t }.Ledger c (fun u => Waits u ∧ u ≠ t) held (loose + 1) := by
  have htotal := h.total
  have hlen := List.length_erase_of_mem ht
  have hpos : 0 < g.handed.length := List.length_pos_of_mem ht
  have hnq := h.not_mem_queue ht
  -- Without `t` in the queue, erasing it from the front erases it from the whole.
  have hsame : g.handed.erase t ++ g.queue = (g.handed ++ g.queue).erase t := by
    rw [List.erase_append_left _ ht]
  refine ⟨h.size, ?_, h.inFlight, ?_, ?_, ?_, h.full, h.shut⟩
  · show g.available + (g.handed.erase t).length + held + (loose + 1) = c
    omega
  · show (g.handed.erase t ++ g.queue).Nodup
    rw [hsame]
    exact h.nodup.erase t
  · show ∀ u ∈ g.handed.erase t ++ g.queue, Waits u ∧ u ≠ t
    intro u hu
    rw [hsame, h.nodup.mem_erase_iff] at hu
    exact ⟨h.waits u hu.2, hu.1⟩
  · show g.closed = false → ∀ u, Waits u ∧ u ≠ t → u ∈ g.handed.erase t ++ g.queue
    intro hopen u hu
    rw [hsame, h.nodup.mem_erase_iff]
    exact ⟨hu.2, h.listed hopen u hu.1⟩

/-- A waiter goes away, with or without a permit in hand. -/
theorem leave (h : g.Ledger c Waits held loose) (t : Ticket) :
    (g.leave t).Ledger c (fun u => Waits u ∧ u ≠ t) held loose := by
  unfold Gate.leave
  split
  · rename_i ht
    exact giveBack (h.takeFrom ht)
  · rename_i ht
    -- `t` has nothing in hand, so erasing it from the queue erases it from the whole.
    have hsame : g.handed ++ g.queue.erase t = (g.handed ++ g.queue).erase t := by
      rw [List.erase_append_right _ ht]
    refine ⟨h.size, h.total, h.inFlight, ?_, ?_, ?_, ?_, ?_⟩
    · show (g.handed ++ g.queue.erase t).Nodup
      rw [hsame]
      exact h.nodup.erase t
    · show ∀ u ∈ g.handed ++ g.queue.erase t, Waits u ∧ u ≠ t
      intro u hu
      rw [hsame, h.nodup.mem_erase_iff] at hu
      exact ⟨h.waits u hu.2, hu.1⟩
    · show g.closed = false → ∀ u, Waits u ∧ u ≠ t → u ∈ g.handed ++ g.queue.erase t
      intro hopen u hu
      rw [hsame, h.nodup.mem_erase_iff]
      exact ⟨hu.2, h.listed hopen u hu.1⟩
    · intro hne
      apply h.full
      rintro hq
      exact hne (by show g.queue.erase t = []; rw [hq]; rfl)
    · intro hc
      show g.queue.erase t = []
      rw [h.shut hc]
      rfl

end Ledger

/-! ## The order of the waiters -/

/-- A permit that is given back changes nothing about who waits, and in which order. -/
theorem waiters_giveBack (g : Gate Ticket) :
    g.giveBack.handed ++ g.giveBack.queue = g.handed ++ g.queue := by
  unfold giveBack
  split
  · rfl
  · rename_i t rest hq
    simp [hq]

/-- A waiter that goes away is the only one that is missing. -/
theorem waiters_leave [DecidableEq Ticket] (g : Gate Ticket) (t : Ticket) :
    (g.leave t).handed ++ (g.leave t).queue = (g.handed ++ g.queue).erase t := by
  unfold leave
  split
  · rename_i ht
    rw [waiters_giveBack, List.erase_append_left _ ht]
  · rename_i ht
    rw [List.erase_append_right _ ht]

/-! ## Asking at the gate -/

/-- What a poll finds, in the order in which it looks. -/
inductive Found [DecidableEq Ticket] (g : Gate Ticket) (t : Ticket) :
    Gate Ticket → Admission → Prop
  | closed : g.closed = true → Found g t (g.leave t) .closed
  | inHand : g.closed = false → t ∈ g.handed →
      Found g t { g with handed := g.handed.erase t, inFlight := g.inFlight + 1 } .admitted
  | inQueue : g.closed = false → t ∉ g.handed → t ∈ g.queue → Found g t g .pending
  | full : g.closed = false → t ∉ g.handed → t ∉ g.queue → g.available = 0 →
      Found g t { g with queue := g.queue ++ [t] } .pending
  | free (n : Nat) : g.closed = false → t ∉ g.handed → t ∉ g.queue → g.available = n + 1 →
      Found g t { g with available := n, inFlight := g.inFlight + 1 } .admitted

variable [DecidableEq Ticket] {g g' : Gate Ticket} {t : Ticket}

theorem found_of_poll {a : Admission} (h : g.poll t = (g', a)) : Found g t g' a := by
  unfold poll at h
  split at h
  · rename_i hc
    obtain ⟨rfl, rfl⟩ := Prod.mk.inj h
    exact .closed hc
  · rename_i hc
    have hopen : g.closed = false := by simpa using hc
    split at h
    · rename_i ht
      obtain ⟨rfl, rfl⟩ := Prod.mk.inj h
      exact .inHand hopen ht
    · rename_i ht
      split at h
      · rename_i hq
        obtain ⟨rfl, rfl⟩ := Prod.mk.inj h
        exact .inQueue hopen ht hq
      · rename_i hq
        split at h
        · rename_i hn
          obtain ⟨rfl, rfl⟩ := Prod.mk.inj h
          exact .full hopen ht hq hn
        · rename_i n hn
          obtain ⟨rfl, rfl⟩ := Prod.mk.inj h
          exact .free n hopen ht hq hn

/-- Only an open gate tells anyone to wait. -/
theorem open_of_pending (h : g.poll t = (g', .pending)) : g.closed = false := by
  cases found_of_poll h with
  | inQueue hopen _ _ => exact hopen
  | full hopen _ _ _ => exact hopen

namespace Ledger

variable {Waits : Ticket → Prop} {c held loose : Nat}

/-- Whoever is told to wait is a waiter. -/
theorem pending (h : g.Ledger c Waits held loose) (hp : g.poll t = (g', .pending)) :
    g'.Ledger c (fun u => Waits u ∨ u = t) held loose := by
  cases found_of_poll hp with
  | inQueue hopen ht hq =>
    refine h.congr fun u => ⟨Or.inl, ?_⟩
    rintro (hu | rfl)
    · exact hu
    · exact h.waits u (List.mem_append_right _ hq)
  | full hopen ht hq hnone =>
    have hnew : t ∉ g.handed ++ g.queue := by simp [ht, hq]
    have hsame : g.handed ++ (g.queue ++ [t]) = (g.handed ++ g.queue) ++ [t] := by simp
    refine ⟨h.size, h.total, h.inFlight, ?_, ?_, ?_, fun _ => hnone, ?_⟩
    · show (g.handed ++ (g.queue ++ [t])).Nodup
      rw [hsame, List.nodup_append]
      refine ⟨h.nodup, List.nodup_singleton t, ?_⟩
      rintro u hu v hv rfl
      exact hnew (List.mem_singleton.mp hv ▸ hu)
    · show ∀ u ∈ g.handed ++ (g.queue ++ [t]), Waits u ∨ u = t
      intro u hu
      rw [hsame] at hu
      rcases List.mem_append.mp hu with hu | hu
      · exact .inl (h.waits u hu)
      · exact .inr (List.mem_singleton.mp hu)
    · show g.closed = false → ∀ u, Waits u ∨ u = t → u ∈ g.handed ++ (g.queue ++ [t])
      rintro - u hu
      rw [hsame, List.mem_append, List.mem_singleton]
      exact hu.imp_left (h.listed hopen u)
    · intro hc
      rw [show g.closed = false from hopen] at hc
      cases hc

/-- Whoever is admitted holds one permit more and waits no longer. -/
theorem admitted (h : g.Ledger c Waits held loose) (hp : g.poll t = (g', .admitted)) :
    g'.Ledger c (fun u => Waits u ∧ u ≠ t) (held + 1) loose := by
  cases found_of_poll hp with
  | inHand hopen ht => exact hold (h.takeFrom ht)
  | free n hopen ht hq hn =>
    have htotal := h.total
    have hnew : t ∉ g.handed ++ g.queue := by simp [ht, hq]
    refine ⟨h.size, ?_, ?_, h.nodup, ?_, ?_, ?_, h.shut⟩
    · show n + g.handed.length + (held + 1) + loose = c
      omega
    · show g.inFlight + 1 = held + 1
      rw [h.inFlight]
    · intro u hu
      exact ⟨h.waits u hu, fun he => hnew (he ▸ hu)⟩
    · intro _ u hu
      exact h.listed hopen u hu.1
    · intro hne
      have := h.full hne
      omega

/-- Whoever is turned away waits no longer. -/
theorem turnedAway (h : g.Ledger c Waits held loose) (hp : g.poll t = (g', .closed)) :
    g'.Ledger c (fun u => Waits u ∧ u ≠ t) held loose := by
  cases found_of_poll hp with
  | closed _ => exact h.leave t

/-- A waiter of an open gate that has to wait on changes nothing by asking. -/
theorem eq_of_pending (h : g.Ledger c Waits held loose) (hopen : g.closed = false) (hw : Waits t)
    (hp : g.poll t = (g', .pending)) : g' = g := by
  have hmem := h.listed hopen t hw
  cases found_of_poll hp with
  | inQueue _ _ _ => rfl
  | full _ ht hq _ => exact absurd hmem (by simp [ht, hq])

end Ledger

end StageLens.Gate

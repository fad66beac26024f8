import StageLens.Proofs.Gate.Conservation
import StageLens.Proofs.Lists

/-!
# Waiters are served in order

While a gate is open nobody waits in vain and nobody is overtaken: a queue forms only when no permit
is free, a permit that comes back goes to the oldest in the queue, and permits are given in the
order in which waiting began.

The order is a fact about whole runs. `arrivals` lists the names of a run in the order in which they
started to wait, `grants` in the order in which they were given a permit, be it in the queue or on
the spot. What joins the two is one equation for each move (`grantedBy_append_queue`).
-/

namespace StageLens.Gate

variable {Ticket : Type}

@[simp] theorem closed_giveBack (g : Gate Ticket) : g.giveBack.closed = g.closed := by
  unfold giveBack
  split <;> rfl

@[simp] theorem closed_release (g : Gate Ticket) : g.release.closed = g.closed :=
  closed_giveBack _

theorem giveBack_of_nil {g : Gate Ticket} (h : g.queue = []) :
    g.giveBack = { g with available := g.available + 1 } := by
  unfold giveBack
  rw [h]

theorem giveBack_of_cons {g : Gate Ticket} {t : Ticket} {rest : List Ticket}
    (h : g.queue = t :: rest) :
    g.giveBack = { g with queue := rest, handed := g.handed ++ [t] } := by
  unfold giveBack
  rw [h]

theorem closed_tryAcquire {g g' : Gate Ticket} (h : g.tryAcquire = some g') :
    g.closed = false ∧ g'.closed = false := by
  unfold tryAcquire at h
  split at h
  · cases h
  · rename_i hc
    split at h
    · cases h
    · obtain rfl := Option.some.inj h
      exact ⟨by simpa using hc, by simpa using hc⟩

theorem queue_tryAcquire {g g' : Gate Ticket} (h : g.tryAcquire = some g') :
    g'.queue = g.queue ∧ g'.handed = g.handed := by
  unfold tryAcquire at h
  split at h
  · cases h
  · split at h
    · cases h
    · obtain rfl := Option.some.inj h
      exact ⟨rfl, rfl⟩

/-- On an open gate there is a permit to take exactly if one is free. -/
theorem isSome_tryAcquire {g : Gate Ticket} (h : g.closed = false) :
    g.tryAcquire.isSome ↔ 0 < g.available := by
  unfold tryAcquire
  rw [if_neg (by simp [h])]
  split
  · rename_i hn
    simp [hn]
  · rename_i n hn
    simp [hn]

variable [DecidableEq Ticket]

@[simp] theorem closed_leave (g : Gate Ticket) (t : Ticket) : (g.leave t).closed = g.closed := by
  unfold leave
  split
  · simp
  · rfl

theorem closed_of_poll {g g' : Gate Ticket} {t : Ticket} {a : Admission}
    (h : g.poll t = (g', a)) : g'.closed = g.closed := by
  cases found_of_poll h with
  | closed _ => exact closed_leave g t
  | inHand _ _ => rfl
  | inQueue _ _ _ => rfl
  | full _ _ _ _ => rfl
  | free _ _ _ _ _ => rfl

@[simp] theorem closed_poll (g : Gate Ticket) (t : Ticket) : (g.poll t).1.closed = g.closed :=
  closed_of_poll (a := (g.poll t).2) rfl

/-- Those that have a permit in hand now and did not before. -/
def newlyServed (g g' : Gate Ticket) : List Ticket := g'.handed.filter (· ∉ g.handed)

theorem newlyServed_of_append {g g' : Gate Ticket} (kept added : List Ticket)
    (h : g'.handed = kept ++ added) (hkept : ∀ u ∈ kept, u ∈ g.handed)
    (hadded : ∀ u ∈ added, u ∉ g.handed) : g.newlyServed g' = added := by
  have hnone : kept.filter (· ∉ g.handed) = [] := by
    rw [List.filter_eq_nil_iff]
    intro u hu
    simpa using hkept u hu
  have hall : added.filter (· ∉ g.handed) = added := by
    rw [List.filter_eq_self]
    intro u hu
    simpa using hadded u hu
  rw [newlyServed, h, List.filter_append, hnone, hall, List.nil_append]

theorem newlyServed_of_subset {g g' : Gate Ticket} (h : ∀ u ∈ g'.handed, u ∈ g.handed) :
    g.newlyServed g' = [] :=
  newlyServed_of_append g'.handed [] (by simp) h (by simp)

theorem newlyServed_of_eq {g g' : Gate Ticket} (h : g'.handed = g.handed) :
    g.newlyServed g' = [] :=
  newlyServed_of_subset fun _ hu => h ▸ hu

/-- Giving a permit back serves the head of the queue. -/
theorem newlyServed_giveBack {g g' : Gate Ticket} (hqueue : g'.queue = g.queue)
    (hkept : ∀ u ∈ g'.handed, u ∈ g.handed) (hdisjoint : ∀ u ∈ g.queue, u ∉ g.handed) :
    g.newlyServed g'.giveBack ++ g'.giveBack.queue = g.queue := by
  cases hq : g.queue with
  | nil =>
    rw [giveBack_of_nil (hqueue.trans hq), newlyServed_of_subset]
    · exact hqueue.trans hq
    · exact hkept
  | cons t rest =>
    rw [giveBack_of_cons (hqueue.trans hq)]
    rw [newlyServed_of_append g'.handed [t]]
    · rfl
    · rfl
    · exact hkept
    · intro u hu
      rw [List.mem_singleton] at hu
      exact hdisjoint u (by rw [hq, hu]; exact List.mem_cons_self)

end StageLens.Gate

namespace StageLens.Lobby

variable {Name : Type} [DecidableEq Name]

/-! ## Histories -/

/-- Those who start to wait with a move. -/
def arrivesBy (l : Lobby Name) : Move Name → List Name
  | .acquire n => if n ∈ l.waiters then [] else [n]
  | _ => []

/-- Those who are given a permit by a move: it is put into their hand, or they are admitted as soon
as they come. -/
def grantedBy (l : Lobby Name) (m : Move Name) : List Name :=
  l.gate.newlyServed (l.step m).1.gate ++
    match m with
    | .acquire n => if n ∉ l.waiters ∧ (l.step m).2 = .admitted then [n] else []
    | _ => []

/-- Those who go away as waiters. -/
def quitsBy (l : Lobby Name) : Move Name → List Name
  | .drop n => if n ∈ l.permits then [] else if n ∈ l.waiters then [n] else []
  | _ => []

/-- What is collected along a run. -/
def history (f : Lobby Name → Move Name → List Name) (l : Lobby Name) :
    List (Move Name) → List Name
  | [] => []
  | m :: ms => f l m ++ history f (l.step m).1 ms

/-- Those who start to wait in a run, in order. -/
def arrivals (l : Lobby Name) (ms : List (Move Name)) : List Name := history arrivesBy l ms

/-- Those who are given a permit in a run, in order. -/
def grants (l : Lobby Name) (ms : List (Move Name)) : List Name := history grantedBy l ms

/-- Those who go away as waiters in a run. -/
def quitters (l : Lobby Name) (ms : List (Move Name)) : List Name := history quitsBy l ms

/-! ## One move -/

theorem gate_ask (l : Lobby Name) (n : Name) : (l.ask n).1.gate = (l.gate.poll n).1 := by
  unfold ask
  split <;> rename_i hp <;> rw [hp]

theorem admitted_ask_iff (l : Lobby Name) (n : Name) :
    (l.ask n).2 = .admitted ↔ (l.gate.poll n).2 = .admitted := by
  unfold ask
  split <;> rename_i hp <;> rw [hp] <;> simp

/-- Only a close changes whether the gate is closed. -/
theorem closed_step_of_ne {l : Lobby Name} {m : Move Name} (hm : m ≠ .close) :
    (l.step m).1.gate.closed = l.gate.closed := by
  cases m with
  | acquire n =>
    show (ask _ n).1.gate.closed = _
    rw [gate_ask, Gate.closed_poll]
  | poll n =>
    simp only [step]
    split
    · rw [gate_ask, Gate.closed_poll]
    · rfl
  | tryAcquire n =>
    simp only [step]
    split
    · rename_i g hg
      obtain ⟨hbefore, hafter⟩ := Gate.closed_tryAcquire hg
      rw [hbefore, hafter]
    · rfl
  | drop n =>
    simp only [step]
    split
    · exact Gate.closed_release l.gate
    · split
      · exact Gate.closed_leave l.gate n
      · rfl
  | close => exact absurd rfl hm

theorem closed_step {l : Lobby Name} (m : Move Name) (h : l.gate.closed = true) :
    (l.step m).1.gate.closed = true := by
  by_cases hm : m = .close
  · rw [hm]
    rfl
  · rw [closed_step_of_ne hm, h]

/-- A gate that is open was open before. -/
theorem open_of_step {l : Lobby Name} {m : Move Name}
    (h : (l.step m).1.gate.closed = false) : l.gate.closed = false := by
  cases hc : l.gate.closed with
  | false => rfl
  | true =>
    rw [closed_step m hc] at h
    cases h

theorem open_of_run {l : Lobby Name} {ms : List (Move Name)}
    (h : (l.run ms).1.gate.closed = false) : l.gate.closed = false := by
  induction ms generalizing l with
  | nil => exact h
  | cons m ms ih => exact open_of_step (ih h)

/-- A waiter that asks again changes nothing in the line. -/
theorem newlyServed_poll {l : Lobby Name} {c : Nat} (h : l.Sound c)
    (hopen : l.gate.closed = false) {n : Name} (hn : n ∈ l.waiters) :
    l.gate.newlyServed (l.gate.poll n).1 ++ (l.gate.poll n).1.queue = l.gate.queue := by
  have hmem := h.ledger.listed hopen n hn
  rcases hp : l.gate.poll n with ⟨g, a⟩
  cases Gate.found_of_poll hp with
  | closed hc => rw [hopen] at hc; cases hc
  | inHand _ ht =>
    rw [Gate.newlyServed_of_subset]
    · rfl
    · intro u hu
      exact List.mem_of_mem_erase hu
  | inQueue _ _ _ => rw [Gate.newlyServed_of_eq rfl, List.nil_append]
  | full _ ht hq _ => exact absurd hmem (by simp [ht, hq])
  | free _ _ ht hq _ => exact absurd hmem (by simp [ht, hq])

/-- Someone new goes to the end of the line, or is admitted where there is no line. -/
theorem grantedBy_acquire {l : Lobby Name} {c : Nat} (h : l.Sound c)
    (hopen : l.gate.closed = false) {n : Name} (hn : n ∉ l.waiters) :
    l.grantedBy (.acquire n) ++ (l.step (.acquire n)).1.gate.queue = l.gate.queue ++ [n] := by
  have hnew : n ∉ l.gate.handed ++ l.gate.queue := fun hm => hn (h.ledger.waits n hm)
  have hgate : (l.step (.acquire n)).1.gate = (l.gate.poll n).1 := gate_ask _ n
  have hreply : (l.step (.acquire n)).2 = .admitted ↔ (l.gate.poll n).2 = .admitted :=
    admitted_ask_iff _ n
  simp only [grantedBy, hgate, hreply]
  rcases hp : l.gate.poll n with ⟨g, a⟩
  cases Gate.found_of_poll hp with
  | closed hc => rw [hopen] at hc; cases hc
  | inHand _ ht => exact absurd (List.mem_append_left _ ht) hnew
  | inQueue _ _ hq => exact absurd (List.mem_append_right _ hq) hnew
  | full _ _ _ _ =>
    rw [Gate.newlyServed_of_eq, if_neg (by simp)]
    · rfl
    · rfl
  | free k _ _ _ hk =>
    -- A permit was free, so there was no line to stand in.
    have hline : l.gate.queue = [] := by
      by_contra hne
      have := h.ledger.full hne
      omega
    rw [Gate.newlyServed_of_eq, if_pos ⟨hn, rfl⟩]
    · show [n] ++ l.gate.queue = l.gate.queue ++ [n]
      rw [hline]
      rfl
    · rfl

/-- While the gate is open, those who are given a permit by a move and those who queue after it are
those who queued before it and those who came, less those who went away, in the same order. -/
theorem grantedBy_append_queue {l : Lobby Name} {c : Nat} (h : l.Sound c) (m : Move Name)
    (hopen : (l.step m).1.gate.closed = false) :
    l.grantedBy m ++ (l.step m).1.gate.queue =
      (l.gate.queue ++ l.arrivesBy m).filter (· ∉ l.quitsBy m) := by
  have hbefore : l.gate.closed = false := open_of_step hopen
  have hdisjoint : ∀ u ∈ l.gate.queue, u ∉ l.gate.handed :=
    fun u hu hh => h.ledger.not_mem_queue hh hu
  have hidle : l.gate.newlyServed l.gate = [] := Gate.newlyServed_of_eq rfl
  cases m with
  | acquire n =>
    simp only [quitsBy, arrivesBy, List.not_mem_nil, not_false_eq_true, decide_true,
      List.filter_true]
    by_cases hn : n ∈ l.waiters
    · have hgate : (l.step (.acquire n)).1.gate = (l.gate.poll n).1 := gate_ask _ n
      simp only [grantedBy, hgate, hn, not_true_eq_false, false_and, if_false, if_true,
        List.append_nil]
      exact newlyServed_poll h hbefore hn
    · rw [if_neg hn]
      exact grantedBy_acquire h hbefore hn
  | poll n =>
    simp only [quitsBy, arrivesBy, List.not_mem_nil, not_false_eq_true, decide_true,
      List.filter_true, List.append_nil, grantedBy, step]
    split
    · rename_i hn
      rw [gate_ask]
      exact newlyServed_poll h hbefore hn
    · rw [hidle, List.nil_append]
  | tryAcquire n =>
    simp only [quitsBy, arrivesBy, List.not_mem_nil, not_false_eq_true, decide_true,
      List.filter_true, List.append_nil, grantedBy, step]
    split
    · rename_i g hg
      obtain ⟨hq, hh⟩ := Gate.queue_tryAcquire hg
      rw [Gate.newlyServed_of_eq hh, List.nil_append]
      exact hq
    · rw [hidle, List.nil_append]
  | drop n =>
    simp only [quitsBy, arrivesBy, List.append_nil, grantedBy, step]
    split
    · simp only [List.not_mem_nil, not_false_eq_true, decide_true, List.filter_true]
      exact Gate.newlyServed_giveBack rfl (fun u hu => hu) hdisjoint
    · split
      · show l.gate.newlyServed (l.gate.leave n) ++ (l.gate.leave n).queue = _
        unfold Gate.leave
        split
        · rename_i hh
          -- Who has a permit in hand does not queue, so the queue loses nobody but its head.
          have hrest : l.gate.queue.filter (· ∉ [n]) = l.gate.queue := by
            rw [List.filter_eq_self]
            intro u hu
            have : u ≠ n := fun he => h.ledger.not_mem_queue hh (he ▸ hu)
            simpa using this
          rw [hrest]
          exact Gate.newlyServed_giveBack rfl (fun u hu => List.mem_of_mem_erase hu) hdisjoint
        · -- Who queues leaves the line, and those behind move up.
          rw [Gate.newlyServed_of_eq, List.nil_append]
          · show l.gate.queue.erase n = _
            rw [(List.nodup_append.mp h.ledger.nodup).2.1.erase_eq_filter]
            refine List.filter_congr fun u _ => ?_
            by_cases hu : u = n <;> simp [hu]
          · rfl
      · simp only [List.not_mem_nil, not_false_eq_true, decide_true, List.filter_true]
        rw [hidle, List.nil_append]
  | close =>
    -- After this the gate would be closed.
    cases hopen

/-! ## Whole runs -/

/-- Permits are given to those who queued and then to those who came, in this order. -/
theorem grants_append_queue_sublist {l : Lobby Name} {c : Nat} (h : l.Sound c)
    {ms : List (Move Name)} (hopen : (l.run ms).1.gate.closed = false) :
    (l.grants ms ++ (l.run ms).1.gate.queue).Sublist (l.gate.queue ++ l.arrivals ms) := by
  induction ms generalizing l with
  | nil => simp [grants, arrivals, history]
  | cons m ms ih =>
    have hstep := grantedBy_append_queue h m (open_of_run hopen)
    have hhead : (l.grantedBy m ++ (l.step m).1.gate.queue).Sublist
        (l.gate.queue ++ l.arrivesBy m) := by
      rw [hstep]
      exact List.filter_sublist
    have htail := ih (sound_step h m) hopen
    show ((l.grantedBy m ++ (l.step m).1.grants ms) ++ ((l.step m).1.run ms).1.gate.queue).Sublist
      (l.gate.queue ++ (l.arrivesBy m ++ (l.step m).1.arrivals ms))
    calc ((l.grantedBy m ++ (l.step m).1.grants ms) ++ ((l.step m).1.run ms).1.gate.queue).Sublist
          (l.grantedBy m ++ ((l.step m).1.gate.queue ++ (l.step m).1.arrivals ms)) := by
            rw [List.append_assoc]
            exact htail.append_left _
      List.Sublist _ (l.gate.queue ++ (l.arrivesBy m ++ (l.step m).1.arrivals ms)) := by
            rw [← List.append_assoc, ← List.append_assoc]
            exact hhead.append_right _

/-- Who came and did not go away was given a permit or still queues. -/
theorem mem_grants_or_mem_queue {l : Lobby Name} {c : Nat} (h : l.Sound c)
    {ms : List (Move Name)} (hopen : (l.run ms).1.gate.closed = false) {n : Name}
    (hn : n ∈ l.gate.queue ++ l.arrivals ms) (hstays : n ∉ l.quitters ms) :
    n ∈ l.grants ms ++ (l.run ms).1.gate.queue := by
  induction ms generalizing l with
  | nil => simpa [grants, arrivals, history] using hn
  | cons m ms ih =>
    have hstep := grantedBy_append_queue h m (open_of_run hopen)
    obtain ⟨hnow, hlater⟩ : n ∉ l.quitsBy m ∧ n ∉ (l.step m).1.quitters ms := by
      simpa [quitters, history] using hstays
    have hcases : n ∈ l.gate.queue ++ l.arrivesBy m ∨ n ∈ (l.step m).1.arrivals ms := by
      simpa [arrivals, history, or_assoc] using hn
    have hrest : n ∈ (l.step m).1.gate.queue ++ (l.step m).1.arrivals ms →
        n ∈ l.grants (m :: ms) ++ (l.run (m :: ms)).1.gate.queue := by
      intro hin
      have := ih (sound_step h m) hopen hin hlater
      rw [List.mem_append] at this ⊢
      exact this.imp_left (List.mem_append_right _)
    rcases hcases with hin | hin
    · have hmem : n ∈ l.grantedBy m ++ (l.step m).1.gate.queue := by
        rw [hstep, List.mem_filter]
        exact ⟨hin, by simpa using hnow⟩
      rcases List.mem_append.mp hmem with hg | hq
      · exact List.mem_append_left _ (List.mem_append_left _ hg)
      · exact hrest (List.mem_append_left _ hq)
    · exact hrest (List.mem_append_right _ hin)

/-! ## Who comes before whom -/

/-- Who queues does not arrive. -/
theorem not_mem_arrivesBy {l : Lobby Name} {c : Nat} (h : l.Sound c) (m : Move Name) {a : Name}
    (ha : a ∈ l.gate.queue) : a ∉ l.arrivesBy m := by
  have hw : a ∈ l.waiters := h.ledger.waits a (List.mem_append_right _ ha)
  cases m with
  | acquire n =>
    by_cases hn : n ∈ l.waiters
    · simp [arrivesBy, hn]
    · have hne : a ≠ n := fun he => hn (he ▸ hw)
      simp [arrivesBy, hn, hne]
  | _ => simp [arrivesBy]

/-- Nobody gets ahead of someone who queues: whoever does not stand before `a` does not stand before
`a` after a move either, nor is given a permit by it before `a` is. -/
theorem not_ahead_of_step {l : Lobby Name} {c : Nat} (h : l.Sound c) (m : Move Name)
    (hopen : (l.step m).1.gate.closed = false) {a b : Name} (ha : a ∈ l.gate.queue)
    (hb : ¬ [b, a].Sublist l.gate.queue) :
    ¬ [b, a].Sublist (l.grantedBy m ++ (l.step m).1.gate.queue) := by
  rw [grantedBy_append_queue h m hopen]
  intro hline
  have harrives := not_mem_arrivesBy h m ha
  -- The last of the two, `a`, did not arrive, so both stood in the line before.
  obtain ⟨stood, came, he, hstood, hcame⟩ :=
    List.sublist_append_iff.mp (hline.trans List.filter_sublist)
  rcases List.eq_nil_or_concat came with rfl | ⟨came', x, rfl⟩
  · rw [List.append_nil] at he
    exact hb (he ▸ hstood)
  · have hx : x = a := by
      have hlast := congrArg List.getLast? he
      simpa [eq_comm] using hlast
    exact harrives (hcame.subset (by simp [hx]))

/-- Whoever queues is given a permit before all who do not stand before it, unless it goes away. -/
theorem mem_grants_before {l : Lobby Name} {c : Nat} (h : l.Sound c) {ms : List (Move Name)}
    (hopen : (l.run ms).1.gate.closed = false) {a b : Name} (ha : a ∈ l.gate.queue)
    (hstays : a ∉ l.quitters ms) (hne : a ≠ b) (hb : ¬ [b, a].Sublist l.gate.queue)
    {earlier later : List Name} (hgrants : l.grants ms = earlier ++ b :: later) : a ∈ earlier := by
  induction ms generalizing l earlier with
  | nil =>
    have := congrArg List.length hgrants
    simp [grants, history] at this
  | cons m ms ih =>
    have hstep : (l.step m).1.gate.closed = false := open_of_run hopen
    obtain ⟨hnow, hlater⟩ : a ∉ l.quitsBy m ∧ a ∉ (l.step m).1.quitters ms := by
      simpa [quitters, history] using hstays
    have hline := not_ahead_of_step h m hstep ha hb
    have hin : a ∈ l.grantedBy m ++ (l.step m).1.gate.queue := by
      rw [grantedBy_append_queue h m hstep, List.mem_filter]
      exact ⟨List.mem_append_left _ ha, by simpa using hnow⟩
    have hsplit : l.grantedBy m ++ (l.step m).1.grants ms = earlier ++ b :: later := hgrants
    -- The permit of `b` is given by this move or by a later one.
    rcases List.append_eq_append_iff.mp hsplit with ⟨rest, rfl, hrest⟩ | ⟨rest, hg, hrest⟩
    · rcases List.mem_append.mp hin with hg | hq
      · exact List.mem_append_left _ hg
      · refine List.mem_append_right _ (ih (sound_step h m) hopen hq hlater ?_ hrest)
        exact fun hahead => hline (hahead.trans (List.sublist_append_right _ _))
    · cases rest with
      | nil =>
        rw [List.append_nil] at hg
        rcases List.mem_append.mp hin with hga | hq
        · rwa [hg] at hga
        · have hnone : a ∈ ([] : List Name) := ih (sound_step h m) hopen hq hlater
            (fun hahead => hline (hahead.trans (List.sublist_append_right _ _))) hrest.symm
          cases hnone
      | cons x rest =>
        obtain ⟨rfl, -⟩ := List.cons_eq_cons.mp hrest
        rw [hg, List.append_assoc, List.cons_append] at hin hline
        exact List.mem_of_not_sublist hin hne hline

/-! ## No lost permit, no overtaking -/

/-- Whoever drops what is called `n` passes a permit on: the oldest in the queue has it in hand from
then on, and where there is no queue it becomes free. -/
def PassesOn (l : Lobby Name) (n : Name) : Prop :=
  let after := (l.step (.drop n)).1.gate
  let kept := if n ∈ l.permits then l.gate.handed else l.gate.handed.erase n
  match l.gate.queue with
  | [] => after.available = l.gate.available + 1 ∧ after.handed = kept ∧ after.queue = []
  | t :: rest =>
    after.available = l.gate.available ∧ after.handed = kept ++ [t] ∧ after.queue = rest

theorem passesOn_of_owned {l : Lobby Name} {n : Name} (hn : n ∈ l.permits ∨ n ∈ l.served) :
    l.PassesOn n := by
  have hgive : ∃ g : Gate Name, (l.step (.drop n)).1.gate = g.giveBack ∧
      g.available = l.gate.available ∧ g.queue = l.gate.queue ∧
      g.handed = if n ∈ l.permits then l.gate.handed else l.gate.handed.erase n := by
    by_cases hp : n ∈ l.permits
    · refine ⟨{ l.gate with inFlight := l.gate.inFlight - 1 }, ?_, rfl, rfl, ?_⟩
      · simp only [step, if_pos hp]
        rfl
      · rw [if_pos hp]
    · obtain ⟨hw, hh⟩ : n ∈ l.waiters ∧ n ∈ l.gate.handed := by
        simpa [served] using hn.resolve_left hp
      refine ⟨{ l.gate with handed := l.gate.handed.erase n }, ?_, rfl, rfl, ?_⟩
      · simp only [step, if_neg hp, if_pos hw, Gate.leave, if_pos hh]
      · rw [if_neg hp]
  obtain ⟨g, hgate, havailable, hqueue, hhanded⟩ := hgive
  unfold PassesOn
  simp only [hgate, ← havailable, ← hqueue, ← hhanded]
  cases hq : g.queue with
  | nil =>
    rw [Gate.giveBack_of_nil hq]
    exact ⟨rfl, rfl, hq⟩
  | cons t rest =>
    rw [Gate.giveBack_of_cons hq]
    exact ⟨rfl, rfl, rfl⟩

theorem admitted_tryAcquire_iff {l : Lobby Name} (hopen : l.gate.closed = false) (n : Name) :
    (l.step (.tryAcquire n)).2 = .admitted ↔ 0 < l.gate.available := by
  rw [← Gate.isSome_tryAcquire hopen]
  simp only [step]
  split
  · rename_i g hg
    simp [hg]
  · rename_i hg
    simp [hg]

/-- **No lost permit, no overtaking.** In every state of a gate that is still open:

* where someone queues no permit is free, and on a gate with any permits at all one is held or in
  hand;
* giving up a permit that is held or in hand serves the oldest in the queue;
* an attempt to take a permit succeeds exactly if one is free, and then nobody queues;
* whoever waits has a permit in hand or queues, and whoever came and did not go away has been given
  a permit or queues;
* permits were given in the order in which waiting began, those who still queue being the last;
* whatever moves follow, while the gate stays open whoever queues is given a permit before all who
  do not stand before it, be they in the queue or still to come, unless it goes away. -/
theorem open_gate_serves_in_order {capacity : Nat} {g : Gate Name}
    (hg : Gate.ofCapacity? capacity = some g) (ms : List (Move Name))
    (hopen : ((start g).run ms).1.gate.closed = false) :
    let l := ((start g).run ms).1
    (l.gate.queue ≠ [] → l.gate.available = 0 ∧
      (0 < capacity → l.permits ≠ [] ∨ l.served ≠ [])) ∧
    (∀ n, n ∈ l.permits ∨ n ∈ l.served → l.PassesOn n) ∧
    (∀ n, ((l.step (.tryAcquire n)).2 = .admitted ↔ 0 < l.gate.available) ∧
      ((l.step (.tryAcquire n)).2 = .admitted → l.gate.queue = [])) ∧
    (∀ n ∈ l.waiters, n ∈ l.served ∨ n ∈ l.gate.queue) ∧
    (∀ n ∈ (start g).arrivals ms, n ∉ (start g).quitters ms →
      n ∈ (start g).grants ms ++ l.gate.queue) ∧
    ((start g).grants ms ++ l.gate.queue).Sublist ((start g).arrivals ms) ∧
    ∀ next : List (Move Name), (l.run next).1.gate.closed = false → ∀ a ∈ l.gate.queue,
      a ∉ l.quitters next → ∀ b, a ≠ b → ¬ [b, a].Sublist l.gate.queue →
      ∀ earlier later, l.grants next = earlier ++ b :: later → a ∈ earlier := by
  obtain rfl := Gate.eq_fresh_of_ofCapacity? hg
  intro l
  have hsound : l.Sound capacity := sound_run (sound_start capacity) ms
  have hopen : l.gate.closed = false := hopen
  refine ⟨?_, fun n hn => passesOn_of_owned hn, fun n => ⟨admitted_tryAcquire_iff hopen n, ?_⟩, ?_,
    fun n hn hstays => mem_grants_or_mem_queue (sound_start capacity) hopen hn hstays,
    grants_append_queue_sublist (sound_start capacity) hopen, ?_⟩
  · intro hne
    have hfull := hsound.ledger.full hne
    have htotal := hsound.ledger.total
    refine ⟨hfull, fun hcapacity => ?_⟩
    by_contra hnone
    rw [not_or, not_not, not_not] at hnone
    have hserved := hsound.length_served
    rw [hnone.2, List.length_nil] at hserved
    rw [hnone.1, List.length_nil] at htotal
    omega
  · intro htry
    have hfree := (admitted_tryAcquire_iff hopen n).mp htry
    by_contra hne
    have := hsound.ledger.full hne
    omega
  · intro n hn
    have hmem := hsound.ledger.listed hopen n hn
    rcases List.mem_append.mp hmem with hh | hq
    · left
      simpa [served] using ⟨hn, hh⟩
    · exact .inr hq
  · intro next hnext a ha hstays b hne hb earlier later hgrants
    exact mem_grants_before hsound hnext ha hstays hne hb hgrants

/-- One permit and four callers: the third goes away, the first gives its permit up, and the second
is given it before the fourth. -/
theorem open_gate_serves_in_order_four :
    let first : Lobby Nat := start (Gate.fresh 1)
    let ms : List (Move Nat) := [.acquire 1, .acquire 2, .acquire 3, .acquire 4, .drop 3]
    let next : List (Move Nat) := [.drop 1, .poll 2, .drop 2]
    let l := (first.run ms).1
    Gate.ofCapacity? 1 = some first.gate ∧ l.gate.closed = false ∧ l.permits = [1] ∧
    l.gate.queue = [2, 4] ∧ first.arrivals ms = [1, 2, 3, 4] ∧ first.quitters ms = [3] ∧
    l.grants next = [2] ++ 4 :: [] ∧ (l.run next).1.gate.closed = false ∧
    l.gate.available = 0 ∧ l.PassesOn 1 ∧
    (first.grants ms ++ l.gate.queue).Sublist (first.arrivals ms) ∧ 2 ∈ [2] := by
  intro first ms next l
  have hg : Gate.ofCapacity? 1 = some (Gate.fresh 1 : Gate Nat) := by decide
  have hgrants : l.grants next = [2] ++ 4 :: [] := by decide
  obtain ⟨hqueue, hpasses, -, -, -, horder, hahead⟩ := open_gate_serves_in_order hg ms (by decide)
  refine ⟨by decide, by decide, by decide, by decide, by decide, by decide, hgrants, by decide,
    ?_, ?_, ?_, ?_⟩
  · exact (hqueue (by decide)).1
  · exact hpasses 1 (by decide)
  · exact horder
  · exact hahead next (by decide) 2 (by decide) (by decide) 4 (by decide) (by decide) [2] [] hgrants

end StageLens.Lobby

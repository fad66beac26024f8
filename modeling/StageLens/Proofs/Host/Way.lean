import StageLens.Host.Basic
import StageLens.Proofs.Host.Tree

/-!
# The way along a path

Where a path leads depends on the places that are looked at on its way and on nothing else.

* `lookedFrom` are these places; trees that agree on them agree on where the path leads
  (`followFrom_congr`).
* Where a path leads to something, all places on its way are there (`isSome_of_followFrom`), so that
  it leads there in every tree that has grown from this one.
* A path through a directory goes to the directory first and on from there (`followFrom_append`).
-/

namespace StageLens.Host

open StageLens.Tree (Reached)

/-! ## One name -/

/-- What comes of one name on the way down. -/
inductive Pace where
  | failed (e : HostError)
  | goes (place : Place)
  | absent
  | link (target : Bytes)

/-- Whether a name is looked up in the directory where it stands. -/
def isLookedUp (name : Bytes) : Bool :=
  name != Path.here && name != Path.above && decide (name.length ≤ nameLimit)

def pace (t : Tree) (place : Place) (name : Bytes) : Pace :=
  if t.get? place ≠ some .directory then .failed .notDirectory
  else if name = Path.here then .goes place
  else if name = Path.above then .goes place.dropLast
  else if nameLimit < name.length then .failed .nameTooLong
  else match t.get? (place ++ [name]) with
    | none => .absent
    | some (.link target) => .link target
    | some _ => .goes (place ++ [name])

variable {t t' : Tree} {follow : Bool} {place D : Place} {name : Bytes} {names rest : List Bytes}
variable {hops : Nat} {n : Node}

theorem isLookedUp_of_ne (hhere : name ≠ Path.here) (habove : name ≠ Path.above)
    (hlimit : ¬ nameLimit < name.length) : isLookedUp name = true := by
  have hlength : name.length ≤ nameLimit := by omega
  simp [isLookedUp, hhere, habove, hlength]

/-- The way down goes name by name. -/
theorem descend_cons (t : Tree) (follow : Bool) (place : Place) (name : Bytes)
    (rest : List Bytes) :
    descend t follow place (name :: rest) = match pace t place name with
      | .failed e => .failed e
      | .goes p => descend t follow p rest
      | .absent => if rest.isEmpty then .reached (.missing place name) else .failed .notFound
      | .link target =>
        if rest.isEmpty && !follow then .reached (.there (place ++ [name]) (.link target))
        else .link place target rest := by
  unfold pace
  rw [descend]
  split
  · rfl
  · split
    · rfl
    · split
      · rfl
      · split
        · rfl
        · cases t.get? (place ++ [name]) with
          | none => rfl
          | some m => cases m <;> rfl

theorem pace_congr (hplace : t'.get? place = t.get? place)
    (hname : isLookedUp name = true → t'.get? (place ++ [name]) = t.get? (place ++ [name])) :
    pace t' place name = pace t place name := by
  unfold pace
  rw [hplace]
  split
  · rfl
  · split
    · rfl
    · rename_i hhere
      split
      · rfl
      · rename_i habove
        split
        · rfl
        · rename_i hlimit
          have hup := isLookedUp_of_ne hhere habove hlimit
          rw [hname hup]

/-- The cases of one name. -/
inductive Paced (t : Tree) (place : Place) (name : Bytes) : Pace → Prop
  | barred : t.get? place ≠ some .directory → Paced t place name (.failed .notDirectory)
  | here : t.get? place = some .directory → isLookedUp name = false →
      Paced t place name (.goes place)
  | above : t.get? place = some .directory → isLookedUp name = false →
      Paced t place name (.goes place.dropLast)
  | tooLong : t.get? place = some .directory → isLookedUp name = false →
      Paced t place name (.failed .nameTooLong)
  | absent : t.get? place = some .directory → isLookedUp name = true →
      t.get? (place ++ [name]) = none → Paced t place name .absent
  | link (target : Bytes) : t.get? place = some .directory → isLookedUp name = true →
      t.get? (place ++ [name]) = some (.link target) → Paced t place name (.link target)
  | down (n : Node) : t.get? place = some .directory → isLookedUp name = true →
      t.get? (place ++ [name]) = some n → (∀ target, n ≠ .link target) →
      Paced t place name (.goes (place ++ [name]))

theorem paced (t : Tree) (place : Place) (name : Bytes) :
    Paced t place name (pace t place name) := by
  unfold pace
  split
  · rename_i hdir
    exact .barred hdir
  · rename_i hdir
    have hplace : t.get? place = some .directory := by simpa using hdir
    split
    · rename_i hhere
      exact .here hplace (by simp [isLookedUp, hhere])
    · rename_i hhere
      split
      · rename_i habove
        exact .above hplace (by simp [isLookedUp, habove])
      · rename_i habove
        split
        · rename_i hlimit
          refine .tooLong hplace ?_
          have : ¬ name.length ≤ nameLimit := by omega
          simp [isLookedUp, this]
        · rename_i hlimit
          have hup := isLookedUp_of_ne hhere habove hlimit
          split
          · rename_i hnone
            exact .absent hplace hup hnone
          · rename_i target hlink
            exact .link target hplace hup hlink
          · rename_i n hlink hn
            exact .down n hplace hup hn (fun target he => hlink target (he ▸ rfl))

/-! ## The places on the way -/

/-- The places that are looked at on the way down to the end of a path or to the next link. -/
def looked (t : Tree) (place : Place) : List Bytes → List Place
  | [] => [place]
  | name :: rest =>
    place :: (if isLookedUp name then [place ++ [name]] else []) ++
      match pace t place name with
      | .goes p => looked t p rest
      | _ => []

/-- The places that are looked at on the way along a path, through at most so many links. -/
def lookedFrom (t : Tree) (follow : Bool) : Nat → Place → List Bytes → List Place
  | hops, place, names =>
    looked t place names ++
      match descend t follow place names with
      | .link directory target rest =>
        match hops with
        | 0 => []
        | hops + 1 =>
          lookedFrom t follow hops (if Path.isAbsolute target then [] else directory)
            (steps target ++ rest)
      | _ => []

/-- The places that are looked at where a path is followed to its end. -/
def way (h : Host) (p : Bytes) : List Place :=
  lookedFrom h.tree true linkLimit (if Path.isAbsolute p then [] else h.cwd) (steps p)

theorem mem_looked_cons {q : Place} : q ∈ looked t place (name :: rest) ↔
    q = place ∨ (isLookedUp name = true ∧ q = place ++ [name]) ∨
      ∃ p, pace t place name = .goes p ∧ q ∈ looked t p rest := by
  rw [looked]
  cases isLookedUp name <;> cases pace t place name <;> simp

/-! ## Trees that agree on the way -/

theorem descend_congr (h : ∀ q ∈ looked t place names, t'.get? q = t.get? q) :
    descend t' follow place names = descend t follow place names ∧
      looked t' place names = looked t place names := by
  induction names generalizing place with
  | nil =>
    have hplace := h place (by simp [looked])
    simp [descend, looked, hplace]
  | cons name rest ih =>
    have hpace := pace_congr (h place (mem_looked_cons.mpr (.inl rfl)))
      (fun hup => h _ (mem_looked_cons.mpr (.inr (.inl ⟨hup, rfl⟩))))
    rw [descend_cons, descend_cons, looked, looked, hpace]
    cases hp : pace t place name with
    | goes p =>
      obtain ⟨hd, hl⟩ := ih fun q hq => h q (mem_looked_cons.mpr (.inr (.inr ⟨p, hp, hq⟩)))
      exact ⟨hd, by dsimp only; rw [hl]⟩
    | _ => exact ⟨rfl, rfl⟩

theorem mem_lookedFrom {q : Place} : q ∈ lookedFrom t follow hops place names ↔
    q ∈ looked t place names ∨ ∃ directory target rest k,
      descend t follow place names = .link directory target rest ∧ hops = k + 1 ∧
      q ∈ lookedFrom t follow k (if Path.isAbsolute target then [] else directory)
        (steps target ++ rest) := by
  rw [lookedFrom, List.mem_append]
  cases descend t follow place names with
  | link directory target rest => cases hops <;> simp
  | _ => simp

/-- Trees that agree on the places on its way agree on where a path leads. -/
theorem followFrom_congr (h : ∀ q ∈ lookedFrom t follow hops place names, t'.get? q = t.get? q) :
    followFrom t' follow hops place names = followFrom t follow hops place names ∧
      lookedFrom t' follow hops place names = lookedFrom t follow hops place names := by
  induction hops generalizing place names with
  | zero =>
    obtain ⟨hd, hl⟩ := descend_congr fun q hq => h q (mem_lookedFrom.mpr (.inl hq))
    rw [followFrom, followFrom, lookedFrom, lookedFrom, hd, hl]
    exact ⟨rfl, rfl⟩
  | succ hops ih =>
    obtain ⟨hd, hl⟩ := descend_congr fun q hq => h q (mem_lookedFrom.mpr (.inl hq))
    rw [followFrom, followFrom, lookedFrom, lookedFrom, hd, hl]
    cases hd : descend t follow place names with
    | link directory target rest =>
      obtain ⟨hf, hr⟩ := ih fun q hq => h q (mem_lookedFrom.mpr (.inr ⟨_, _, _, _, hd, rfl, hq⟩))
      exact ⟨hf, by dsimp only; rw [hr]⟩
    | _ => exact ⟨rfl, rfl⟩

/-! ## Trips -/

/-- A path that leads somewhere, link by link. -/
inductive Trip (t : Tree) (follow : Bool) : Nat → Place → List Bytes → Reached → Prop
  | arrive (hops : Nat) (place : Place) (names : List Bytes) (r : Reached) :
      descend t follow place names = .reached r → Trip t follow hops place names r
  | hop (hops : Nat) (place : Place) (names : List Bytes) (r : Reached) (directory : Place)
      (target : Bytes) (rest : List Bytes) :
      descend t follow place names = .link directory target rest →
      Trip t follow hops (if Path.isAbsolute target then [] else directory)
        (steps target ++ rest) r →
      Trip t follow (hops + 1) place names r

theorem trip_of_followFrom {r : Reached} (h : followFrom t follow hops place names = .ok r) :
    Trip t follow hops place names r := by
  induction hops generalizing place names with
  | zero =>
    rw [followFrom] at h
    cases hd : descend t follow place names with
    | reached r' =>
      rw [hd] at h
      cases h
      exact .arrive _ _ _ _ hd
    | failed e => rw [hd] at h; cases h
    | link directory target rest => rw [hd] at h; cases h
  | succ hops ih =>
    rw [followFrom] at h
    cases hd : descend t follow place names with
    | reached r' =>
      rw [hd] at h
      cases h
      exact .arrive _ _ _ _ hd
    | failed e => rw [hd] at h; cases h
    | link directory target rest =>
      rw [hd] at h
      exact .hop _ _ _ _ _ _ _ hd (ih h)

theorem Trip.followFrom {r : Reached} (h : Trip t follow hops place names r) :
    followFrom t follow hops place names = .ok r := by
  induction h with
  | arrive hops place names r hd => rw [Host.followFrom, hd]
  | hop hops place names r directory target rest hd _ ih =>
    rw [Host.followFrom, hd]
    exact ih

/-! ## What is on the way to something -/

/-- Where the way down ends at something or at a link, all places on it are there. -/
theorem isSome_of_descend (ht : t.Proper) (hplace : (t.get? place).isSome)
    (h : (∃ D n, descend t follow place names = .reached (.there D n)) ∨
      ∃ D target r, descend t follow place names = .link D target r) :
    ∀ q ∈ looked t place names, (t.get? q).isSome := by
  induction names generalizing place with
  | nil =>
    intro q hq
    rw [looked, List.mem_singleton] at hq
    rwa [hq]
  | cons name rest ih =>
    rw [descend_cons] at h
    intro q hq
    rw [mem_looked_cons] at hq
    have hpaced := paced t place name
    generalize pace t place name = a at *
    rcases hq with rfl | ⟨hup, rfl⟩ | ⟨p, rfl, hq⟩
    · exact hplace
    · cases hpaced with
      | barred _ => rcases h with ⟨D, n, h⟩ | ⟨D, target, r, h⟩ <;> cases h
      | here _ hnot => rw [hup] at hnot; cases hnot
      | above _ hnot => rw [hup] at hnot; cases hnot
      | tooLong _ hnot => rw [hup] at hnot; cases hnot
      | absent _ _ _ =>
        dsimp only at h
        split at h <;> rcases h with ⟨D, n, h⟩ | ⟨D, target, r, h⟩ <;> cases h
      | link target _ _ hlink => rw [hlink]; rfl
      | down n _ _ hn _ => rw [hn]; rfl
    · cases hpaced with
      | here hdir _ => exact ih hplace h q hq
      | above hdir _ =>
        -- What is above a place that is there is there too.
        obtain ⟨m, hm⟩ := ht.dropLast hdir
        exact ih (by rw [hm]; rfl) h q hq
      | down n _ _ hn _ => exact ih (by rw [hn]; rfl) h q hq

/-- Where a link stands is a directory. -/
theorem directory_of_descend {target : Bytes} {r : List Bytes}
    (h : descend t follow place names = .link D target r) : t.get? D = some .directory := by
  induction names generalizing place with
  | nil => cases h
  | cons name rest ih =>
    rw [descend_cons] at h
    have hpaced := paced t place name
    generalize pace t place name = a at *
    cases hpaced with
    | link target hdir _ _ =>
      dsimp only at h
      split at h
      · cases h
      · cases h
        exact hdir
    | absent _ _ _ =>
      dsimp only at h
      split at h <;> cases h
    | barred _ => cases h
    | tooLong _ _ => cases h
    | here _ _ => exact ih h
    | above _ _ => exact ih h
    | down _ _ _ _ _ => exact ih h

/-- Where a path leads to something, all places on its way are there. -/
theorem isSome_of_followFrom (ht : t.Proper) (hplace : (t.get? place).isSome)
    (h : followFrom t follow hops place names = .ok (.there D n)) :
    ∀ q ∈ lookedFrom t follow hops place names, (t.get? q).isSome := by
  have htrip := trip_of_followFrom h
  clear h
  generalize hr : Reached.there D n = r at htrip
  induction htrip with
  | arrive hops place names r hd =>
    subst hr
    intro q hq
    rcases mem_lookedFrom.mp hq with hq | ⟨_, _, _, _, hl, _⟩
    · exact isSome_of_descend ht hplace (.inl ⟨D, n, hd⟩) q hq
    · rw [hd] at hl
      cases hl
  | hop hops place names r directory target rest hd _ ih =>
    intro q hq
    rcases mem_lookedFrom.mp hq with hq | ⟨_, _, _, _, hl, hk, hq⟩
    · exact isSome_of_descend ht hplace (.inr ⟨_, _, _, hd⟩) q hq
    · rw [hd] at hl
      cases hl
      cases hk
      refine ih ?_ hr q hq
      -- From a link the way goes on at the root or where the link stands, and both are there.
      split
      · rfl
      · rw [directory_of_descend hd]
        rfl

/-- A path that leads anywhere starts at a directory. -/
theorem directory_of_followFrom {r : Reached} (hne : names ≠ [])
    (h : followFrom t follow hops place names = .ok r) : t.get? place = some .directory := by
  by_contra hdir
  cases names with
  | nil => exact hne rfl
  | cons first rest =>
    rw [followFrom, descend_cons, pace, if_pos hdir] at h
    cases h

/-- What a path misses is a name that is looked up in a directory and is not there. -/
theorem missing_of_descend (h : descend t follow place names = .reached (.missing D name)) :
    t.get? D = some .directory ∧ isLookedUp name = true ∧ t.get? (D ++ [name]) = none := by
  induction names generalizing place with
  | nil => cases h
  | cons first names ih =>
    rw [descend_cons] at h
    have hpaced := paced t place first
    generalize pace t place first = a at *
    cases hpaced with
    | absent hdir hup hnone =>
      dsimp only at h
      split at h
      · cases h
        exact ⟨hdir, hup, hnone⟩
      · cases h
    | link target _ _ _ =>
      dsimp only at h
      split at h <;> cases h
    | barred _ => cases h
    | tooLong _ _ => cases h
    | here _ _ => exact ih h
    | above _ _ => exact ih h
    | down _ _ _ _ _ => exact ih h

theorem missing_of_followFrom
    (h : followFrom t follow hops place names = .ok (.missing D name)) :
    t.get? D = some .directory ∧ isLookedUp name = true ∧ t.get? (D ++ [name]) = none := by
  have htrip := trip_of_followFrom h
  clear h
  generalize hr : Reached.missing D name = r at htrip
  induction htrip with
  | arrive hops place names r hd =>
    subst hr
    exact missing_of_descend hd
  | hop hops place names r directory target rest hd _ ih => exact ih hr

/-- What a path misses on the way down is its last name. -/
theorem getLast?_of_descend (h : descend t follow place names = .reached (.missing D name)) :
    names.getLast? = some name := by
  induction names generalizing place with
  | nil => cases h
  | cons first names ih =>
    rw [descend_cons] at h
    have hgoes : ∀ p, descend t follow p names = .reached (.missing D name) →
        (first :: names).getLast? = some name := by
      intro p hp
      have hlast := ih hp
      rw [List.getLast?_cons, hlast]
      rfl
    have hpaced := paced t place first
    generalize pace t place first = a at *
    cases hpaced with
    | absent _ _ _ =>
      dsimp only at h
      split at h
      · rename_i hempty
        cases h
        rw [List.isEmpty_iff.mp hempty]
        rfl
      · cases h
    | link target _ _ _ =>
      dsimp only at h
      split at h <;> cases h
    | barred _ => cases h
    | tooLong _ _ => cases h
    | here _ _ => exact hgoes _ h
    | above _ _ => exact hgoes _ h
    | down _ _ _ _ _ => exact hgoes _ h

/-- A link that is followed on the way down stands before the last name. -/
theorem suffix_of_descend {target : Bytes}
    (h : descend t false place names = .link D target rest) : rest ≠ [] ∧ rest <:+ names := by
  induction names generalizing place with
  | nil => cases h
  | cons first names ih =>
    rw [descend_cons] at h
    have hgoes : ∀ p, descend t false p names = .link D target rest →
        rest ≠ [] ∧ rest <:+ first :: names := by
      intro p hp
      obtain ⟨hne, hsuffix⟩ := ih hp
      exact ⟨hne, hsuffix.trans (List.suffix_cons first names)⟩
    have hpaced := paced t place first
    generalize pace t place first = a at *
    cases hpaced with
    | absent _ _ _ =>
      dsimp only at h
      split at h <;> cases h
    | link target _ _ _ =>
      dsimp only at h
      split at h
      · cases h
      · rename_i hne
        cases h
        exact ⟨by simpa using hne, List.suffix_cons first _⟩
    | barred _ => cases h
    | tooLong _ _ => cases h
    | here _ _ => exact hgoes _ h
    | above _ _ => exact hgoes _ h
    | down _ _ _ _ _ => exact hgoes _ h

/-- What a path misses is its last name, whatever links it leads through. -/
theorem getLast?_of_followFrom
    (h : followFrom t false hops place names = .ok (.missing D name)) :
    names.getLast? = some name := by
  have htrip := trip_of_followFrom h
  clear h
  generalize hr : Reached.missing D name = r at htrip
  induction htrip with
  | arrive hops place names r hd =>
    subst hr
    exact getLast?_of_descend hd
  | hop hops place names r directory target rest hd _ ih =>
    obtain ⟨hne, front, hnames⟩ := suffix_of_descend hd
    have hlast := ih hr
    rw [List.getLast?_append_of_ne_nil _ hne] at hlast
    rw [← hnames, List.getLast?_append_of_ne_nil _ hne, hlast]

/-! ## Paths through a directory -/

/-- The way down through more names goes on where the way through the first ones ends. -/
theorem descend_append (hrest : rest ≠ []) :
    descend t follow place (names ++ rest) = match descend t true place names with
      | .reached (.there D _) => descend t follow D rest
      | .reached (.missing _ _) => .failed .notFound
      | .link D target r => .link D target (r ++ rest)
      | .failed e => .failed e := by
  induction names generalizing place with
  | nil => rfl
  | cons name names ih =>
    rw [List.cons_append, descend_cons, descend_cons]
    cases pace t place name with
    | failed e => rfl
    | goes p => exact ih
    | absent =>
      dsimp only
      rw [if_neg (by simp [hrest])]
      split <;> rename_i h
      · split at h <;> cases h
      · rfl
      · split at h <;> cases h
      · split at h
        · cases h
        · cases h
          rfl
    | link target =>
      -- More names follow, so that the link is gone through whether `follow` or not.
      dsimp only
      rw [if_neg (by simp [hrest]), if_neg (by simp)]

theorem mem_looked_append {q : Place} (hrest : rest ≠ []) :
    q ∈ looked t place (names ++ rest) ↔ q ∈ looked t place names ∨
      ∃ D n, descend t true place names = .reached (.there D n) ∧ q ∈ looked t D rest := by
  induction names generalizing place with
  | nil =>
    have hhead : place ∈ looked t place rest := by
      cases rest with
      | nil => exact absurd rfl hrest
      | cons name rest => exact mem_looked_cons.mpr (.inl rfl)
    constructor
    · intro hq
      exact .inr ⟨_, _, rfl, hq⟩
    · rintro (hq | ⟨D, n, hd, hq⟩)
      · rw [looked, List.mem_singleton] at hq
        rwa [hq]
      · cases hd
        exact hq
  | cons name names ih =>
    rw [List.cons_append, mem_looked_cons, mem_looked_cons, descend_cons]
    cases hp : pace t place name with
    | goes p =>
      simp only [Pace.goes.injEq, exists_eq_left', ih]
      tauto
    | absent =>
      have hnever : ∀ D n, (if names.isEmpty then Leg.reached (.missing place name)
          else .failed .notFound) ≠ .reached (.there D n) := by
        intro D n h
        split at h <;> cases h
      simp only [hnever, false_and, exists_false, or_false, reduceCtorEq]
    | link target => simp
    | failed e => simp

theorem followFrom_append_of_descend (follow : Bool) (hrest : rest ≠ [])
    (hd : descend t true place names = .reached (.there D n)) :
    followFrom t follow hops place (names ++ rest) = followFrom t follow hops D rest ∧
      ∀ q, q ∈ lookedFrom t follow hops place (names ++ rest) ↔
        q ∈ lookedFrom t true hops place names ∨ q ∈ lookedFrom t follow hops D rest := by
  have hfull : descend t follow place (names ++ rest) = descend t follow D rest := by
    rw [descend_append hrest, hd]
  constructor
  · rw [followFrom, followFrom.eq_def t follow hops D rest, hfull]
  · intro q
    rw [mem_lookedFrom, mem_lookedFrom, mem_lookedFrom, hfull, mem_looked_append hrest, hd]
    simp only [Leg.reached.injEq, Reached.there.injEq, reduceCtorEq, false_and, exists_false,
      false_or, and_assoc, exists_and_left, exists_eq_left', or_assoc]

/-- A path through a directory goes to the directory and on from there, through as many links as are
left. -/
theorem followFrom_append (follow : Bool) (hrest : rest ≠ [])
    (h : followFrom t true hops place names = .ok (.there D n)) :
    ∃ left, followFrom t follow hops place (names ++ rest) = followFrom t follow left D rest ∧
      ∀ q, q ∈ lookedFrom t follow hops place (names ++ rest) ↔
        q ∈ lookedFrom t true hops place names ∨ q ∈ lookedFrom t follow left D rest := by
  have htrip := trip_of_followFrom h
  clear h
  generalize hr : Reached.there D n = r at htrip
  induction htrip with
  | arrive hops place names r hd =>
    subst hr
    exact ⟨hops, followFrom_append_of_descend follow hrest hd⟩
  | hop hops place names r directory target tail hd _ ih =>
    obtain ⟨left, hfollow, hlooked⟩ := ih hr
    have hfull : descend t follow place (names ++ rest) =
        .link directory target (tail ++ rest) := by
      rw [descend_append hrest, hd]
    refine ⟨left, ?_, fun q => ?_⟩
    · rw [Host.followFrom, hfull]
      dsimp only
      rw [← List.append_assoc, hfollow]
    · rw [mem_lookedFrom, mem_lookedFrom, hfull, hd, mem_looked_append hrest, hd]
      simp only [Leg.link.injEq, reduceCtorEq, false_and, exists_false, or_false, and_assoc,
        exists_and_left, exists_eq_left', Nat.add_right_cancel_iff]
      rw [← List.append_assoc, hlooked, or_assoc]

/-- What a path through a directory leads to or misses, is found from that directory. -/
theorem exists_of_followFrom_append {r : Reached} (hrest : rest ≠ [])
    (h : followFrom t follow hops place (names ++ rest) = .ok r) :
    ∃ D n, followFrom t true hops place names = .ok (.there D n) := by
  have htrip := trip_of_followFrom h
  clear h
  generalize hall : names ++ rest = all at htrip
  induction htrip generalizing names with
  | arrive hops place all r hd =>
    rw [← hall, descend_append hrest] at hd
    cases hfirst : descend t true place names with
    | reached r' =>
      cases r' with
      | there D n => exact ⟨D, n, (Trip.arrive _ _ _ _ hfirst).followFrom⟩
      | missing D name => rw [hfirst] at hd; cases hd
    | failed e => rw [hfirst] at hd; cases hd
    | link directory target tail => rw [hfirst] at hd; cases hd
  | hop hops place all r directory target tail hd _ ih =>
    rw [← hall, descend_append hrest] at hd
    cases hfirst : descend t true place names with
    | reached r' =>
      rw [hfirst] at hd
      cases r' with
      | there D n => exact ⟨D, n, (Trip.arrive _ _ _ _ hfirst).followFrom⟩
      | missing D name => cases hd
    | failed e => rw [hfirst] at hd; cases hd
    | link directory' target' tail' =>
      -- It is the link that the whole path comes to, and behind it are the names that are left.
      rw [hfirst] at hd
      cases hd
      obtain ⟨D, n, hfound⟩ := ih (List.append_assoc _ _ _)
      exact ⟨D, n, (Trip.hop _ _ _ _ _ _ _ hfirst (trip_of_followFrom hfound)).followFrom⟩

/-- A path that ends before its last names fails in the same way whatever these names are. -/
theorem followFrom_append_error {rest' : List Bytes} {follow' : Bool} (hrest : rest ≠ [])
    (hrest' : rest' ≠ [])
    (hnot : ∀ D n, followFrom t true hops place names ≠ .ok (.there D n)) :
    ∃ e, followFrom t follow hops place (names ++ rest) = .error e ∧
      followFrom t follow' hops place (names ++ rest') = .error e := by
  induction hops generalizing place names with
  | zero =>
    rw [followFrom] at hnot
    rw [followFrom, followFrom, descend_append hrest, descend_append hrest']
    cases hfirst : descend t true place names with
    | reached r =>
      cases r with
      | there D n => rw [hfirst] at hnot; exact absurd rfl (hnot D n)
      | missing D name => exact ⟨_, rfl, rfl⟩
    | failed e => exact ⟨e, rfl, rfl⟩
    | link directory target tail => exact ⟨_, rfl, rfl⟩
  | succ hops ih =>
    rw [followFrom] at hnot
    rw [followFrom, followFrom, descend_append hrest, descend_append hrest']
    cases hfirst : descend t true place names with
    | reached r =>
      cases r with
      | there D n => rw [hfirst] at hnot; exact absurd rfl (hnot D n)
      | missing D name => exact ⟨_, rfl, rfl⟩
    | failed e => exact ⟨e, rfl, rfl⟩
    | link directory target tail =>
      rw [hfirst] at hnot
      dsimp only
      rw [← List.append_assoc, ← List.append_assoc]
      exact ih hnot

/-! ## Going down by names that are there -/

theorem pace_of_node (hdir : t.get? place = some .directory) (hup : isLookedUp name = true)
    (hn : t.get? (place ++ [name]) = some n) (hlink : ∀ target, n ≠ .link target) :
    pace t place name = .goes (place ++ [name]) := by
  have hpaced := paced t place name
  generalize pace t place name = a at *
  cases hpaced with
  | barred hnot => exact absurd hdir hnot
  | here _ hnot => rw [hup] at hnot; cases hnot
  | above _ hnot => rw [hup] at hnot; cases hnot
  | tooLong _ hnot => rw [hup] at hnot; cases hnot
  | absent _ _ hnone => rw [hn] at hnone; cases hnone
  | link target _ _ hl =>
    rw [hn] at hl
    exact absurd (Option.some.inj hl) (hlink target)
  | down _ _ _ _ _ => rfl

/-- A path with the name of a directory more leads into that directory. -/
theorem followFrom_child (follow : Bool) (ht : t.Proper) (hup : isLookedUp name = true)
    (hfound : followFrom t true hops place names = .ok (.there D n))
    (hmade : t.get? (D ++ [name]) = some .directory) :
    followFrom t follow hops place (names ++ [name]) = .ok (.there (D ++ [name]) .directory) := by
  obtain ⟨left, hleft, -⟩ := followFrom_append follow (List.cons_ne_nil name []) hfound
  rw [hleft, followFrom, descend_cons, pace_of_node (ht _ _ _ hmade) hup hmade (by simp)]
  dsimp only
  rw [descend, hmade]
  rfl

theorem pace_of_none (hdir : t.get? place = some .directory) (hup : isLookedUp name = true)
    (hn : t.get? (place ++ [name]) = none) : pace t place name = .absent := by
  have hpaced := paced t place name
  generalize pace t place name = a at *
  cases hpaced with
  | barred hnot => exact absurd hdir hnot
  | here _ hnot => rw [hup] at hnot; cases hnot
  | above _ hnot => rw [hup] at hnot; cases hnot
  | tooLong _ hnot => rw [hup] at hnot; cases hnot
  | absent _ _ _ => rfl
  | link _ _ _ hl => rw [hn] at hl; cases hl
  | down _ _ _ hl _ => rw [hn] at hl; cases hl

/-- Where the last name of a path is missing, it is the name that was asked for. -/
theorem eq_of_followFrom_singleton {D' : Place} {name' : Bytes}
    (h : followFrom t false hops D [name] = .ok (.missing D' name')) : D' = D ∧ name' = name := by
  rw [followFrom, descend_cons] at h
  cases hp : pace t D name with
  | failed e => rw [hp] at h; cases h
  | goes p => rw [hp] at h; cases h
  | link target => rw [hp] at h; cases h
  | absent =>
    rw [hp] at h
    cases h
    exact ⟨rfl, rfl⟩

end StageLens.Host

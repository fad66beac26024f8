import StageLens.Toml.Basic

/-!
# Equality of values

Whether two values of documents are equal can be decided, tables and arrays included. Entries count
with their order, and tables with how they came to be.
-/

namespace StageLens.Toml

mutual

/-- Whether two values are the same. -/
def Value.same : Value → Value → Bool
  | .text s, .text t => s == t
  | .integer i, .integer j => i == j
  | .float x, .float y => decide (x = y)
  | .boolean b, .boolean c => b == c
  | .moment, .moment => true
  | .array vs, .array ws => sameItems vs ws
  | .tables vs, .tables ws => sameItems vs ws
  | .table o es, .table p fs => decide (o = p) && sameEntries es fs
  | _, _ => false

def Value.sameItems : List Value → List Value → Bool
  | [], [] => true
  | v :: vs, w :: ws => v.same w && sameItems vs ws
  | _, _ => false

def Value.sameEntries : List (String × Value) → List (String × Value) → Bool
  | [], [] => true
  | (n, v) :: es, (m, w) :: fs => n == m && v.same w && sameEntries es fs
  | _, _ => false

end

namespace Value

mutual

theorem eq_of_same : ∀ {v w : Value}, v.same w = true → v = w
  | .text s, .text t, h => by simpa [same] using h
  | .integer i, .integer j, h => by simpa [same] using h
  | .float x, .float y, h => by simpa [same] using h
  | .boolean b, .boolean c, h => by simpa [same] using h
  | .moment, .moment, _ => rfl
  | .array vs, .array ws, h => congrArg array (eq_of_sameItems (by simpa [same] using h))
  | .tables vs, .tables ws, h => congrArg tables (eq_of_sameItems (by simpa [same] using h))
  | .table o es, .table p fs, h => by
    rw [same, Bool.and_eq_true, decide_eq_true_eq] at h
    rw [h.1, eq_of_sameEntries h.2]

theorem eq_of_sameItems : ∀ {vs ws : List Value}, sameItems vs ws = true → vs = ws
  | [], [], _ => rfl
  | v :: vs, w :: ws, h => by
    rw [sameItems, Bool.and_eq_true] at h
    rw [eq_of_same h.1, eq_of_sameItems h.2]

theorem eq_of_sameEntries : ∀ {es fs : List (String × Value)}, sameEntries es fs = true → es = fs
  | [], [], _ => rfl
  | (n, v) :: es, (m, w) :: fs, h => by
    rw [sameEntries, Bool.and_eq_true, Bool.and_eq_true, beq_iff_eq] at h
    rw [h.1.1, eq_of_same h.1.2, eq_of_sameEntries h.2]

end

mutual

theorem same_self : ∀ v : Value, v.same v = true
  | .text s => by simp [same]
  | .integer i => by simp [same]
  | .float x => by simp [same]
  | .boolean b => by simp [same]
  | .moment => rfl
  | .array vs => by rw [same, sameItems_self vs]
  | .tables vs => by rw [same, sameItems_self vs]
  | .table o es => by simp [same, sameEntries_self es]

theorem sameItems_self : ∀ vs : List Value, sameItems vs vs = true
  | [] => rfl
  | v :: vs => by rw [sameItems, same_self v, sameItems_self vs, Bool.and_self]

theorem sameEntries_self : ∀ es : List (String × Value), sameEntries es es = true
  | [] => rfl
  | (n, v) :: es => by rw [sameEntries, same_self v, sameEntries_self es, beq_self_eq_true]; rfl

end

theorem same_iff {v w : Value} : v.same w = true ↔ v = w := by
  constructor
  · exact eq_of_same
  · rintro rfl
    exact same_self v

instance : DecidableEq Value := fun _ _ => decidable_of_iff _ same_iff

end Value

end StageLens.Toml

import StageLens.Proofs.Json.Documents
import StageLens.Wire.Reading

/-!
# Reading documents that were written

The readers of single values take back what was written, and the members of an object are taken one
after the other.
-/

namespace StageLens.Wire

open StageLens.Json (Draft Document draft draftItems)

/-! ## Members -/

section Members

variable {α σ : Type} {step : σ → String → Draft → Read σ} {init : σ} {key : String} {d : Draft}
variable {members : List (Option String × Draft)} {stop : Option Json.Break}

theorem foldMembers_nil : foldMembers step init [] none = .ok init := rfl

theorem foldMembers_cons : foldMembers step init ((some key, d) :: members) stop =
    (step init key d).bind fun next => foldMembers step next members stop := by
  unfold foldMembers
  rw [List.foldlM_cons]
  exact bind_assoc (step init key d) _ _

/-- An object goes on as its first member says. -/
theorem foldMembers_of_step {next : σ} (h : step init key d = .ok next) :
    foldMembers step init ((some key, d) :: members) stop = foldMembers step next members stop := by
  rw [foldMembers_cons, h]
  rfl

end Members

/-! ## Values -/

theorem wrongType_ne_ok {α : Type} (d : Draft) (expected : Decode.Shape) (a : α) :
    wrongType d expected ≠ .ok a := by
  unfold wrongType
  cases found d <;> exact nofun

theorem mapM_asText (texts : List String) :
    (draftItems (texts.map .text)).mapM asText = .ok texts := by
  induction texts with
  | nil => rfl
  | cons s rest ih =>
    rw [List.map_cons, draftItems, List.mapM_cons, ih]
    rfl

theorem asTexts_draft (texts : List String) :
    asTexts (draft (.array (texts.map .text))) = .ok texts := by
  rw [draft, asTexts, mapM_asText]
  rfl

/-- Every exit code is read as it was written. -/
theorem asInt32_draft (code : Int32) : asInt32 (draft (.integer code.toInt)) = .ok code := by
  have hlow := code.minValue_le_toInt
  have hhigh := code.toInt_le
  have hmin : Int32.minValue.toInt = -2 ^ 31 := rfl
  have hmax : Int32.maxValue.toInt = 2 ^ 31 - 1 := rfl
  have hvalue := Json.value_numeral (i := code.toInt) (by omega) (by omega)
  have hfound : found (draft (.integer code.toInt)) = .ok (.integer code.toInt) := by
    rw [draft, found, hvalue]
  rw [asInt32, hfound]
  show (if _ then Except.ok (Int32.ofInt code.toInt) else _) = _
  rw [if_pos ⟨hlow, hhigh⟩, Int32.ofInt_toInt]

/-! ## Documents -/

theorem document_of_read {α : Type} {reader : Draft → Read α} {root : Draft} {text : List Char}
    (hread : Json.read text = ⟨root, false⟩) : document reader text = reader root := by
  rw [document, hread]
  cases reader root <;> rfl

end StageLens.Wire

import Mathlib.Data.List.Nodup
import Mathlib.Data.List.Perm.Subperm
import StageLens.Proofs.Workspace

/-!
# Names of workspaces

The name of a workspace is a numeral after a common prefix, so different numbers have different
names, and so have the paths under one directory.
-/

namespace StageLens.Workspace

/-- What a digit of a name stands for. -/
def digitValue (b : UInt8) : Nat := if b < 58 then b.toNat - 48 else b.toNat - 87

/-- The number that a numeral stands for. -/
def numeral (bs : Bytes) : Nat := bs.foldl (fun n b => 16 * n + digitValue b) 0

variable {n m : Nat} {dir : Bytes}

theorem numeral_digit (cs : List Char) {k : Nat} (hk : k < 16) :
    numeral (Text.encode (cs ++ [Nat.digitChar k])) = 16 * numeral (Text.encode cs) + k := by
  have hdigit : ∀ k : Fin 16,
      (String.utf8EncodeChar (Nat.digitChar k)).map digitValue = [k.val] := by
    decide +kernel
  obtain ⟨b, hb, hvalue⟩ := List.map_eq_singleton_iff.mp (hdigit ⟨k, hk⟩)
  have hone : Text.encode (cs ++ [Nat.digitChar k]) = Text.encode cs ++ [b] := by
    unfold Text.encode
    rw [List.flatMap_append, List.flatMap_singleton, hb]
  rw [hone, numeral, List.foldl_append, List.foldl_cons, List.foldl_nil, hvalue]
  rfl

/-- Digits after zeros stand for their number. -/
theorem numeral_toDigits (n : Nat) {zeros : List Char}
    (hzeros : numeral (Text.encode zeros) = 0) :
    numeral (Text.encode (zeros ++ Nat.toDigits 16 n)) = n := by
  induction n using Nat.strongRecOn with
  | _ n ih =>
    rw [Nat.toDigits_eq_if (by decide)]
    split
    · rename_i hlt
      rw [numeral_digit zeros hlt, hzeros]
      omega
    · rename_i hge
      rw [← List.append_assoc, numeral_digit _ (Nat.mod_lt n (by decide)), ih (n / 16) (by omega)]
      omega

theorem numeral_zeros (k : Nat) : numeral (Text.encode (List.replicate k '0')) = 0 := by
  induction k with
  | zero => rfl
  | succ k ih =>
    have hzero := numeral_digit (List.replicate k '0') (k := 0) (by decide)
    rw [ih] at hzero
    rw [List.replicate_succ']
    exact hzero

/-- **Different numbers have different names.** -/
theorem nameOf_injective : Function.Injective nameOf := by
  intro n m h
  have hdigits := List.append_cancel_left h
  have hvalue := congrArg numeral hdigits
  rw [numeral_toDigits n (numeral_zeros _), numeral_toDigits m (numeral_zeros _)] at hvalue
  exact hvalue

/-- Workspaces of different numbers have different paths in a directory. -/
theorem join_nameOf_injective (hd : Path.isAbsolute dir = true) :
    Function.Injective fun n => Path.join dir (nameOf n) := by
  intro n m h
  have hparts := congrArg Path.parts h
  dsimp only at hparts
  have hne := Path.ne_nil_of_isAbsolute hd
  rw [Path.parts_join hne (isName_nameOf n), Path.parts_join hne (isName_nameOf m)] at hparts
  have hname := List.append_cancel_left hparts
  exact nameOf_injective (List.singleton_inj.mp hname)

/-- The number that is chosen has a name that is not taken. -/
theorem nameOf_freshNumber_notMem (names : List Bytes) (n : Nat) :
    nameOf (freshNumber names n) ∉ names := by
  unfold freshNumber
  cases hfind : (List.range (names.length + 1)).find? fun k => !names.contains (nameOf (n + k)) with
  | some k =>
    have hk := List.find?_some hfind
    simpa using hk
  | none =>
    -- One name more than there are would be taken, all of them different.
    exfalso
    have htaken : (List.range (names.length + 1)).map (fun k => nameOf (n + k)) ⊆ names := by
      intro name hname
      obtain ⟨k, hk, rfl⟩ := List.mem_map.mp hname
      have hnot := List.find?_eq_none.mp hfind k hk
      simpa using hnot
    have hnodup : ((List.range (names.length + 1)).map fun k => nameOf (n + k)).Nodup :=
      List.Nodup.map (fun i j hij => Nat.add_left_cancel (nameOf_injective hij)) List.nodup_range
    have hle := (List.Nodup.subperm hnodup htaken).length_le
    rw [List.length_map, List.length_range] at hle
    omega

end StageLens.Workspace

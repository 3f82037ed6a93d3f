import Mcpp.Conformance
import Mcpp.WriteDefaults

/-! What the writer writes denotes what it was handed, so the reader reads that back. -/
namespace Mcpp.RoundTrip
open Buffers Documents Config ReadConfig Conformance WriteDefaults

variable {F : Floating}

/- A member that is not of the struct is not written. -/
theorem encodeOther {members : Members} {k : Bytes} (other : k ∉ members.names) (values : members.Values F)
    (entries : Entries F) : encodeMembers members values entries k = entries k := by
  cases members with
  | nil => rfl
  | cons member type rest =>
    obtain ⟨value, values⟩ := values
    refine (encodeOther (List.not_mem_of_not_mem_cons other) values _).trans ?_
    exact Function.update_of_ne (List.ne_of_not_mem_cons other) ..

theorem elementsEncode {α : Type} {denotes : Node F → α → Prop} {encode : α → Node F}
    (each : ∀ value, denotes (encode value) value) (values : List α) : List.Forall₂ denotes (values.map encode) values := by
  induction values with
  | nil => exact .nil
  | cons value values ih => exact .cons (each value) ih

mutual
theorem denotesEncode (t : ConfigType) (distinct : t.Distinct) (value : t.Value F) : Denotes t (encode t value) value := by
  cases t with
  | int => exact (BitVec.toInt_signExtend_of_le (by decide)).symm
  | string => rfl
  | bool => rfl
  | float => exact (F.exact value).symm
  | double => rfl
  | vector element => exact elementsEncode (denotesEncode element distinct) value
  | struct structName members => exact denotesMembers members distinct value fun _ => none
theorem denotesMembers (members : Members) (distinct : members.Distinct) (values : members.Values F) (entries : Entries F) :
    DenotesMembers members (encodeMembers members values entries) values := by
  cases members with
  | nil => trivial
  | cons member type rest =>
    obtain ⟨value, values⟩ := values
    obtain ⟨fresh, head, tail⟩ := distinct
    refine ⟨⟨encode type value, ?_, denotesEncode type head value⟩, denotesMembers rest tail values _⟩
    refine (encodeOther fresh values _).trans ?_
    exact Function.update_self ..
end

/- A default is written under its name. -/
theorem writesMember (fresh : (t : ConfigType) → t.Value F) (t : ConfigType) (entries : Entries F) (name : Bytes)
    (value : t.Value F) : visit WriteDefaults.visitor fresh t (some name) value (.fresh entries) =
      .ok (value, .fresh (Function.update entries name (some (encode t value)))) := by
  have found : (DefaultWriter.fresh entries).root.at [] = some (.table entries) := rfl
  exact writes fresh t value rfl found ⟨name, rfl⟩

theorem roundTrip (fresh : (t : ConfigType) → t.Value F) (t : ConfigType) (distinct : t.Distinct) (v v0 : t.Value F)
    (entries : Entries F) (name : Bytes) :
    ∃ after r, visit WriteDefaults.visitor fresh t (some name) v (.fresh entries) = .ok (v, .fresh after) ∧
      visit ReadConfig.visitor fresh t (some name) v0 (.fresh after) = .ok (v, r) ∧ r.ok = true ∧
      ∀ k, k ≠ name → after k = entries k := by
  have read := readsMember fresh t (Function.update entries name (some (encode t v))) name v0
  rw [Function.update_self, readDenoted fresh t v0 (denotesEncode t distinct v)] at read
  obtain ⟨r, run, ok⟩ := read
  exact ⟨_, r, writesMember fresh t entries name v, run, ok, fun k other => Function.update_of_ne other ..⟩

/- A vector of structs, over a value of another length. -/
theorem roundTripNested :
    ∃ after r, visit (F := integral) WriteDefaults.visitor (zero (0 : Int) (0 : Int))
        (.vector (.struct [83] (.cons [97] .string (.cons [112] .int .nil)))) (some [112])
        [([49], 25565#32, ()), ([50], 80#32, ())] (.fresh fun _ => none) =
          .ok ([([49], 25565#32, ()), ([50], 80#32, ())], .fresh after) ∧
      visit (F := integral) ReadConfig.visitor (zero (0 : Int) (0 : Int))
        (.vector (.struct [83] (.cons [97] .string (.cons [112] .int .nil)))) (some [112]) [([], 7#32, ())] (.fresh after) =
          .ok ([([49], 25565#32, ()), ([50], 80#32, ())], r) ∧ r.ok = true ∧
      ∀ k, k ≠ [112] → after k = none :=
  roundTrip (F := integral) (zero (0 : Int) (0 : Int)) (.vector (.struct [83] (.cons [97] .string (.cons [112] .int .nil))))
    ⟨by decide, trivial, List.not_mem_nil, trivial, trivial⟩ _ _ _ _

end Mcpp.RoundTrip

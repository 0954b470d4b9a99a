import Rollcall.Proofs.Registration
import Rollcall.Registry.Error
import Rollcall.RegistryLink

/-!
# What is read of what comes back

The registry tells its refusals by their status and a text, and an instance goes by the status alone,
`RegistryError.afar`. What is granted is read back: an identifier as it is, `readId_mint`, and a list
with each registration in its normal form, `readList_render`.
-/

namespace Rollcall

open Text (Bytes)

/-- What a refusal of the registry is to an instance at the other end of a link. Of the cause only
the status is left. -/
def RegistryError.afar : RegistryError → MemberError
  | unregistered _ | unauthorized => .unauthorized
  | malformed _ => .status .badRequest
  | notFound .. | unknownHeartbeatKind _ => .status .notFound
  | deliveryFailed .. | configuration _ | io _ => .status .internalServerError

namespace RegistryLink

/-! ## Refusals -/

theorem granted_failure (e : RegistryError) (body : Bytes) :
    granted (e.status, body) = .error e.afar := by
  cases e with
  | _ => rfl

theorem readNothing_failure (e : RegistryError) (body : Bytes) :
    readNothing (e.status, body) = .error e.afar := by
  rw [readNothing, granted_failure]
  rfl

theorem readId_failure (e : RegistryError) (body : Bytes) :
    readId (e.status, body) = .error e.afar := by
  rw [readId, granted_failure]
  rfl

theorem readList_failure (e : RegistryError) (body : Bytes) :
    readList (e.status, body) = .error e.afar := by
  rw [readList, granted_failure]
  rfl

/-! ## Grants -/

theorem readText_ofString (s : String) : readText (Text.Utf8.ofString s) = .ok s := by
  rw [readText, Text.Utf8.ofString, Text.Utf8.fault?_encode, Text.Utf8.lossy_encode,
    String.ofList_toList]

theorem readId_mint (supply : IdSupply) (n : Nat) :
    readId (.ok, Text.Utf8.ofString (supply.mint n).text) = .ok (supply.mint n) := by
  have hread : readText (Text.Utf8.ofString (supply.mint n).text) = .ok (supply.mint n).text :=
    readText_ofString _
  simp only [readId, granted, if_true, hread, bind, Except.bind, supply.clean, supply.given,
    Bool.false_eq_true, if_false]

theorem readList_render (regs : List Registration) :
    readList (.ok, (Json.Value.array (regs.map Registration.toJson)).render) =
      .ok (regs.map Registration.normal) := by
  have hsound : (Json.Value.array (regs.map Registration.toJson)).Sound := by
    refine Json.Value.sound_array fun v hv => ?_
    obtain ⟨reg, -, rfl⟩ := List.mem_map.mp hv
    exact reg.sound_toJson
  have hread : (Json.Value.array (regs.map Registration.toJson)).list? Registration.ofJson? =
      some (regs.map Registration.normal) := Json.list?_map fun reg _ => reg.ofJson?_toJson
  simp only [readList, granted, if_true, bind, Except.bind, Json.Value.ofBytes?_render hsound,
    Option.bind_some, hread]

end RegistryLink
end Rollcall

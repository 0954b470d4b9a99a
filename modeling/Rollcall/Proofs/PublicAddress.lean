import Rollcall.Proofs.Link.Reply
import Rollcall.Proofs.Net.IPv4
import Rollcall.PublicAddress

/-!
# What counts as an address in an answer

An echo service tells an address if its answer is granted and its body is the written form of that
address, with space around it. `finds_canonical` says that nothing else is taken for an address, and
how the rest is refused: by its status if that is not 200, whatever the body, and as malformed
otherwise.
-/

namespace Rollcall

open Http (Status)
open Text (Bytes)

theorem RegistryLink.readText_of_fault {body : Bytes} {fault : Text.Utf8.Fault}
    (h : Text.Utf8.fault? body = some fault) :
    readText body = .error (.malformed (.notText fault)) := by
  rw [readText, h]

namespace PublicAddress

/-- Whether a body is the written form of an address, with space around it. The space may be any
white space of Unicode. -/
def Tells (body : Bytes) (ip : Net.IPv4) : Prop :=
  ∃ text, body = Text.Utf8.ofString text ∧ Text.trimmed text = ip.text

theorem tells_ofString {text : String} {ip : Net.IPv4} :
    Tells (Text.Utf8.ofString text) ip ↔ Net.IPv4.ofText? (Text.trimmed text) = some ip := by
  rw [Net.IPv4.ofText?_eq_some_iff]
  constructor
  · rintro ⟨other, hother, htrimmed⟩
    rw [← String.toList_inj.mp (Text.Utf8.encode_inj hother)] at htrimmed
    exact htrimmed
  · intro h
    exact ⟨text, rfl, h⟩

/-! ## The three checks -/

theorem read_of_status {status : Status} (h : status ≠ .ok) (body : Bytes) :
    read status body = .error (.status status) := by
  simp only [read, if_pos h, bind, Except.bind]

theorem read_of_fault {body : Bytes} {fault : Text.Utf8.Fault}
    (h : Text.Utf8.fault? body = some fault) :
    read .ok body = .error (.malformed (.notText fault)) := by
  simp only [read, ne_eq, not_true_eq_false, if_false, bind, Except.bind,
    RegistryLink.readText_of_fault h]

theorem read_ofString (text : String) : read .ok (Text.Utf8.ofString text) =
    match Net.IPv4.ofText? (Text.trimmed text) with
    | some ip => .ok ip
    | none => .error (.malformed (.notAddress (Text.trimmed text))) := by
  cases htold : Net.IPv4.ofText? (Text.trimmed text) <;>
    simp only [read, ne_eq, not_true_eq_false, if_false, bind, Except.bind,
      RegistryLink.readText_ofString, htold]

/-- What reading an answer comes to: an address, a status that is no answer, or a body that tells
none. -/
inductive Reading (status : Status) (body : Bytes) : Except MemberError Net.IPv4 → Prop
  | found (ip : Net.IPv4) (granted : status = .ok) (tells : Tells body ip) :
      Reading status body (.ok ip)
  | refused (refused : status ≠ .ok) : Reading status body (.error (.status status))
  | malformed (flaw : AnswerFlaw) (granted : status = .ok) (untold : ∀ ip, ¬ Tells body ip) :
      Reading status body (.error (.malformed flaw))

theorem reading_read (status : Status) (body : Bytes) : Reading status body (read status body) := by
  by_cases hstatus : status = .ok
  · subst hstatus
    cases hfault : Text.Utf8.fault? body with
    | some fault =>
        rw [read_of_fault hfault]
        refine .malformed _ rfl fun ip htells => ?_
        obtain ⟨text, rfl, -⟩ := htells
        rw [Text.Utf8.fault?_eq_none_iff.mpr ⟨text, rfl⟩] at hfault
        cases hfault
    | none =>
        obtain ⟨text, rfl⟩ := Text.Utf8.fault?_eq_none_iff.mp hfault
        rw [read_ofString]
        split
        · next ip hip => exact .found ip rfl (tells_ofString.mpr hip)
        · next hnone =>
          refine .malformed _ rfl fun ip htells => ?_
          rw [tells_ofString.mp htells] at hnone
          cases hnone
  · rw [read_of_status hstatus]
    exact .refused hstatus

/-- A body tells one address at most. -/
theorem Tells.unique {body : Bytes} {ip other : Net.IPv4} (h : Tells body ip)
    (hother : Tells body other) : ip = other := by
  obtain ⟨text, rfl, htrimmed⟩ := h
  have hread := tells_ofString.mp ⟨text, rfl, htrimmed⟩
  rw [tells_ofString.mp hother] at hread
  exact (Option.some.inj hread).symm

/-- Once a request can leave, whatever answers it in time is taken for an address exactly if it is
granted and tells that address. Any other answer is refused by its status, or as malformed if it is
granted. -/
theorem finds_canonical {address : String} {sent : Http.Outgoing} (h : request address = .ok sent)
    (timeout : Duration) (status : Status) (body : Bytes) :
    let found := discover address timeout (.answered status body)
    (∀ ip, found = .ok ip ↔ status = .ok ∧ Tells body ip) ∧
      (∀ other, found = .error (.status other) ↔ status ≠ .ok ∧ other = status) ∧
      ((∃ flaw, found = .error (.malformed flaw)) ↔ status = .ok ∧ ∀ ip, ¬ Tells body ip) := by
  have hread : discover address timeout (.answered status body) = read status body := by
    rw [discover, h]
    rfl
  intro found
  rw [show found = read status body from hread]
  have hreading := reading_read status body
  -- Each reading says how it came about, and the three cases exclude one another.
  generalize read status body = result at hreading
  cases hreading with
  | found ip granted tells =>
      refine ⟨fun other => ⟨?_, ?_⟩, fun other => ⟨nofun, fun h => absurd granted h.1⟩, nofun, ?_⟩
      · rintro ⟨⟩
        exact ⟨granted, tells⟩
      · rintro ⟨-, hother⟩
        rw [tells.unique hother]
      · rintro ⟨-, huntold⟩
        exact absurd tells (huntold ip)
  | refused refused =>
      refine ⟨fun ip => ⟨nofun, fun h => absurd h.1 refused⟩, fun other => ⟨?_, ?_⟩, nofun,
        fun h => absurd h.1 refused⟩
      · rintro ⟨⟩
        exact ⟨refused, rfl⟩
      · rintro ⟨-, rfl⟩
        rfl
  | malformed flaw granted untold =>
      exact ⟨fun ip => ⟨nofun, fun h => absurd h.2 (untold ip)⟩,
        fun other => ⟨nofun, fun h => absurd granted h.1⟩, fun _ => ⟨granted, untold⟩,
        fun _ => ⟨flaw, rfl⟩⟩

/-- An answer with an ideographic space before the address and a line end behind it is taken, one
with a zero too much is not. -/
theorem spaced_answer_is_taken :
    let answer (text : String) := discover "http://api.ipify.org?format=text" (.ofSeconds 5)
      (.answered .ok (Text.Utf8.ofString text))
    answer "\u3000203.0.113.7\r\n" = .ok ⟨203, 0, 113, 7⟩ ∧
      ∃ flaw, answer "203.0.113.07" = .error (.malformed flaw) := by
  intro answer
  obtain ⟨sent, hsent⟩ : ∃ sent, request "http://api.ipify.org?format=text" = .ok sent := by
    have hleaves : (request "http://api.ipify.org?format=text").isOk = true := by decide +kernel
    cases hsent : request "http://api.ipify.org?format=text" with
    | ok sent => exact ⟨sent, rfl⟩
    | error e =>
        rw [hsent] at hleaves
        cases hleaves
  have hfinds (text : String) := finds_canonical hsent (.ofSeconds 5) .ok (Text.Utf8.ofString text)
  constructor
  · have hread : Net.IPv4.ofText? (Text.trimmed "\u3000203.0.113.7\r\n") =
        some ⟨203, 0, 113, 7⟩ := by decide +kernel
    exact ((hfinds "\u3000203.0.113.7\r\n").1 _).mpr ⟨rfl, tells_ofString.mpr hread⟩
  · have hread : Net.IPv4.ofText? (Text.trimmed "203.0.113.07") = none := by decide +kernel
    refine (hfinds "203.0.113.07").2.2.mpr ⟨rfl, fun ip htells => ?_⟩
    rw [tells_ofString.mp htells] at hread
    cases hread

end PublicAddress
end Rollcall

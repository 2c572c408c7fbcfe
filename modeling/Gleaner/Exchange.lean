/-
# Exchanges in bytes

A caller hands over a content and a request as bytes and is handed a JSON text or the text of an
error. A content that is not there is empty; a request ends at its first zero byte. What the caller
is handed ends at a zero byte and holds no other: a JSON text that holds one is a fault, and in the
text of an error a blank stands in its place. Where the harvest breaks off, the caller is handed
nothing.

Key definitions: `Harvest.toSerial`, `Exchange.Fault`, `Exchange.answer`, `Exchange.errorText`,
`Exchange.Reply`, `Exchange.reply`.
-/
import Gleaner.Harvest.Format
import Gleaner.Json.Serial
import Gleaner.Request

namespace Gleaner

/-- A harvest as it is handed to the writing of JSON: the values that were found by their keys, and
the keys of those that were not. -/
def Harvest.toSerial (harvest : Harvest) : Serial :=
  let found := harvest.values.entries.filter fun e => e.2.isFound
  let missing := harvest.values.entries.filter fun e => !e.2.isFound
  .map [
    (.string "values", .map (found.map fun e => (.string e.1, e.2.toJson.toSerial))),
    (.string "not_found", .sequence (missing.map fun e => .string e.1))]

end Gleaner

namespace Gleaner.Exchange

open Gleaner

/-- Why an exchange yields no JSON text. -/
inductive Fault where
  | contentNotUtf8
  | noRequest
  | requestNotUtf8
  | unreadableRequest
  | failed (failure : Failure)
  /-- The harvest is not written as JSON text. -/
  | unwritten (fault : Serial.Fault)
  /-- The JSON text of the harvest holds a zero byte. -/
  | zeroInHarvest

/-- The wording of a fault. -/
def Fault.message : Fault → String
  | .contentNotUtf8 => "Invalid UTF-8 in content"
  | .noRequest => "Request JSON is null"
  | .requestNotUtf8 => "Invalid UTF-8 in request JSON"
  | .unreadableRequest => "Failed to parse request JSON"
  | .failed failure => s!"Extraction failed: {failure.message}"
  | .unwritten fault => s!"Failed to serialize result: {fault.message}"
  | .zeroInHarvest => "Result JSON contains null bytes"

/-- A library met the fault, and has a remark on it in its own words. -/
def Fault.isRemarked : Fault → Bool
  | .unreadableRequest | .failed .notJson => true
  | .failed (.selector (.unusable _ (.invalidCompound _))) => true
  | _ => false

/-- What is told of a fault: its wording, behind which stands the remark of the library that met
it. -/
def Fault.told (remark : Fault → String) (fault : Fault) : String :=
  if fault.isRemarked then fault.message ++ remark fault else fault.message

/-- The bytes before the first zero byte. -/
def untilZero (bytes : ByteArray) : ByteArray :=
  ⟨(bytes.data.toList.takeWhile (· != 0)).toArray⟩

/-- The text of a content. -/
def contentOf (content : Option ByteArray) : Except Fault String :=
  match content with
  | none => .ok ""
  | some bytes =>
    match String.fromUTF8? bytes with
    | some text => .ok text
    | none => .error .contentNotUtf8

/-- The request that bytes write. -/
def requestOf (request : Option ByteArray) : Except Fault Request :=
  match request with
  | none => .error .noRequest
  | some bytes =>
    match String.fromUTF8? (untilZero bytes) with
    | none => .error .requestNotUtf8
    | some text =>
      match Request.read? text with
      | some request => .ok request
      | none => .error .unreadableRequest

/-- A text that a zero byte can end, since it holds none itself. -/
def terminated? (text : String) : Option String :=
  if text.toList.contains '\x00' then none else some text

/-- The JSON text of a harvest, unless it is not written or holds a zero byte. -/
def sealed (harvest : Harvest) : Except Fault String :=
  match harvest.toSerial.write? with
  | .error fault => .error (.unwritten fault)
  | .ok text =>
    match terminated? text with
    | some text => .ok text
    | none => .error .zeroInHarvest

/-- What a caller gets for a content and a request. -/
def answer (format : Format) (content request : Option ByteArray) : Except Fault String := do
  let text ← contentOf content
  let request ← requestOf request
  let harvest ← (format.harvest text request.options.fallback request.selection).mapError .failed
  sealed harvest

/-- A text with a blank in place of each zero byte. -/
def blanked (text : String) : String :=
  String.ofList (text.toList.map fun c => if c = '\x00' then ' ' else c)

/-- The text of an error as a caller gets it. -/
def errorText (fault : Fault) : String :=
  blanked fault.message

/-- What a caller is handed: two texts, each of which may be missing. -/
structure Reply where
  json : Option String
  error : Option String
  deriving DecidableEq, Repr

/-- The reply that tells an error; a text that a zero byte cannot end is left empty. -/
def Reply.ofMessage (message : String) : Reply :=
  ⟨none, some ((terminated? (blanked message)).getD "")⟩

/-- The reply to a content and a request, with the remarks of the libraries on their faults; none if
the harvest breaks off. -/
def reply (remark : Fault → String) (format : Format) (content request : Option ByteArray) :
    Option Reply :=
  match answer format content request with
  | .ok text => some ⟨some text, none⟩
  | .error (.failed .overflow) => none
  | .error fault => some (.ofMessage (fault.told remark))

end Gleaner.Exchange

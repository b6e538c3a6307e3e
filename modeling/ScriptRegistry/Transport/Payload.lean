/-
ScriptRegistry/Transport/Payload.lean

Payloads: the form in which source texts travel inside a request.

A payload is the base64 form of the bytes of a text.  ASCII blanks may stand
anywhere in it, so that it can be wrapped into lines.
-/
import ScriptRegistry.Text.Blank
import ScriptRegistry.Text.Utf8
import ScriptRegistry.Transport.Base64

namespace ScriptRegistry.Transport

/-- Why a payload cannot be opened: it is no encoding, or the encoded bytes are no text. -/
inductive PayloadFault
  | encoding (fault : Base64.Fault)
  | text (fault : Text.Utf8Fault)
  deriving DecidableEq, Repr

/-- The message of a refusal. -/
def PayloadFault.message : PayloadFault → String
  | .encoding fault => fault.message
  | .text fault => fault.message

/-- The payload of a text. -/
def encodeText (text : String) : String :=
  String.ofList ((Base64.encode (Text.encode text.toList)).map fun b => Char.ofNat b.toNat)

/-- A payload without its ASCII blanks. -/
def compact (payload : String) : List Char :=
  payload.toList.filter fun c => !Text.isAsciiBlank c

/-- The text in a payload. -/
def decodeText (payload : String) : Except PayloadFault String :=
  match Base64.decode (Text.encode (compact payload)) with
  | .error fault => .error (.encoding fault)
  | .ok bytes =>
    match Text.decode bytes with
    | .error fault => .error (.text fault)
    | .ok cs => .ok (String.ofList cs)

end ScriptRegistry.Transport

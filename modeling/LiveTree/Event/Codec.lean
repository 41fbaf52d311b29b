import LiveTree.Event.Basic
import LiveTree.Json.Reader
import LiveTree.Json.Writer
import LiveTree.Text.Base64
import LiveTree.Text.Blank
import LiveTree.Text.Utf8

namespace LiveTree.Event

/-- The JSON value of an event. -/
def toJson (type : Text) (data : Json) : Json := .object [("type", .text type), ("data", data)]

/-- Why an event has no encoding. -/
inductive EncodeFault where
  /-- Its data lies too deep for the object around it. -/
  | tooDeep
  /-- A surrogate is in it, which has no octets. -/
  | surrogate
  deriving DecidableEq

/-- An event in an alphabet that no frame can be broken with. -/
def encode (type : Text) (data : Json) : Except EncodeFault Text :=
  match (toJson type data).write? with
  | none => .error .tooDeep
  | some document =>
    match Utf8.encode? document with
    | none => .error .surrogate
    | some octets => .ok (Base64.encode octets)

def encode? (type : Text) (data : Json) : Option Text := (encode type data).toOption

theorem encode?_eq_some_iff {type payload : Text} {data : Json} :
    encode? type data = some payload ↔ encode type data = .ok payload := by
  rw [encode?]
  cases encode type data <;> simp [Except.toOption]

theorem encode?_eq_none_iff {type : Text} {data : Json} :
    encode? type data = none ↔ ∃ fault, encode type data = .error fault := by
  rw [encode?]
  cases encode type data <;> simp [Except.toOption]

def lead : Text := "data:"

/-- One event of a stream. -/
def frame (payload : Text) : Text := lead ++ " " ++ payload ++ "\n\n"

/-- Why a text is no event. -/
inductive DecodeFault where
  | base64 (fault : Base64.Fault)
  | utf8 (fault : Utf8.Fault)
  | json (fault : Json.Fault)
  | notObject
  | noType

def DecodeFault.message : DecodeFault → Text
  | .base64 fault => fault.message
  | .utf8 fault => fault.message
  | .json fault => fault.message
  | .notObject => []
  | .noType => []

/-- The payload of a frame; a text that is no frame is taken for a payload itself. -/
def payload (text : Text) : Text :=
  let text := Text.strip text
  match dropStart? lead text with
  | some rest => Text.strip rest
  | none => text

/-- An object with a type is an event; its data may be missing. -/
def ofJson : Json → Except DecodeFault Event
  | .object members =>
    match Association.find? "type" members with
    | some type => .ok ⟨type, (Association.find? "data" members).getD .null⟩
    | none => .error .noType
  | _ => .error .notObject

/-- Reads a frame or a bare payload. -/
def decode (text : Text) : Except DecodeFault Event :=
  match Base64.decode (payload text) with
  | .error fault => .error (.base64 fault)
  | .ok octets =>
    match Utf8.decode octets with
    | .error fault => .error (.utf8 fault)
    | .ok document =>
      match Json.read document with
      | .error fault => .error (.json fault)
      | .ok value => ofJson value

end LiveTree.Event

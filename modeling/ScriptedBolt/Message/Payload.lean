import ScriptedBolt.Error

/-!
# Payloads of messages

The payload of a message is the structure of its tag and its fields. Reading one accepts exactly
the tags in the catalogue of the sender.
-/

namespace ScriptedBolt.Message

/-- The payload of a message that a role sends in a version. -/
def payload (v : Version) (role : Role) (m : Message) : Except Error Bytes :=
  match v.tag? role m.name with
  | none => .error (.protocol (.unavailable m.name v))
  | some tag => (PackStream.encodeStructure tag m.fields).mapError fun e ↦ .protocol (.encode e)

/-- The message that a role sends in a version with a payload. -/
def ofPayload (v : Version) (role : Role) (bytes : Bytes) : Except Error Message :=
  match PackStream.decode bytes with
  | .error e => .error (.protocol (.decode e))
  | .ok (.struct tag fields) =>
    match v.name? role tag with
    | some name => .ok ⟨name, fields⟩
    | none => .error (.protocol (.unknownTag tag v))
  | .ok other => .error (.protocol (.notMessage other.typeName))

end ScriptedBolt.Message

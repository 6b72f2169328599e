import ScriptedBolt.Value.Json
import ScriptedBolt.Version

/-!
# Messages

A message has a name and fields. On the wire the name is the tag of a structure; which tag
depends on the role of the sender and on the version. Each catalogue has every name and every
tag once.
-/

namespace ScriptedBolt

/-- The side that sends a message. -/
inductive Role where
  | client
  | server
  deriving DecidableEq, Repr

/-- What marks the lines of a role in scripts and logs. -/
def Role.mark : Role → String
  | client => "C:"
  | server => "S:"

/-- The name of a role in messages. -/
def Role.name : Role → String
  | client => "client"
  | server => "server"

/-- Names of messages with their tags. -/
abbrev Catalogue := List (String × UInt8)

/-- The tag of a name. -/
def Catalogue.tag? (c : Catalogue) (name : String) : Option UInt8 :=
  (c.find? fun entry ↦ entry.1 == name).map Prod.snd

/-- The name of a tag. -/
def Catalogue.name? (c : Catalogue) (tag : UInt8) : Option String :=
  (c.find? fun entry ↦ entry.2 == tag).map Prod.fst

/-- What a client can send in versions 1 and 2. -/
def Catalogue.earlyClient : Catalogue :=
  [("INIT", 0x01), ("ACK_FAILURE", 0x0E), ("RESET", 0x0F), ("RUN", 0x10),
    ("DISCARD_ALL", 0x2F), ("PULL_ALL", 0x3F)]

/-- What a client can send in version 3. -/
def Catalogue.transactionClient : Catalogue :=
  [("HELLO", 0x01), ("GOODBYE", 0x02), ("RESET", 0x0F), ("RUN", 0x10), ("BEGIN", 0x11),
    ("COMMIT", 0x12), ("ROLLBACK", 0x13), ("DISCARD_ALL", 0x2F), ("PULL_ALL", 0x3F)]

/-- What a client can send in all other versions. -/
def Catalogue.streamingClient : Catalogue :=
  [("HELLO", 0x01), ("GOODBYE", 0x02), ("RESET", 0x0F), ("RUN", 0x10), ("BEGIN", 0x11),
    ("COMMIT", 0x12), ("ROLLBACK", 0x13), ("DISCARD", 0x2F), ("PULL", 0x3F)]

/-- What a server can send. -/
def Catalogue.anyServer : Catalogue :=
  [("SUCCESS", 0x70), ("RECORD", 0x71), ("IGNORED", 0x7E), ("FAILURE", 0x7F)]

/-- What a role can send in a version. -/
def Version.catalogue (v : Version) : Role → Catalogue
  | .server => .anyServer
  | .client =>
    if v.major == 1 || v.major == 2 then .earlyClient
    else if v.major == 3 then .transactionClient
    else .streamingClient

/-- The tag of a message that a role can send in a version. -/
def Version.tag? (v : Version) (role : Role) (name : String) : Option UInt8 :=
  (v.catalogue role).tag? name

/-- The name of a message that a role can send in a version. -/
def Version.name? (v : Version) (role : Role) (tag : UInt8) : Option String :=
  (v.catalogue role).name? tag

/-- Whether a role can send a message of this name in some version that can be spoken. -/
def Role.knows (role : Role) (name : String) : Bool :=
  Version.supported.any fun v ↦ (v.tag? role name).isSome

/-- A message. -/
structure Message where
  name : String
  fields : List Value
  deriving Inhabited

namespace Message

/-- A message as a script line spells it: its name, then each field after a blank. -/
def text (m : Message) : String :=
  m.fields.foldl (fun out field ↦ field.write (out.push ' ')) m.name

/-- Whether two messages have the same name and equal fields. -/
def eqv (a b : Message) : Bool := a.name == b.name && Value.eqvItems a.fields b.fields

end Message

/-- The name of a tag has that tag, in every catalogue. -/
theorem Version.tag?_of_name? {v : Version} {role : Role} {tag : UInt8} {name : String}
    (h : v.name? role tag = some name) : v.tag? role name = some tag := by
  have key (c : Catalogue)
      (hc : ∀ entry ∈ c, c.tag? entry.1 = some entry.2) (h : c.name? tag = some name) :
      c.tag? name = some tag := by
    simp only [Catalogue.name?, Option.map_eq_some_iff] at h
    obtain ⟨entry, he, rfl⟩ := h
    have ht := List.find?_some he
    simp only [beq_iff_eq] at ht
    rw [hc entry (List.mem_of_find?_eq_some he), ht]
  apply key _ _ h
  cases role
  · simp only [catalogue]
    split
    · decide
    · split <;> decide
  · show ∀ entry ∈ Catalogue.anyServer, Catalogue.anyServer.tag? entry.1 = some entry.2
    decide

end ScriptedBolt

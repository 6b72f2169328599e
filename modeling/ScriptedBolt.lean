import ScriptedBolt.Bytes
import ScriptedBolt.Text.Blank
import ScriptedBolt.Text.Quoted
import ScriptedBolt.Text.Utf8
import ScriptedBolt.Text.Numeral
import ScriptedBolt.Span
import ScriptedBolt.Value.Json
import ScriptedBolt.PackStream.Encode
import ScriptedBolt.PackStream.Decode
import ScriptedBolt.Literal.Reader
import ScriptedBolt.Wire.Source
import ScriptedBolt.Wire.Sink
import ScriptedBolt.Frame
import ScriptedBolt.Handshake
import ScriptedBolt.Script.Parse
import ScriptedBolt.Conversation
import ScriptedBolt.Session
import ScriptedBolt.Server
import ScriptedBolt.CommandLine
import ScriptedBolt.Live
import ScriptedBolt.Main
import ScriptedBolt.Proofs.Wire.Delivery
import ScriptedBolt.Proofs.Wire.Acceptance
import ScriptedBolt.Proofs.Frame.Layout
import ScriptedBolt.Proofs.Frame.Reading
import ScriptedBolt.Proofs.PackStream.Grammar
import ScriptedBolt.Proofs.PackStream.Reading
import ScriptedBolt.Proofs.PackStream.Recognition
import ScriptedBolt.Proofs.PackStream.Layout
import ScriptedBolt.Proofs.PackStream.Writing
import ScriptedBolt.Proofs.Message.Wire
import ScriptedBolt.Proofs.Conversation.Cursor
import ScriptedBolt.Proofs.Conversation.Events
import ScriptedBolt.Proofs.Conversation.Turns
import ScriptedBolt.Proofs.Session.Follow
import ScriptedBolt.Proofs.Handshake.Opening
import ScriptedBolt.Proofs.Session.Opening
import ScriptedBolt.Proofs.Session.Taking
import ScriptedBolt.Proofs.Session.Passage
import ScriptedBolt.Proofs.Session.Run
import ScriptedBolt.Proofs.Session.Completion
import ScriptedBolt.Proofs.Session.Order
import ScriptedBolt.Proofs.PackStream.Depth
import ScriptedBolt.Proofs.PackStream.Shortest
import ScriptedBolt.Proofs.Literal.Values
import ScriptedBolt.Proofs.Script.Messages
import ScriptedBolt.Proofs.Script.Survival
import ScriptedBolt.Proofs.Conversation.Walk
import ScriptedBolt.Proofs.Session.Rounds
import ScriptedBolt.Proofs.Frame.Cut
import ScriptedBolt.Proofs.Session.Cut
import ScriptedBolt.Proofs.Wire.Ending
import ScriptedBolt.Proofs.Frame.Outcome
import ScriptedBolt.Proofs.Frame.Sequence
import ScriptedBolt.Proofs.PackStream.Writable
import ScriptedBolt.Proofs.Frame.Writing
import ScriptedBolt.Proofs.Wire.Expiry
import ScriptedBolt.Proofs.Session.Deadline
import ScriptedBolt.Proofs.Wire.Capacity
import ScriptedBolt.Proofs.Session.Capacity
import ScriptedBolt.Proofs.Wire.Signals
import ScriptedBolt.Proofs.Session.Signals
import ScriptedBolt.Proofs.Script.Form
import ScriptedBolt.Proofs.Script.Structure
import ScriptedBolt.Proofs.Script.Names
import ScriptedBolt.Proofs.Conversation.Relaxation
import ScriptedBolt.Proofs.Handshake.Choice
import ScriptedBolt.Proofs.Session.Settlement
import ScriptedBolt.Proofs.Message.Names
import ScriptedBolt.Proofs.Session.Deeds
import ScriptedBolt.Proofs.Session.Transcript
import ScriptedBolt.Proofs.Script.Spelling
import ScriptedBolt.Proofs.Handshake.Proposed
import ScriptedBolt.Proofs.PackStream.Injective
import ScriptedBolt.Proofs.Value.Zeros
import ScriptedBolt.Proofs.PackStream.Equality
import ScriptedBolt.Proofs.Conversation.Expectation
import ScriptedBolt.Proofs.Script.Layout
import ScriptedBolt.Proofs.Script.Refusal
import ScriptedBolt.Proofs.Script.Hexadecimal
import ScriptedBolt.Proofs.Conversation.Renumbering
import ScriptedBolt.Proofs.Script.Arrangement
import ScriptedBolt.Proofs.Literal.Extension
import ScriptedBolt.Proofs.Text.Words
import ScriptedBolt.Proofs.Script.Bodies
import ScriptedBolt.Proofs.Script.Tail
import ScriptedBolt.Proofs.PackStream.Extent
import ScriptedBolt.Proofs.PackStream.Bounds
import ScriptedBolt.Proofs.PackStream.Spelled
import ScriptedBolt.Proofs.PackStream.Reordering
import ScriptedBolt.Proofs.Address.Names
import ScriptedBolt.Proofs.Script.Integers

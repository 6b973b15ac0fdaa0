import LispHeap.Heap.Basic

/-!
# Where text goes

A sink takes text in UTF-8 and keeps the bytes. An `unlimited` one takes everything. A `bounded` one
takes what fits and fails at the first byte that does not, so a character may be cut. A
`stuck` one stands for a device without space: it collects a line in a buffer of the given
size and fails as soon as the line has to leave it.

Writing stops at the first failure, and what was written before it stays.
-/

namespace LispHeap

/-- How much a sink takes. -/
inductive Sink.Room where
  | unlimited
  | bounded (limit : Nat)
  | stuck (buffer : Nat)
  deriving DecidableEq

/-- A place for text, and the bytes that it has taken. -/
structure Sink where
  room : Sink.Room := .unlimited
  bytes : ByteArray := ByteArray.empty

/-- Why writing stopped. -/
inductive WriteStop where
  /-- A bounded sink is full. -/
  | full
  /-- The device has no space. -/
  | noSpace
  /-- The value could not be read. -/
  | fault (f : Fault)
  deriving DecidableEq

/-- The text of the reason. -/
def WriteStop.message : WriteStop → String
  | .full => "failed to write whole buffer"
  | .noSpace => "No space left on device (os error 28)"
  | .fault f => f.message

/-- Writing to a sink; a sink keeps what it took before a stop. -/
abbrev Writer := EStateM WriteStop Sink

namespace Sink

/-- How deep a writer may nest before the sink is full, however little each level writes. -/
def Room.depth : Room → Nat
  | .unlimited => 0
  | .bounded limit => limit
  | .stuck buffer => buffer

/-- Puts a text, or as much of it as the sink takes. -/
def put (text : String) : Writer Unit := fun sink =>
  let bytes := sink.bytes ++ text.toUTF8
  match sink.room with
  | .unlimited => .ok () { sink with bytes := bytes }
  | .bounded limit =>
    if bytes.size ≤ limit then .ok () { sink with bytes := bytes }
    else .error .full { sink with bytes := bytes.extract 0 limit }
  | .stuck buffer =>
    if bytes.size ≤ buffer && !text.contains '\n' then .ok () { sink with bytes := bytes }
    else .error .noSpace sink

/-- Waits for an answer of the heap. -/
def await {α : Type} (answer : Except Fault α) : Writer α := fun sink =>
  match answer with
  | .ok a => .ok a sink
  | .error f => .error (.fault f) sink

@[simp]
theorem await_ok {α : Type} (a : α) : await (.ok a) = pure a := rfl

/-- The bytes as text, if no character is cut. -/
def text? (sink : Sink) : Option String := String.fromUTF8? sink.bytes

/-- What has left the sink for its reader: all of it, or nothing if the device is stuck. -/
def delivered (sink : Sink) : String :=
  match sink.room with
  | .stuck _ => ""
  | _ => sink.text?.getD ""

end Sink

end LispHeap

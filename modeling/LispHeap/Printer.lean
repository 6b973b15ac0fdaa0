import LispHeap.Heap.Lists
import LispHeap.Sink

/-!
# Printing values

The empty list is `()`, an integer is its decimal text, a symbol its name as it is, a string its
text between double quotes, unescaped, and a list its elements between brackets with one space
between neighbours. A value is looked at only when its turn comes, and so is each rest of a list:
text that comes before a handle that cannot be read is written before the fault, and a sink that
is full ends the walk along a list wherever it stands.

A head is stored unread, so it may be a handle from elsewhere that happens to lead back. The
printer therefore carries a depth. A rendering that ends never stands inside more pairs than the
heap has boxes, and each pair writes its bracket before it looks further, so a sink with a limit
is full before the nesting passes the limit. The depth that `write` starts from covers both.
-/

namespace LispHeap

namespace Heap

/-- Writes the elements from a place on, with a space in front of each that has one before it. -/
def writeElements (heap : Heap) (write : Handle → Writer Unit) : Nat → Bool → Cursor → Writer Unit
  | 0, _, c => if c.atEnd then pure () else throw (.fault (.endless c.rest))
  | budget + 1, hasPrev, c => do
    match ← Sink.await (c.next heap) with
    | (none, _) => pure ()
    | (some elem, after) => do
      if hasPrev then Sink.put " "
      write elem
      writeElements heap write budget true after

/-- Writes a value that is nested at most so deep. -/
def writeWithin (heap : Heap) : Nat → Handle → Writer Unit
  | 0, v => throw (.fault (.endless v))
  | depth + 1, v => do
    match ← Sink.await (heap.view v) with
    | none => Sink.put "()"
    | some (.int value) => Sink.put value.toInt.repr
    | some (.sym id) => Sink.put (← Sink.await (heap.symbolName id))
    | some (.str text) => do
      Sink.put "\""
      Sink.put text
      Sink.put "\""
    | some (.pair node) => do
      Sink.put "("
      heap.writeElements (heap.writeWithin depth) (heap.size + 1) false (.ofPair node)
      Sink.put ")"

/-- Writes a value. -/
def write (heap : Heap) (v : Handle) : Writer Unit := do
  heap.writeWithin (heap.size + (← get).room.depth + 1) v

/-- Writes a value and ends the line. -/
def print (heap : Heap) (v : Handle) : Writer Unit := do
  heap.write v
  Sink.put "\n"

end Heap

end LispHeap

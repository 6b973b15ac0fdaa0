import LispHeap.Proofs.Cells
import LispHeap.Primitive.Basic

/-!
# Checks and the looks behind them

A primitive that needs a pair narrows its operand by the tag, and what has passed it then reads as a
pair. These are two looks at one box, and nothing happens in between, so the second one finds what
the first one has seen: a typed read behind a check is never mistyped. `asPair_eq` and `asInts_eq`
put the two looks together into one.

Two loops go along a list with a cursor, which gives out the elements one by one: the search of an
association list and the printer. A cursor that comes from a node starts with an element in hand,
and one that comes from a list does not, but after the first step there is only the second kind. So
each loop is peeled: the printer writes the first element and then, with a space each, those of a
list (`writeWithin_succ`), and the search goes through the elements as they would be listed, where
they can be (`search_ofList`).
-/

namespace LispHeap.Heap

variable {heap : Heap} {v : Handle}

/-! ## Narrowing to a kind of box -/

theorem narrow_eq (heap : Heap) (tag : Tag) (v : Handle) :
    heap.narrow (.tagged tag) v =
      (heap.view v).map fun found => if found.map Cell.tag == some tag then some v else none := by
  rw [narrow, Heap.tag]
  cases heap.view v <;> rfl

theorem cell?_of_view {c : Cell} (h : heap.view v = .ok (some c)) : heap.cell? v = some c := by
  rcases view_ok_cases h with ⟨_, hc⟩ | ⟨d, hd, hc⟩
  · cases hc
  · rw [hd, hc]

theorem intAt_of_cell? {value : Int32} (h : heap.cell? v = some (.int value)) :
    heap.intAt v = .ok value := by
  rw [intAt, cell_of_cell? h]
  rfl

/-- The pair that was seen, or a refusal of what else was. -/
def pairIn (op : String) : Option Cell → Except Failure Pair
  | some (.pair node) => .ok node
  | found => .error (.refused (.wrongType op (found.map Cell.tag)))

/-- The two integers that were seen, or a refusal of what else was. -/
def intsIn (op : String) : Option Cell → Option Cell → Except Failure (Int32 × Int32)
  | some (.int i), some (.int j) => .ok (i, j)
  | x, y => .error (.refused (.unexpectedTypes op (x.map Cell.tag) (y.map Cell.tag)))

/-- To check for a pair and then to read it is one look. -/
theorem asPair_eq (heap : Heap) (op : String) (v : Handle) :
    heap.asPair op v = (do pairIn op (← heap.view v)) := by
  rw [asPair, narrow_eq, tag]
  cases hv : heap.view v with
  | error f => rfl
  | ok found =>
      cases found with
      | none => rfl
      | some c =>
          cases c with
          | pair node =>
              show (heap.pairAt v).mapError Failure.fault = _
              rw [pairAt_of_cell? (cell?_of_view hv)]
              rfl
          | int _ | sym _ | str _ => rfl

/-- To check for two integers and then to read them is one look at each. -/
theorem asInts_eq (heap : Heap) (op : String) (lhs rhs : Handle) :
    heap.asInts op lhs rhs = (do intsIn op (← heap.view lhs) (← heap.view rhs)) := by
  rw [asInts, narrow_eq, narrow_eq, tag, tag]
  cases hx : heap.view lhs with
  | error f => rfl
  | ok x =>
      cases hy : heap.view rhs with
      | error f => rfl
      | ok y =>
          -- Without two integers the values are not read again.
          cases x with
          | none => rfl
          | some c =>
              cases c with
              | pair _ | sym _ | str _ => rfl
              | int i =>
                  cases y with
                  | none => rfl
                  | some d =>
                      cases d with
                      | pair _ | sym _ | str _ => rfl
                      | int j =>
                          show (do return (← heap.intAt lhs, ← heap.intAt rhs) :
                            Except Failure (Int32 × Int32)) = _
                          rw [intAt_of_cell? (cell?_of_view hx), intAt_of_cell? (cell?_of_view hy)]
                          rfl

/-! ## Searching along a list -/

theorem next_ofList (heap : Heap) (l : Handle) :
    (Cursor.ofList l).next heap = (heap.uncons? l).map fun
      | some (head, rest) => (some head, .ofList rest)
      | none => (none, .ofList l) := by
  rw [Cursor.next]
  show (heap.uncons? l).bind _ = _
  cases heap.uncons? l with
  | error f => rfl
  | ok found => cases found <;> rfl

/-- What one element comes to: it is the entry that is looked for, or the search goes on. -/
def tryEntry (heap : Heap) (key entry : Handle) (others : Except Fault Handle) :
    Except Fault Handle := do
  match ← heap.view entry with
  | some (.pair node) => if ← heap.eq key node.head then return entry else others
  | _ => others

/-- The first of the entries that is a pair whose head equals the key, or the empty list. -/
def findEntry (heap : Heap) (key : Handle) : List Handle → Except Fault Handle
  | [] => return .nil
  | entry :: entries => heap.tryEntry key entry (findEntry heap key entries)

/-- One step of the search: an element, which is looked at once, and then the rest of the list. -/
theorem search_succ (heap : Heap) (key : Handle) (budget : Nat) (l : Handle) :
    heap.search key (budget + 1) (.ofList l) = (do
      match ← heap.uncons? l with
      | none => return .nil
      | some (entry, rest) => heap.tryEntry key entry (heap.search key budget (.ofList rest))) := by
  rw [search, next_ofList]
  cases heap.uncons? l with
  | error f => rfl
  | ok found =>
      cases found with
      | none => rfl
      | some cell =>
          obtain ⟨entry, rest⟩ := cell
          show (heap.narrow (.tagged .pair) entry).bind _ =
            heap.tryEntry key entry (heap.search key budget (.ofList rest))
          rw [narrow_eq, tryEntry]
          cases hv : heap.view entry with
          | error f => rfl
          | ok seen =>
              cases seen with
              | none => rfl
              | some c =>
                  cases c with
                  | int _ | sym _ | str _ => rfl
                  | pair node =>
                      show (heap.pairAt entry).bind _ = _
                      rw [pairAt_of_cell? (cell?_of_view hv)]
                      rfl

theorem search_nil (heap : Heap) (key : Handle) (budget : Nat) :
    heap.search key budget (.ofList .nil) = .ok .nil := by
  cases budget <;> rfl

theorem search_zero (heap : Heap) (key : Handle) {l : Handle} (hl : ¬ l.isNil = true) :
    heap.search key 0 (.ofList l) = .error (.endless l) :=
  if_neg hl

/-- Where the elements can be listed, the search goes through them. -/
theorem search_ofList {key : Handle} {budget : Nat} {l : Handle} {xs : List Handle}
    (h : heap.elementsWithin budget l = .ok xs) :
    heap.search key budget (.ofList l) = heap.findEntry key xs := by
  induction budget generalizing l xs with
  | zero =>
      rw [elementsWithin] at h
      split at h
      · next hl =>
          obtain rfl := Except.ok.inj h
          rw [Handle.isNil_iff.mp hl, search_nil]
          rfl
      · cases h
  | succ budget ih =>
      rw [elementsWithin] at h
      rw [search_succ]
      cases hu : heap.uncons? l with
      | error f => rw [hu] at h; cases h
      | ok found =>
          rw [hu] at h
          cases found with
          | none =>
              obtain rfl := Except.ok.inj h
              rfl
          | some cell =>
              obtain ⟨entry, rest⟩ := cell
              replace h : (heap.elementsWithin budget rest).bind _ = _ := h
              cases hr : heap.elementsWithin budget rest with
              | error f => rw [hr] at h; cases h
              | ok ys =>
                  rw [hr] at h
                  obtain rfl := Except.ok.inj h
                  show heap.tryEntry key entry (heap.search key budget (.ofList rest)) = _
                  rw [ih hr, findEntry]

/-! ## Writing along a list -/

/-- Writes a list behind its first element: each further one after a space. -/
def writeRest (heap : Heap) (write : Handle → Writer Unit) : Nat → Handle → Writer Unit
  | 0, l => if l.isNil then pure () else throw (.fault (.endless l))
  | budget + 1, l => do
    match ← Sink.await (heap.uncons? l) with
    | none => pure ()
    | some (head, rest) => do
      Sink.put " "
      write head
      writeRest heap write budget rest

theorem writeElements_ofList (heap : Heap) (write : Handle → Writer Unit) (budget : Nat)
    (l : Handle) :
    heap.writeElements write budget true (.ofList l) = heap.writeRest write budget l := by
  induction budget generalizing l with
  | zero => rfl
  | succ budget ih =>
      rw [writeElements, writeRest, next_ofList]
      cases heap.uncons? l with
      | error f => rfl
      | ok found =>
          cases found with
          | none => rfl
          | some cell =>
              obtain ⟨head, rest⟩ := cell
              simp only [Except.map, Sink.await_ok, pure_bind, if_true, ih]

theorem writeElements_ofPair (heap : Heap) (write : Handle → Writer Unit) (budget : Nat)
    (node : Pair) :
    heap.writeElements write (budget + 1) false (.ofPair node) = (do
      write node.head
      heap.writeRest write budget node.rest) := by
  simp only [← writeElements_ofList, writeElements]
  rfl

/-- One level of the printer, with the first element of a list apart. -/
theorem writeWithin_succ (heap : Heap) (depth : Nat) (v : Handle) :
    heap.writeWithin (depth + 1) v = (do
      match ← Sink.await (heap.view v) with
      | none => Sink.put "()"
      | some (.int value) => Sink.put value.toInt.repr
      | some (.sym id) => Sink.put (← Sink.await (heap.symbolName id))
      | some (.str text) => do
        Sink.put "\""
        Sink.put text
        Sink.put "\""
      | some (.pair node) => do
        Sink.put "("
        heap.writeWithin depth node.head
        heap.writeRest (heap.writeWithin depth) heap.size node.rest
        Sink.put ")") := by
  rw [writeWithin]
  refine bind_congr fun found => ?_
  rcases found with _ | c
  · rfl
  · cases c with
    | pair node => simp only [writeElements_ofPair, bind_assoc]
    | _ => rfl

end LispHeap.Heap

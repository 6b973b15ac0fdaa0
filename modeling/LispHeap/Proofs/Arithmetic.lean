import Mathlib.Data.Int.ModEq
import LispHeap.Proofs.ListLayout

/-!
# Wrapping at every step is wrapping once

Integers have 32 bits and every operation on them wraps. For a tree of operations this could mean
that the error of a wrapped operand is carried into the next operation and grows there. It does not.
Taking an integer to its word respects products and differences (`Operator.word_exact`), so it
respects whole trees: the box that is left at the end holds the word of the exact value, whatever
the boxes below it have lost.

The tree is evaluated from its leaves, and every part of it gets a box. By the time the second
operand is there the first has been left behind on a smaller heap, so `eval_eq` says of the boxes
that they are added at the end, one for each part in the order of evaluation, and of the handle that
it is the last of them.
-/

namespace LispHeap

/-- The operations that make a number of two numbers. -/
inductive Operator where
  | mul
  | sub

namespace Operator

/-- The operation on integers of any size. -/
def exact : Operator → Int → Int → Int
  | .mul, a, b => a * b
  | .sub, a, b => a - b

/-- The operation on words, which wraps. -/
def wrapping : Operator → Int32 → Int32 → Int32
  | .mul, i, j => i * j
  | .sub, i, j => i - j

/-- The entry point of an operator. -/
def call : Operator → Handle → Handle → Call
  | .mul, x, y => .mul x y
  | .sub, x, y => .sub x y

theorem word_exact (op : Operator) (a b : Int) :
    Int32.ofInt (op.exact a b) = op.wrapping (.ofInt a) (.ofInt b) := by
  cases op with
  | mul => exact Int32.ofInt_mul a b
  | sub => exact Int32.ofInt_sub a b

end Operator

/-- A tree of operations with literals at its leaves. -/
inductive Arith where
  | lit (value : Int32)
  | apply (op : Operator) (x y : Arith)

namespace Arith

/-- The value that the tree has without any wrapping. -/
def value : Arith → Int
  | .lit n => n.toInt
  | .apply op x y => op.exact x.value y.value

/-- What 32 bits can hold of the value. -/
def word (e : Arith) : Int32 := .ofInt e.value

/-- How many literals there are. -/
def literals : Arith → Nat
  | .lit _ => 1
  | .apply _ x y => x.literals + y.literals

/-- How many operations there are. -/
def operations : Arith → Nat
  | .lit _ => 0
  | .apply _ x y => x.operations + y.operations + 1

/-- The parts of a tree in the order in which they are evaluated, the whole of it last. -/
def parts : Arith → List Arith
  | .lit n => [.lit n]
  | .apply op x y => x.parts ++ y.parts ++ [.apply op x y]

/-- Evaluates a tree with the entry points, each operand in a box of its own. -/
def eval : Arith → Entry Handle
  | .lit n => .ofOp (.newInt n)
  | .apply op x y => do
    let u ← x.eval
    let v ← y.eval
    (op.call u v).enter

/-- The boxes that evaluation adds. -/
def boxes (e : Arith) : List Cell := e.parts.map fun d => .int d.word

/-! ## Words -/

theorem word_lit (n : Int32) : (lit n).word = n := Int32.ofInt_toInt n

theorem word_apply (op : Operator) (x y : Arith) :
    (apply op x y).word = op.wrapping x.word y.word :=
  op.word_exact x.value y.value

theorem word_eq_iff (a b : Arith) : a.word = b.word ↔ a.value ≡ b.value [ZMOD 2 ^ 32] := by
  rw [← Int32.toInt_inj, word, word, Int32.toInt_ofInt, Int32.toInt_ofInt,
    Int.bmod_eq_bmod_iff_bmod_sub_eq_zero, ← Int.dvd_iff_bmod_eq_zero, Int.modEq_comm,
    Int.modEq_iff_dvd]
  rfl

/-- The word of a tree is the only integer of its range that is congruent to the exact value. -/
theorem toInt_word_unique (e : Arith) (i : Int) :
    -2 ^ 31 ≤ i ∧ i < 2 ^ 31 ∧ i ≡ e.value [ZMOD 2 ^ 32] ↔ i = e.word.toInt := by
  have hword := Int.bmod_eq_iff (a := e.value) (b := Int32.size) (c := i) (by decide)
  rw [word, Int32.toInt_ofInt, eq_comm, hword, Int.modEq_comm, Int.modEq_iff_dvd]
  rfl

/-! ## Boxes -/

theorem length_parts (e : Arith) : e.parts.length = e.literals + e.operations := by
  induction e with
  | lit n => rfl
  | apply op x y ihx ihy =>
      simp only [parts, literals, operations, List.length_append, List.length_singleton, ihx, ihy]
      omega

theorem boxes_apply (op : Operator) (x y : Arith) :
    (apply op x y).boxes = x.boxes ++ y.boxes ++ [.int (apply op x y).word] := by
  simp [boxes, parts]

/-- The last box is that of the whole tree. -/
theorem exists_boxes_concat (e : Arith) : ∃ cs, e.boxes = cs ++ [.int e.word] := by
  cases e with
  | lit n => exact ⟨[], rfl⟩
  | apply op x y => exact ⟨_, boxes_apply op x y⟩

theorem cell?_boxes (e : Arith) (task : Task) :
    (task.placeAll e.boxes).heap.cell? ⟨task.heap.size + e.boxes.length⟩ =
      some (.int e.word) := by
  obtain ⟨cs, hcs⟩ := e.exists_boxes_concat
  rw [hcs, List.length_append]
  exact task.cell?_placeAll_self cs (.int e.word) []

end Arith

/-! ## Operands -/

namespace Heap

variable {heap : Heap} {x y : Handle} {i j : Int32}

theorem asInts_of_cell? (op : String) (hx : heap.cell? x = some (.int i))
    (hy : heap.cell? y = some (.int j)) : heap.asInts op x y = .ok (i, j) := by
  rw [asInts_eq, view_of_cell? hx, view_of_cell? hy]
  rfl

theorem eq_of_ints (hx : heap.cell? x = some (.int i)) (hy : heap.cell? y = some (.int j)) :
    heap.eq x y = .ok (i == j) := by
  rw [Heap.eq, view_of_cell? hx, view_of_cell? hy]
  rfl

theorem gt_of_ints (hx : heap.cell? x = some (.int i)) (hy : heap.cell? y = some (.int j)) :
    heap.gt x y = .ok (j < i) := by
  rw [gt, asInts_of_cell? "GT" hx hy]
  rfl

theorem Has.exists_tag (h : heap.Has x) : ∃ t, heap.tag x = .ok t := by
  rcases h.cases with rfl | ⟨c, hc⟩
  · exact ⟨none, tag_nil heap⟩
  · exact ⟨some c.tag, tag_of_cell? hc⟩

/-- Operands that are not both integers are refused with their tags, the left one first. -/
theorem asInts_refuses (op : String) {s t : Option Tag} (hx : heap.tag x = .ok s)
    (hy : heap.tag y = .ok t) (h : ¬ (s = some .int ∧ t = some .int)) :
    heap.asInts op x y = .error (.refused (.unexpectedTypes op s t)) := by
  rw [asInts_eq]
  rcases tag_ok_cases hx with ⟨rfl, rfl⟩ | ⟨c, hc, rfl⟩ <;>
    rcases tag_ok_cases hy with ⟨rfl, rfl⟩ | ⟨d, hd, rfl⟩
  · rfl
  · rw [view_nil, view_of_cell? hd]
    rfl
  · rw [view_of_cell? hc, view_nil]
    cases c <;> rfl
  · rw [view_of_cell? hc, view_of_cell? hd]
    cases c with
    | int i =>
        cases d with
        | int j => exact absurd ⟨rfl, rfl⟩ h
        | pair _ | sym _ | str _ => rfl
    | pair _ | sym _ | str _ => rfl

end Heap

/-! ## Evaluation -/

section Evaluation

variable {task : Task} {x y : Handle} {i j : Int32}

theorem enter_operator (op : Operator) (hx : task.heap.cell? x = some (.int i))
    (hy : task.heap.cell? y = some (.int j)) :
    (op.call x y).enter task =
      .ok ⟨task.heap.size + 1⟩ (task.place (.int (op.wrapping i j))) := by
  cases op with
  | mul =>
      rw [Operator.call, enter_eq_carryOut rfl, Call.plan, Heap.mul, Heap.asInts_of_cell? _ hx hy]
      rfl
  | sub =>
      rw [Operator.call, enter_eq_carryOut rfl, Call.plan, Heap.sub, Heap.asInts_of_cell? _ hx hy]
      rfl

/-- Evaluation adds the boxes of all parts and gives the last of them. -/
theorem Arith.eval_eq (e : Arith) (task : Task) :
    e.eval task = .ok ⟨task.heap.size + e.boxes.length⟩ (task.placeAll e.boxes) := by
  induction e generalizing task with
  | lit n =>
      rw [boxes, parts, List.map_singleton, word_lit]
      exact ofOp_of_ok (place_eq (.int n) task)
  | apply op x y ihx ihy =>
      -- The box of the first operand is still what it was when the second one is there.
      have hx := Task.cell?_placeAll_of_some (x.cell?_boxes task) y.boxes
      have hy := y.cell?_boxes (task.placeAll x.boxes)
      show EStateM.bind x.eval _ task = _
      rw [EStateM.bind, ihx]
      show EStateM.bind y.eval _ _ = _
      rw [EStateM.bind, ihy]
      show (op.call _ _).enter _ = _
      rw [enter_operator op hx hy, ← word_apply, boxes_apply, Task.placeAll_concat,
        Task.placeAll_append, Task.size_placeAll, Task.size_placeAll]
      simp [Nat.add_assoc]

end Evaluation

/-! ## Comparisons and refusals -/

section Comparing

variable {task : Task} {x y : Handle}

/-- Words are equal just if the exact values are congruent. -/
theorem Arith.enter_eq {a b : Arith} (hx : task.heap.cell? x = some (.int a.word))
    (hy : task.heap.cell? y = some (.int b.word)) :
    (Call.eq x y).enter task = .ok (.ofBool (a.value ≡ b.value [ZMOD 2 ^ 32])) task := by
  have hwords : (a.word == b.word) = decide (a.value ≡ b.value [ZMOD 2 ^ 32]) := by
    rw [Bool.eq_iff_iff, beq_iff_eq, decide_eq_true_eq]
    exact a.word_eq_iff b
  rw [enter_eq_carryOut rfl, Call.plan, Heap.eq_of_ints hx hy, ← hwords]
  rfl

theorem Arith.enter_gt {a b : Arith} (hx : task.heap.cell? x = some (.int a.word))
    (hy : task.heap.cell? y = some (.int b.word)) :
    (Call.gt x y).enter task = .ok (.ofBool (b.word.toInt < a.word.toInt)) task := by
  rw [enter_eq_carryOut rfl, Call.plan, Heap.gt_of_ints hx hy]
  simp only [Int32.lt_iff_toInt_lt]
  rfl

/-- The operation behind a call gives an error back, and the entry point stops with its text.
Neither places anything. -/
def Call.Refuses (call : Call) (task : Task) (e : Error) : Prop :=
  (Operation.core call).perform task = (.refused e, task) ∧
    ∃ left, (Operation.enter call).perform task = (.stopped (.failed e.message), left) ∧
      left.heap = task.heap

theorem refuses_of_ask {α : Type} {call : Call} {question : Heap → Except Failure α}
    {give : α → Call.Value} {rest : α → Entry Handle} {e : Error}
    (hrun : call.run? = some (give <$> Op.ask question))
    (henter : call.enter = Entry.ofOp (.ask question) >>= rest)
    (h : question task.heap = .error (.refused e)) : call.Refuses task e := by
  constructor
  · rw [perform_core_of_some hrun, map_eq_attempt give (ask_eq_attempt question), h]
    rfl
  · show ∃ left, Outcome.ofEntry (call.enter task) = _ ∧ _
    rw [henter]
    show ∃ left, Outcome.ofEntry (EStateM.bind (Entry.ofOp (.ask question)) rest task) = _ ∧ _
    rw [EStateM.bind, ofOp_ask_eq_carryOut, h]
    exact ⟨_, rfl, rfl⟩

theorem numbers_refuse {s t : Option Tag} (hx : task.heap.tag x = .ok s)
    (hy : task.heap.tag y = .ok t) (h : ¬ (s = some .int ∧ t = some .int)) {p : Primitive}
    (hp : p ∈ [Primitive.gt, .mul, .sub]) :
    ∃ call, Call.make? p [x, y] = some call ∧
      call.Refuses task (.unexpectedTypes p.name s t) := by
  have hrefused := fun op => Heap.asInts_refuses op hx hy h
  simp only [List.mem_cons, List.not_mem_nil, or_false] at hp
  rcases hp with rfl | rfl | rfl
  · exact ⟨_, rfl, refuses_of_ask rfl rfl (by rw [Heap.gt, hrefused]; rfl)⟩
  · exact ⟨_, rfl, refuses_of_ask rfl rfl (by rw [Heap.mul, hrefused]; rfl)⟩
  · exact ⟨_, rfl, refuses_of_ask rfl rfl (by rw [Heap.sub, hrefused]; rfl)⟩

end Comparing

/-- On any task at all. A tree of products and differences can be evaluated, which adds a box for
each of its literals and operations; the last box holds the only integer of 32 bits that is
congruent to the exact value. Two trees are `eq` just if their exact values are congruent, and `GT`
compares what the boxes hold, whatever has been done between the evaluations. Operands that are not
both integers are refused with the name of the operation and both tags, and nothing is placed. -/
theorem trees_wrap_once (task : Task) :
    (∀ e : Arith, ∃ v left, e.eval task = .ok v left ∧
      left.heap.cells.toList =
        task.heap.cells.toList ++ e.parts.map (fun d => Cell.int d.word) ∧
      left.heap.symbols = task.heap.symbols ∧ e.parts.length = e.literals + e.operations ∧
      left.heap.cell? v = some (.int e.word) ∧
      ∀ i : Int, -2 ^ 31 ≤ i ∧ i < 2 ^ 31 ∧ i ≡ e.value [ZMOD 2 ^ 32] ↔ i = e.word.toInt) ∧
    (∀ (a b : Arith) (between : List Operation), ∃ u mid v left,
      a.eval task = .ok u mid ∧ b.eval (mid.after between) = .ok v left ∧
      (Call.eq u v).enter left = .ok (.ofBool (a.value ≡ b.value [ZMOD 2 ^ 32])) left ∧
      (Call.gt u v).enter left = .ok (.ofBool (b.word.toInt < a.word.toInt)) left) ∧
    ∀ x y, task.heap.Has x → task.heap.Has y →
      ¬ (task.heap.tag x = .ok (some .int) ∧ task.heap.tag y = .ok (some .int)) →
      ∃ s t, task.heap.tag x = .ok s ∧ task.heap.tag y = .ok t ∧
        ∀ p ∈ [Primitive.gt, .mul, .sub], ∃ call, Call.make? p [x, y] = some call ∧
          call.Refuses task (.unexpectedTypes p.name s t) := by
  refine ⟨fun e => ?_, fun a b between => ?_, fun x y hx hy h => ?_⟩
  · exact ⟨_, _, e.eval_eq task, task.cells_placeAll e.boxes, task.symbols_placeAll e.boxes,
      e.length_parts, e.cell?_boxes task, e.toInt_word_unique⟩
  · have hgrows := after_grows (task.placeAll a.boxes) between
    have hu := Task.cell?_placeAll_of_some (hgrows.cell?_of_some (a.cell?_boxes task)) b.boxes
    have hv := b.cell?_boxes ((task.placeAll a.boxes).after between)
    exact ⟨_, _, _, _, a.eval_eq task, b.eval_eq _, Arith.enter_eq hu hv, Arith.enter_gt hu hv⟩
  · obtain ⟨s, hs⟩ := hx.exists_tag
    obtain ⟨t, ht⟩ := hy.exists_tag
    refine ⟨s, t, hs, ht, fun p hp => numbers_refuse hs ht ?_ hp⟩
    rintro ⟨rfl, rfl⟩
    exact h ⟨hs, ht⟩

/-- The tree of twice the largest integer. -/
def doubledMaximum : Arith := .apply .mul (.lit 2147483647) (.lit 2)

/-- The tree of a negative integer. -/
def minusTwo : Arith := .apply .sub (.lit 0) (.lit 2)

/-- The two trees have different values and the same word; and an integer is not multiplied by a
symbol. -/
theorem doubled_maximum_is_minus_two :
    let task := (Task.fresh ["a"]).after strayRun
    (doubledMaximum.value = 4294967294 ∧ minusTwo.value = -2 ∧ ∃ u mid v left,
      doubledMaximum.eval task = .ok u mid ∧ minusTwo.eval (mid.after strayRun) = .ok v left ∧
      (Call.eq u v).enter left = .ok .t left ∧ (Call.gt u v).enter left = .ok .nil left) ∧
    (task.heap.Has ⟨2⟩ ∧ task.heap.Has ⟨5⟩) ∧
    ¬ (task.heap.tag ⟨2⟩ = .ok (some .int) ∧ task.heap.tag ⟨5⟩ = .ok (some .int)) ∧
    (Call.mul ⟨2⟩ ⟨5⟩).Refuses task (.unexpectedTypes "MUL" (some .int) (some .sym)) := by
  intro task
  have hint : task.heap.tag ⟨2⟩ = .ok (some .int) := by decide +kernel
  have hsym : task.heap.tag ⟨5⟩ = .ok (some .sym) := by decide +kernel
  have hhas : task.heap.Has ⟨2⟩ ∧ task.heap.Has ⟨5⟩ := by decide +kernel
  have hne : ¬ (task.heap.tag ⟨2⟩ = .ok (some .int) ∧ task.heap.tag ⟨5⟩ = .ok (some .int)) := by
    rw [hsym]
    simp
  obtain ⟨_, hcompare, hrefuse⟩ := trees_wrap_once task
  refine ⟨⟨by decide, by decide, hcompare doubledMaximum minusTwo strayRun⟩, hhas, hne, ?_⟩
  obtain ⟨s, t, hs, ht, hp⟩ := hrefuse ⟨2⟩ ⟨5⟩ hhas.1 hhas.2 hne
  obtain rfl := Except.ok.inj (hint.symm.trans hs)
  obtain rfl := Except.ok.inj (hsym.symm.trans ht)
  obtain ⟨call, hcall, hrefuses⟩ := hp .mul (by simp)
  obtain rfl := Option.some.inj hcall
  exact hrefuses

end LispHeap

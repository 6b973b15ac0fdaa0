import Mathlib.Logic.Relation
import LispHeap.Proofs.Cells
import LispHeap.Proofs.Runs

/-!
# What an operation can do to a heap

Forty operations, but three things ever happen to a heap: a name is interned, a box that is no pair
is placed, or a pair is placed in front of something whose length could be read. `Heap.Adds` says
this once, and `perform_grows` shows that every operation on whatever handles, whether it returns,
refuses or stops half way, is a sequence of such steps. What holds of every heap of every run is
then proved by looking at the three steps and never at an operation.

The pair step is where the content lies. `Op.newPair` reads the length of the rest before it places
the pair, and this read is the only check that a rest ever gets when it comes in as a typed handle.
So the step carries that read as its premise.
-/

namespace LispHeap

/-- One thing that can happen to a heap. -/
inductive Heap.Adds : Heap → Heap → Prop where
  | name (heap : Heap) (name : String) : Adds heap (heap.intern name).2
  | atom {heap : Heap} {c : Cell} (hc : c.tag ≠ .pair) : Adds heap (heap.push c)
  | pair {heap : Heap} {head rest : Handle} {n : Nat} (hn : heap.listLength rest = .ok n) :
      Adds heap (heap.push (.pair ⟨n + 1, head, rest⟩))

/-- Any number of such things, one after another. -/
def Heap.Grows : Heap → Heap → Prop := Relation.ReflTransGen Heap.Adds

theorem Heap.Grows.refl (heap : Heap) : heap.Grows heap := Relation.ReflTransGen.refl

theorem Heap.Grows.trans {a b c : Heap} (hab : a.Grows b) (hbc : b.Grows c) : a.Grows c :=
  Relation.ReflTransGen.trans hab hbc

theorem Heap.Adds.grows {a b : Heap} (h : a.Adds b) : a.Grows b := Relation.ReflTransGen.single h

/-- A box stays what it is and where it is. -/
theorem Heap.Grows.cell?_of_some {a b : Heap} {v : Handle} {c : Cell} (h : a.Grows b)
    (hc : a.cell? v = some c) : b.cell? v = some c := by
  induction h with
  | refl => exact hc
  | tail _ hadds ih =>
      cases hadds with
      | name name => rw [Heap.cell?_intern]; exact ih
      | atom _ => exact Heap.cell?_push_of_some ih
      | pair _ => exact Heap.cell?_push_of_some ih

theorem Heap.Grows.cells_prefix {heap later : Heap} (h : heap.Grows later) :
    heap.cells.toList <+: later.cells.toList := by
  induction h with
  | refl => exact List.prefix_rfl
  | tail _ hadds ih =>
      cases hadds with
      | name name => exact ih
      | atom _ | pair _ =>
          rw [Heap.push, Array.toList_push]
          exact ih.trans (List.prefix_append _ _)

theorem Heap.Grows.size_le {heap later : Heap} (h : heap.Grows later) :
    heap.size ≤ later.size := by
  have hle := h.cells_prefix.length_le
  rw [Array.length_toList, Array.length_toList] at hle
  exact hle

/-- The task at the end of a computation, however that ended. -/
def taskLeft {ε α : Type} : EStateM.Result ε Task α → Task
  | .ok _ task => task
  | .error _ task => task

/-- A computation that does nothing to the heap of its task but add to it. -/
def Growing {ε α : Type} (m : EStateM ε Task α) : Prop :=
  ∀ task : Task, task.heap.Grows (taskLeft (m task)).heap

/-! ## Computations put together -/

section Combinators

variable {ε α β : Type}

theorem Growing.ok {m : EStateM ε Task α} (hm : Growing m) {task left : Task} {a : α}
    (h : m task = .ok a left) : task.heap.Grows left.heap := by
  have hgrows := hm task
  rwa [h] at hgrows

theorem growing_pure (a : α) : Growing (pure a : EStateM ε Task α) :=
  fun task => Heap.Grows.refl task.heap

theorem growing_throw (e : ε) : Growing (throw e : EStateM ε Task α) :=
  fun task => Heap.Grows.refl task.heap

theorem growing_bind {m : EStateM ε Task α} {f : α → EStateM ε Task β}
    (hm : Growing m) (hf : ∀ a, Growing (f a)) : Growing (m >>= f) := by
  intro task
  have h := hm task
  show task.heap.Grows (taskLeft (EStateM.bind m f task)).heap
  rw [EStateM.bind]
  cases hr : m task with
  | ok a mid =>
      rw [hr] at h
      exact h.trans (hf a mid)
  | error e mid =>
      rw [hr] at h
      exact h

theorem growing_map {m : EStateM ε Task α} (f : α → β) (hm : Growing m) : Growing (f <$> m) := by
  rw [map_eq_pure_bind]
  exact growing_bind hm fun a => growing_pure (f a)

theorem growing_ask (question : Heap → Except Failure α) : Growing (Op.ask question) := by
  intro task
  rw [Op.ask]
  split <;> exact Heap.Grows.refl task.heap

theorem growing_look (question : Heap → Except Fault α) : Growing (Op.look question) := by
  intro task
  rw [Op.look]
  split <;> exact Heap.Grows.refl task.heap

theorem growing_fail (message : String) : Growing (Entry.fail message : Entry α) :=
  fun task => Heap.Grows.refl task.heap

theorem growing_ofOp {op : Op α} (h : Growing op) : Growing (Entry.ofOp op) := by
  intro task
  have ht := h task
  rw [Entry.ofOp]
  cases hr : op task with
  | ok a left =>
      rw [hr] at ht
      exact ht
  | error e left =>
      rw [hr] at ht
      cases e with
      | fault f => exact ht
      | refused e => exact ht.trans (growing_fail (α := α) e.message left)

end Combinators

/-! ## The operations -/

theorem growing_place {c : Cell} (hc : c.tag ≠ .pair) : Growing (Op.place c) :=
  fun _ => (Heap.Adds.atom hc).grows

theorem growing_intern (name : String) : Growing (Op.intern name) :=
  fun task => (Heap.Adds.name task.heap name).grows

theorem Atom.cell_tag (atom : Atom) (table : SymbolTable) : (atom.cell table).1.tag ≠ .pair := by
  cases atom <;> simp [Atom.cell, Cell.tag]

theorem growing_newAtom (atom : Atom) : Growing (Op.newAtom atom) := by
  intro task
  cases atom with
  | int value => exact (Heap.Adds.atom (c := .int value) (by simp [Cell.tag])).grows
  | str text => exact (Heap.Adds.atom (c := .str text) (by simp [Cell.tag])).grows
  | sym name =>
      have hc : (Cell.sym (task.heap.symbols.intern name).1).tag ≠ .pair := by simp [Cell.tag]
      exact (Heap.Adds.name task.heap name).grows.trans (Heap.Adds.atom hc).grows

theorem growing_newPair (head rest : Handle) : Growing (Op.newPair head rest) := by
  intro task
  show task.heap.Grows
    (taskLeft (EStateM.bind (Op.look (·.listLength rest)) _ task)).heap
  rw [EStateM.bind, Op.look]
  cases hn : task.heap.listLength rest with
  | error f => exact Heap.Grows.refl task.heap
  | ok n => exact (Heap.Adds.pair hn).grows

theorem growing_listOnto (elems : List Handle) (tail : Handle) :
    Growing (Op.listOnto elems tail) := by
  induction elems with
  | nil => exact growing_pure tail
  | cons x xs ih =>
      show Growing (Op.listOnto xs tail >>= Op.newPair x)
      exact growing_bind ih fun l => growing_newPair x l

theorem growing_cons (head tail : Handle) : Growing (Op.cons head tail) := by
  rw [Op.cons, Op.consWithin]
  refine growing_bind (growing_look _) fun found => ?_
  split
  · exact growing_newPair head tail
  · exact growing_newPair head tail
  · exact growing_bind (growing_newPair tail .nil) fun rest => growing_newPair head rest
  · exact growing_throw _

theorem growing_append (front back : Handle) : Growing (Op.append front back) := by
  rw [Op.append, Op.appendWithin]
  refine growing_bind (growing_ask _) fun front => ?_
  refine growing_bind (growing_ask _) fun back => ?_
  refine growing_bind (growing_look _) fun elems => ?_
  exact growing_listOnto elems back

theorem growing_print (v : Handle) : Growing (Entry.print v) := by
  intro task
  rw [Entry.print]
  split <;> exact Heap.Grows.refl task.heap

theorem growing_enter (call : Call) : Growing call.enter := by
  cases call with
  | cons head tail => exact growing_ofOp (growing_cons head tail)
  | access accessor v => exact growing_ofOp (growing_ask _)
  | list elems => exact growing_ofOp (growing_listOnto elems .nil)
  | length v =>
      refine growing_bind (growing_ofOp (growing_ask _)) fun n => ?_
      split
      · exact growing_ofOp (growing_newAtom _)
      · exact growing_fail _
  | append front back => exact growing_ofOp (growing_append front back)
  | assoc key alist => exact growing_ofOp (growing_ask _)
  | null v => exact growing_pure _
  | not v => exact growing_pure _
  | and x y => exact growing_pure _
  | or x y => exact growing_pure _
  | atom v => exact growing_bind (growing_ofOp (growing_look _)) fun b => growing_pure _
  | eq x y => exact growing_bind (growing_ofOp (growing_look _)) fun b => growing_pure _
  | numberp v => exact growing_bind (growing_ofOp (growing_look _)) fun b => growing_pure _
  | assert v => exact growing_bind (growing_ofOp (growing_ask _)) fun _ => growing_pure _
  | gt x y => exact growing_bind (growing_ofOp (growing_ask _)) fun b => growing_pure _
  | mul x y =>
      exact growing_bind (growing_ofOp (growing_ask _)) fun n => growing_ofOp (growing_newAtom _)
  | sub x y =>
      exact growing_bind (growing_ofOp (growing_ask _)) fun n => growing_ofOp (growing_newAtom _)
  | print v => exact growing_bind (growing_print v) fun _ => growing_pure _

theorem growing_run {call : Call} {op : Op Call.Value} (h : call.run? = some op) : Growing op := by
  rw [Call.run?] at h
  cases call <;> simp only [Call.runWithin?, Option.some.injEq, reduceCtorEq] at h <;> subst h
  case cons head tail => exact growing_map _ (growing_cons head tail)
  case list elems => exact growing_map _ (growing_listOnto elems .nil)
  case append front back => exact growing_map _ (growing_append front back)
  case null v => exact growing_pure _
  case atom | eq => exact growing_map _ (growing_look _)
  all_goals exact growing_map _ (growing_ask _)

theorem ofOp_task {α : Type} (give : α → Outcome) (r : EStateM.Result Failure Task α) :
    (Outcome.ofOp give r).2 = taskLeft r := by
  cases r with
  | ok a task => rfl
  | error e task => cases e <;> rfl

theorem ofEntry_task (r : EStateM.Result Stop Task Handle) :
    (Outcome.ofEntry r).2 = taskLeft r := by
  cases r <;> rfl

theorem perform_core_of_some {call : Call} {operation : Op Call.Value}
    (h : call.run? = some operation) (task : Task) :
    (Operation.core call).perform task = Outcome.ofOp .value (operation task) := by
  rw [Call.run?] at h
  rw [Operation.perform, Operation.performWithin, h]

theorem perform_core_of_none {call : Call} (h : call.run? = none) (task : Task) :
    (Operation.core call).perform task = (.absent, task) := by
  rw [Call.run?] at h
  rw [Operation.perform, Operation.performWithin, h]

/-- Whatever an operation does to a heap, it does by additions. -/
theorem perform_grows (op : Operation) (task : Task) :
    task.heap.Grows (op.perform task).2.heap := by
  cases op with
  | newAtom atom =>
      rw [Operation.perform, Operation.performWithin, ofOp_task]
      exact growing_newAtom atom task
  | newPair head rest =>
      rw [Operation.perform, Operation.performWithin, ofOp_task]
      exact growing_newPair head rest task
  | listOnto elems tail =>
      rw [Operation.perform, Operation.performWithin, ofOp_task]
      exact growing_listOnto elems tail task
  | intern name =>
      rw [Operation.perform, Operation.performWithin, ofOp_task]
      exact growing_intern name task
  | place table atom =>
      rw [Operation.perform, Operation.performWithin, ofOp_task]
      exact growing_place (atom.cell_tag table) task
  | narrow type v =>
      rw [Operation.perform, Operation.performWithin, ofOp_task]
      exact growing_look _ task
  | core call =>
      cases hop : call.run? with
      | none =>
          rw [perform_core_of_none hop]
          exact Heap.Grows.refl task.heap
      | some op =>
          rw [perform_core_of_some hop, ofOp_task]
          exact growing_run hop task
  | enter call =>
      rw [Operation.perform, Operation.performWithin, ofEntry_task]
      exact growing_enter call task

theorem after_grows (task : Task) (ops : List Operation) :
    task.heap.Grows (task.after ops).heap := by
  induction ops generalizing task with
  | nil => exact Heap.Grows.refl task.heap
  | cons op ops ih => exact (perform_grows op task).trans (ih (op.perform task).2)

end LispHeap

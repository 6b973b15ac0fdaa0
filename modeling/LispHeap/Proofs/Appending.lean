import LispHeap.Proofs.ListLayout
import LispHeap.Proofs.OwnRuns

/-!
# Appending and consing

There are three ways to a list of given elements in front of a given tail: place the whole of it,
append a list that already has the elements, or cons them on one at a time from the last to the
first. They differ in what they look at. Placing reads a length before each pair, consing a tag as
well, and appending looks at nothing once it has collected the elements. But a pair that was just
placed has the right tag and the right length, so none of these looks can go wrong, and all three
are `Op.listOnto`, down to the numbers of the boxes.

What is known of `listOnto` is therefore known of `append`. The front of the result is a copy and
its back is the second list itself. Nothing that was there before is touched, not even if the two
lists are one or share their ends, because the elements are collected before the first box is
placed.
-/

namespace LispHeap

/-! ## Operands that have to be lists -/

namespace Heap

variable {heap later : Heap} {v : Handle}

theorem asList_of_isList (op : String) (h : heap.IsList v) : heap.asList op v = .ok v := by
  rcases h with rfl | ⟨node, hnode⟩
  · rfl
  · rw [asList, tag_of_cell? hnode]
    rfl

/-- A value that is no list is refused with its tag. -/
theorem Has.asList_refuses (hv : heap.Has v) (h : ¬ heap.IsList v) (op : String) :
    ∃ tag, heap.tag v = .ok (some tag) ∧
      heap.asList op v = .error (.refused (.wrongType op (some tag))) := by
  rcases hv.cases with rfl | ⟨c, hc⟩
  · exact absurd (Or.inl rfl) h
  · refine ⟨c.tag, tag_of_cell? hc, ?_⟩
    rw [asList, tag_of_cell? hc]
    cases c with
    | pair node => exact absurd (Or.inr ⟨node, hc⟩) h
    | int _ | sym _ | str _ => rfl

/-- A value goes on being written as it was. -/
theorem Sound.write_grows (hs : heap.Sound) (hv : heap.Has v) (hg : heap.Grows later) :
    later.write v = heap.write v := by
  funext sink
  rcases hg.write v sink with ⟨f, left, hf⟩ | hsame
  · exact absurd hf (hs.faultless_write hv sink f left)
  · exact hsame

end Heap

section Appending

variable {task : Task} {a b : Handle}

theorem append_of_front_refused {e : Failure} (h : task.heap.asList "append" a = .error e)
    (b : Handle) : Op.append a b task = .error e task := by
  rw [append_eq_attempt, Heap.appendPlan, h]
  rfl

theorem append_of_back_refused (ha : task.heap.IsList a) {e : Failure}
    (h : task.heap.asList "append" b = .error e) : Op.append a b task = .error e task := by
  rw [append_eq_attempt, Heap.appendPlan, Heap.asList_of_isList "append" ha]
  show task.attempt (task.heap.asList "append" b >>= _) = _
  rw [h]
  rfl

theorem append_eq_listOnto (ha : task.heap.IsList a) (hb : task.heap.IsList b) {xs : List Handle}
    (hxs : task.heap.elements a = .ok xs) : Op.append a b task = Op.listOnto xs b task := by
  obtain ⟨n, hn⟩ := hb.exists_length
  have hplan : task.heap.appendPlan a b = .ok (.list task.heap xs b n) := by
    rw [Heap.appendPlan, Heap.asList_of_isList "append" ha, Heap.asList_of_isList "append" hb]
    show ((task.heap.elements a).mapError Failure.fault).bind _ = _
    rw [hxs]
    show ((task.heap.listLength b).mapError Failure.fault).bind _ = _
    rw [hn]
    rfl
  rw [append_eq_attempt, hplan, listOnto_eq_attempt hn]

end Appending

/-- After every run on handles of its own, for any two values: `append` refuses a first operand that
is no list with its tag, whatever the second is, and else a second one that is no list with its tag,
and then the task is as it was. Of two lists it returns a list of the elements of both. As many
rests as the first has elements lead to the second itself, by pairs that are all new. Every value,
the two lists among them, stays in its box and is written as before. -/
theorem append_copies_front_and_shares_back (names : List String) (out : Sink)
    (ops : List Operation) (h : (Session.start names out).permitsAll ops) {a b : Handle}
    (ha : ((Session.start names out).after ops).task.heap.Has a)
    (hb : ((Session.start names out).after ops).task.heap.Has b) :
    let task := ((Session.start names out).after ops).task
    (¬ task.heap.IsList a → ∃ tag, task.heap.tag a = .ok (some tag) ∧ ∀ other,
      Op.append a other task = .error (.refused (.wrongType "append" (some tag))) task) ∧
    (task.heap.IsList a → ¬ task.heap.IsList b → ∃ tag, task.heap.tag b = .ok (some tag) ∧
      Op.append a b task = .error (.refused (.wrongType "append" (some tag))) task) ∧
    (task.heap.IsList a → task.heap.IsList b → ∃ xs ys r left,
      (task.heap.Iterates a xs ∧ task.heap.Iterates b ys) ∧ Op.append a b task = .ok r left ∧
      left.heap.Iterates r (xs ++ ys) ∧ left.heap.length r = .ok (xs.length + ys.length) ∧
      left.heap.follow (List.replicate xs.length .d) r = .ok b ∧ (xs = [] → r = b) ∧
      (∀ k < xs.length, ∃ p node, left.heap.follow (List.replicate k .d) r = .ok p ∧
        left.heap.cell? p = some (.pair node) ∧ xs[k]? = some node.head ∧ ¬ task.heap.Has p) ∧
      (left.heap.Iterates a xs ∧ left.heap.Iterates b ys) ∧
      ∀ v, task.heap.Has v →
        left.heap.cell? v = task.heap.cell? v ∧ left.heap.write v = task.heap.write v) := by
  intro task
  have hs : task.heap.Sound := ((Session.sound_start names out).after h).heap
  refine ⟨fun hfront => ?_, fun hfront hback => ?_, fun hfront hback => ?_⟩
  · obtain ⟨tag, htag, hrefused⟩ := ha.asList_refuses hfront "append"
    exact ⟨tag, htag, append_of_front_refused hrefused⟩
  · obtain ⟨tag, htag, hrefused⟩ := hb.asList_refuses hback "append"
    exact ⟨tag, htag, append_of_back_refused hfront hrefused⟩
  · obtain ⟨xs, hxs⟩ := hs.toProper.exists_iterates hfront
    obtain ⟨ys, hys⟩ := hs.toProper.exists_iterates hback
    obtain ⟨r, left, hlist, hlayout⟩ := laysOut_listOnto hs.toProper hback hys xs
    obtain ⟨hlinks, hfresh⟩ := links_listOnto (hys.listLength hback) hlist
    have happend := (append_eq_listOnto hfront hback hxs.elements).trans hlist
    have hgrows : task.heap.Grows left.heap := by
      have := growing_append a b task
      rwa [happend] at this
    refine ⟨xs, ys, r, left, ⟨hxs, hys⟩, happend, hlayout.elements, ?_, hlinks, ?_, hfresh,
      ⟨hxs.grows hgrows, hys.grows hgrows⟩,
      fun v hv => ⟨hlayout.others v hv, hs.write_grows hv hgrows⟩⟩
    · rw [hlayout.elements.length, List.length_append]
    · rintro rfl
      exact hlayout.start

/-- Appends a list to a list that ends with it, and to an integer. -/
theorem append_to_own_end :
    (Session.start ["x"] {}).permitsAll carefulRun ∧
    ((Session.start ["x"] {}).after carefulRun).task.heap.cell? ⟨6⟩ =
      some (.pair ⟨3, .t, ⟨5⟩⟩) ∧
    (∃ xs ys r left,
      Op.append ⟨6⟩ ⟨5⟩ ((Session.start ["x"] {}).after carefulRun).task = .ok r left ∧
      left.heap.Iterates r (xs ++ ys) ∧
      left.heap.follow (List.replicate xs.length .d) r = .ok ⟨5⟩ ∧ left.heap.Iterates ⟨6⟩ xs) ∧
    ∃ tag, Op.append ⟨3⟩ ⟨5⟩ ((Session.start ["x"] {}).after carefulRun).task =
      .error (.refused (.wrongType "append" (some tag)))
        ((Session.start ["x"] {}).after carefulRun).task := by
  have hrun : (Session.start ["x"] {}).permitsAll carefulRun := by decide +kernel
  have hlong : ((Session.start ["x"] {}).after carefulRun).task.heap.cell? ⟨6⟩ =
      some (.pair ⟨3, .t, ⟨5⟩⟩) := by decide +kernel
  have hshort : ((Session.start ["x"] {}).after carefulRun).task.heap.cell? ⟨5⟩ =
      some (.pair ⟨2, ⟨2⟩, ⟨4⟩⟩) := by decide +kernel
  have hint : ((Session.start ["x"] {}).after carefulRun).task.heap.cell? ⟨3⟩ =
      some (.int 5) := by decide +kernel
  have hno := Heap.not_isList_of_cell? hint (by decide)
  have hback := (Heap.cell?_bounds hshort).2
  obtain ⟨_, _, hlists⟩ := append_copies_front_and_shares_back ["x"] {} carefulRun hrun
    (Heap.cell?_bounds hlong).2 hback
  obtain ⟨hfront, _, _⟩ := append_copies_front_and_shares_back ["x"] {} carefulRun hrun
    (Heap.cell?_bounds hint).2 hback
  obtain ⟨xs, ys, r, left, _, happend, hboth, _, hend, _, _, hkept, _⟩ :=
    hlists (Or.inr ⟨_, hlong⟩) (Or.inr ⟨_, hshort⟩)
  obtain ⟨tag, _, hrefused⟩ := hfront hno
  exact ⟨hrun, hlong, ⟨xs, ys, r, left, happend, hboth, hend, hkept.1⟩, tag,
    hrefused ⟨5⟩⟩

/-! ## Consing -/

section Consing

variable {task : Task} {tail : Handle} {n : Nat}

theorem cons_of_isList {l : Handle} (h : task.heap.IsList l) (x : Handle) :
    Op.cons x l task = Op.newPair x l task := by
  show EStateM.bind (Op.look (·.tag l)) _ task = _
  rw [EStateM.bind, Op.look]
  rcases h with rfl | ⟨node, hnode⟩
  · rfl
  · rw [Heap.tag_of_cell? hnode]
    rfl

theorem cons_eq_listOnto {l : Handle} (h : task.heap.IsList l) (x : Handle) :
    Op.cons x l task = Op.listOnto [x] l task :=
  cons_of_isList h x

theorem foldrM_cons_eq_listOnto (hn : task.heap.listLength tail = .ok n) (xs : List Handle) :
    xs.foldrM Op.cons tail task = Op.listOnto xs tail task := by
  induction xs with
  | nil => rfl
  | cons x xs ih =>
      rw [List.foldrM_cons]
      show EStateM.bind (xs.foldrM Op.cons tail) (Op.cons x) task =
        EStateM.bind (Op.listOnto xs tail) (Op.newPair x) task
      -- What the next element is consed onto is the pair that was placed last.
      have hstart := Heap.isList_of_listLength (listLength_startOnto hn xs)
      rw [EStateM.bind, EStateM.bind, ih, listOnto_of_length hn]
      exact cons_of_isList hstart x

theorem ofOp_bind {α β : Type} (op : Op α) (f : α → Op β) :
    Entry.ofOp (op >>= f) = Entry.ofOp op >>= fun a => Entry.ofOp (f a) := by
  funext task
  show Entry.ofOp (EStateM.bind op f) task = EStateM.bind (Entry.ofOp op) _ task
  rw [Entry.ofOp, EStateM.bind, EStateM.bind, Entry.ofOp]
  cases op task with
  | ok a mid => rfl
  | error e mid => cases e <;> rfl

/-- Consing by the entry point is consing by the operation, and then looking at how it ended. -/
theorem foldrM_enter_cons (xs : List Handle) (tail : Handle) :
    xs.foldrM (fun x rest => (Call.cons x rest).enter) tail =
      Entry.ofOp (xs.foldrM Op.cons tail) := by
  induction xs with
  | nil => rfl
  | cons x xs ih =>
      rw [List.foldrM_cons, List.foldrM_cons, ih, ofOp_bind]
      rfl

theorem consing_of_length (hn : task.heap.listLength tail = .ok n) (xs : List Handle) :
    ∃ r left, Op.listOnto xs tail task = .ok r left ∧ xs.foldrM Op.cons tail task = .ok r left ∧
      xs.foldrM (fun x rest => (Call.cons x rest).enter) tail task = .ok r left := by
  have hlist := listOnto_of_length hn xs
  have hcons := (foldrM_cons_eq_listOnto hn xs).trans hlist
  refine ⟨_, _, hlist, hcons, ?_⟩
  rw [foldrM_enter_cons]
  exact ofOp_of_ok hcons

end Consing

/-- After a run on any handles at all, and for elements that are any handles at all: placing the
elements in front of a list, and consing them onto it from the last to the first, both return the
same handle and leave the same task. So do the list primitive and consing onto the empty list, and
so do appending a list and consing the elements that it has. The entry points do too. -/
theorem constructors_place_alike (names : List String) (ops : List Operation) {tail : Handle}
    (h : ((Task.fresh names).after ops).heap.IsList tail) :
    let task := (Task.fresh names).after ops
    (∀ elems, ∃ r left, Op.listOnto elems tail task = .ok r left ∧
      elems.foldrM Op.cons tail task = .ok r left) ∧
    (∀ elems, ∃ r left, Op.newList elems task = .ok r left ∧
      elems.foldrM Op.cons .nil task = .ok r left ∧
      (Call.list elems).enter task = .ok r left ∧
      elems.foldrM (fun x rest => (Call.cons x rest).enter) .nil task = .ok r left) ∧
    ∀ a, task.heap.IsList a → ∃ xs r left, task.heap.Iterates a xs ∧
      Op.append a tail task = .ok r left ∧ xs.foldrM Op.cons tail task = .ok r left ∧
      (Call.append a tail).enter task = .ok r left ∧
      xs.foldrM (fun x rest => (Call.cons x rest).enter) tail task = .ok r left := by
  intro task
  have hp : task.heap.Proper := Heap.proper_after names ops
  obtain ⟨n, hn⟩ := h.exists_length
  refine ⟨fun elems => ?_, fun elems => ?_, fun a ha => ?_⟩
  · obtain ⟨r, left, hlist, hcons, _⟩ := consing_of_length hn elems
    exact ⟨r, left, hlist, hcons⟩
  · obtain ⟨r, left, hlist, hcons, henter⟩ :=
      consing_of_length (Heap.listLength_nil task.heap) elems
    exact ⟨r, left, hlist, hcons, ofOp_of_ok hlist, henter⟩
  · obtain ⟨xs, hxs⟩ := hp.exists_iterates ha
    obtain ⟨r, left, hlist, hcons, henter⟩ := consing_of_length hn xs
    have happend := (append_eq_listOnto ha h hxs.elements).trans hlist
    exact ⟨xs, r, left, hxs, happend, hcons, ofOp_of_ok happend, henter⟩

theorem stray_constructors_place_alike :
    let task := (Task.fresh ["a"]).after strayRun
    task.heap.IsList ⟨4⟩ ∧ task.heap.IsList ⟨6⟩ ∧
    (∃ r left, Op.listOnto [⟨93⟩, .t] ⟨4⟩ task = .ok r left ∧
      [⟨93⟩, .t].foldrM Op.cons ⟨4⟩ task = .ok r left) ∧
    ∃ xs r left, task.heap.Iterates ⟨6⟩ xs ∧ Op.append ⟨6⟩ ⟨4⟩ task = .ok r left ∧
      xs.foldrM Op.cons ⟨4⟩ task = .ok r left := by
  intro task
  have hback : task.heap.IsList ⟨4⟩ := Or.inr ⟨⟨2, ⟨90⟩, ⟨3⟩⟩, by decide⟩
  have hfront : task.heap.IsList ⟨6⟩ := Or.inr ⟨⟨3, ⟨92⟩, ⟨4⟩⟩, by decide⟩
  obtain ⟨hplaced, _, happended⟩ := constructors_place_alike ["a"] strayRun hback
  obtain ⟨xs, r, left, hxs, happend, hcons, _⟩ := happended ⟨6⟩ hfront
  exact ⟨hback, hfront, hplaced [⟨93⟩, .t], xs, r, left, hxs, happend, hcons⟩

end LispHeap

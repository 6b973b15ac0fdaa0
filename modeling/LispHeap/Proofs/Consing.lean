import LispHeap.Proofs.Accessors
import LispHeap.Proofs.Appending

/-!
# Consing and taking apart

`cons` makes a pair, and `car` and `cdr` give back what it was made of. The head is not looked at,
so it comes back whatever it is. The tail is looked at, because a pair continues with a list: an
integer is put into a list of its own first, and a symbol or a string is refused. This is where a
list that ends in something else than the empty list could have come from.

A pair needs a box, and an integer tail needs a second one. On a heap that has no numbers left for
them `cons` stops, whatever it is given.

The other way round, a pair that is taken apart and consed again is in a new box, but what is in the
box is the same, the length included, since the length that was stored is the one that is read off
the rest. A reader looks into the box and never at its number. So the new pair is written as the old
one is, provided that the old one can be written: a head from nowhere may have got a box by now.
-/

namespace LispHeap

/-! ## What is read off a box -/

namespace Heap

variable {heap later : Heap} {v u : Handle}

/-- Writing goes by what is in a box, not by where it is. -/
theorem write_congr_view (h : heap.view v = heap.view u) : heap.write v = heap.write u := by
  funext sink
  show heap.writeWithin (heap.size + sink.room.depth + 1) v sink =
    heap.writeWithin (heap.size + sink.room.depth + 1) u sink
  rw [writeWithin_succ, writeWithin_succ, h]

/-- What is put into a second box is written as before. -/
theorem Grows.repeats_write (hg : heap.Grows later) {c : Cell} (hv : heap.cell? v = some c)
    (hu : later.cell? u = some c) : Repeats (heap.write v) (later.write u) := by
  have hsame : later.view u = later.view v :=
    (view_of_cell? hu).trans (view_of_cell? (hg.cell?_of_some hv)).symm
  rw [write_congr_view hsame]
  exact hg.write v

/-- The elements of a pair are its head and those of its rest. -/
theorem Proper.iterates_pair (hp : heap.Proper) {node : Pair}
    (h : heap.cell? v = some (.pair node)) {ts : List Handle} (hts : heap.Iterates node.rest ts) :
    heap.Iterates v (node.head :: ts) := by
  refine hp.iterates (Or.inr ⟨node, h⟩) ?_
  rw [hp.elements_pair h, hts.elements]
  rfl

/-- A pair is one longer than its rest. -/
theorem Proper.length_pair (hp : heap.Proper) {node : Pair}
    (h : heap.cell? v = some (.pair node)) {ts : List Handle} (hts : heap.Iterates node.rest ts) :
    node.length = ts.length + 1 :=
  hp.length_of_rest h (hts.listLength (hp.isList_rest h))

end Heap

/-! ## The pair that is returned -/

/-- What consing comes to: a new pair of a head and a rest, in front of the elements of the rest,
with all that was there as it was. -/
structure Task.Conses (task : Task) (x rest : Handle) (ts : List Handle) (p : Handle)
    (left : Task) : Prop where
  new : ¬ task.heap.Has p
  car : left.heap.car p = .ok x
  cdr : left.heap.cdr p = .ok rest
  behind : left.heap.Iterates rest ts
  elements : left.heap.Iterates p (x :: ts)
  others : ∀ v, task.heap.Has v → left.heap.cell? v = task.heap.cell? v

section Consing

variable {task left : Task} {x t p : Handle} {xs ts : List Handle}

/-- The first pair of a list that was laid out. -/
theorem Task.LaysOut.cell?_start (h : task.LaysOut (x :: xs) t ts p left) :
    left.heap.cell? p =
      some (.pair ⟨ts.length + (xs.length + 1), x, startOnto task.heap.size t xs⟩) := by
  have hpair := h.pairs (xs.length + 1) x (Nat.succ_pos _) (Nat.le_refl _) (by simp)
  obtain rfl := h.start
  rw [startOnto_eq]
  simpa using hpair

theorem Task.LaysOut.conses (hp : left.heap.Proper) (h : task.LaysOut (x :: xs) t ts p left) :
    task.Conses x (startOnto task.heap.size t xs) (xs ++ ts) p left := by
  have hcell := h.cell?_start
  obtain ⟨node, hnode, _, hrest⟩ := hp.pair_of_elements (Or.inr ⟨_, hcell⟩) h.elements.elements
  cases hcell.symm.trans hnode
  refine ⟨?_, Heap.car_of_cell? hcell, Heap.cdr_of_cell? hcell,
    hp.iterates (hp.isList_rest hcell) hrest, h.elements, h.others⟩
  rw [h.start, Heap.Has]
  simp

/-- An integer is consed onto as the list of it. -/
theorem cons_of_int {value : Int32} (h : task.heap.cell? t = some (.int value)) (x : Handle) :
    Op.cons x t task = Op.listOnto [x, t] .nil task := by
  show EStateM.bind (Op.look (·.tag t)) _ task = _
  rw [EStateM.bind, Op.look, Heap.tag_of_cell? h]
  rfl

theorem conses_onto_list (hp : task.heap.Proper) (ht : task.heap.IsList t)
    (hts : task.heap.Iterates t ts) (x : Handle) :
    ∃ p left, Op.cons x t task = .ok p left ∧ task.Conses x t ts p left ∧
      left.heap.cell? p = some (.pair ⟨ts.length + 1, x, t⟩) ∧
      left.heap.size = task.heap.size + 1 := by
  obtain ⟨p, left, hlist, hlayout⟩ := laysOut_listOnto hp ht hts [x]
  have hcons := (cons_eq_listOnto ht x).trans hlist
  have hgrows := (growing_cons x t).ok hcons
  exact ⟨p, left, hcons, hlayout.conses (hp.grows hgrows), hlayout.cell?_start, hlayout.size⟩

theorem conses_onto_int (hp : task.heap.Proper) {value : Int32}
    (ht : task.heap.cell? t = some (.int value)) (x : Handle) :
    ∃ p left, Op.cons x t task = .ok p left ∧
      task.Conses x ⟨task.heap.size + 1⟩ [t] p left ∧ p = ⟨task.heap.size + 2⟩ ∧
      left.heap.size = task.heap.size + 2 := by
  have hnil := hp.iterates (Or.inl rfl) (Heap.elements_nil task.heap)
  obtain ⟨p, left, hlist, hlayout⟩ := laysOut_listOnto hp (Or.inl rfl) hnil [x, t]
  have hcons := (cons_of_int ht x).trans hlist
  have hgrows := (growing_cons x t).ok hcons
  exact ⟨p, left, hcons, hlayout.conses (hp.grows hgrows), hlayout.start, hlayout.size⟩

/-- A pair that is taken apart is consed to a pair with the same in its box. -/
theorem conses_again (hp : task.heap.Proper) {node : Pair}
    (h : task.heap.cell? p = some (.pair node)) :
    ∃ ts r left, task.heap.Iterates p (node.head :: ts) ∧
      Op.cons node.head node.rest task = .ok r left ∧
      task.Conses node.head node.rest ts r left ∧ left.heap.cell? r = some (.pair node) ∧
      left.heap.size = task.heap.size + 1 := by
  have hrest := hp.isList_rest h
  obtain ⟨ts, hts⟩ := hp.exists_iterates hrest
  obtain ⟨r, left, hcons, hconses, hcell, hsize⟩ := conses_onto_list hp hrest hts node.head
  refine ⟨ts, r, left, hp.iterates_pair h hts, hcons, hconses, ?_, hsize⟩
  rw [hcell, ← hp.length_pair h hts]

end Consing

/-! ## Within the limit -/

section Within

variable {task left : Task} {x t p : Handle} {n : Nat}

theorem consWithin_of_le (h : Op.cons x t task = .ok p left) (hle : left.heap.size ≤ n) :
    Op.consWithin (some n) x t task = .ok p left := by
  have hsize : task.heap.size ≤ n := Nat.le_trans ((growing_cons x t).ok h).size_le hle
  cases consWithin_bounded hsize x t with
  | fits heq _ => rw [heq, h]
  | full hwhole hlt _ _ =>
      cases hwhole.symm.trans h
      exact absurd hlt (Nat.not_lt_of_le hle)

theorem consWithin_of_lt (h : Op.cons x t task = .ok p left) (hsize : task.heap.size ≤ n)
    (hlt : n < left.heap.size) :
    ∃ last, Op.consWithin (some n) x t task = .error (.fault (.exhausted n)) last ∧
      last.heap.size = n := by
  cases consWithin_bounded hsize x t with
  | fits _ hfits =>
      rw [h] at hfits
      exact absurd hlt (Nat.not_lt_of_le hfits)
  | full _ _ hcut hlast => exact ⟨_, hcut, hlast⟩

theorem consWithin_refuses {tag : Tag} (h : task.heap.tag t = .ok (some tag))
    (htag : tag = .sym ∨ tag = .str) (limit : Option Nat) (x : Handle) :
    Op.consWithin limit x t task = .error (.refused (.wrongType "cons" (some tag))) task := by
  show EStateM.bind (Op.look (·.tag t)) _ task = _
  rw [EStateM.bind, Op.look, h]
  rcases htag with rfl | rfl <;> rfl

end Within

/-- After a run on any handles at all, and for a head that is any handle at all. Consed onto a list,
where there is a number left for a box, it makes a new pair of the two, one longer than the list,
whose elements are the head and then those of the list. Consed onto an integer, where there are two
numbers left, it makes a new pair of the head and a new list of the integer alone. Without that many
numbers left the heap is full, and that is the fault. A symbol or a string is refused with its tag,
and the task is as it was. The other way round, the head and the rest of any pair can be taken, and
consing them, where there is a number left, makes a new pair with the same elements and length,
which is written and printed as the first is unless a fault stops that. -/
theorem cons_inverts_car_and_cdr (names : List String) (ops : List Operation) (x t : Handle) :
    let task := (Task.fresh names).afterWithin (some Heap.maxSize) ops
    let cons := Op.consWithin (some Heap.maxSize)
    let free := Heap.maxSize - task.heap.size
    (task.heap.IsList t → 1 ≤ free → ∃ ts p left, task.heap.Iterates t ts ∧
      cons x t task = .ok p left ∧ task.Conses x t ts p left ∧
      left.heap.length p = .ok (1 + ts.length) ∧ left.heap.size = task.heap.size + 1) ∧
    (∀ value, task.heap.cell? t = some (.int value) → 2 ≤ free → ∃ p rest left,
      cons x t task = .ok p left ∧ task.Conses x rest [t] p left ∧
      (¬ task.heap.Has rest ∧ rest ≠ p) ∧ left.heap.length p = .ok 2 ∧
      left.heap.size = task.heap.size + 2) ∧
    (task.heap.IsList t ∧ free < 1 ∨ (∃ value, task.heap.cell? t = some (.int value)) ∧ free < 2 →
      ∃ left, cons x t task = .error (.fault (.exhausted Heap.maxSize)) left ∧
        left.heap.size = Heap.maxSize) ∧
    (∀ tag, task.heap.tag t = .ok (some tag) → tag = .sym ∨ tag = .str →
      cons x t task = .error (.refused (.wrongType "cons" (some tag))) task) ∧
    ∀ q node, task.heap.cell? q = some (.pair node) → ∃ a d,
      (task.heap.car q = .ok a ∧ task.heap.cdr q = .ok d) ∧ (1 ≤ free → ∃ xs p left,
        cons a d task = .ok p left ∧ ¬ task.heap.Has p ∧
        (task.heap.Iterates q xs ∧ left.heap.Iterates p xs) ∧
        (∀ v, task.heap.Has v → left.heap.cell? v = task.heap.cell? v) ∧
        Repeats (task.heap.write q) (left.heap.write p) ∧
        Repeats (task.heap.print q) (left.heap.print p)) := by
  intro task cons free
  have hp : task.heap.Proper := Heap.proper_afterWithin _ names ops
  have hlimit : task.heap.size ≤ Heap.maxSize := size_afterWithin_fresh_le names ops
  refine ⟨fun ht hfree => ?_, fun value ht hfree => ?_, ?_,
    fun tag ht htag => consWithin_refuses ht htag _ x, fun q node hq => ?_⟩
  · obtain ⟨ts, hts⟩ := hp.exists_iterates ht
    obtain ⟨p, left, hcons, hconses, _, hsize⟩ := conses_onto_list hp ht hts x
    refine ⟨ts, p, left, hts, consWithin_of_le hcons (by omega), hconses, ?_, hsize⟩
    rw [hconses.elements.length, List.length_cons, Nat.add_comm]
  · obtain ⟨p, left, hcons, hconses, rfl, hsize⟩ := conses_onto_int hp ht x
    refine ⟨_, _, left, consWithin_of_le hcons (by omega), hconses, ⟨?_, ?_⟩,
      hconses.elements.length, hsize⟩
    · rw [Heap.Has]
      simp
    · simp
  · rintro (⟨ht, hfull⟩ | ⟨⟨value, ht⟩, hfull⟩)
    · obtain ⟨ts, hts⟩ := hp.exists_iterates ht
      obtain ⟨p, left, hcons, _, _, hsize⟩ := conses_onto_list hp ht hts x
      exact consWithin_of_lt hcons hlimit (by omega)
    · obtain ⟨p, left, hcons, _, _, hsize⟩ := conses_onto_int hp ht x
      exact consWithin_of_lt hcons hlimit (by omega)
  · refine ⟨_, _, ⟨Heap.car_of_cell? hq, Heap.cdr_of_cell? hq⟩, fun hfree => ?_⟩
    obtain ⟨ts, p, left, hxs, hcons, hconses, hcell, hsize⟩ := conses_again hp hq
    have hwrite := ((growing_cons _ _).ok hcons).repeats_write hq hcell
    exact ⟨_, p, left, consWithin_of_le hcons (by omega), hconses.new, ⟨hxs, hconses.elements⟩,
      hconses.others, hwrite, hwrite.bind fun _ => .rfl⟩

/-- A head from nowhere in front of an integer and of a list, and the list of the integer taken
apart and consed again. -/
theorem stray_heads_come_back :
    let task := (Task.fresh ["a"]).afterWithin (some Heap.maxSize) strayRun
    let cons := Op.consWithin (some Heap.maxSize)
    (task.heap.cell? ⟨2⟩ = some (.int 5) ∧ ∃ p rest left,
      cons ⟨95⟩ ⟨2⟩ task = .ok p left ∧ left.heap.car p = .ok ⟨95⟩ ∧
      left.heap.cdr p = .ok rest ∧ left.heap.Iterates rest [⟨2⟩] ∧ left.heap.length p = .ok 2) ∧
    (task.heap.cell? ⟨6⟩ = some (.pair ⟨3, ⟨92⟩, ⟨4⟩⟩) ∧ ∃ ts p left,
      cons ⟨95⟩ ⟨6⟩ task = .ok p left ∧ left.heap.Iterates p (⟨95⟩ :: ts)) ∧
    (∃ a d p left, (task.heap.car ⟨3⟩ = .ok a ∧ task.heap.cdr ⟨3⟩ = .ok d) ∧
      cons a d task = .ok p left ∧ ¬ task.heap.Has p ∧
      task.heap.write ⟨3⟩ {} = .ok () ⟨.unlimited, "(5)".toUTF8⟩ ∧
      left.heap.write p {} = .ok () ⟨.unlimited, "(5)".toUTF8⟩) ∧
    task.heap.tag ⟨5⟩ = .ok (some .sym) ∧
    cons ⟨95⟩ ⟨5⟩ task = .error (.refused (.wrongType "cons" (some .sym))) task := by
  intro task cons
  have hint : task.heap.cell? ⟨2⟩ = some (.int 5) := by decide
  have hpair : task.heap.cell? ⟨6⟩ = some (.pair ⟨3, ⟨92⟩, ⟨4⟩⟩) := by decide
  have hshort : task.heap.cell? ⟨3⟩ = some (.pair ⟨1, ⟨2⟩, .nil⟩) := by decide
  have hsym : task.heap.tag ⟨5⟩ = .ok (some .sym) := by decide +kernel
  have htext : task.heap.write ⟨3⟩ {} = .ok () ⟨.unlimited, "(5)".toUTF8⟩ := by rfl
  have hfree : 2 ≤ Heap.maxSize - task.heap.size := by decide
  have hfree' : 1 ≤ Heap.maxSize - task.heap.size := by decide
  obtain ⟨_, honto, _, _, hagain⟩ := cons_inverts_car_and_cdr ["a"] strayRun ⟨95⟩ ⟨2⟩
  obtain ⟨hfront, _, _, _⟩ := cons_inverts_car_and_cdr ["a"] strayRun ⟨95⟩ ⟨6⟩
  obtain ⟨_, _, _, hrefuses, _⟩ := cons_inverts_car_and_cdr ["a"] strayRun ⟨95⟩ ⟨5⟩
  obtain ⟨p, rest, left, hcons, hconses, _, hlength, _⟩ := honto 5 hint hfree
  obtain ⟨ts, p', left', _, hcons', hconses', _⟩ := hfront (Or.inr ⟨_, hpair⟩) hfree'
  obtain ⟨a, d, hparts, hagain⟩ := hagain ⟨3⟩ _ hshort
  obtain ⟨_, r, last, hcons'', hnew, _, _, hwrite, _⟩ := hagain hfree'
  have hsame : last.heap.write r {} = .ok () ⟨.unlimited, "(5)".toUTF8⟩ := by
    rcases hwrite {} with ⟨f, stop, hf⟩ | hsame
    · cases htext.symm.trans hf
    · exact hsame.trans htext
  exact ⟨⟨hint, p, rest, left, hcons, hconses.car, hconses.cdr, hconses.behind, hlength⟩,
    ⟨hpair, ts, p', left', hcons', hconses'.elements⟩,
    ⟨a, d, r, last, hparts, hcons'', hnew, htext, hsame⟩, hsym, hrefuses .sym hsym (Or.inl rfl)⟩

/-- The empty list is consed onto in vain when all numbers are taken. -/
theorem full_heap_stops_cons :
    let task := (Task.fresh []).afterWithin (some Heap.maxSize)
      (List.replicate (Heap.maxSize - 1) (.newAtom (.int 0)))
    task.heap.IsList .nil ∧ ∃ left, Op.consWithin (some Heap.maxSize) .nil .nil task =
      .error (.fault (.exhausted Heap.maxSize)) left :=
  ⟨Or.inl rfl, consWithin_of_full (size_afterWithin_numbers [] Heap.maxSize (by decide)) .nil⟩

end LispHeap

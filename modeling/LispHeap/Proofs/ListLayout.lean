import LispHeap.Proofs.Lasting

/-!
# Where the pairs of a new list are

Numbers of boxes can be seen from outside, so it matters which pair of a new list gets which number.
`Op.listOnto` places the last element first. The pair of the first element therefore has the largest
number, each pair continues with the number just below its own, and only the pair that was placed
first continues with the tail.

The pairs were written down before they are placed (`pairsOnto`), and what is written down for the
end of a list comes first in what is written down for the whole. So one statement about the end of
a list says where all of its pairs are: `cell?_startOnto` finds the first pair of every end, on the
heap that has all pairs. Elements, lengths and rests are read off it on that heap, and the heaps in
between need not be looked at.
-/

namespace LispHeap

/-! ## A list and its elements -/

namespace Heap

variable {heap later : Heap} {l : Handle} {xs : List Handle}

/-- Whoever reads the list is given these elements: collecting them, counting them, and asking a
cursor for one after the other, which says each time how many are left. -/
structure Iterates (heap : Heap) (l : Handle) (xs : List Handle) : Prop where
  elements : heap.elements l = .ok xs
  length : heap.length l = .ok xs.length
  visits : ∀ k, Cursor.visits heap (xs.length + k) (.ofList l) =
    .ok (Cursor.countdown xs ++ List.replicate k ⟨0, none⟩)

theorem Proper.iterates (hp : heap.Proper) (hl : heap.IsList l) (h : heap.elements l = .ok xs) :
    heap.Iterates l xs := by
  obtain ⟨ys, hys, hlen⟩ := hp.exists_elements l hl
  obtain rfl : ys = xs := Except.ok.inj (hys.symm.trans h)
  refine ⟨h, ?_, fun k => Cursor.visits_ofList hp k l hl ys h⟩
  rw [length_of_isList hl, hlen]
  rfl

theorem Proper.exists_iterates (hp : heap.Proper) (hl : heap.IsList l) :
    ∃ xs, heap.Iterates l xs := by
  obtain ⟨xs, hxs, _⟩ := hp.exists_elements l hl
  exact ⟨xs, hp.iterates hl hxs⟩

theorem Iterates.grows (h : heap.Iterates l xs) (hg : heap.Grows later) : later.Iterates l xs :=
  ⟨(hg.elements l).ok h.elements, (hg.length l).ok h.length,
    fun k => (hg.visits _ _).ok (h.visits k)⟩

theorem Iterates.listLength (h : heap.Iterates l xs) (hl : heap.IsList l) :
    heap.listLength l = .ok xs.length :=
  mapError_eq_ok ((length_of_isList hl).symm.trans h.length)

theorem isList_of_listLength {n : Nat} (h : heap.listLength l = .ok n) : heap.IsList l :=
  (listLength_ok_cases h).imp (·.1) fun ⟨node, hnode, _⟩ => ⟨node, hnode⟩

theorem not_isList_of_cell? {c : Cell} (h : heap.cell? l = some c) (hc : c.tag ≠ .pair) :
    ¬ heap.IsList l := by
  rintro (rfl | ⟨node, hnode⟩)
  · cases h
  · cases h.symm.trans hnode
    exact hc rfl

/-- The length of what is no list cannot be read, for want of a box or of a pair in it. -/
theorem listLength_of_not_isList (h : ¬ heap.IsList l) :
    heap.cell? l = none ∧ heap.listLength l = .error (.unallocated l) ∨
      (∃ c, heap.cell? l = some c) ∧ heap.listLength l = .error (.mistyped l .pair) := by
  have hl : ¬ l.isNil = true := fun hnil => h (Or.inl (Handle.isNil_iff.mp hnil))
  rw [Heap.listLength, if_neg hl, pairAt, cell]
  cases hc : heap.cell? l with
  | none => exact Or.inl ⟨rfl, rfl⟩
  | some c =>
      cases c with
      | pair node => exact absurd (Or.inr ⟨node, hc⟩) h
      | int _ | sym _ | str _ => exact Or.inr ⟨⟨_, rfl⟩, rfl⟩

theorem car_of_cell? {node : Pair} (h : heap.cell? l = some (.pair node)) :
    heap.car l = .ok node.head := by
  rw [car, asPair_eq, view_of_cell? h]
  rfl

theorem cdr_of_cell? {node : Pair} (h : heap.cell? l = some (.pair node)) :
    heap.cdr l = .ok node.rest := by
  rw [cdr, asPair_eq, view_of_cell? h]
  rfl

end Heap

/-! ## Boxes behind a placement -/

namespace Task

variable {task : Task} {v : Handle} {c : Cell}

theorem cell?_placeAll_of_some (h : task.heap.cell? v = some c) (cs : List Cell) :
    (task.placeAll cs).heap.cell? v = some c := by
  induction cs generalizing task with
  | nil => exact h
  | cons d cs ih =>
      show ((task.place d).placeAll cs).heap.cell? v = some c
      exact ih (Heap.cell?_push_of_some h)

theorem cell?_placeAll_of_has (h : task.heap.Has v) (cs : List Cell) :
    (task.placeAll cs).heap.cell? v = task.heap.cell? v := by
  rcases h.cases with rfl | ⟨c, hc⟩
  · rfl
  · rw [hc, cell?_placeAll_of_some hc]

theorem cell?_placeAll_self (task : Task) (cs : List Cell) (c : Cell) (ds : List Cell) :
    (task.placeAll (cs ++ c :: ds)).heap.cell? ⟨task.heap.size + cs.length + 1⟩ = some c := by
  have hnew := Heap.cell?_push_self (task.placeAll cs).heap c
  rw [size_placeAll] at hnew
  rw [placeAll_append]
  show (((task.placeAll cs).place c).placeAll ds).heap.cell? _ = some c
  exact cell?_placeAll_of_some hnew ds

end Task

/-! ## Ends of a list -/

theorem startOnto_eq (size : Nat) (tail : Handle) (xs : List Handle) :
    startOnto size tail xs = if xs.length = 0 then tail else ⟨size + xs.length⟩ := by
  cases xs <;> rfl

section Ends

variable (task : Task) (n : Nat) (tail : Handle) {x : Handle} {xs ys : List Handle}

/-- Each end of the list starts at a pair of its own, which holds the next element and goes on with
the end behind it. -/
theorem cell?_startOnto (h : x :: ys <:+ xs) :
    (task.placeAll (pairsOnto task.heap.size n tail xs)).heap.cell?
        (startOnto task.heap.size tail (x :: ys)) =
      some (.pair ⟨n + ys.length + 1, x, startOnto task.heap.size tail ys⟩) := by
  obtain ⟨more, hmore⟩ := pairsOnto_prefix task.heap.size n tail h
  have hself := task.cell?_placeAll_self (pairsOnto task.heap.size n tail ys)
    (.pair ⟨n + ys.length + 1, x, startOnto task.heap.size tail ys⟩) more
  rw [length_pairsOnto] at hself
  rw [← hmore, pairsOnto, List.append_assoc]
  exact hself

/-- The same for the end behind the first `k` elements. -/
theorem cell?_startOnto_drop {k : Nat} (hk : k < xs.length) :
    (task.placeAll (pairsOnto task.heap.size n tail xs)).heap.cell?
        (startOnto task.heap.size tail (xs.drop k)) =
      some (.pair ⟨n + (xs.length - k), xs[k],
        startOnto task.heap.size tail (xs.drop (k + 1))⟩) := by
  have hdrop : xs.drop k = xs[k] :: xs.drop (k + 1) := List.drop_eq_getElem_cons hk
  have hlen : n + (xs.length - k) = n + (xs.drop (k + 1)).length + 1 := by
    rw [List.length_drop]
    omega
  rw [hdrop, hlen]
  exact cell?_startOnto task n tail (hdrop ▸ List.drop_suffix k xs)

/-- The pair with the `k`-th new number starts the end of the list that has `k` elements. -/
theorem cell?_pairsOnto {k : Nat} (hpos : 0 < k) (hk : k ≤ xs.length)
    (hx : xs[xs.length - k]? = some x) :
    (task.placeAll (pairsOnto task.heap.size n tail xs)).heap.cell? ⟨task.heap.size + k⟩ =
      some (.pair ⟨n + k, x, if k = 1 then tail else ⟨task.heap.size + k - 1⟩⟩) := by
  obtain ⟨hlt, rfl⟩ := List.getElem?_eq_some_iff.mp hx
  obtain ⟨j, rfl⟩ : ∃ j, k = j + 1 := ⟨k - 1, by omega⟩
  have hcell := cell?_startOnto_drop task n tail hlt
  have hlen : xs.length - (xs.length - (j + 1)) = j + 1 := by omega
  have hnext : xs.length - (xs.length - (j + 1) + 1) = j := by omega
  rw [startOnto_eq, startOnto_eq, List.length_drop, List.length_drop, hlen, hnext] at hcell
  simpa [Nat.add_assoc] using hcell

variable {task n tail}

theorem grows_pairsOnto (hn : task.heap.listLength tail = .ok n) (xs : List Handle) :
    task.heap.Grows (task.placeAll (pairsOnto task.heap.size n tail xs)).heap := by
  exact (growing_listOnto xs tail).ok (listOnto_of_length hn xs)

theorem elements_startOnto (hp : task.heap.Proper) (hn : task.heap.listLength tail = .ok n)
    {ts : List Handle} (hts : task.heap.elements tail = .ok ts) (h : ys <:+ xs) :
    (task.placeAll (pairsOnto task.heap.size n tail xs)).heap.elements
      (startOnto task.heap.size tail ys) = .ok (ys ++ ts) := by
  have hgrows := grows_pairsOnto hn xs
  induction ys with
  | nil => exact (hgrows.elements tail).ok hts
  | cons y ys ih =>
      rw [(hp.grows hgrows).elements_pair (cell?_startOnto task n tail h),
        ih ((List.suffix_cons y ys).trans h)]
      rfl

/-- Following rests from the start of the list comes to its ends, one after the other. -/
theorem follow_startOnto {k : Nat} (hk : k ≤ xs.length) :
    (task.placeAll (pairsOnto task.heap.size n tail xs)).heap.follow (List.replicate k .d)
      (startOnto task.heap.size tail xs) = .ok (startOnto task.heap.size tail (xs.drop k)) := by
  induction k with
  | zero => rfl
  | succ k ih =>
      rw [List.replicate_succ, Heap.follow, ih (Nat.le_of_succ_le hk)]
      exact Heap.cdr_of_cell? (cell?_startOnto_drop task n tail hk)

/-- As many rests as there are elements lead to the tail, and every pair on the way is a new one. -/
theorem links_listOnto (hn : task.heap.listLength tail = .ok n) {r : Handle} {left : Task}
    (h : Op.listOnto xs tail task = .ok r left) :
    left.heap.follow (List.replicate xs.length .d) r = .ok tail ∧
      ∀ k < xs.length, ∃ p node, left.heap.follow (List.replicate k .d) r = .ok p ∧
        left.heap.cell? p = some (.pair node) ∧ xs[k]? = some node.head ∧ ¬ task.heap.Has p := by
  rw [listOnto_of_length hn] at h
  cases h
  refine ⟨?_, fun k hk => ?_⟩
  · rw [follow_startOnto (Nat.le_refl _), List.drop_length]
    rfl
  · refine ⟨_, _, follow_startOnto (Nat.le_of_lt hk), cell?_startOnto_drop task n tail hk,
      List.getElem?_eq_getElem hk, ?_⟩
    have hlen : 0 < (xs.drop k).length := by
      rw [List.length_drop]
      omega
    rw [startOnto_eq, if_neg (Nat.ne_of_gt hlen), Heap.Has]
    simp only
    omega

end Ends

/-- What placing a list in front of a tail comes to: the handle and the heap that it leaves. -/
structure Task.LaysOut (task : Task) (elems : List Handle) (tail : Handle) (ts : List Handle)
    (r : Handle) (left : Task) : Prop where
  start : r = if elems.length = 0 then tail else ⟨task.heap.size + elems.length⟩
  pairs : ∀ k x, 0 < k → k ≤ elems.length → elems[elems.length - k]? = some x →
    left.heap.cell? ⟨task.heap.size + k⟩ =
      some (.pair ⟨ts.length + k, x, if k = 1 then tail else ⟨task.heap.size + k - 1⟩⟩)
  size : left.heap.size = task.heap.size + elems.length
  others : ∀ v, task.heap.Has v → left.heap.cell? v = task.heap.cell? v
  symbols : left.heap.symbols = task.heap.symbols
  out : left.out = task.out
  elements : left.heap.Iterates r (elems ++ ts)

theorem laysOut_listOnto {task : Task} (hp : task.heap.Proper) {tail : Handle}
    {ts : List Handle} (htail : task.heap.IsList tail) (hts : task.heap.Iterates tail ts)
    (elems : List Handle) :
    ∃ r left, Op.listOnto elems tail task = .ok r left ∧ task.LaysOut elems tail ts r left := by
  have hn := hts.listLength htail
  have hgrows := grows_pairsOnto hn elems
  refine ⟨_, _, listOnto_of_length hn elems, startOnto_eq _ _ _, ?_, ?_,
    fun v hv => Task.cell?_placeAll_of_has hv _, task.symbols_placeAll _, task.out_placeAll _, ?_⟩
  · intro k x hpos hk hx
    exact cell?_pairsOnto task ts.length tail hpos hk hx
  · rw [Task.size_placeAll, length_pairsOnto]
  · have helems := elements_startOnto hp hn hts.elements (List.suffix_refl elems)
    exact (hp.grows hgrows).iterates
      (Heap.isList_of_listLength (listLength_startOnto hn elems)) helems

/-- After a run on any handles at all, and for elements that are any handles at all: in front of a
list the pairs get the next numbers, the last element first, and each continues with the one placed
before it and is one longer; nothing else changes, and reading the result gives the elements and
then those of the tail. In front of what is no list the placing stops, and no box is placed. The
list primitive places in front of the empty list, so what it is given is read back. -/
theorem new_lists_are_laid_out_from_the_back (names : List String) (ops : List Operation)
    (elems : List Handle) (tail : Handle) :
    let task := (Task.fresh names).after ops
    (task.heap.IsList tail → ∃ ts r left, task.heap.Iterates tail ts ∧
      Op.listOnto elems tail task = .ok r left ∧ task.LaysOut elems tail ts r left) ∧
    (¬ task.heap.IsList tail → elems ≠ [] → ∃ f,
      Op.listOnto elems tail task = .error (.fault f) task ∧
      (task.heap.cell? tail = none ∧ f = .unallocated tail ∨
        (∃ c, task.heap.cell? tail = some c) ∧ f = .mistyped tail .pair)) ∧
    ∃ r left, Op.newList elems task = .ok r left ∧ (Call.list elems).enter task = .ok r left ∧
      task.LaysOut elems .nil [] r left ∧ left.heap.Iterates r elems := by
  intro task
  have hp : task.heap.Proper := Heap.proper_after names ops
  refine ⟨fun htail => ?_, fun htail helems => ?_, ?_⟩
  · obtain ⟨ts, hts⟩ := hp.exists_iterates htail
    exact ⟨ts, (laysOut_listOnto hp htail hts elems).imp fun r h => h.imp fun left h => ⟨hts, h⟩⟩
  · obtain ⟨x, xs, rfl⟩ := List.exists_cons_of_ne_nil helems
    rcases Heap.listLength_of_not_isList htail with ⟨hcell, hf⟩ | ⟨hcell, hf⟩
    · exact ⟨_, listOnto_of_fault hf x xs, Or.inl ⟨hcell, rfl⟩⟩
    · exact ⟨_, listOnto_of_fault hf x xs, Or.inr ⟨hcell, rfl⟩⟩
  · have hnil := hp.iterates (Or.inl rfl) (Heap.elements_nil task.heap)
    obtain ⟨r, left, hlist, hlayout⟩ := laysOut_listOnto hp (Or.inl rfl) hnil elems
    have helems := hlayout.elements
    rw [List.append_nil] at helems
    exact ⟨r, left, hlist, ofOp_of_ok hlist, hlayout, helems⟩

/-- In front of a list of two, with a head from nowhere, and in front of an integer. -/
theorem list_onto_stray_heap :
    let task := (Task.fresh ["a"]).after strayRun
    (task.heap.IsList ⟨4⟩ ∧ ∃ ts left, Op.listOnto [⟨93⟩, .t] ⟨4⟩ task = .ok ⟨8⟩ left ∧
      left.heap.cell? ⟨7⟩ = some (.pair ⟨ts.length + 1, .t, ⟨4⟩⟩) ∧
      left.heap.cell? ⟨8⟩ = some (.pair ⟨ts.length + 2, ⟨93⟩, ⟨7⟩⟩) ∧
      left.heap.Iterates ⟨8⟩ ([⟨93⟩, .t] ++ ts)) ∧
    ¬ task.heap.IsList ⟨2⟩ ∧ ∃ f, Op.listOnto [⟨93⟩, .t] ⟨2⟩ task = .error (.fault f) task := by
  intro task
  have hpair : task.heap.cell? ⟨4⟩ = some (.pair ⟨2, ⟨90⟩, ⟨3⟩⟩) := by decide
  have hint : task.heap.cell? ⟨2⟩ = some (.int 5) := by decide
  have hno : ¬ task.heap.IsList ⟨2⟩ := Heap.not_isList_of_cell? hint (by decide)
  obtain ⟨hlist, _, _⟩ := new_lists_are_laid_out_from_the_back ["a"] strayRun [⟨93⟩, .t] ⟨4⟩
  obtain ⟨_, hstop, _⟩ := new_lists_are_laid_out_from_the_back ["a"] strayRun [⟨93⟩, .t] ⟨2⟩
  obtain ⟨ts, r, left, _, hleft, hlayout⟩ := hlist (Or.inr ⟨_, hpair⟩)
  obtain ⟨f, hf, _⟩ := hstop hno (List.cons_ne_nil _ _)
  obtain rfl : r = ⟨8⟩ := hlayout.start
  exact ⟨⟨Or.inr ⟨_, hpair⟩, ts, left, hleft, hlayout.pairs 1 .t (by decide) (by decide) rfl,
    hlayout.pairs 2 ⟨93⟩ (by decide) (by decide) rfl, hlayout.elements⟩, hno, f, hf⟩

end LispHeap

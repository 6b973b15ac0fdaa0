import LispHeap.Proofs.ProperLists

/-!
# Cursors know how much is left

A cursor never counts. What it says of the elements to come is the length that the next pair
remembers, and that length was stored when the pair was placed, by whatever call and on whatever
handles. So the count is exact at every place of a list because `Heap.Proper` holds after every run,
and for no reason that the cursor itself could give.

The places that a cursor passes are the pairs of the list. `advance_spine` is the run of its calls:
as many of them as there are pairs lead from each pair to the next, and the others stay at the end.
At each place the pairs ahead are an end of the spine, so one statement about the start of a list
serves for all places.

A cursor that is made from a pair in hand starts in another state than one that is made from the
handle of that pair. It holds the head already and counts it beside the rest. The two cannot be told
apart by what they say of the elements to come or by what they give out, and from the first
call on they are in the same place (`Alike`).
-/

namespace LispHeap

namespace Heap

variable {heap : Heap} {l : Handle} {ls : List Handle}

/-- One box holds `t`, so there are fewer pairs in a list than boxes on the heap. -/
theorem Proper.spine_lt_size (hp : heap.Proper) (h : heap.Spine l ls) : ls.length < heap.size := by
  cases h with
  | nil =>
      obtain ⟨id, hid⟩ := hp.first
      exact (cell?_bounds hid).2
  | cons hnode hrest =>
      have hlen := Except.ok.inj
        ((hp.listLength_spine (.cons hnode hrest)).symm.trans (listLength_of_cell? hnode))
      rw [hlen]
      exact Nat.lt_of_lt_of_le (hp.length_lt hnode) (cell?_bounds hnode).2

end Heap

namespace Cursor

variable {heap : Heap} {l : Handle} {ls : List Handle} {node : Pair} {c d : Cursor}

/-- The place after some calls of `next`. -/
def advance (heap : Heap) : Nat → Cursor → Except Fault Cursor
  | 0, c => return c
  | k + 1, c => do
    let (_, after) ← c.next heap
    advance heap k after

/-! ## The count at a place -/

/-- The least and the most that are said to be left are the same number. -/
theorem bounds_of_remaining {n : Nat} (h : c.remaining heap = .ok n) :
    c.bounds heap = .ok (.exactly n) := by
  rw [remaining] at h
  rw [bounds]
  cases hrest : heap.listLength c.rest with
  | error f =>
      rw [hrest] at h
      cases h
  | ok m =>
      rw [hrest] at h
      obtain rfl := Except.ok.inj h
      rfl

/-! ## One call and many -/

/-- A call at a place of a list: past the next pair, or nowhere if there is none. -/
theorem next_spine (h : heap.Spine l ls) :
    ls = [] ∧ (ofList l).next heap = .ok (none, ofList l) ∨
      ∃ node ms, ls = l :: ms ∧ heap.cell? l = some (.pair node) ∧ heap.Spine node.rest ms ∧
        (ofList l).next heap = .ok (some node.head, ofList node.rest) := by
  cases h with
  | nil => exact Or.inl ⟨rfl, rfl⟩
  | cons hnode hrest => exact Or.inr ⟨_, _, rfl, hnode, hrest, next_pair hnode⟩

theorem advance_succ {x : Option Handle} (k : Nat) (h : c.next heap = .ok (x, d)) :
    advance heap (k + 1) c = advance heap k d := by
  rw [advance, h]
  rfl

/-- After any number of calls the cursor is at a place of the list, with that many pairs less ahead
of it. -/
theorem advance_spine (h : heap.Spine l ls) (k : Nat) :
    ∃ p, advance heap k (ofList l) = .ok (ofList p) ∧ heap.Spine p (ls.drop k) := by
  induction k generalizing l ls with
  | zero => exact ⟨l, rfl, h⟩
  | succ k ih =>
      rcases next_spine h with ⟨rfl, hnext⟩ | ⟨node, ms, rfl, _, hrest, hnext⟩
      -- At the end a call leads nowhere, and the other calls start from the same place.
      · obtain ⟨p, hp, hspine⟩ := ih h
        rw [List.drop_nil] at hspine
        exact ⟨p, (advance_succ k hnext).trans hp, hspine⟩
      · rw [advance_succ k hnext, List.drop_succ_cons]
        exact ih hrest

theorem advance_remaining (hp : heap.Proper) (h : heap.Spine l ls) (k : Nat) :
    ∃ p, advance heap k (ofList l) = .ok (ofList p) ∧ heap.Spine p (ls.drop k) ∧
      (ofList p).remaining heap = .ok (ls.length - k) := by
  obtain ⟨p, hadvance, hahead⟩ := advance_spine h k
  refine ⟨p, hadvance, hahead, ?_⟩
  rw [remaining_ofList, hp.listLength_spine hahead, List.length_drop]

/-- The call that finds a pair ahead gives out the head of that pair. -/
theorem next_of_getElem? {p q : Handle} {k : Nat} (h : heap.Spine p (ls.drop k))
    (hq : ls[k]? = some q) : ∃ node after, heap.cell? q = some (.pair node) ∧
      (ofList p).next heap = .ok (some node.head, after) := by
  rw [← List.head?_drop] at hq
  rcases next_spine h with ⟨hend, _⟩ | ⟨node, ms, hcons, hnode, _, hnext⟩
  · rw [hend] at hq
    cases hq
  · rw [hcons] at hq
    obtain rfl := Option.some.inj hq
    exact ⟨node, _, hnode, hnext⟩

theorem next_past_end {p : Handle} {k : Nat} (h : heap.Spine p (ls.drop k)) (hk : ls.length ≤ k) :
    (ofList p).next heap = .ok (none, ofList p) := by
  rcases next_spine h with ⟨_, hnext⟩ | ⟨_, _, hcons, _⟩
  · exact hnext
  · rw [List.drop_eq_nil_of_le hk] at hcons
    cases hcons

/-! ## Two cursors for one list -/

/-- Two places that the count and the next call do not tell apart. -/
structure Alike (heap : Heap) (c d : Cursor) : Prop where
  remaining : c.remaining heap = d.remaining heap
  next : c.next heap = d.next heap

theorem Alike.refl (heap : Heap) (c : Cursor) : Alike heap c c := ⟨rfl, rfl⟩

/-- No number of calls tells them apart: after the first they are the same place. -/
theorem Alike.advance (h : Alike heap c d) {k : Nat} {c' : Cursor}
    (hc : Cursor.advance heap k c = .ok c') :
    ∃ d', Cursor.advance heap k d = .ok d' ∧ Alike heap c' d' := by
  cases k with
  | zero =>
      obtain rfl := Except.ok.inj hc
      exact ⟨d, rfl, h⟩
  | succ k =>
      rw [Cursor.advance, h.next] at hc
      exact ⟨c', hc, .refl heap c'⟩

theorem Alike.visits (h : Alike heap c d) (k : Nat) :
    Cursor.visits heap k c = Cursor.visits heap k d := by
  cases k with
  | zero => rfl
  | succ k => rw [Cursor.visits, Cursor.visits, h.remaining, h.next]

/-- A pair in hand and its handle start the same list. -/
theorem alike_ofPair (hp : heap.Proper) (h : heap.cell? l = some (.pair node)) :
    Alike heap (ofList l) (ofPair node) where
  remaining := by
    obtain ⟨n, hn, hlen⟩ := hp.listLength_rest h
    rw [remaining_ofList, Heap.listLength_of_cell? h, hlen, Nat.add_comm]
    -- The head in hand counts as one element beside those of the rest.
    show _ = (heap.listLength node.rest).bind (fun n => .ok (1 + n))
    rw [hn]
    rfl
  next := next_pair h

end Cursor

/-- After every run on any handles at all, a list has a spine, and a cursor on the list says before
each call exactly how many pairs of the spine are ahead. The calls give out the heads of the pairs
in order and then nothing, for as long as they are made, and none of them faults. A cursor that is
made from the pair itself says and gives out the same at every place. -/
theorem cursors_count_exactly (names : List String) (ops : List Operation) {l : Handle}
    (hl : ((Task.fresh names).after ops).heap.IsList l) :
    let heap := ((Task.fresh names).after ops).heap
    (∃ spine, heap.Spine l spine) ∧ ∀ spine, heap.Spine l spine →
      spine.length < heap.size ∧
      (∀ k, ∃ c, Cursor.advance heap k (.ofList l) = .ok c ∧
        c.bounds heap = .ok ⟨spine.length - k, some (spine.length - k)⟩ ∧
        c.remaining heap = .ok (spine.length - k) ∧
        (∀ p, spine[k]? = some p → ∃ node after, heap.cell? p = some (.pair node) ∧
          c.next heap = .ok (some node.head, after)) ∧
        (spine.length ≤ k → c.next heap = .ok (none, c))) ∧
      ∀ node, heap.pairAt l = .ok node →
        (∀ k, ∃ c d, Cursor.advance heap k (.ofList l) = .ok c ∧
          Cursor.advance heap k (.ofPair node) = .ok d ∧
          d.bounds heap = .ok ⟨spine.length - k, some (spine.length - k)⟩ ∧
          d.next heap = c.next heap) ∧
        ∀ k, Cursor.visits heap k (.ofPair node) = Cursor.visits heap k (.ofList l) := by
  intro heap
  have hp : heap.Proper := Heap.proper_after names ops
  obtain ⟨spine, hspine, _⟩ := hp.exists_spine l hl
  refine ⟨⟨spine, hspine⟩, fun spine hspine => ⟨hp.spine_lt_size hspine, fun k => ?_,
    fun node hnode => ?_⟩⟩
  · obtain ⟨p, hadvance, hahead, hcount⟩ := Cursor.advance_remaining hp hspine k
    exact ⟨.ofList p, hadvance, Cursor.bounds_of_remaining hcount, hcount,
      fun q hq => Cursor.next_of_getElem? hahead hq, fun hk => Cursor.next_past_end hahead hk⟩
  · have halike := Cursor.alike_ofPair hp (Heap.pairAt_ok hnode)
    refine ⟨fun k => ?_, fun k => (halike.visits k).symm⟩
    obtain ⟨p, hadvance, _, hcount⟩ := Cursor.advance_remaining hp hspine k
    obtain ⟨d, hd, hsame⟩ := halike.advance hadvance
    exact ⟨.ofList p, d, hadvance, hd, Cursor.bounds_of_remaining (hsame.remaining ▸ hcount),
      hsame.next.symm⟩

/-- A list of three pairs that two calls made, with heads that have no box in two of them. -/
theorem stray_cursor_counts_down :
    let heap := ((Task.fresh ["a"]).after strayRun).heap
    let node : Pair := ⟨3, ⟨92⟩, ⟨4⟩⟩
    heap.Spine ⟨6⟩ [⟨6⟩, ⟨4⟩, ⟨3⟩] ∧ heap.pairAt ⟨6⟩ = .ok node ∧
    (∃ c, Cursor.advance heap 2 (.ofList ⟨6⟩) = .ok c ∧ c.bounds heap = .ok ⟨1, some 1⟩ ∧
      ∃ last after, heap.cell? ⟨3⟩ = some (.pair last) ∧
        c.next heap = .ok (some last.head, after)) ∧
    (∃ c, Cursor.advance heap 5 (.ofList ⟨6⟩) = .ok c ∧ c.bounds heap = .ok ⟨0, some 0⟩ ∧
      c.next heap = .ok (none, c)) ∧
    (∃ c d, Cursor.advance heap 0 (.ofList ⟨6⟩) = .ok c ∧
      Cursor.advance heap 0 (.ofPair node) = .ok d ∧ d.bounds heap = .ok ⟨3, some 3⟩ ∧
      d.next heap = c.next heap) ∧
    Cursor.visits heap 4 (.ofPair node) = Cursor.visits heap 4 (.ofList ⟨6⟩) := by
  intro heap node
  have hfirst : heap.cell? ⟨6⟩ = some (.pair node) := by decide
  have hspine : heap.Spine ⟨6⟩ [⟨6⟩, ⟨4⟩, ⟨3⟩] := by
    have hsecond : heap.cell? ⟨4⟩ = some (.pair ⟨2, ⟨90⟩, ⟨3⟩⟩) := by decide
    have hthird : heap.cell? ⟨3⟩ = some (.pair ⟨1, ⟨2⟩, .nil⟩) := by decide
    exact .cons hfirst (.cons hsecond (.cons hthird .nil))
  have hnode : heap.pairAt ⟨6⟩ = .ok node := Heap.pairAt_of_cell? hfirst
  obtain ⟨_, hcounts⟩ := cursors_count_exactly ["a"] strayRun (Or.inr ⟨node, hfirst⟩)
  obtain ⟨_, hlist, hpair⟩ := hcounts _ hspine
  obtain ⟨hplaces, hvisits⟩ := hpair node hnode
  obtain ⟨c, hc, hbounds, _, hnext, _⟩ := hlist 2
  obtain ⟨e, he, hnone, _, _, hend⟩ := hlist 5
  exact ⟨hspine, hnode, ⟨c, hc, hbounds, hnext ⟨3⟩ rfl⟩, ⟨e, he, hnone, hend (by decide)⟩,
    hplaces 0, hvisits 4⟩

end LispHeap

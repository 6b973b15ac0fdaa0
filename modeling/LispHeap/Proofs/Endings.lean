import Mathlib.Data.Finset.Card
import Mathlib.Order.Monotone.Basic
import LispHeap.Proofs.Lasting

/-!
# The depth of the printer is enough

Heads are stored unread, so a value may contain itself, and then its rendering has no end. The
printer carries a depth and gives up when it is used up. This file shows that it gives up only where
it has to: if any depth at all were enough, the one that `write` starts from is.

Two kinds of sink need two arguments. On a sink with a limit, each pair writes its bracket before it
looks further, so whoever stands `n` pairs deep has used `n` bytes, and the sink is full before the
depth is used up. On a sink without one, what is written has no influence on the walk, so the walk
can be looked at alone (`scanWithin`). Which values are done with a depth of `m + 1` depends on the
heap and on which are done with `m`. So if one more level adds no box to those that are done, then
no further level ever does, and boxes can be added only as often as there are boxes.

The same comparison of two depths serves in both directions: more depth never changes the result of
a walk that has ended, and less depth does not either, once the boxes have stopped to be added.
-/

namespace LispHeap

/-- Writing has stopped because it went too deep. -/
def GivesUp {α : Type} (r : EStateM.Result WriteStop Sink α) : Prop :=
  ∃ v left, r = .error (.fault (.endless v)) left

/-- The rendering of a value ends on a sink: some depth is enough for it. -/
def Heap.Ends (heap : Heap) (v : Handle) (sink : Sink) : Prop :=
  ∃ depth, ¬ GivesUp (heap.writeWithin depth v sink)

/-! ## Sinks with a limit -/

/-- How many bytes still fit. -/
def Sink.spare (sink : Sink) : Nat := sink.room.depth - sink.bytes.size

/-- On a sink with a limit and fewer than `k` bytes left, writing takes at least `n` of them or is
stopped, but does not give up. -/
def Spends {α : Type} (n k : Nat) (w : Writer α) : Prop :=
  ∀ sink : Sink, sink.room ≠ .unlimited → sink.spare < k →
    match w sink with
    | .ok _ left => left.room = sink.room ∧ left.spare + n ≤ sink.spare
    | .error e _ => ∀ v, e ≠ .fault (.endless v)

section Limited

variable {α β : Type} {n k : Nat}

theorem spends_put (text : String) (hn : n ≤ text.utf8ByteSize) : Spends n k (Sink.put text) := by
  intro sink hroom _
  have hbytes : (sink.bytes ++ text.toUTF8).size = sink.bytes.size + text.utf8ByteSize :=
    ByteArray.size_append
  cases hr : sink.room with
  | unlimited => exact absurd hr hroom
  | bounded limit =>
      by_cases hfits : (sink.bytes ++ text.toUTF8).size ≤ limit
      · simp only [Sink.put, hr, hfits, if_true, Sink.spare, Sink.Room.depth, true_and]
        omega
      · simp only [Sink.put, hr, hfits]
        nofun
  | stuck buffer =>
      by_cases hfits : (decide ((sink.bytes ++ text.toUTF8).size ≤ buffer) &&
          !text.contains '\n') = true
      · simp only [Sink.put, hr, hfits, if_true, Sink.spare, Sink.Room.depth, true_and]
        simp only [Bool.and_eq_true, decide_eq_true_eq] at hfits
        omega
      · simp only [Sink.put, hr, hfits]
        nofun

theorem spends_pure (a : α) : Spends 0 k (pure a : Writer α) :=
  fun _ _ _ => ⟨rfl, Nat.le_refl _⟩

theorem spends_await {answer : Except Fault α} (h : ∀ v, answer ≠ .error (.endless v)) :
    Spends 0 k (Sink.await answer) := by
  intro sink _ _
  cases answer with
  | ok a => exact ⟨rfl, Nat.le_refl _⟩
  | error f =>
      intro v hv
      exact h v (by rw [WriteStop.fault.inj hv])

/-- What the first part takes is no longer there for the second. -/
theorem spends_bind {w : Writer α} {f : α → Writer β} (hw : Spends n (k + n) w)
    (hf : ∀ a, Spends 0 k (f a)) : Spends 0 (k + n) (w >>= f) := by
  intro sink hroom hspare
  have h := hw sink hroom hspare
  show match EStateM.bind w f sink with
    | .ok _ left => left.room = sink.room ∧ left.spare + 0 ≤ sink.spare
    | .error e _ => ∀ v, e ≠ .fault (.endless v)
  rw [EStateM.bind]
  cases hr : w sink with
  | error e left =>
      rw [hr] at h
      exact h
  | ok a mid =>
      rw [hr] at h
      obtain ⟨hmid, hspent⟩ : mid.room = sink.room ∧ mid.spare + n ≤ sink.spare := h
      have h' := hf a mid (hmid ▸ hroom) (by omega)
      cases hr' : f a mid with
      | error e left =>
          simp only [hr'] at h' ⊢
          exact h'
      | ok b left =>
          simp only [hr'] at h' ⊢
          exact ⟨h'.1.trans hmid, by omega⟩

end Limited

namespace Heap

variable {heap : Heap} {v l : Handle}

-- Rests lead to smaller numbers, so the number of a list bounds how many pairs are to come.
theorem Proper.spends_writeRest (hp : heap.Proper) {k : Nat} {write : Handle → Writer Unit}
    (hw : ∀ v, Spends 0 k (write v)) {budget : Nat} (hl : heap.IsList l)
    (hle : l.index ≤ budget) : Spends 0 k (heap.writeRest write budget l) := by
  induction budget generalizing l with
  | zero =>
      have hnil : l.isNil = true := by
        rw [Handle.isNil, beq_iff_eq]
        omega
      rw [writeRest, if_pos hnil]
      exact spends_pure ()
  | succ budget ih =>
      rw [writeRest]
      rcases hl with rfl | ⟨node, hnode⟩
      · exact spends_pure ()
      · have hlt := hp.rest_lt hnode
        rw [uncons?_of_cell? hnode, Sink.await_ok, pure_bind]
        refine spends_bind (spends_put " " (Nat.zero_le _)) fun _ => ?_
        refine spends_bind (hw node.head) fun _ => ?_
        exact ih (hp.isList_rest hnode) (by omega)

theorem Proper.spends_writeWithin (hp : heap.Proper) (depth : Nat) (v : Handle) :
    Spends 0 depth (heap.writeWithin depth v) := by
  induction depth generalizing v with
  | zero => exact fun sink _ hspare => absurd hspare (Nat.not_lt_zero _)
  | succ depth ih =>
      rw [writeWithin_succ]
      cases hview : heap.view v with
      | error f =>
          have hf : f = .unallocated v := (view_error hview).1
          exact fun sink _ _ u hu => by cases hf ▸ WriteStop.fault.inj hu
      | ok found =>
          rw [Sink.await_ok, pure_bind]
          rcases view_ok_cases hview with ⟨_, rfl⟩ | ⟨c, hc, rfl⟩
          · exact spends_put "()" (Nat.zero_le _)
          · cases c with
            | int value => exact spends_put _ (Nat.zero_le _)
            | sym id =>
                have hname : ∀ u, heap.symbolName id ≠ .error (.endless u) := by
                  intro u hu
                  cases (symbolName_error hu).1
                refine spends_bind (n := 0) (spends_await hname) fun name => ?_
                exact spends_put name (Nat.zero_le _)
            | str text =>
                refine spends_bind (n := 0) (spends_put _ (Nat.zero_le _)) fun _ => ?_
                refine spends_bind (n := 0) (spends_put _ (Nat.zero_le _)) fun _ => ?_
                exact spends_put _ (Nat.zero_le _)
            | pair node =>
                have hlist := hp.isList_rest hc
                have hrest := hp.rest_lt hc
                have hbound := (cell?_bounds hc).2
                -- The bracket takes the byte that pays for the level below.
                refine spends_bind (spends_put "(" (Nat.le_refl 1)) fun _ => ?_
                refine spends_bind (ih node.head) fun _ => ?_
                refine spends_bind (hp.spends_writeRest ih hlist (by omega)) fun _ => ?_
                exact spends_put ")" (Nat.zero_le _)

/-! ## The walk without the text -/

/-- What printing a list behind its first element looks at. -/
def scanRest (heap : Heap) (scan : Handle → Except Fault Unit) : Nat → Handle → Except Fault Unit
  | 0, l => if l.isNil then return () else throw (.endless l)
  | budget + 1, l => do
    match ← heap.uncons? l with
    | none => return ()
    | some (head, rest) => do
      scan head
      scanRest heap scan budget rest

/-- What printing a value looks at. -/
def scanWithin (heap : Heap) : Nat → Handle → Except Fault Unit
  | 0, v => throw (.endless v)
  | depth + 1, v => do
    match ← heap.view v with
    | some (.sym id) => discard (heap.symbolName id)
    | some (.pair node) => do
      heap.scanWithin depth node.head
      heap.scanRest (heap.scanWithin depth) heap.size node.rest
    | _ => return ()

end Heap

/-- On a sink without a limit, writing ends the way a question to the heap is answered. -/
def Mirrors {α : Type} (w : Writer α) (answer : Except Fault α) : Prop :=
  ∀ bytes, ∃ left, w ⟨.unlimited, bytes⟩ =
    match answer with
    | .ok a => .ok a ⟨.unlimited, left⟩
    | .error f => .error (.fault f) ⟨.unlimited, left⟩

section Mirrors

variable {α β : Type} {w : Writer α} {x : Except Fault α}

theorem mirrors_put (text : String) : Mirrors (Sink.put text) (.ok ()) := fun _ => ⟨_, rfl⟩

theorem mirrors_await (x : Except Fault α) : Mirrors (Sink.await x) x := by
  intro bytes
  cases x <;> exact ⟨bytes, rfl⟩

theorem Mirrors.bind (h : Mirrors w x) {f : α → Writer β} {g : α → Except Fault β}
    (hf : ∀ a, Mirrors (f a) (g a)) : Mirrors (w >>= f) (x >>= g) := by
  intro bytes
  obtain ⟨mid, hw⟩ := h bytes
  show ∃ left, EStateM.bind w f ⟨.unlimited, bytes⟩ = _
  rw [EStateM.bind, hw]
  cases x with
  | ok a => exact hf a mid
  | error e => exact ⟨mid, rfl⟩

theorem Mirrors.put_bind (h : Mirrors w x) (text : String) :
    Mirrors (Sink.put text >>= fun _ => w) x :=
  (mirrors_put text).bind (g := fun _ => x) fun _ => h

theorem Mirrors.bind_put {w : Writer Unit} {x : Except Fault Unit} (h : Mirrors w x)
    (text : String) : Mirrors (w >>= fun _ => Sink.put text) x := by
  have hbind := h.bind (g := fun _ => .ok ()) fun _ => mirrors_put text
  cases x <;> exact hbind

end Mirrors

namespace Heap

variable {heap : Heap} {v l : Handle}

theorem mirrors_writeRest (heap : Heap) {write : Handle → Writer Unit}
    {scan : Handle → Except Fault Unit} (h : ∀ v, Mirrors (write v) (scan v)) (budget : Nat)
    (l : Handle) :
    Mirrors (heap.writeRest write budget l) (heap.scanRest scan budget l) := by
  induction budget generalizing l with
  | zero =>
      rw [writeRest, scanRest]
      split <;> exact fun bytes => ⟨bytes, rfl⟩
  | succ budget ih =>
      rw [writeRest, scanRest]
      refine (mirrors_await _).bind fun found => ?_
      cases found with
      | none => exact fun bytes => ⟨bytes, rfl⟩
      | some next => exact ((h next.1).bind fun _ => ih next.2).put_bind " "

theorem mirrors_writeWithin (heap : Heap) (depth : Nat) (v : Handle) :
    Mirrors (heap.writeWithin depth v) (heap.scanWithin depth v) := by
  induction depth generalizing v with
  | zero => exact fun bytes => ⟨bytes, rfl⟩
  | succ depth ih =>
      rw [writeWithin_succ, scanWithin]
      refine (mirrors_await _).bind fun found => ?_
      cases found with
      | none => exact mirrors_put _
      | some c =>
          cases c with
          | int value => exact mirrors_put _
          | sym id => exact (mirrors_await _).bind fun name => mirrors_put name
          | str text => exact ((mirrors_put _).put_bind text).put_bind _
          | pair node =>
              have hrest := heap.mirrors_writeRest ih heap.size node.rest
              exact ((ih node.head).bind fun _ => hrest.bind_put ")").put_bind "("

/-! ## Two depths -/

theorem lasts_scanRest {lost : Fault → Prop} {scan scan' : Handle → Except Fault Unit}
    (h : ∀ v, Lasts lost (scan v) (scan' v)) (budget : Nat) (l : Handle) :
    Lasts lost (heap.scanRest scan budget l) (heap.scanRest scan' budget l) := by
  induction budget generalizing l with
  | zero => exact .rfl
  | succ budget ih =>
      rw [scanRest, scanRest]
      refine Lasts.rfl.bind fun found => ?_
      cases found with
      | none => exact .rfl
      | some next => exact (h next.1).bind fun _ => ih next.2

end Heap

/-- The fault of a walk that was given up. -/
def Fault.Endless : Fault → Prop
  | .endless _ => True
  | _ => False

/-- Whether a walk has come to an end of its own. -/
def ended : Except Fault Unit → Bool
  | .error (.endless _) => false
  | _ => true

theorem lasts_eq {x y : Except Fault Unit} (h : Lasts Fault.Endless x y) (hx : ended x = true) :
    y = x := by
  cases h with
  | same hxy => exact hxy
  | @lost f hf hxf =>
      subst hxf
      cases f with
      | endless u => cases hx
      | unallocated | mistyped | unknownSymbol | exhausted => cases hf

theorem lasts_of_ended {x y : Except Fault Unit} (h : ended x = true → y = x) :
    Lasts Fault.Endless x y := by
  cases x with
  | ok a => exact .same (h rfl)
  | error f =>
      cases f with
      | endless u => exact .lost (e := .endless u) trivial rfl
      | unallocated | mistyped | unknownSymbol | exhausted => exact .same (h rfl)

theorem givesUp_iff {w : Writer Unit} {x : Except Fault Unit} (h : Mirrors w x)
    (bytes : ByteArray) : GivesUp (w ⟨.unlimited, bytes⟩) ↔ ended x = false := by
  obtain ⟨left, hw⟩ := h bytes
  rw [hw]
  constructor
  · rintro ⟨u, sink, hu⟩
    cases x with
    | ok _ => cases hu
    | error f =>
        cases hu
        rfl
  · intro hx
    match x with
    | .error (.endless u) => exact ⟨u, _, rfl⟩
    | .ok _ | .error (.unallocated _) | .error (.mistyped _ _) | .error (.unknownSymbol _ _) =>
        cases hx

namespace Heap

variable {heap : Heap} {v l : Handle} {m n : Nat}

/-- If two depths agree up to giving up, so do the next larger ones. -/
theorem lasts_scan_succ (h : ∀ v, Lasts Fault.Endless (heap.scanWithin m v) (heap.scanWithin n v))
    (v : Handle) :
    Lasts Fault.Endless (heap.scanWithin (m + 1) v) (heap.scanWithin (n + 1) v) := by
  rw [scanWithin, scanWithin]
  refine Lasts.rfl.bind fun found => ?_
  split
  · exact .rfl
  · exact (h _).bind fun _ => lasts_scanRest h heap.size _
  · exact .rfl

theorem lasts_scan_of_le (h : m ≤ n) (v : Handle) :
    Lasts Fault.Endless (heap.scanWithin m v) (heap.scanWithin n v) := by
  induction m generalizing n v with
  | zero => exact .lost (e := .endless v) trivial rfl
  | succ m ih =>
      obtain ⟨k, rfl⟩ : ∃ k, n = k + 1 := ⟨n - 1, by omega⟩
      exact lasts_scan_succ (ih (by omega)) v

/-- A handle without a box takes one level only. -/
theorem scan_of_no_cell (h : heap.cell? v = none) :
    heap.scanWithin (m + 1) v = heap.scanWithin (n + 1) v := by
  rw [scanWithin, scanWithin]
  cases hview : heap.view v with
  | error f => rfl
  | ok found =>
      rcases view_ok_cases hview with ⟨_, rfl⟩ | ⟨c, hc, _⟩
      · rfl
      · rw [h] at hc
        cases hc

/-! ## Counting the boxes that are done -/

/-- The boxes that a depth of `m + 1` is enough for, by their place in the heap. -/
def done (heap : Heap) (m : Nat) : Finset Nat :=
  (Finset.range heap.size).filter fun i => ended (heap.scanWithin (m + 1) ⟨i + 1⟩) = true

theorem mem_done {i : Nat} :
    i ∈ heap.done m ↔ i < heap.size ∧ ended (heap.scanWithin (m + 1) ⟨i + 1⟩) = true := by
  rw [done, Finset.mem_filter, Finset.mem_range]

theorem ended_of_le (h : m ≤ n) (hm : ended (heap.scanWithin m v) = true) :
    ended (heap.scanWithin n v) = true := by
  rw [lasts_eq (lasts_scan_of_le h v) hm]
  exact hm

theorem done_mono (h : m ≤ n) : heap.done m ⊆ heap.done n := by
  intro i hi
  rw [mem_done] at hi ⊢
  exact ⟨hi.1, ended_of_le (Nat.succ_le_succ h) hi.2⟩

/-- If a larger depth is enough for no other box, then it is enough for no other value. -/
theorem ended_of_done (h : heap.done n ⊆ heap.done m)
    (hn : ended (heap.scanWithin (n + 1) v) = true) : ended (heap.scanWithin (m + 1) v) = true := by
  cases hc : heap.cell? v with
  | none =>
      rw [scan_of_no_cell hc] at hn
      exact hn
  | some c =>
      obtain ⟨hpos, hle⟩ := cell?_bounds hc
      have hv : v = ⟨v.index - 1 + 1⟩ := by rw [Nat.sub_add_cancel hpos]
      rw [hv] at hn ⊢
      exact (mem_done.mp (h (mem_done.mpr ⟨by omega, hn⟩))).2

/-- Once a level adds no box, the next one adds none either. -/
theorem done_stable (h : heap.done m = heap.done (m + 1)) :
    heap.done (m + 1) = heap.done (m + 2) := by
  have hback : ∀ v,
      Lasts Fault.Endless (heap.scanWithin (m + 2) v) (heap.scanWithin (m + 1) v) := by
    intro v
    refine lasts_of_ended fun hv => ?_
    have hv' := ended_of_done (Finset.subset_of_eq h.symm) hv
    exact (lasts_eq (lasts_scan_of_le (Nat.le_succ _) v) hv').symm
  refine Finset.Subset.antisymm (done_mono (Nat.le_succ _)) fun i hi => ?_
  rw [mem_done] at hi ⊢
  refine ⟨hi.1, ?_⟩
  rw [lasts_eq (lasts_scan_succ hback _) hi.2]
  exact hi.2

theorem card_done_le (heap : Heap) (m : Nat) : (heap.done m).card ≤ heap.size := by
  have hle := Finset.card_le_card (Finset.filter_subset
    (fun i => ended (heap.scanWithin (m + 1) ⟨i + 1⟩) = true) (Finset.range heap.size))
  rw [Finset.card_range] at hle
  exact hle

theorem done_eq (h : heap.size ≤ n) : heap.done n = heap.done heap.size := by
  have hcard : (heap.done n).card = (heap.done heap.size).card := by
    refine Nat.stabilises_of_monotone (f := fun m => (heap.done m).card)
      (fun a b hab => Finset.card_le_card (done_mono hab)) heap.card_done_le ?_ h
    intro m hm
    have hdone := Finset.eq_of_subset_of_card_le (done_mono (Nat.le_succ m)) (Nat.le_of_eq hm.symm)
    exact congrArg Finset.card (done_stable hdone)
  exact (Finset.eq_of_subset_of_card_le (done_mono h) (Nat.le_of_eq hcard)).symm

/-- A depth of one more than there are boxes is as good as any. -/
theorem ended_of_size (h : ended (heap.scanWithin n v) = true) :
    ended (heap.scanWithin (heap.size + 1) v) = true := by
  rcases Nat.le_total n (heap.size + 1) with hle | hge
  · exact ended_of_le hle h
  · obtain ⟨k, rfl⟩ : ∃ k, n = k + 1 := ⟨n - 1, by omega⟩
    exact ended_of_done (Finset.subset_of_eq (done_eq (by omega))) h

/-! ## Both kinds of sink -/

/-- A rendering that ends at all ends within the depth that it is given. -/
theorem Proper.write_ends (hp : heap.Proper) {sink : Sink} (h : heap.Ends v sink) :
    ¬ GivesUp (heap.write v sink) := by
  obtain ⟨depth, hdepth⟩ := h
  show ¬ GivesUp (heap.writeWithin (heap.size + sink.room.depth + 1) v sink)
  by_cases hroom : sink.room = .unlimited
  · cases sink with
    | mk room bytes =>
        subst hroom
        rw [givesUp_iff (heap.mirrors_writeWithin _ v), Bool.not_eq_false] at hdepth ⊢
        exact ended_of_size hdepth
  · have hspare : sink.spare < heap.size + sink.room.depth + 1 := by
      rw [Sink.spare]
      omega
    have hspends := hp.spends_writeWithin _ v sink hroom hspare
    rintro ⟨u, left, hu⟩
    rw [hu] at hspends
    exact hspends u rfl

end Heap

end LispHeap

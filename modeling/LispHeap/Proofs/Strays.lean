import LispHeap.Proofs.Denotation
import LispHeap.Proofs.Endings

/-!
# Only stray handles and full heaps fault

An entry point takes its arguments as they come, and the heads that it finds in pairs too. It reads
no handle as a pair or an integer, though, before it has seen the tag, with one exception: the rest
of a pair is taken to be a list without a look. Rests were checked when their pairs were placed. So
a handle that a call meets is one of two kinds. It is unchecked, and then its tag is looked at
first, or it is known to be a list. A look at the first kind can miss, and a look at the second
cannot.

The printer also reads names. A symbol that was placed with a number from another table may have no
name here, and then there is an operation in the history of the heap that placed it so.

What is left is the heap itself, which has numbers for so many boxes and no more. A call that needs
one too many stops there, and such a call would have returned otherwise.

`Fails` and `Blames` say of which kind the faults of a question or of a writer are, whatever comes
out otherwise. Each reader is settled from the readers that it uses.
-/

namespace LispHeap

/-! ## Faults of a kind -/

/-- Where a question is not answered, the reason is of a kind. -/
def Fails {ε α : Type} (kind : ε → Prop) (x : Except ε α) : Prop := ∀ e, x = .error e → kind e

/-- A failure that is no fault, or a fault of a kind. -/
def Failure.Of (kind : Fault → Prop) : Failure → Prop
  | .fault f => kind f
  | .refused _ => True

/-- A stop that is a refusal, or a fault of a kind. -/
def Stop.Of (kind : Fault → Prop) : Stop → Prop
  | .fault f => kind f
  | .failed _ => True
  | .thrown _ => False

section Fails

variable {ε α β : Type} {kind : ε → Prop} {x : Except ε α} {faults : Fault → Prop}

theorem fails_ok (a : α) : Fails kind (.ok a) := fun _ h => nomatch h

theorem fails_error {e : ε} (he : kind e) : Fails kind (.error e : Except ε α) :=
  fun _ h => Except.error.inj h ▸ he

theorem Fails.bind {f : α → Except ε β} (hx : Fails kind x)
    (hf : ∀ a, x = .ok a → Fails kind (f a)) : Fails kind (x >>= f) := by
  cases x with
  | ok a => exact hf a rfl
  | error e => exact fails_error (hx e rfl)

theorem Fails.map (hx : Fails kind x) (f : α → β) : Fails kind (x.map f) :=
  hx.bind fun a _ => fails_ok (f a)

theorem Fails.lift {x : Except Fault α} (hx : Fails faults x) :
    Fails (Failure.Of faults) (x.mapError .fault) := by
  cases x with
  | ok a => exact fails_ok a
  | error f => exact fails_error (e := Failure.fault f) (hx f rfl)

theorem Fails.stop {x : Except Failure α} (hx : Fails (Failure.Of faults) x) :
    Fails (Stop.Of faults) (x.mapError Failure.stop) := by
  cases x with
  | ok a => exact fails_ok a
  | error e =>
      cases e with
      | fault f => exact fails_error (e := Stop.fault f) (hx (.fault f) rfl)
      | refused r => exact fails_error (e := Stop.failed r.message) trivial

theorem Fails.answer {x : Except Failure α} (hx : Fails (Failure.Of faults) x) (f : α → β) :
    Fails (Stop.Of faults) (x.mapError Failure.stop >>= fun a => .ok (f a)) :=
  hx.stop.bind fun a _ => fails_ok (f a)

end Fails

/-! ## Handles that a call meets -/

namespace Heap

/-- An argument, or the head of some pair. -/
def Unchecked (heap : Heap) (given : List Handle) (v : Handle) : Prop :=
  v ∈ given ∨ ∃ l node, heap.cell? l = some (.pair node) ∧ node.head = v

/-- A fault that says of an unchecked handle that it has no box, and is right. -/
def Stray (heap : Heap) (given : List Handle) (f : Fault) : Prop :=
  ∃ v, f = .unallocated v ∧ v ≠ .nil ∧ heap.cell? v = none ∧ heap.Unchecked given v

/-- A handle that a call may come to: one that nobody has looked at, or a list. -/
def Met (heap : Heap) (given : List Handle) (v : Handle) : Prop :=
  heap.Unchecked given v ∨ heap.IsList v

variable {heap : Heap} {given : List Handle} {v l : Handle} {node : Pair}

theorem met_first : heap.Met (v :: given) v := Or.inl (Or.inl List.mem_cons_self)

theorem met_second : heap.Met (l :: v :: given) v :=
  Or.inl (Or.inl (List.mem_cons_of_mem l List.mem_cons_self))

theorem met_head (h : heap.cell? l = some (.pair node)) : heap.Met given node.head :=
  Or.inl (Or.inr ⟨l, node, h, rfl⟩)

/-- A rest is the empty list or a pair, so it is no stray. -/
theorem Proper.rest_ne (hp : heap.Proper) (hv : v ≠ .nil) (hnone : heap.cell? v = none)
    (h : heap.cell? l = some (.pair node)) : node.rest ≠ v := by
  rintro rfl
  rcases hp.isList_rest h with hnil | ⟨next, hnext⟩
  · exact hv hnil
  · rw [hnone] at hnext
    cases hnext

theorem fails_view (hv : heap.Met given v) : Fails (heap.Stray given) (heap.view v) := by
  intro f hf
  obtain ⟨rfl, hne, hnone⟩ := view_error hf
  rcases hv with hv | hnil | ⟨node, hnode⟩
  · exact ⟨v, rfl, hne, hnone, hv⟩
  · exact absurd hnil hne
  · rw [hnone] at hnode
    cases hnode

theorem fails_tag (hv : heap.Met given v) : Fails (heap.Stray given) (heap.tag v) :=
  (fails_view hv).map _

theorem fails_isA (tag : Tag) (hv : heap.Met given v) :
    Fails (heap.Stray given) (heap.isA tag v) :=
  (fails_tag hv).bind fun _ _ => fails_ok _

theorem fails_isAtom (hv : heap.Met given v) : Fails (heap.Stray given) (heap.isAtom v) :=
  (fails_isA .pair hv).bind fun _ _ => fails_ok _

theorem fails_asPair (op : String) (hv : heap.Met given v) :
    Fails (Failure.Of (heap.Stray given)) (heap.asPair op v) := by
  rw [asPair_eq]
  refine (fails_view hv).lift.bind fun found _ => ?_
  unfold pairIn
  split
  · exact fails_ok _
  · exact fails_error trivial

theorem fails_asList (op : String) (hv : heap.Met given v) :
    Fails (Failure.Of (heap.Stray given)) (heap.asList op v) := by
  refine (fails_tag hv).lift.bind fun found _ => ?_
  split
  · exact fails_ok _
  · exact fails_ok _
  · exact fails_error trivial

/-! ## Questions to the heap -/

theorem fails_step (link : Link) (hv : heap.Met given v) :
    Fails (Failure.Of (heap.Stray given)) (heap.step link v) := by
  cases link with
  | a => exact (fails_asPair "car" hv).bind fun _ _ => fails_ok _
  | d => exact (fails_asPair "cdr" hv).bind fun _ _ => fails_ok _

theorem Proper.met_step (hp : heap.Proper) {link : Link} {u : Handle}
    (h : heap.step link v = .ok u) : heap.Met given u := by
  cases link with
  | a =>
      obtain ⟨node, hnode, h⟩ := bind_eq_ok h
      obtain rfl := Except.ok.inj h
      exact met_head (asPair_ok hnode)
  | d =>
      obtain ⟨node, hnode, h⟩ := bind_eq_ok h
      obtain rfl := Except.ok.inj h
      exact Or.inr (hp.isList_rest (asPair_ok hnode))

theorem Proper.fails_follow (hp : heap.Proper) (path : List Link) (hv : heap.Met given v) :
    Fails (Failure.Of (heap.Stray given)) (heap.follow path v) := by
  induction path with
  | nil => exact fails_ok v
  | cons link path ih =>
      refine ih.bind fun u hu => fails_step link ?_
      cases path with
      | nil =>
          obtain rfl := Except.ok.inj hu
          exact hv
      | cons link' path =>
          obtain ⟨w, _, hu⟩ := bind_eq_ok hu
          exact hp.met_step hu

theorem IsList.fails_listLength (h : heap.IsList l) {kind : Fault → Prop} :
    Fails kind (heap.listLength l) := by
  obtain ⟨n, hn⟩ := h.exists_length
  rw [hn]
  exact fails_ok n

theorem Proper.fails_elements (hp : heap.Proper) (h : heap.IsList l) {kind : Fault → Prop} :
    Fails kind (heap.elements l) := by
  obtain ⟨xs, hxs, _⟩ := hp.exists_elements l h
  rw [hxs]
  exact fails_ok xs

theorem fails_length (hv : heap.Met given v) :
    Fails (Failure.Of (heap.Stray given)) (heap.length v) :=
  (fails_asList "length" hv).bind fun _ hl => (asList_ok hl).2.fails_listLength.lift

theorem fails_eq {x y : Handle} (hx : heap.Met given x) (hy : heap.Met given y) :
    Fails (heap.Stray given) (heap.eq x y) := by
  refine (fails_view hx).bind fun _ _ => (fails_view hy).bind fun _ _ => ?_
  split <;> exact fails_ok _

theorem Proper.met_elements (hp : heap.Proper) : ∀ l, heap.IsList l → ∀ xs,
    heap.elements l = .ok xs → ∀ x ∈ xs, heap.Met given x := by
  refine hp.induction ?_ ?_
  · intro xs hxs x hx
    rw [elements_nil] at hxs
    obtain rfl := Except.ok.inj hxs
    cases hx
  · intro l node hnode hrest ih xs hxs x hx
    obtain ⟨ys, hys, _⟩ := hp.exists_elements node.rest hrest
    rw [hp.elements_pair hnode, hys] at hxs
    obtain rfl := Except.ok.inj hxs
    rcases List.mem_cons.mp hx with rfl | hx
    · exact met_head hnode
    · exact ih ys hys x hx

theorem fails_findEntry {key : Handle} (hkey : heap.Met given key) (entries : List Handle)
    (hmet : ∀ x ∈ entries, heap.Met given x) :
    Fails (heap.Stray given) (heap.findEntry key entries) := by
  induction entries with
  | nil => exact fails_ok _
  | cons entry entries ih =>
      have hnext := ih fun x hx => hmet x (List.mem_cons_of_mem entry hx)
      rw [findEntry, tryEntry]
      refine (fails_view (hmet entry List.mem_cons_self)).bind fun found hfound => ?_
      rcases view_ok_cases hfound with ⟨_, rfl⟩ | ⟨c, hc, rfl⟩
      · exact hnext
      · cases c with
        | pair node =>
            refine (fails_eq hkey (met_head hc)).bind fun matched _ => ?_
            cases matched with
            | true => exact fails_ok entry
            | false => exact hnext
        | int _ | sym _ | str _ => exact hnext

theorem Proper.fails_assoc (hp : heap.Proper) {key alist : Handle} (hkey : heap.Met given key)
    (halist : heap.Met given alist) :
    Fails (Failure.Of (heap.Stray given)) (heap.assoc key alist) := by
  refine (fails_asList "assoc" halist).bind fun l hl => ?_
  have hlist := (asList_ok hl).2
  obtain ⟨entries, hentries, _⟩ := hp.exists_elements l hlist
  rw [search_ofList hentries]
  exact (fails_findEntry hkey entries (hp.met_elements l hlist entries hentries)).lift

theorem fails_asInts (op : String) {x y : Handle} (hx : heap.Met given x)
    (hy : heap.Met given y) : Fails (Failure.Of (heap.Stray given)) (heap.asInts op x y) := by
  rw [asInts_eq]
  refine (fails_view hx).lift.bind fun _ _ => (fails_view hy).lift.bind fun _ _ => ?_
  unfold intsIn
  split
  · exact fails_ok _
  · exact fails_error trivial

/-! ## Plans -/

theorem fails_consPlan {head tail : Handle} (htail : heap.Met given tail) :
    Fails (Failure.Of (heap.Stray given)) (heap.consPlan head tail) := by
  refine (fails_tag htail).lift.bind fun found hfound => ?_
  rcases tag_ok_cases (mapError_eq_ok hfound) with ⟨rfl, rfl⟩ | ⟨c, hc, rfl⟩
  · exact fails_ok _
  · cases c with
    | pair node =>
        have hlist : heap.IsList tail := Or.inr ⟨node, hc⟩
        exact hlist.fails_listLength.lift.bind fun _ _ => fails_ok _
    | int value => exact fails_ok _
    | sym _ | str _ => exact fails_error trivial

theorem Proper.fails_appendPlan (hp : heap.Proper) {front back : Handle}
    (hfront : heap.Met given front) (hback : heap.Met given back) :
    Fails (Failure.Of (heap.Stray given)) (heap.appendPlan front back) := by
  refine (fails_asList "append" hfront).bind fun l hl => ?_
  refine (fails_asList "append" hback).bind fun m hm => ?_
  refine (hp.fails_elements (asList_ok hl).2).lift.bind fun elems _ => ?_
  exact (asList_ok hm).2.fails_listLength.lift.bind fun _ _ => fails_ok _

theorem Proper.fails_plan (hp : heap.Proper) (call : Call) :
    Fails (Stop.Of (heap.Stray call.handles)) (call.plan heap) := by
  cases call with
  | cons head tail => exact (fails_consPlan met_second).stop
  | append front back => exact (hp.fails_appendPlan met_first met_second).stop
  | access accessor v => exact (hp.fails_follow accessor.path met_first).answer _
  | assoc key alist => exact (hp.fails_assoc met_first met_second).answer _
  | length v =>
      refine (fails_length met_first).stop.bind fun n _ => ?_
      split
      · exact fails_ok _
      · exact fails_error trivial
  | atom v => exact (fails_isAtom met_first).lift.answer _
  | numberp v => exact (fails_isA .int met_first).lift.answer _
  | eq x y => exact (fails_eq met_first met_second).lift.answer _
  | gt x y =>
      exact ((fails_asInts "GT" met_first met_second).bind fun _ _ => fails_ok _).answer _
  | mul x y =>
      exact ((fails_asInts "MUL" met_first met_second).bind fun _ _ => fails_ok _).answer _
  | sub x y =>
      exact ((fails_asInts "SUB" met_first met_second).bind fun _ _ => fails_ok _).answer _
  | assert v =>
      refine Fails.answer ?_ fun _ => Plan.found Handle.nil
      rw [checkAssertion]
      split
      · exact fails_error trivial
      · exact fails_ok _
  | list | null | not | and | or | print => exact fails_ok _

end Heap

/-! ## The printer -/

/-- The faults of a writer are of a kind, whatever the sink. -/
def Blames {α : Type} (kind : Fault → Prop) (w : Writer α) : Prop :=
  ∀ sink f left, w sink = .error (.fault f) left → kind f

section Blames

variable {α β : Type} {kind : Fault → Prop}

theorem blames_put (text : String) : Blames kind (Sink.put text) :=
  fun sink f left h => absurd h (faultless_put text sink f left)

theorem blames_pure (a : α) : Blames kind (pure a : Writer α) := fun _ _ _ h => nomatch h

theorem blames_throw {f : Fault} (hf : kind f) : Blames kind (throw (.fault f) : Writer α) := by
  intro sink f' left h
  cases h
  exact hf

theorem blames_bind {w : Writer α} {k : α → Writer β} (hw : Blames kind w)
    (hk : ∀ a, Blames kind (k a)) : Blames kind (w >>= k) := by
  intro sink f left h
  have h : EStateM.bind w k sink = .error (.fault f) left := h
  rw [EStateM.bind] at h
  cases hr : w sink with
  | ok a mid =>
      rw [hr] at h
      exact hk a mid f left h
  | error e mid =>
      rw [hr] at h
      cases h
      exact hw sink f left hr

theorem blames_await_bind {x : Except Fault α} {k : α → Writer β} (hx : Fails kind x)
    (hk : ∀ a, x = .ok a → Blames kind (k a)) : Blames kind (Sink.await x >>= k) := by
  cases x with
  | ok a =>
      rw [Sink.await_ok, pure_bind]
      exact hk a rfl
  | error f' =>
      intro sink f left h
      cases h
      exact hx f' rfl

end Blames

namespace Heap

/-- A fault of the printer: a stray handle, a symbol without a name, or a walk that was given up. -/
def Unprintable (heap : Heap) (given : List Handle) (f : Fault) : Prop :=
  heap.Stray given f ∨ f.Endless ∨
    ∃ v id, heap.cell? v = some (.sym id) ∧ heap.symbols.size ≤ id.index ∧
      f = .unknownSymbol heap.symbols.size id

variable {heap : Heap} {given : List Handle} {v l : Handle}

theorem Proper.blames_writeRest (hp : heap.Proper) {write : Handle → Writer Unit}
    (hw : ∀ v, heap.Met given v → Blames (heap.Unprintable given) (write v)) (budget : Nat)
    (hl : heap.IsList l) : Blames (heap.Unprintable given) (heap.writeRest write budget l) := by
  induction budget generalizing l with
  | zero =>
      rw [writeRest]
      split
      · exact blames_pure ()
      · exact blames_throw (Or.inr (Or.inl trivial))
  | succ budget ih =>
      rw [writeRest]
      rcases hl with rfl | ⟨node, hnode⟩
      · exact blames_pure ()
      · rw [uncons?_of_cell? hnode, Sink.await_ok, pure_bind]
        refine blames_bind (blames_put " ") fun _ => ?_
        refine blames_bind (hw node.head (met_head hnode)) fun _ => ?_
        exact ih (hp.isList_rest hnode)

theorem Proper.blames_writeWithin (hp : heap.Proper) (depth : Nat) (hv : heap.Met given v) :
    Blames (heap.Unprintable given) (heap.writeWithin depth v) := by
  induction depth generalizing v with
  | zero => exact blames_throw (Or.inr (Or.inl trivial))
  | succ depth ih =>
      rw [writeWithin_succ]
      refine blames_await_bind (fun f hf => Or.inl (fails_view hv f hf)) fun found hfound => ?_
      rcases view_ok_cases hfound with ⟨_, rfl⟩ | ⟨c, hc, rfl⟩
      · exact blames_put "()"
      · cases c with
        | int value => exact blames_put _
        | str text =>
            refine blames_bind (blames_put _) fun _ => ?_
            exact blames_bind (blames_put text) fun _ => blames_put _
        | sym id =>
            refine blames_await_bind (fun f hf => ?_) fun name _ => blames_put name
            obtain ⟨rfl, hid⟩ := symbolName_error hf
            exact Or.inr (Or.inr ⟨v, id, hc, hid, rfl⟩)
        | pair node =>
            refine blames_bind (blames_put "(") fun _ => ?_
            refine blames_bind (ih (met_head hc)) fun _ => ?_
            refine blames_bind ?_ fun _ => blames_put ")"
            exact hp.blames_writeRest (fun u hu => ih hu) heap.size (hp.isList_rest hc)

theorem Proper.print_fault (hp : heap.Proper) {sink left : Sink} {f : Fault}
    (hends : heap.Ends v sink) (h : heap.print v sink = .error (.fault f) left) :
    heap.Stray [v] f ∨ ∃ u id, heap.cell? u = some (.sym id) ∧ heap.symbols.size ≤ id.index ∧
      f = .unknownSymbol heap.symbols.size id := by
  have hwrite : heap.write v sink = .error (.fault f) left := by
    have h : EStateM.bind (heap.write v) (fun _ => Sink.put "\n") sink = _ := h
    rw [EStateM.bind] at h
    cases hr : heap.write v sink with
    | ok _ mid =>
        rw [hr] at h
        exact absurd h (faultless_put "\n" mid f left)
    | error e mid =>
        rw [hr] at h
        exact h
  rcases hp.blames_writeWithin _ met_first sink f left hwrite with hstray | hendless | hname
  · exact Or.inl hstray
  · cases f with
    | endless u => exact absurd ⟨u, left, hwrite⟩ (hp.write_ends hends)
    | unallocated | mistyped | unknownSymbol | exhausted => cases hendless
  · exact Or.inr hname

end Heap

/-! ## Where symbols come from -/

/-- A symbol whose number is taken from a table that some operation handed in. -/
def Borrowed (ops : List Operation) (id : SymbolId) : Prop :=
  ∃ table name, Operation.place table (.sym name) ∈ ops ∧ id = (table.intern name).1

theorem perform_symbol (op : Operation) (task : Task) {id : SymbolId}
    (h : Cell.sym id ∈ (op.perform task).2.heap.cells.toList) :
    Cell.sym id ∈ task.heap.cells.toList ∨ id.index < (op.perform task).2.heap.symbols.size ∨
      Borrowed [op] id := by
  obtain ⟨added, hlogs, hgives⟩ := perform_extends op task
  rw [hlogs.cells, List.mem_append] at h
  rcases h with hold | hnew
  · exact Or.inl hold
  · have hid := hgives id hnew
    match op with
    | .newAtom (.sym name) =>
        obtain rfl : id = (task.heap.symbols.intern name).1 := hid
        have hname := SymbolTable.name?_intern_self task.heap.symbols name
        exact Or.inr (Or.inl (SymbolTable.index_lt_of_name? hname))
    | .place table (.sym name) => exact Or.inr (Or.inr ⟨table, name, List.mem_cons_self, hid⟩)

theorem after_symbol (task : Task) (ops : List Operation) {id : SymbolId}
    (h : Cell.sym id ∈ (task.after ops).heap.cells.toList) :
    Cell.sym id ∈ task.heap.cells.toList ∨ id.index < (task.after ops).heap.symbols.size ∨
      Borrowed ops id := by
  induction ops generalizing task with
  | nil => exact Or.inl h
  | cons op ops ih =>
      have hlater := (after_grows (op.perform task).2 ops).symbols_size_le
      rcases ih (op.perform task).2 h with hmem | hnamed | ⟨table, name, hplace, hid⟩
      · rcases perform_symbol op task hmem with hold | hnamed | ⟨table, name, hplace, hid⟩
        · exact Or.inl hold
        · exact Or.inr (Or.inl (Nat.lt_of_lt_of_le hnamed hlater))
        · obtain rfl := List.mem_singleton.mp hplace
          exact Or.inr (Or.inr ⟨table, name, List.mem_cons_self, hid⟩)
      · exact Or.inr (Or.inl hnamed)
      · exact Or.inr (Or.inr ⟨table, name, List.mem_cons_of_mem op hplace, hid⟩)

theorem symbol_source (names : List String) (ops : List Operation) {v : Handle} {id : SymbolId}
    (h : ((Task.fresh names).after ops).heap.cell? v = some (.sym id)) :
    id.index < ((Task.fresh names).after ops).heap.symbols.size ∨ Borrowed ops id := by
  rcases after_symbol (Task.fresh names) ops (Heap.mem_cells_iff.mpr ⟨v, h⟩) with hfirst | hlater
  · obtain ⟨u, hu⟩ := Heap.mem_cells_iff.mp hfirst
    have hnamed := (Heap.sound_fresh names).named hu
    exact Or.inl (Nat.lt_of_lt_of_le hnamed (after_grows (Task.fresh names) ops).symbols_size_le)
  · exact hlater

/-! ## Entry points -/

section Entering

variable {task left : Task} {s : Stop}

theorem plan_of_enter_error {call : Call} (hprint : call.printing = false)
    (h : call.enter task = .error s left) : call.plan task.heap = .error s := by
  rw [enter_eq_carryOut hprint] at h
  cases hplan : call.plan task.heap with
  | ok plan =>
      rw [hplan] at h
      cases h
  | error s' =>
      rw [hplan] at h
      cases h
      rfl

theorem print_of_enter_error {v : Handle} (h : (Call.print v).enter task = .error s left) :
    (∃ message, s = .failed message) ∨
      ∃ f sink, s = .fault f ∧ task.heap.print v task.out = .error (.fault f) sink := by
  rw [enter_print] at h
  cases hr : task.heap.print v task.out with
  | ok _ out =>
      rw [hr] at h
      cases h
  | error e out =>
      rw [hr] at h
      cases h
      cases e with
      | fault f => exact Or.inr ⟨f, out, rfl, rfl⟩
      | full | noSpace => exact Or.inl ⟨_, rfl⟩

/-- What stops an entry point on a heap without a limit. -/
theorem enter_error_cases (names : List String) (ops : List Operation) {call : Call}
    (htask : task.heap = ((Task.fresh names).after ops).heap)
    (hends : ∀ v, call = .print v → task.heap.Ends v task.out)
    (h : call.enter task = .error s left) :
    (∃ message, s = .failed message) ∨
    (∃ f, s = .fault f ∧ task.heap.Stray call.handles f) ∨
    ((∃ v, call = .print v) ∧ ∃ v id, s = .fault (.unknownSymbol task.heap.symbols.size id) ∧
      task.heap.cell? v = some (.sym id) ∧ task.heap.symbols.size ≤ id.index ∧
      Borrowed ops id) := by
  have hp : task.heap.Proper := htask ▸ Heap.proper_after names ops
  cases hprint : call.printing with
  | false =>
      have hkind := hp.fails_plan call s (plan_of_enter_error hprint h)
      cases s with
      | failed message => exact Or.inl ⟨message, rfl⟩
      | fault f => exact Or.inr (Or.inl ⟨f, rfl, hkind⟩)
      | thrown payload => cases hkind
  | true =>
      cases call with
      | print v =>
          rcases print_of_enter_error h with hmessage | ⟨f, sink, rfl, hsink⟩
          · exact Or.inl hmessage
          · rcases hp.print_fault (hends v rfl) hsink with hstray | ⟨u, id, hu, hid, rfl⟩
            · exact Or.inr (Or.inl ⟨f, rfl, hstray⟩)
            · refine Or.inr (Or.inr ⟨⟨v, rfl⟩, u, id, rfl, hu, hid, ?_⟩)
              rw [htask] at hu hid
              exact (symbol_source names ops hu).resolve_left (Nat.not_lt_of_le hid)
      | _ => cases hprint

end Entering

/-- After a run on any handles at all, an entry point that stops has refused its arguments, has met
a handle without a box, or has found no number for the next box because all of them are taken. A
handle without a box was an argument of the call or is the head of a pair, and is the rest of none.
The printer, where its rendering ends, may also have met a symbol without a name, and then the run
has placed that symbol with a number from a table that was handed in. No stop says that a box is of
another kind than it was read as. The numbers run out just for those calls that would return with
more boxes than there are numbers. -/
theorem only_strays_and_full_heaps_fault (names : List String) (ops : List Operation) (out : Sink)
    (call : Call) :
    let task : Task := { (Task.fresh names).afterWithin (some Heap.maxSize) ops with out := out }
    (∀ v, call = .print v → task.heap.Ends v task.out) →
    (∀ s left, call.enterWithin (some Heap.maxSize) task = .error s left →
      (∃ message, s = .failed message) ∨
      (∃ v, s = .fault (.unallocated v) ∧ v ≠ .nil ∧ task.heap.cell? v = none ∧
        (v ∈ call.handles ∨ ∃ l node, task.heap.cell? l = some (.pair node) ∧ node.head = v) ∧
        ∀ l node, task.heap.cell? l = some (.pair node) → node.rest ≠ v) ∨
      ((∃ v, call = .print v) ∧ ∃ v id, s = .fault (.unknownSymbol task.heap.symbols.size id) ∧
        task.heap.cell? v = some (.sym id) ∧ task.heap.symbols.size ≤ id.index ∧
        ∃ table name, Operation.place table (.sym name) ∈ ops ∧ id = (table.intern name).1) ∨
      (s = .fault (.exhausted Heap.maxSize) ∧ left.heap.size = Heap.maxSize)) ∧
    ((∃ left, call.enterWithin (some Heap.maxSize) task =
        .error (.fault (.exhausted Heap.maxSize)) left) ↔
      ∃ v left, call.enter task = .ok v left ∧ Heap.maxSize < left.heap.size) := by
  intro task hends
  obtain ⟨ops', hops, hplaced⟩ :=
    exists_run_of_afterWithin (some Heap.maxSize) (Task.fresh names) ops
  have htask : task.heap = ((Task.fresh names).after ops').heap := by rw [hops]
  have hp : task.heap.Proper := Heap.proper_afterWithin _ names ops
  have hsize : task.heap.size ≤ Heap.maxSize := size_afterWithin_fresh_le names ops
  cases enterWithin_bounded hsize call with
  | fits heq hfits =>
      rw [heq]
      refine ⟨fun s left h => ?_, fun ⟨left, h⟩ => ?_, fun ⟨v, left, hok, hlt⟩ => ?_⟩
      · rcases enter_error_cases names ops' htask hends h with
          hmessage | ⟨f, rfl, v, rfl, hv, hnone, hmet⟩ | ⟨hprint, v, id, rfl, hv, hid, hborrowed⟩
        · exact Or.inl hmessage
        · refine Or.inr (Or.inl ⟨v, rfl, hv, hnone, hmet, ?_⟩)
          exact fun l node hnode => hp.rest_ne hv hnone hnode
        · obtain ⟨table, name, hmem, rfl⟩ := hborrowed
          exact Or.inr (Or.inr (Or.inl ⟨hprint, v, _, rfl, hv, hid, table, name,
            hplaced table _ hmem, rfl⟩))
      · rcases enter_error_cases names ops' htask hends h with
          ⟨_, hs⟩ | ⟨f, hs, v, rfl, _⟩ | ⟨_, v, id, hs, _⟩ <;> cases hs
      · rw [hok] at hfits
        exact absurd hlt (Nat.not_lt_of_le hfits)
  | full hwhole hlt hcut hlast =>
      refine ⟨fun s left h => ?_, fun _ => ⟨_, _, hwhole, hlt⟩, fun _ => ⟨_, hcut⟩⟩
      cases hcut.symm.trans h
      exact Or.inr (Or.inr (Or.inr ⟨rfl, hlast⟩))

/-- A head without a box, and a symbol that has its number from another table. -/
def strangeRun : List Operation :=
  [.newPair ⟨9⟩ .nil, .place ⟨#["a", "b"]⟩ (.sym "b"), .newPair ⟨3⟩ .nil]

theorem strange_run_faults :
    let task : Task :=
      { (Task.fresh []).afterWithin (some Heap.maxSize) strangeRun with out := {} }
    (∃ left, (Call.access .caar ⟨2⟩).enterWithin (some Heap.maxSize) task =
      .error (.fault (.unallocated ⟨9⟩)) left) ∧
    (∃ l node, task.heap.cell? l = some (.pair node) ∧ node.head = ⟨9⟩) ∧
    task.heap.Ends ⟨4⟩ task.out ∧
    (∃ left, (Call.print ⟨4⟩).enterWithin (some Heap.maxSize) task =
      .error (.fault (.unknownSymbol 1 ⟨1⟩)) left) ∧
    ∃ table name, Operation.place table (.sym name) ∈ strangeRun ∧
      (⟨1⟩ : SymbolId) = (table.intern name).1 := by
  intro task
  have hends : task.heap.Ends ⟨4⟩ task.out := by
    refine ⟨2, ?_⟩
    rintro ⟨v, left, h⟩
    cases h
  obtain ⟨left, hleft⟩ : ∃ left, (Call.access .caar ⟨2⟩).enterWithin (some Heap.maxSize) task =
      .error (.fault (.unallocated ⟨9⟩)) left :=
    ⟨_, rfl⟩
  obtain ⟨left', hleft'⟩ : ∃ left, (Call.print ⟨4⟩).enterWithin (some Heap.maxSize) task =
      .error (.fault (.unknownSymbol 1 ⟨1⟩)) left :=
    ⟨_, rfl⟩
  refine ⟨⟨left, hleft⟩, ?_, hends, ⟨left', hleft'⟩, ?_⟩
  · obtain ⟨hstops, _⟩ :=
      only_strays_and_full_heaps_fault [] strangeRun {} (.access .caar ⟨2⟩) nofun
    rcases hstops _ left hleft with
      ⟨_, h⟩ | ⟨v, hv, _, _, hmet, _⟩ | ⟨⟨_, h⟩, _⟩ | ⟨h, _⟩
    · cases h
    · cases hv
      rcases hmet with hgiven | hhead
      · exact absurd hgiven (by decide)
      · exact hhead
    · cases h
    · cases h
  · have honly : ∀ v, Call.print ⟨4⟩ = .print v → task.heap.Ends v task.out := by
      intro v hv
      cases hv
      exact hends
    obtain ⟨hstops, _⟩ := only_strays_and_full_heaps_fault [] strangeRun {} (.print ⟨4⟩) honly
    rcases hstops _ left' hleft' with
      ⟨_, h⟩ | ⟨v, hv, _⟩ | ⟨_, v, id, hid, _, _, hplaced⟩ | ⟨h, _⟩
    · cases h
    · cases hv
    · cases hid
      exact hplaced
    · cases h

/-- A call on values of the heap that stops all the same. -/
theorem full_heap_stops_entry_point :
    let task := (Task.fresh []).afterWithin (some Heap.maxSize)
      (List.replicate (Heap.maxSize - 1) (.newAtom (.int 0)))
    ∃ left, (Call.cons .nil .nil).enterWithin (some Heap.maxSize) task =
      .error (.fault (.exhausted Heap.maxSize)) left :=
  enterWithin_of_full (size_afterWithin_numbers [] Heap.maxSize (by decide)) .nil

end LispHeap

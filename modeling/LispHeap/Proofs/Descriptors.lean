import LispHeap.Export
import LispHeap.Signature.Basic
import LispHeap.Proofs.OwnRuns
import LispHeap.Proofs.Plans

/-!
# Results are of the type that their descriptor declares

Compiled code takes the descriptor of an entry point at its word. If the descriptor says that a pair
comes back, the pair's links are read without a look at its tag; if it says a list, the list is
walked to its end. The descriptor follows from how the function behind the entry point is declared,
and the handle from what that function does, and nothing in between compares the two.

What a type says of a handle is `BoxType.Holds`. That a result is some value of the heap is known
from soundness. The other types are promises of single primitives, and most of them are kept because
the result is a box that the call itself has placed, last of all. Two are not of this kind. The rest
of a pair and the second operand of `append` are handed on as they are, and that they start a proper
list is the invariant of the heap and no check of the call.
-/

namespace LispHeap

/-! ## Values of a type -/

/-- What a type says of a handle: the empty list or a box, a box with that tag, or the start of a
list that comes to its end. -/
def BoxType.Holds (heap : Heap) (v : Handle) : BoxType → Prop
  | .any => v = .nil ∨ ∃ c, heap.cell? v = some c
  | .tagged tag => ∃ c, heap.cell? v = some c ∧ c.tag = tag
  | .list => ∃ spine, heap.Spine v spine

/-- No handle is an unboxed value or a run of arguments. -/
def ArgType.Holds (heap : Heap) (v : Handle) : ArgType → Prop
  | .boxed type => type.Holds heap v
  | .bool | .int | .argList => False

/-- Arguments for parameters: a value of its type for each, and any number of values for a run of
arguments. -/
inductive Heap.Fits (heap : Heap) : List ArgType → List Handle → Prop where
  | nil : Fits heap [] []
  | cons {type : ArgType} {types : List ArgType} {v : Handle} {vs : List Handle}
      (hv : type.Holds heap v) (hvs : Fits heap types vs) : Fits heap (type :: types) (v :: vs)
  | run {vs : List Handle} (hvs : ∀ v ∈ vs, BoxType.any.Holds heap v) : Fits heap [.argList] vs

section Holding

variable {heap later : Heap} {v : Handle}

theorem holds_any_iff : BoxType.any.Holds heap v ↔ heap.Has v := by
  constructor
  · rintro (rfl | ⟨c, hc⟩)
    · exact Nat.zero_le _
    · exact (Heap.cell?_bounds hc).2
  · exact Heap.Has.cases

theorem Heap.Proper.holds_list (hp : heap.Proper) (hl : heap.IsList v) :
    BoxType.list.Holds heap v := by
  obtain ⟨spine, hspine, _⟩ := hp.exists_spine v hl
  exact ⟨spine, hspine⟩

theorem Heap.Spine.grows {ls : List Handle} (h : heap.Spine v ls) (hg : heap.Grows later) :
    later.Spine v ls := by
  induction h with
  | nil => exact .nil
  | cons hcell _ ih => exact .cons (hg.cell?_of_some hcell) ih

/-- A value of a type stays one. -/
theorem ArgType.Holds.grows {type : ArgType} (h : type.Holds heap v) (hg : heap.Grows later) :
    type.Holds later v := by
  cases type with
  | bool | int | argList => exact h
  | boxed type =>
      cases type with
      | any => exact h.imp id fun ⟨c, hc⟩ => ⟨c, hg.cell?_of_some hc⟩
      | tagged tag =>
          obtain ⟨c, hc, htag⟩ := h
          exact ⟨c, hg.cell?_of_some hc, htag⟩
      | list =>
          obtain ⟨spine, hspine⟩ := h
          exact ⟨spine, hspine.grows hg⟩

end Holding

/-! ## Rows of the table -/

namespace Primitive

/-- The type of a boxed value, as it is written. -/
def boxed (name : String) : Signature.TypeExpr := .named "Gc" [.named name []]

/-- The signature of the function behind the entry point. -/
def signature (p : Primitive) : Signature where
  name := p.function
  params :=
    match p with
    | .cons => [task, ⟨"head", boxed "Any"⟩, ⟨"tail", boxed "Any"⟩]
    | .assoc => [task, ⟨"key", boxed "Any"⟩, ⟨"alist", boxed "Any"⟩]
    | .append | .eq | .gt | .mul | .sub => [task, ⟨"lhs", boxed "Any"⟩, ⟨"rhs", boxed "Any"⟩]
    | .and | .or => [⟨"lhs", boxed "Any"⟩, ⟨"rhs", boxed "Any"⟩]
    | .access _ | .length | .atom | .numberp | .assert | .print => [task, ⟨"value", boxed "Any"⟩]
    | .null | .not => [⟨"value", boxed "Any"⟩]
    | .list => [task, ⟨"elems", .named "ArgList" [.lifetime]⟩]
  result :=
    match p with
    | .cons => boxed "Pair"
    | .access .cdr | .list | .append => boxed "List"
    | .length | .mul | .sub => boxed "Int"
    | .print => .unit
    | _ => boxed "Any"
where
  task : Signature.Param := ⟨"task", .reference (.named "Task" [])⟩

theorem mem_all (p : Primitive) : p ∈ all := by
  cases p with
  | access accessor => cases accessor <;> decide
  | _ => decide

/-- Names are unique, so each primitive is found by its own. -/
theorem ofName?_name (p : Primitive) : ofName? p.name = some p := by
  have hall : ∀ p ∈ all, ofName? p.name = some p := by decide +kernel
  exact hall p p.mem_all

/-- The table says of each primitive what its declaration comes to. -/
theorem ofSignature?_signature (p : Primitive) :
    Descriptor.ofSignature? p.lispType p.signature = some p.descriptor := by
  have hall : ∀ p ∈ all, Descriptor.ofSignature? p.lispType p.signature = some p.descriptor := by
    decide +kernel
  exact hall p p.mem_all

end Primitive

theorem exists_primitive {name : String} {d : Descriptor} (h : (name, d) ∈ exports) :
    ∃ p : Primitive, name = p.name ∧ d = p.descriptor := by
  obtain ⟨p, _, hp⟩ := List.mem_map.mp h
  exact ⟨p, (congrArg Prod.fst hp).symm, (congrArg Prod.snd hp).symm⟩

/-! ## Arguments -/

namespace Call

/-- The primitive of a call. -/
def primitive : Call → Primitive
  | .cons .. => .cons
  | .access accessor _ => .access accessor
  | .list _ => .list
  | .length _ => .length
  | .null _ => .null
  | .append .. => .append
  | .assoc .. => .assoc
  | .atom _ => .atom
  | .eq .. => .eq
  | .numberp _ => .numberp
  | .not _ => .not
  | .and .. => .and
  | .or .. => .or
  | .assert _ => .assert
  | .gt .. => .gt
  | .mul .. => .mul
  | .sub .. => .sub
  | .print _ => .print

/-- A primitive with as many arguments as it takes is a call. -/
theorem exists_make? {p : Primitive} {args : List Handle} (h : p.takes args.length = true) :
    ∃ call, make? p args = some call ∧ call.primitive = p ∧ call.handles = args := by
  cases p with
  | list => exact ⟨.list args, rfl, rfl, rfl⟩
  | cons | append | assoc | eq | and | or | gt | mul | sub =>
      obtain ⟨x, y, rfl⟩ := List.length_eq_two.mp (beq_iff_eq.mp h).symm
      exact ⟨_, rfl, rfl, rfl⟩
  | access | length | null | atom | numberp | not | assert | print =>
      obtain ⟨x, rfl⟩ := List.length_eq_one_iff.mp (beq_iff_eq.mp h).symm
      exact ⟨_, rfl, rfl, rfl⟩

end Call

section Arguments

variable {heap : Heap} {args : List Handle}

theorem Heap.Fits.of_replicate {n : Nat} (h : heap.Fits (List.replicate n (.boxed .any)) args) :
    args.length = n ∧ ∀ v ∈ args, heap.Has v := by
  induction n generalizing args with
  | zero =>
      cases h with
      | nil => exact ⟨rfl, fun v hv => absurd hv List.not_mem_nil⟩
  | succ n ih =>
      rw [List.replicate_succ] at h
      cases h with
      | cons hv hvs =>
          obtain ⟨hlength, hhas⟩ := ih hvs
          refine ⟨by rw [List.length_cons, hlength], fun w hw => ?_⟩
          rcases List.mem_cons.mp hw with rfl | hw
          · exact holds_any_iff.mp hv
          · exact hhas w hw

/-- Arguments that fit the parameters are values of the heap, and there are as many as are taken. -/
theorem Heap.Fits.of_params {p : Primitive} (h : heap.Fits p.params args) :
    p.takes args.length = true ∧ ∀ v ∈ args, heap.Has v := by
  rw [Primitive.params] at h
  rw [Primitive.takes]
  cases harity : p.arity? with
  | some n =>
      rw [harity] at h
      obtain ⟨hlength, hhas⟩ := h.of_replicate
      exact ⟨beq_iff_eq.mpr hlength.symm, hhas⟩
  | none =>
      rw [harity] at h
      cases h with
      | run hvs => exact ⟨rfl, fun v hv => holds_any_iff.mp (hvs v hv)⟩
      | cons hv _ => exact hv.elim

end Arguments

/-! ## Results -/

section Results

variable {task left : Task} {v : Handle}

/-- A call that returns has carried out its plan. -/
theorem plan_of_enter {call : Call} (hprint : call.printing = false)
    (h : call.enter task = .ok v left) :
    ∃ plan, call.plan task.heap = .ok plan ∧ v = plan.result ∧
      left = task.placeAll plan.boxes := by
  rw [enter_eq_carryOut hprint] at h
  cases hplan : call.plan task.heap with
  | ok plan =>
      rw [hplan] at h
      cases h
      exact ⟨plan, rfl, rfl, rfl⟩
  | error s =>
      rw [hplan] at h
      cases h

/-- What a call returns on values of a sound heap is a value of the heap that it leaves. -/
theorem Heap.Sound.enter (hs : task.heap.Sound) {call : Call}
    (hargs : ∀ v ∈ call.handles, task.heap.Has v) (h : call.enter task = .ok v left) :
    left.heap.Sound ∧ left.heap.Has v := by
  have ht : Task.Twin 1 1 (task.heap.size - 1) task task := ⟨hs.twin_self, rfl⟩
  have hkept := kept_entry (lockstep_enter ht (call.twin_self fun v hv => (hargs v hv).twin_self))
  rw [h] at hkept
  exact ⟨hkept.sound, hkept.returned v rfl⟩

theorem holds_list_of_length {heap : Heap} (hp : heap.Proper) {n : Nat}
    (h : heap.listLength v = .ok n) : BoxType.list.Holds heap v := by
  refine hp.holds_list ?_
  rcases Heap.listLength_ok_cases h with ⟨hnil, _⟩ | ⟨node, hnode, _⟩
  · exact Or.inl hnil
  · exact Or.inr ⟨node, hnode⟩

/-- The box that was placed last is the result. -/
theorem holds_number (value : Int32) :
    (BoxType.tagged .int).Holds (task.placeAll (Plan.number task.heap value).boxes).heap
      (Plan.number task.heap value).result :=
  ⟨.int value, Heap.cell?_push_self task.heap (.int value), rfl⟩

theorem holds_consPlan {head tail : Handle} {plan : Plan Handle}
    (h : task.heap.consPlan head tail = .ok plan) :
    (BoxType.tagged .pair).Holds (task.placeAll plan.boxes).heap plan.result := by
  have hlist : ∃ xs l n, task.heap.listLength l = .ok n ∧
      plan = .list task.heap (head :: xs) l n := by
    rw [Heap.consPlan] at h
    obtain ⟨found, hfound, h⟩ := bind_eq_ok h
    rcases Heap.tag_ok_cases (mapError_eq_ok hfound) with ⟨rfl, rfl⟩ | ⟨c, hc, rfl⟩
    · exact ⟨[], .nil, 0, rfl, (Except.ok.inj h).symm⟩
    · cases c with
      | pair node =>
          obtain ⟨n, hn, h⟩ := bind_eq_ok h
          exact ⟨[], tail, n, mapError_eq_ok hn, (Except.ok.inj h).symm⟩
      | int value => exact ⟨[tail], .nil, 0, rfl, (Except.ok.inj h).symm⟩
      | sym _ | str _ => cases h
  obtain ⟨xs, l, n, hn, rfl⟩ := hlist
  -- The list is not empty, so what starts it is a pair.
  rcases Heap.listLength_ok_cases (listLength_startOnto hn (head :: xs)) with
    ⟨_, hzero⟩ | ⟨node, hnode, _⟩
  · rw [List.length_cons] at hzero
    omega
  · exact ⟨.pair node, hnode, rfl⟩

theorem holds_appendPlan {front back : Handle} {plan : Plan Handle}
    (hp : (task.placeAll plan.boxes).heap.Proper)
    (h : task.heap.appendPlan front back = .ok plan) :
    BoxType.list.Holds (task.placeAll plan.boxes).heap plan.result := by
  rw [Heap.appendPlan] at h
  obtain ⟨_, _, h⟩ := bind_eq_ok h
  obtain ⟨_, _, h⟩ := bind_eq_ok h
  obtain ⟨elems, _, h⟩ := bind_eq_ok h
  obtain ⟨n, hn, h⟩ := bind_eq_ok h
  obtain rfl := Except.ok.inj h
  exact holds_list_of_length hp (listLength_startOnto (mapError_eq_ok hn) elems)

theorem Heap.Proper.holds_cdr {heap : Heap} (hp : heap.Proper) {u : Handle}
    (h : heap.cdr v = .ok u) : BoxType.list.Holds heap u := by
  obtain ⟨node, hnode, h⟩ := bind_eq_ok h
  obtain rfl := Except.ok.inj h
  exact hp.holds_list (hp.isList_rest (asPair_ok hnode))

/-- On a sound heap, what a call returns is of the type that its primitive declares. -/
theorem Heap.Sound.holds_result (hs : task.heap.Sound) {call : Call} {type : ArgType}
    (hargs : ∀ v ∈ call.handles, task.heap.Has v) (h : call.enter task = .ok v left)
    (hresult : call.primitive.result = .inhabited type) : type.Holds left.heap v := by
  obtain ⟨hleft, hv⟩ := hs.enter hargs h
  have hany : (ArgType.boxed .any).Holds left.heap v := holds_any_iff.mpr hv
  cases call with
  | print v => cases hresult
  | cons head tail =>
      cases hresult
      obtain ⟨plan, hplan, rfl, rfl⟩ := plan_of_enter rfl h
      exact holds_consPlan (mapError_eq_ok hplan)
  | list elems =>
      cases hresult
      obtain ⟨plan, hplan, rfl, rfl⟩ := plan_of_enter rfl h
      cases hplan
      exact holds_list_of_length hleft.toProper
        (listLength_startOnto (Heap.listLength_nil task.heap) elems)
  | append front back =>
      cases hresult
      obtain ⟨plan, hplan, rfl, rfl⟩ := plan_of_enter rfl h
      exact holds_appendPlan hleft.toProper (mapError_eq_ok hplan)
  | length v =>
      cases hresult
      obtain ⟨plan, hplan, rfl, rfl⟩ := plan_of_enter rfl h
      obtain ⟨n, _, hplan⟩ := bind_eq_ok hplan
      split at hplan
      · cases hplan
        exact holds_number _
      · cases hplan
  | mul x y | sub x y =>
      cases hresult
      obtain ⟨plan, hplan, rfl, rfl⟩ := plan_of_enter rfl h
      obtain ⟨value, _, hplan⟩ := bind_eq_ok hplan
      cases hplan
      exact holds_number value
  | access accessor u =>
      cases accessor with
      | cdr =>
          cases hresult
          obtain ⟨plan, hplan, rfl, rfl⟩ := plan_of_enter rfl h
          obtain ⟨w, hw, hplan⟩ := bind_eq_ok hplan
          cases hplan
          exact hleft.toProper.holds_cdr (mapError_eq_ok hw)
      | _ =>
          cases hresult
          exact hany
  | null | assoc | atom | eq | numberp | not | and | or | assert | gt =>
      cases hresult
      exact hany

end Results

/-- After every run on handles of its own: a row of the export table names a primitive and describes
its function as that is declared; arguments that fit the parameters make a call of it; and if the
call returns, the result is of the declared type, then and on every later heap. -/
theorem results_are_as_declared (names : List String) (out : Sink) (ops : List Operation)
    (h : (Session.start names out).permitsAll ops) {name : String} {d : Descriptor}
    (hrow : (name, d) ∈ exports) {type : ArgType} (hresult : d.result = .inhabited type)
    {args : List Handle}
    (hargs : ((Session.start names out).after ops).task.heap.Fits d.params args) :
    let task := ((Session.start names out).after ops).task
    ∃ p call, Primitive.ofName? name = some p ∧
      Descriptor.ofSignature? p.lispType p.signature = some d ∧ Call.make? p args = some call ∧
      ∀ v left, call.enter task = .ok v left →
        ∀ later : List Operation, type.Holds (left.after later).heap v := by
  intro task
  have hs : task.heap.Sound := ((Session.sound_start names out).after h).heap
  obtain ⟨p, rfl, rfl⟩ := exists_primitive hrow
  obtain ⟨htakes, hhas⟩ := hargs.of_params
  obtain ⟨call, hmake, rfl, rfl⟩ := Call.exists_make? htakes
  refine ⟨call.primitive, call, Primitive.ofName?_name _, Primitive.ofSignature?_signature _, hmake,
    fun v left hv later => ?_⟩
  exact (hs.holds_result hhas hv hresult).grows (after_grows left later)

theorem enter_cdr_of_cell? {task : Task} {v : Handle} {node : Pair}
    (h : task.heap.cell? v = some (.pair node)) :
    (Call.access .cdr v).enter task = .ok node.rest task := by
  have hpair : task.heap.asPair "cdr" v = .ok node := by
    rw [Heap.asPair_eq, Heap.view_of_cell? h]
    rfl
  have hcdr : task.heap.follow [.d] v = .ok node.rest := by
    show (task.heap.asPair "cdr" v).bind _ = _
    rw [hpair]
    rfl
  show Entry.ofOp (.ask (·.follow [.d] v)) task = _
  rw [Entry.ofOp, Op.ask, hcdr]

/-- Builds `(t 5)` in front of an integer, and then `(() t 5)`. -/
def frontRun : List Operation :=
  [.newAtom (.int 5), .enter (.cons .t ⟨2⟩), .enter (.list [.nil]), .enter (.append ⟨5⟩ ⟨4⟩)]

theorem rest_of_front_run_is_list :
    (Session.start [] {}).permitsAll frontRun ∧
    ("cdr", (Primitive.access .cdr).descriptor) ∈ exports ∧
    ((Session.start [] {}).after frontRun).task.heap.Fits
      (Primitive.access .cdr).descriptor.params [⟨6⟩] ∧
    ∃ left, (Call.access .cdr ⟨6⟩).enter ((Session.start [] {}).after frontRun).task =
        .ok ⟨4⟩ left ∧
      ∀ later : List Operation, BoxType.list.Holds (left.after later).heap ⟨4⟩ := by
  have hrun : (Session.start [] {}).permitsAll frontRun := by decide +kernel
  have hrow : ("cdr", (Primitive.access .cdr).descriptor) ∈ exports :=
    List.mem_map_of_mem (Primitive.mem_all (.access .cdr))
  have hcell : ((Session.start [] {}).after frontRun).task.heap.cell? ⟨6⟩ =
      some (.pair ⟨3, .nil, ⟨4⟩⟩) := by decide +kernel
  have hargs : ((Session.start [] {}).after frontRun).task.heap.Fits
      (Primitive.access .cdr).descriptor.params [⟨6⟩] := .cons (Or.inr ⟨_, hcell⟩) .nil
  have hresult : (Primitive.access .cdr).descriptor.result = .inhabited (.boxed .list) := rfl
  have hcall := enter_cdr_of_cell? hcell
  obtain ⟨p, call, hp, _, hmake, hholds⟩ :=
    results_are_as_declared [] {} frontRun hrun hrow hresult hargs
  obtain rfl : Primitive.access .cdr = p :=
    Option.some.inj ((Primitive.ofName?_name (.access .cdr)).symm.trans hp)
  cases hmake
  exact ⟨hrun, hrow, hargs, _, hcall, hholds _ _ hcall⟩

end LispHeap

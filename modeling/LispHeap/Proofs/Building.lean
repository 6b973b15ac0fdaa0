import LispHeap.Proofs.Lasting
import LispHeap.Proofs.OwnRuns

/-!
# What is built is read back

An expression is built from its leaves: the members of a list first, from left to right, and then
the pairs of the list, from right to left. In between the heap grows, and names are interned that
the members before did not know of. So a member is read on another heap than the one it was built
on, and that it still stands for the same expression is the point to be made.

`Heap.Denotes` makes it short. What a handle denotes rests on boxes and names that are there, so it
is kept by everything that adds (`Denotes.grows`). Each constructor then has to be looked at once,
on the heap that it leaves, and the induction over the expression carries no more than a sound heap
that has grown by the right number of boxes.
-/

namespace LispHeap

namespace Heap

variable {heap later : Heap} {v : Handle} {e : SExpr}

/-- A handle goes on denoting what it denotes. -/
theorem Denotes.grows (h : heap.Denotes v e) (hg : heap.Grows later) : later.Denotes v e := by
  induction h with
  | nil => exact .nil
  | int h => exact .int (hg.cell?_of_some h)
  | sym h hname => exact .sym (hg.cell?_of_some h) (hg.name?_of_some hname)
  | str h => exact .str (hg.cell?_of_some h)
  | pair h _ _ ihhead ihrest => exact .pair (hg.cell?_of_some h) ihhead ihrest

theorem Denotes.isList {items : List SExpr} (h : heap.Denotes v (.list items)) :
    heap.IsList v := by
  cases h with
  | nil => exact Or.inl rfl
  | pair h _ _ => exact Or.inr ⟨_, h⟩

theorem has_of_denotes {vs : List Handle} {es : List SExpr} (h : List.Forall₂ heap.Denotes vs es) :
    ∀ v ∈ vs, heap.Has v := by
  induction h with
  | nil => exact fun v hv => absurd hv List.not_mem_nil
  | cons hv _ ih => exact List.forall_mem_cons.mpr ⟨hv.has, ih⟩

end Heap

/-- A task has come to a sound heap by adding `n` boxes, and has printed nothing. -/
structure Task.Builds (n : Nat) (task left : Task) : Prop where
  sound : left.heap.Sound
  grows : task.heap.Grows left.heap
  size : left.heap.size = task.heap.size + n
  out : left.out = task.out

theorem Task.Builds.refl {task : Task} (hs : task.heap.Sound) : task.Builds 0 task :=
  ⟨hs, .refl task.heap, rfl, rfl⟩

theorem Task.Builds.trans {m n : Nat} {task mid left : Task} (h : task.Builds m mid)
    (h' : mid.Builds n left) : task.Builds (m + n) left :=
  ⟨h'.sound, h.grows.trans h'.grows, by rw [h'.size, h.size, Nat.add_assoc], h'.out.trans h.out⟩

/-! ## Constructors -/

/-- The expression of an atom. -/
def Atom.expr : Atom → SExpr
  | .int value => .int value
  | .sym name => .sym name
  | .str text => .str text

section Constructors

variable {task : Task}

theorem newAtom_builds (hs : task.heap.Sound) (atom : Atom) :
    ∃ v left, Op.newAtom atom task = .ok v left ∧ task.Builds 1 left ∧
      left.heap.Denotes v atom.expr := by
  have hgrows := growing_newAtom atom task
  rw [newAtom_eq] at hgrows
  have hnew := Heap.cell?_push_self (task.naming atom).heap (atom.cell task.heap.symbols).1
  refine ⟨_, _, newAtom_eq atom task, ⟨?_, hgrows, Heap.size_push _ _, rfl⟩, ?_⟩
  · cases atom with
    | int value => exact hs.push_atom nofun nofun
    | str text => exact hs.push_atom nofun nofun
    | sym name =>
        refine (hs.intern name).push_atom nofun fun id hid => ?_
        cases hid
        exact SymbolTable.index_lt_of_name? (SymbolTable.name?_intern_self task.heap.symbols name)
  · cases atom with
    | int value => exact .int hnew
    | str text => exact .str hnew
    | sym name => exact .sym hnew (SymbolTable.name?_intern_self task.heap.symbols name)

theorem newPair_builds (hs : task.heap.Sound) {v l : Handle} {x : SExpr} {xs : List SExpr}
    (hv : task.heap.Denotes v x) (hl : task.heap.Denotes l (.list xs)) :
    ∃ p left, Op.newPair v l task = .ok p left ∧ task.Builds 1 left ∧
      left.heap.Denotes p (.list (x :: xs)) := by
  obtain ⟨n, hn⟩ := hl.isList.exists_length
  have hgrows : task.heap.Grows (task.place (.pair ⟨n + 1, v, l⟩)).heap := (Heap.Adds.pair hn).grows
  refine ⟨_, _, listOnto_of_length hn [v],
    ⟨hs.push_pair hn hv.has, hgrows, Heap.size_push _ _, rfl⟩, ?_⟩
  exact .pair (Heap.cell?_push_self _ _) (hv.grows hgrows) (hl.grows hgrows)

theorem listOnto_builds (hs : task.heap.Sound) {vs : List Handle} {items xs : List SExpr}
    {tail : Handle} (h : List.Forall₂ task.heap.Denotes vs items)
    (htail : task.heap.Denotes tail (.list xs)) :
    ∃ l left, Op.listOnto vs tail task = .ok l left ∧ task.Builds items.length left ∧
      left.heap.Denotes l (.list (items ++ xs)) := by
  induction h with
  | nil => exact ⟨tail, task, rfl, .refl hs, htail⟩
  | @cons v _ vs _ hv _ ih =>
      obtain ⟨l, mid, hmid, hbuilds, hl⟩ := ih
      obtain ⟨p, left, hleft, hbuilds', hp⟩ :=
        newPair_builds hbuilds.sound (hv.grows hbuilds.grows) hl
      refine ⟨p, left, ?_, hbuilds.trans hbuilds', hp⟩
      show EStateM.bind (Op.listOnto vs tail) (Op.newPair v) task = _
      rw [EStateM.bind, hmid]
      exact hleft

theorem newList_builds (hs : task.heap.Sound) {vs : List Handle} {items : List SExpr}
    (h : List.Forall₂ task.heap.Denotes vs items) :
    ∃ l left, Op.newList vs task = .ok l left ∧ task.Builds items.length left ∧
      left.heap.Denotes l (.list items) := by
  have hlist := listOnto_builds hs h .nil
  rwa [List.append_nil] at hlist

end Constructors

/-! ## Expressions -/

namespace SExpr

mutual

/-- How many atoms there are. The empty list is none. -/
def atoms : SExpr → Nat
  | .int _ | .sym _ | .str _ => 1
  | .list items => atomsAll items

/-- How many atoms several expressions have. -/
def atomsAll : List SExpr → Nat
  | [] => 0
  | x :: xs => x.atoms + atomsAll xs

end

mutual

/-- How many members all lists have together, at every depth. -/
def members : SExpr → Nat
  | .int _ | .sym _ | .str _ => 0
  | .list items => items.length + membersAll items

/-- How many members the lists in several expressions have. -/
def membersAll : List SExpr → Nat
  | [] => 0
  | x :: xs => x.members + membersAll xs

end

mutual

theorem boxes_eq : (e : SExpr) → e.boxes = e.atoms + e.members
  | .int _ | .sym _ | .str _ => by rw [boxes, atoms, members]
  | .list items => by
      rw [boxes, atoms, members, boxesAll_eq items]
      omega

theorem boxesAll_eq : (xs : List SExpr) → boxesAll xs = atomsAll xs + membersAll xs
  | [] => by rw [boxesAll, atomsAll, membersAll]
  | x :: xs => by
      rw [boxesAll, atomsAll, membersAll, boxes_eq x, boxesAll_eq xs]
      omega

end

mutual

/-- An expression is built in as many boxes as it takes, and its handle denotes it. -/
theorem build_denotes : (e : SExpr) → {task : Task} → task.heap.Sound →
    ∃ v left, e.build task = .ok v left ∧ task.Builds e.boxes left ∧ left.heap.Denotes v e
  | .int value, _, hs => by
      rw [build, boxes]
      exact newAtom_builds hs (.int value)
  | .sym name, _, hs => by
      rw [build, boxes]
      exact newAtom_builds hs (.sym name)
  | .str s, _, hs => by
      rw [build, boxes]
      exact newAtom_builds hs (.str s)
  | .list items, task, hs => by
      obtain ⟨vs, mid, hmid, hbuilds, hvs⟩ := buildAll_denotes items hs
      obtain ⟨l, left, hleft, hbuilds', hl⟩ := newList_builds hbuilds.sound hvs
      rw [build, boxes]
      refine ⟨l, left, ?_, hbuilds.trans hbuilds', hl⟩
      show EStateM.bind (buildAll items) Op.newList task = _
      rw [EStateM.bind, hmid]
      exact hleft

/-- The members of a list are built one after the other, and those before are kept. -/
theorem buildAll_denotes : (xs : List SExpr) → {task : Task} → task.heap.Sound →
    ∃ vs left, buildAll xs task = .ok vs left ∧ task.Builds (boxesAll xs) left ∧
      List.Forall₂ left.heap.Denotes vs xs
  | [], task, hs => by
      rw [buildAll, boxesAll]
      exact ⟨[], task, rfl, .refl hs, .nil⟩
  | x :: xs, task, hs => by
      obtain ⟨v, mid, hmid, hbuilds, hv⟩ := build_denotes x hs
      obtain ⟨vs, left, hleft, hbuilds', hvs⟩ := buildAll_denotes xs hbuilds.sound
      rw [buildAll, boxesAll]
      -- The first member was built on a smaller heap, and the others have left it as it was.
      refine ⟨v :: vs, left, ?_, hbuilds.trans hbuilds', .cons (hv.grows hbuilds'.grows) hvs⟩
      show EStateM.bind x.build _ task = _
      rw [EStateM.bind, hmid]
      show EStateM.bind (buildAll xs) _ mid = _
      rw [EStateM.bind, hleft]
      rfl

end

end SExpr

/-- On the heap that a run on handles of its own has left, every expression can be built: reading
the result back gives the expression, the heap has grown by a box for each atom and for each member
of a list, and every value that was there before reads as it did. -/
theorem built_expressions_read_back (names : List String) (out : Sink) (ops : List Operation)
    (h : (Session.start names out).permitsAll ops) (e : SExpr) :
    let task := ((Session.start names out).after ops).task
    ∃ v left, e.build task = .ok v left ∧ left.heap.decode v = .ok e ∧
      left.heap.size = task.heap.size + (e.atoms + e.members) ∧
      ∀ w, task.heap.Has w → ∃ d, task.heap.decode w = .ok d ∧ left.heap.decode w = .ok d := by
  intro task
  have hs : task.heap.Sound := ((Session.sound_start names out).after h).heap
  obtain ⟨v, left, hbuild, hbuilds, hv⟩ := e.build_denotes hs
  refine ⟨v, left, hbuild, hbuilds.sound.decode_eq hv.has hv, ?_, fun w hw => ?_⟩
  · rw [hbuilds.size, e.boxes_eq]
  · obtain ⟨d, hd⟩ := hs.exists_denotes hw
    have hlater := hd.grows hbuilds.grows
    exact ⟨d, hs.decode_eq hw hd, hbuilds.sound.decode_eq hlater.has hlater⟩

/-- The expression `(x () ("a b" x) -7)`. -/
def mixedExpr : SExpr := .list [.sym "x", .nil, .list [.str "a b", .sym "x"], .int (-7)]

theorem mixed_expr_reads_back :
    (Session.start ["x"] ⟨.bounded 4, ByteArray.empty⟩).permitsAll carefulRun ∧
    mixedExpr.atoms + mixedExpr.members = 10 ∧
    let task := ((Session.start ["x"] ⟨.bounded 4, ByteArray.empty⟩).after carefulRun).task
    ∃ v left, mixedExpr.build task = .ok v left ∧ left.heap.decode v = .ok mixedExpr ∧
      left.heap.size = task.heap.size + (mixedExpr.atoms + mixedExpr.members) ∧
      ∀ w, task.heap.Has w → ∃ d, task.heap.decode w = .ok d ∧ left.heap.decode w = .ok d := by
  have hrun : (Session.start ["x"] ⟨.bounded 4, ByteArray.empty⟩).permitsAll carefulRun := by
    decide +kernel
  exact ⟨hrun, by decide, built_expressions_read_back _ _ carefulRun hrun mixedExpr⟩

end LispHeap

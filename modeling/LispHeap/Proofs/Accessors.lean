import LispHeap.Proofs.Descriptors
import LispHeap.Proofs.ListLayout

/-!
# Accessors

An accessor is read off its name. Each letter between `c` and `r` is a step, the last one is taken
first, and a step is taken at a pair or not at all. `Heap.Leads` says where a path leads to in terms
of pairs alone, and `Heap.follow` finds just that.

A path that does not lead anywhere has a first step that fails: a part of it, at its right end,
leads to a value that is no pair. Whatever stands to the left of that step is never looked at. So
the error names the step and the value, and it is the same for all paths with this end.

A handle without a box is no value, and a step at such a handle is a fault and no error. Heads are
stored unread, so a path may come to one; the laws of errors are for the paths that do not
(`Heap.StaysOn`). Rests are no matter of concern here. They lead through a list and to its end, and
this is how the letters `d` come to count the same elements as `length`.
-/

namespace LispHeap

/-! ## Letters -/

namespace Link

/-- The letter of a link in the name of an accessor. -/
def letter : Link → Char
  | .a => 'a'
  | .d => 'd'

/-- The link of a letter. -/
def ofLetter? (c : Char) : Option Link :=
  if c = 'a' then some .a else if c = 'd' then some .d else none

theorem ofLetter?_letter (link : Link) : ofLetter? link.letter = some link := by
  cases link <;> rfl

/-- The primitive that takes this step alone. -/
def op : Link → String
  | .a => "car"
  | .d => "cdr"

/-- Where the step leads from a pair. -/
def part (node : Pair) : Link → Handle
  | .a => node.head
  | .d => node.rest

end Link

theorem exists_path_of_letters {letters : List Char} (h : ∀ c ∈ letters, c = 'a' ∨ c = 'd') :
    ∃ path : List Link, letters = path.map Link.letter := by
  induction letters with
  | nil => exact ⟨[], rfl⟩
  | cons c letters ih =>
      obtain ⟨hc, hletters⟩ := List.forall_mem_cons.mp h
      obtain ⟨path, rfl⟩ := ih hletters
      rcases hc with rfl | rfl
      · exact ⟨.a :: path, rfl⟩
      · exact ⟨.d :: path, rfl⟩

theorem Accessor.name_eq (accessor : Accessor) :
    accessor.name.toList = 'c' :: accessor.path.map Link.letter ++ ['r'] := by
  cases accessor <;> rfl

namespace Heap

variable {heap : Heap} {v u l : Handle} {path : List Link} {node : Pair} {xs : List Handle}

/-- What letters do to a value, the last one first; `none` if a letter has its turn that is neither
`a` nor `d`. -/
def spell (heap : Heap) : List Char → Handle → Option (Except Failure Handle)
  | [], v => some (.ok v)
  | c :: letters, v =>
    match heap.spell letters v with
    | some (.ok u) => (Link.ofLetter? c).map fun link => heap.step link u
    | stopped => stopped

theorem spell_letters (heap : Heap) (path : List Link) (v : Handle) :
    heap.spell (path.map Link.letter) v = some (heap.follow path v) := by
  induction path with
  | nil => rfl
  | cons link path ih =>
      rw [List.map_cons, spell, ih, follow, Link.ofLetter?_letter]
      cases heap.follow path v <;> rfl

/-! ## One step -/

theorem step_of_cell? (h : heap.cell? u = some (.pair node)) (link : Link) :
    heap.step link u = .ok (link.part node) := by
  cases link with
  | a => exact car_of_cell? h
  | d => exact cdr_of_cell? h

/-- A step at a value that is no pair is refused, in the name of the step and with the value's
tag. -/
theorem step_of_tag {found : Option Tag} (h : heap.tag u = .ok found) (hne : found ≠ some .pair)
    (link : Link) : heap.step link u = .error (.refused (.wrongType link.op found)) := by
  rcases tag_ok_cases h with ⟨rfl, rfl⟩ | ⟨c, hc, rfl⟩
  · cases link <;> rfl
  · cases c with
    | pair node => exact absurd rfl hne
    | int _ | sym _ | str _ =>
        cases link <;> simp only [step, car, cdr, asPair_eq, view_of_cell? hc] <;> rfl

/-! ## Paths -/

theorem follow_append (heap : Heap) (p q : List Link) (v : Handle) :
    heap.follow (p ++ q) v = heap.follow q v >>= heap.follow p := by
  induction p with
  | nil => exact (bind_pure (heap.follow q v)).symm
  | cons link p ih =>
      rw [List.cons_append, follow, ih, bind_assoc]
      rfl

/-- What stops the right end of a path stops the path. -/
theorem follow_of_error {q : List Link} {e : Failure} (h : heap.follow q v = .error e)
    (p : List Link) : heap.follow (p ++ q) v = .error e := by
  rw [follow_append, h]
  rfl

/-- The path leads from one value to another, from pair to pair, its last letter first. -/
inductive Leads (heap : Heap) (v : Handle) : List Link → Handle → Prop where
  | start : Leads heap v [] v
  | step {link : Link} {path : List Link} {u : Handle} {node : Pair} (h : Leads heap v path u)
      (hnode : heap.cell? u = some (.pair node)) : Leads heap v (link :: path) (link.part node)

theorem follow_eq_ok_iff : heap.follow path v = .ok u ↔ heap.Leads v path u := by
  constructor
  · intro h
    induction path generalizing u with
    | nil =>
        obtain rfl := Except.ok.inj h
        exact .start
    | cons link path ih =>
        obtain ⟨w, hw, h⟩ := bind_eq_ok h
        cases link with
        | a | d =>
            obtain ⟨node, hnode, h⟩ := bind_eq_ok h
            obtain rfl := Except.ok.inj h
            exact .step (ih hw) (asPair_ok hnode)
  · intro h
    induction h with
    | start => rfl
    | @step link path u node _ hnode ih =>
        rw [follow, ih]
        exact step_of_cell? hnode link

/-- Wherever the path takes a step, it takes it at a value. -/
def StaysOn (heap : Heap) (v : Handle) : List Link → Prop
  | [] => True
  | _ :: path => heap.StaysOn v path ∧ ∀ u, heap.Leads v path u → heap.Has u

instance decidableStaysOn (heap : Heap) (v : Handle) :
    (path : List Link) → Decidable (heap.StaysOn v path)
  | [] => .isTrue trivial
  | _ :: path =>
      have := decidableStaysOn heap v path
      decidable_of_iff
        (heap.StaysOn v path ∧ ∀ u ∈ (heap.follow path v).toOption, heap.Has u)
        (and_congr_right' (forall_congr' fun u => imp_congr_left (by
          rw [← follow_eq_ok_iff]
          cases heap.follow path v <;> simp [Except.toOption])))

/-- A path leads to its end, or a right end of it leads to a value that is no pair. -/
theorem StaysOn.leads_or_fails (h : heap.StaysOn v path) :
    (∃ u, heap.Leads v path u) ∨ ∃ later link done u found, path = later ++ link :: done ∧
      heap.Leads v done u ∧ heap.tag u = .ok found ∧ found ≠ some .pair := by
  induction path with
  | nil => exact Or.inl ⟨v, .start⟩
  | cons link path ih =>
      obtain ⟨hpath, hvalue⟩ := h
      rcases ih hpath with ⟨u, hu⟩ | ⟨later, link', done, u, found, rfl, hfails⟩
      · rcases (hvalue u hu).cases with rfl | ⟨c, hc⟩
        · exact Or.inr ⟨[], link, path, .nil, none, rfl, hu, tag_nil heap, by simp⟩
        · cases c with
          | pair node => exact Or.inl ⟨_, .step hu hc⟩
          | int _ | sym _ | str _ =>
              exact Or.inr ⟨[], link, path, u, _, rfl, hu, tag_of_cell? hc, by simp [Cell.tag]⟩
      · exact Or.inr ⟨link :: later, link', done, u, found, rfl, hfails⟩

/-- The first step that fails is the one whose error is returned, whatever stands to its left. -/
theorem Leads.follow_fails {link : Link} {done : List Link} {found : Option Tag}
    (h : heap.Leads v done u) (htag : heap.tag u = .ok found) (hne : found ≠ some .pair)
    (later : List Link) :
    heap.follow (later ++ link :: done) v = .error (.refused (.wrongType link.op found)) := by
  refine follow_of_error ?_ later
  rw [follow, follow_eq_ok_iff.mpr h]
  exact step_of_tag htag hne link

/-! ## Lists -/

/-- The elements of a list say whether it is empty, and else what pair it starts with. -/
theorem Proper.elements_cases (hp : heap.Proper) (hl : heap.IsList l)
    (h : heap.elements l = .ok xs) :
    l = .nil ∧ xs = [] ∨ ∃ node ts, heap.cell? l = some (.pair node) ∧ xs = node.head :: ts ∧
      heap.elements node.rest = .ok ts := by
  rcases hl with rfl | ⟨node, hnode⟩
  · exact Or.inl ⟨rfl, (Except.ok.inj ((elements_nil heap).symm.trans h)).symm⟩
  · obtain ⟨ts, hts, _⟩ := hp.exists_elements node.rest (hp.isList_rest hnode)
    rw [hp.elements_pair hnode, hts] at h
    exact Or.inr ⟨node, ts, hnode, (Except.ok.inj h).symm, hts⟩

theorem Proper.pair_of_elements (hp : heap.Proper) (hl : heap.IsList l) {x : Handle}
    (h : heap.elements l = .ok (x :: xs)) :
    ∃ node, heap.cell? l = some (.pair node) ∧ node.head = x ∧
      heap.elements node.rest = .ok xs := by
  rcases hp.elements_cases hl h with ⟨_, hxs⟩ | ⟨node, ts, hnode, hxs, hrest⟩
  · cases hxs
  · obtain ⟨rfl, rfl⟩ := List.cons.inj hxs
    exact ⟨node, hnode, rfl, hrest⟩

theorem Proper.eq_nil_of_elements (hp : heap.Proper) (hl : heap.IsList l)
    (h : heap.elements l = .ok []) : l = .nil := by
  rcases hp.elements_cases hl h with ⟨hnil, _⟩ | ⟨node, ts, _, hxs, _⟩
  · exact hnil
  · cases hxs

/-- As many rests as there are elements to pass lead to the list of the others. -/
theorem Proper.follow_rests (hp : heap.Proper) (hl : heap.IsList l) (h : heap.elements l = .ok xs)
    {k : Nat} (hk : k ≤ xs.length) :
    ∃ m, heap.follow (List.replicate k .d) l = .ok m ∧ heap.IsList m ∧
      heap.elements m = .ok (xs.drop k) := by
  induction k with
  | zero => exact ⟨l, rfl, hl, h⟩
  | succ k ih =>
      obtain ⟨m, hm, hlist, helems⟩ := ih (by omega)
      rw [List.drop_eq_getElem_cons (by omega)] at helems
      obtain ⟨node, hnode, _, hrest⟩ := hp.pair_of_elements hlist helems
      refine ⟨node.rest, ?_, hp.isList_rest hnode, hrest⟩
      rw [List.replicate_succ, follow, hm]
      exact cdr_of_cell? hnode

theorem Proper.leads_to_end (hp : heap.Proper) (hl : heap.IsList l)
    (h : heap.elements l = .ok xs) : heap.Leads l (List.replicate xs.length .d) .nil := by
  obtain ⟨m, hm, hlist, helems⟩ := hp.follow_rests hl h (Nat.le_refl _)
  rw [List.drop_length] at helems
  obtain rfl := hp.eq_nil_of_elements hlist helems
  exact follow_eq_ok_iff.mp hm

/-- The head behind some rests is the element of that number. -/
theorem Proper.follow_element (hp : heap.Proper) (hl : heap.IsList l)
    (h : heap.elements l = .ok xs) {k : Nat} {x : Handle} (hx : xs[k]? = some x) :
    heap.follow (.a :: List.replicate k .d) l = .ok x := by
  obtain ⟨hk, rfl⟩ := List.getElem?_eq_some_iff.mp hx
  obtain ⟨m, hm, hlist, helems⟩ := hp.follow_rests hl h (Nat.le_of_lt hk)
  rw [List.drop_eq_getElem_cons hk] at helems
  obtain ⟨node, hnode, hhead, _⟩ := hp.pair_of_elements hlist helems
  rw [follow, hm, ← hhead]
  exact car_of_cell? hnode

/-- Behind the last element the head is refused, and behind the end it is already a rest. -/
theorem Proper.follow_past_end (hp : heap.Proper) (hl : heap.IsList l)
    (h : heap.elements l = .ok xs) {k : Nat} (hk : xs.length ≤ k) :
    heap.follow (.a :: List.replicate k .d) l =
      .error (.refused (.wrongType (if k = xs.length then "car" else "cdr") none)) := by
  have hend := hp.leads_to_end hl h
  split
  · next heq =>
      subst heq
      exact hend.follow_fails (tag_nil heap) (by simp) []
  · next hne =>
      obtain ⟨j, rfl⟩ : ∃ j, k = j + (xs.length + 1) := ⟨k - (xs.length + 1), by omega⟩
      rw [List.replicate_add, List.replicate_succ]
      exact hend.follow_fails (tag_nil heap) (by simp) (.a :: List.replicate j .d)

end Heap

section Entries

variable {task : Task} {accessor : Accessor} {v : Handle}

theorem enter_access_of_ok {u : Handle} (h : task.heap.follow accessor.path v = .ok u) :
    (Call.access accessor v).enter task = .ok u task :=
  ofOp_of_ok (ask_of_ok h)

/-- An entry point that is refused an answer stops the task with the text of the error. -/
theorem enter_access_of_refused {e : Error}
    (h : task.heap.follow accessor.path v = .error (.refused e)) :
    (Call.access accessor v).enter task =
      .error (.failed e.message) { task with log := task.log.push (.panicked e.message) } := by
  show Entry.ofOp (.ask (·.follow accessor.path v)) task = _
  rw [Entry.ofOp, Op.ask, h]
  rfl

end Entries

/-- After a run on any handles at all, from any handle on: a path is followed from its right end, so
that a path in two parts is the right one and then the left one, and a single letter is `car` or
`cdr`. It leads from pair to pair. If it meets no handle without a box, it leads to its end or is
refused at the first step, from the right, that is not taken at a pair, in the name of that step and
with the tag of what was met; the letters to the left of that step do not matter. No letter but `a`
and `d` ever has its turn, and nothing is placed. An exported accessor follows the letters of its
own name, and stops with the text of the error if there is one. From a list, the head behind as many
rests as one likes is the element of that number, and at the end and behind it there is none. -/
theorem accessors_follow_their_letters (names : List String) (ops : List Operation) (v : Handle) :
    let task := (Task.fresh names).after ops
    (∀ p q, task.heap.follow (p ++ q) v = task.heap.follow q v >>= task.heap.follow p) ∧
    (task.heap.follow [] v = .ok v ∧ task.heap.follow [.a] v = task.heap.car v ∧
      task.heap.follow [.d] v = task.heap.cdr v) ∧
    (∀ path u, task.heap.follow path v = .ok u ↔ task.heap.Leads v path u) ∧
    (∀ path, task.heap.StaysOn v path → (∃ u, task.heap.follow path v = .ok u) ∨
      ∃ later link done u found, path = later ++ link :: done ∧
        task.heap.follow done v = .ok u ∧ task.heap.tag u = .ok found ∧ found ≠ some .pair ∧
        task.heap.follow path v = .error (.refused (.wrongType link.op found))) ∧
    (∀ link done u found, task.heap.follow done v = .ok u → task.heap.tag u = .ok found →
      found ≠ some .pair → ∀ later, task.heap.follow (later ++ link :: done) v =
        .error (.refused (.wrongType link.op found))) ∧
    (∀ letters : List Char, (∀ c ∈ letters, c = 'a' ∨ c = 'd') →
      ∃ path, letters = path.map Link.letter ∧
        task.heap.spell letters v = some (task.heap.follow path v)) ∧
    (∀ path, taskLeft (Op.ask (·.follow path v) task) = task) ∧
    (∀ accessor : Accessor,
      accessor.name.toList = 'c' :: accessor.path.map Link.letter ++ ['r'] ∧
      Primitive.ofName? accessor.name = some (.access accessor) ∧
      (∀ u, task.heap.follow accessor.path v = .ok u →
        (Call.access accessor v).enter task = .ok u task) ∧
      ∀ e, task.heap.follow accessor.path v = .error (.refused e) →
        (Call.access accessor v).enter task =
          .error (.failed e.message) { task with log := task.log.push (.panicked e.message) }) ∧
    (task.heap.IsList v → ∃ xs, task.heap.Iterates v xs ∧ ∀ k,
      (∀ x, xs[k]? = some x → task.heap.follow (.a :: List.replicate k .d) v = .ok x) ∧
      (xs.length = k → task.heap.follow (.a :: List.replicate k .d) v =
        .error (.refused (.wrongType "car" none))) ∧
      (xs.length < k → task.heap.follow (.a :: List.replicate k .d) v =
        .error (.refused (.wrongType "cdr" none)))) := by
  intro task
  have hp : task.heap.Proper := Heap.proper_after names ops
  refine ⟨fun p q => task.heap.follow_append p q v, ⟨rfl, rfl, rfl⟩,
    fun path u => Heap.follow_eq_ok_iff, fun path hpath => ?_, ?_, fun letters hletters => ?_,
    fun path => ask_leaves _ task, fun accessor => ?_, fun hlist => ?_⟩
  · rcases hpath.leads_or_fails with ⟨u, hu⟩ | ⟨later, link, done, u, found, rfl, hu, htag, hne⟩
    · exact Or.inl ⟨u, Heap.follow_eq_ok_iff.mpr hu⟩
    · exact Or.inr ⟨later, link, done, u, found, rfl, Heap.follow_eq_ok_iff.mpr hu, htag, hne,
        hu.follow_fails htag hne later⟩
  · intro link done u found hu htag hne later
    exact (Heap.follow_eq_ok_iff.mp hu).follow_fails htag hne later
  · obtain ⟨path, rfl⟩ := exists_path_of_letters hletters
    exact ⟨path, rfl, task.heap.spell_letters path v⟩
  · exact ⟨accessor.name_eq, Primitive.ofName?_name (.access accessor),
      fun u hu => enter_access_of_ok hu, fun e he => enter_access_of_refused he⟩
  · obtain ⟨xs, hxs⟩ := hp.exists_iterates hlist
    refine ⟨xs, hxs, fun k => ⟨fun x hx => hp.follow_element hlist hxs.elements hx, ?_, ?_⟩⟩
    · intro hk
      rw [hp.follow_past_end hlist hxs.elements (Nat.le_of_eq hk), if_pos hk.symm]
    · intro hk
      rw [hp.follow_past_end hlist hxs.elements (Nat.le_of_lt hk), if_neg (Nat.ne_of_gt hk)]

/-- A list of three elements, the last of them an integer and the others handles without a box. -/
theorem stray_paths_followed :
    let task := (Task.fresh ["a"]).after strayRun
    task.heap.StaysOn ⟨6⟩ [.a, .d, .a, .d, .d] ∧ ¬ task.heap.StaysOn ⟨6⟩ [.a, .a] ∧
    (∀ later, task.heap.follow (later ++ [.d, .a, .d, .d]) ⟨6⟩ =
      .error (.refused (.wrongType "cdr" (some .int)))) ∧
    (Call.access .caddr ⟨6⟩).enter task = .ok ⟨2⟩ task ∧
    (∃ path, task.heap.spell ['a', 'd', 'd'] ⟨6⟩ = some (task.heap.follow path ⟨6⟩)) ∧
    ∃ xs, task.heap.Iterates ⟨6⟩ xs ∧ ∀ k, xs.length < k →
      task.heap.follow (.a :: List.replicate k .d) ⟨6⟩ =
        .error (.refused (.wrongType "cdr" none)) := by
  intro task
  have hlist : task.heap.IsList ⟨6⟩ := Or.inr ⟨⟨3, ⟨92⟩, ⟨4⟩⟩, by decide⟩
  have hlast : task.heap.follow [.a, .d, .d] ⟨6⟩ = .ok ⟨2⟩ := by decide +kernel
  have htag : task.heap.tag ⟨2⟩ = .ok (some .int) := by decide +kernel
  obtain ⟨_, _, _, _, hfails, hletters, _, hentries, hends⟩ :=
    accessors_follow_their_letters ["a"] strayRun ⟨6⟩
  obtain ⟨path, _, hspell⟩ := hletters ['a', 'd', 'd'] (by simp)
  obtain ⟨_, _, hreturns, _⟩ := hentries .caddr
  obtain ⟨xs, hxs, hend⟩ := hends hlist
  exact ⟨by decide +kernel, by decide +kernel, hfails .d _ _ _ hlast htag (by decide),
    hreturns _ hlast, ⟨path, hspell⟩, xs, hxs, fun k => (hend k).2.2⟩

end LispHeap

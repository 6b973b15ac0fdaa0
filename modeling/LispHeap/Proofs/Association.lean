import LispHeap.Proofs.Appending
import LispHeap.Proofs.Equality
import LispHeap.Proofs.Strays

/-!
# Association lists

`assoc` goes along a list, passes over whatever is no pair, and stops at the first pair whose head
is `eq` to the key. `Heap.firstEntry` is that search without a heap to fault on: it is `List.find?`,
and the empty list where nothing is found. No entry is the empty list, so the result tells the two
cases apart.

The search looks at the key, at elements and at heads, and on a sound heap all of them are there. So
it ends with an answer, and its laws are those of `find?`. A search through one list and then
another is a search through the two appended, which is why the front of an association list hides
what is behind it. None of this depends on when the search is made: a heap that has grown answers
for old entries as it did before.
-/

namespace LispHeap

namespace Heap

variable {heap later : Heap} {key other l x y : Handle} {xs ys : List Handle} {node : Pair}

/-! ## Entries -/

/-- An entry for a key: a pair whose head is `eq` to it. -/
def EntryFor (heap : Heap) (key x : Handle) : Prop :=
  ∃ node, heap.cell? x = some (.pair node) ∧ heap.eq key node.head = .ok true

/-- The same as a check. -/
def isEntry (heap : Heap) (key x : Handle) : Bool :=
  match heap.cell? x with
  | some (.pair node) =>
    match heap.eq key node.head with
    | .ok same => same
    | .error _ => false
  | _ => false

theorem isEntry_iff : heap.isEntry key x = true ↔ heap.EntryFor key x := by
  rw [isEntry, EntryFor]
  cases hx : heap.cell? x with
  | none => simp
  | some c =>
      cases c with
      | pair node => cases heq : heap.eq key node.head <;> simp [heq]
      | int _ | sym _ | str _ => simp

instance : Decidable (heap.EntryFor key x) := decidable_of_iff _ isEntry_iff

theorem EntryFor.ne_nil (h : heap.EntryFor key x) : x ≠ .nil := by
  obtain ⟨node, hnode, _⟩ := h
  exact ne_nil_of_cell? hnode

theorem EntryFor.tag (h : heap.EntryFor key x) : heap.tag x = .ok (some .pair) := by
  obtain ⟨node, hnode, _⟩ := h
  exact tag_of_cell? hnode

/-- Keys that are `eq` have the same entries. -/
theorem Sound.entryFor_congr (hs : heap.Sound) (hkey : heap.Has key) (hother : heap.Has other)
    (h : heap.eq key other = .ok true) : heap.EntryFor other x ↔ heap.EntryFor key x := by
  have hsame := (hs.eq_true_iff hkey hother).mp h
  refine exists_congr fun node => and_congr_right fun hnode => ?_
  have hhead := hs.has_head hnode
  rw [hs.eq_true_iff hother hhead, hs.eq_true_iff hkey hhead]
  exact ⟨hsame.trans, hsame.symm.trans⟩

/-- A string or a pair has no entries. -/
theorem Sound.not_entryFor (hs : heap.Sound) (hkey : heap.Has key)
    (h : heap.tag key = .ok (some .str) ∨ heap.tag key = .ok (some .pair)) :
    ¬ heap.EntryFor key x := by
  rintro ⟨node, hnode, hsame⟩
  rw [hs.eq_false hkey (hs.has_head hnode) h] at hsame
  cases hsame

/-! ## The first entry -/

/-- The first entry for a key, or the empty list. -/
def firstEntry (heap : Heap) (key : Handle) (xs : List Handle) : Handle :=
  (xs.find? (heap.isEntry key)).getD .nil

theorem firstEntry_cons (heap : Heap) (key x : Handle) (xs : List Handle) :
    heap.firstEntry key (x :: xs) =
      if heap.EntryFor key x then x else heap.firstEntry key xs := by
  rw [firstEntry, firstEntry]
  split
  · next hx => rw [List.find?_cons_of_pos (isEntry_iff.mpr hx), Option.getD_some]
  · next hx => rw [List.find?_cons_of_neg fun h => hx (isEntry_iff.mp h)]

/-- Nothing is found just if there is no entry, because no entry is the empty list. -/
theorem firstEntry_eq_nil_iff :
    heap.firstEntry key xs = .nil ↔ ∀ x ∈ xs, ¬ heap.EntryFor key x := by
  rw [firstEntry]
  cases hfind : xs.find? (heap.isEntry key) with
  | none =>
      refine iff_of_true rfl fun x hx hentry => ?_
      exact List.find?_eq_none.mp hfind x hx (isEntry_iff.mpr hentry)
  | some y =>
      have hentry := isEntry_iff.mp (List.find?_some hfind)
      refine iff_of_false hentry.ne_nil fun h => ?_
      exact h y (List.mem_of_find?_eq_some hfind) hentry

theorem firstEntry_of_first {i : Nat} (hi : xs[i]? = some x) (hx : heap.EntryFor key x)
    (hfirst : ∀ j y, j < i → xs[j]? = some y → ¬ heap.EntryFor key y) :
    heap.firstEntry key xs = x := by
  obtain ⟨hlt, hget⟩ := List.getElem?_eq_some_iff.mp hi
  have hfind : xs.find? (heap.isEntry key) = some x := by
    refine List.find?_eq_some_iff_getElem.mpr ⟨isEntry_iff.mpr hx, i, hlt, hget, fun j hj => ?_⟩
    have hno := hfirst j xs[j] hj (List.getElem?_eq_getElem (by omega))
    simpa [← isEntry_iff] using hno
  rw [firstEntry, hfind, Option.getD_some]

/-- What the first list has an entry for is not looked up in the second. -/
theorem firstEntry_append (heap : Heap) (key : Handle) (xs ys : List Handle) :
    heap.firstEntry key (xs ++ ys) =
      if heap.firstEntry key xs = .nil then heap.firstEntry key ys
      else heap.firstEntry key xs := by
  induction xs with
  | nil => rfl
  | cons x xs ih =>
      rw [List.cons_append, firstEntry_cons, firstEntry_cons]
      by_cases hx : heap.EntryFor key x
      · rw [if_pos hx, if_pos hx, if_neg hx.ne_nil]
      · rw [if_neg hx, if_neg hx, ih]

theorem firstEntry_congr (h : ∀ x, heap.EntryFor other x ↔ heap.EntryFor key x)
    (xs : List Handle) : heap.firstEntry other xs = heap.firstEntry key xs := by
  induction xs with
  | nil => rfl
  | cons x xs ih => simp only [firstEntry_cons, h, ih]

/-! ## The search finds it -/

theorem Sound.findEntry_cons (hs : heap.Sound) (hkey : heap.Has key) (hx : heap.Has x)
    (xs : List Handle) :
    heap.findEntry key (x :: xs) =
      if heap.EntryFor key x then .ok x else heap.findEntry key xs := by
  rw [findEntry, tryEntry]
  rcases hx.cases with rfl | ⟨c, hc⟩
  · rw [view_nil, if_neg fun h => h.ne_nil rfl]
    rfl
  · rw [view_of_cell? hc]
    cases c with
    | pair node =>
        have hentry : heap.EntryFor key x ↔ heap.eq key node.head = .ok true := by
          rw [EntryFor, hc]
          simp
        obtain ⟨same, hsame, _⟩ := hs.eq_total hkey (hs.has_head hc)
        show (heap.eq key node.head).bind _ = _
        rw [hsame] at hentry ⊢
        cases same with
        | true => rw [if_pos (hentry.mpr rfl)]; rfl
        | false => rw [if_neg fun h => by cases hentry.mp h]; rfl
    | int _ | sym _ | str _ =>
        have hno : ¬ heap.EntryFor key x := fun h => by
          have htag := h.tag
          rw [tag_of_cell? hc] at htag
          cases htag
        rw [if_neg hno]
        rfl

theorem Sound.findEntry_eq (hs : heap.Sound) (hkey : heap.Has key) (h : ∀ x ∈ xs, heap.Has x) :
    heap.findEntry key xs = .ok (heap.firstEntry key xs) := by
  induction xs with
  | nil => rfl
  | cons x xs ih =>
      obtain ⟨hx, hxs⟩ := List.forall_mem_cons.mp h
      rw [hs.findEntry_cons hkey hx, firstEntry_cons, ih hxs]
      split <;> rfl

/-! ## Lists to search -/

theorem Iterates.isList (h : heap.Iterates l xs) : heap.IsList l := by
  obtain ⟨m, hm, _⟩ := bind_eq_ok h.length
  obtain ⟨rfl, hlist⟩ := asList_ok hm
  exact hlist

theorem Sound.has_elements (hs : heap.Sound) (h : heap.Iterates l xs) : ∀ x ∈ xs, heap.Has x := by
  intro x hx
  have hmet : heap.Met [] x := hs.toProper.met_elements l h.isList xs h.elements x hx
  rcases hmet with (hgiven | ⟨m, node, hnode, rfl⟩) | hlist
  · cases hgiven
  · exact hs.has_head hnode
  · exact hlist.has

theorem Grows.findEntry (hg : heap.Grows later) (key : Handle) (xs : List Handle) :
    Lasts Fault.Fatal (heap.findEntry key xs) (later.findEntry key xs) := by
  induction xs with
  | nil => exact .rfl
  | cons x xs ih => exact hg.tryEntry key x ih

/-- A search for old entries, on the heap as it was or on one that it has grown into. -/
theorem Sound.assoc_grows (hs : heap.Sound) (hg : heap.Grows later) (hkey : heap.Has key)
    (h : later.Iterates l xs) (hxs : ∀ x ∈ xs, heap.Has x) :
    later.assoc key l = .ok (heap.firstEntry key xs) := by
  rw [assoc, asList_of_isList "assoc" h.isList]
  show (later.search key later.size (.ofList l)).mapError Failure.fault = _
  rw [search_ofList h.elements, (hg.findEntry key xs).ok (hs.findEntry_eq hkey hxs)]
  rfl

theorem Sound.assoc_eq (hs : heap.Sound) (hkey : heap.Has key) (h : heap.Iterates l xs) :
    heap.assoc key l = .ok (heap.firstEntry key xs) :=
  hs.assoc_grows (.refl heap) hkey h (hs.has_elements h)

theorem Sound.exists_assoc (hs : heap.Sound) (hkey : heap.Has key) (hl : heap.IsList l) :
    ∃ r, heap.assoc key l = .ok r := by
  obtain ⟨xs, hxs⟩ := hs.toProper.exists_iterates hl
  exact ⟨_, hs.assoc_eq hkey hxs⟩

theorem Sound.assoc_congr (hs : heap.Sound) (hkey : heap.Has key) (hother : heap.Has other)
    (h : heap.eq key other = .ok true) (l : Handle) : heap.assoc other l = heap.assoc key l := by
  cases hl : heap.asList "assoc" l with
  | error e =>
      rw [assoc, assoc, hl]
      rfl
  | ok m =>
      obtain ⟨rfl, hlist⟩ := asList_ok hl
      obtain ⟨xs, hxs⟩ := hs.toProper.exists_iterates hlist
      rw [hs.assoc_eq hother hxs, hs.assoc_eq hkey hxs,
        firstEntry_congr fun x => hs.entryFor_congr hkey hother h]

theorem assoc_of_atom {c : Cell} (h : heap.cell? l = some c) (hc : c.tag ≠ .pair) (key : Handle) :
    heap.assoc key l = .error (.refused (.wrongType "assoc" (some c.tag))) := by
  rw [assoc, asList, tag_of_cell? h]
  cases c with
  | pair node => exact absurd rfl hc
  | int _ | sym _ | str _ => rfl

/-- Just what is neither the empty list nor a pair is refused, with its tag. -/
theorem Sound.assoc_refuses_iff (hs : heap.Sound) (hkey : heap.Has key) (hl : heap.Has l)
    (found : Option Tag) :
    heap.assoc key l = .error (.refused (.wrongType "assoc" found)) ↔
      heap.tag l = .ok found ∧ found ∈ [some Tag.int, some .sym, some .str] := by
  rcases hl.cases with rfl | ⟨c, hc⟩
  · obtain ⟨r, hr⟩ := hs.exists_assoc hkey (Or.inl rfl)
    rw [hr, tag_nil]
    refine iff_of_false (fun h => by cases h) ?_
    rintro ⟨htag, hfound⟩
    cases htag
    simp at hfound
  · cases c with
    | pair node =>
        obtain ⟨r, hr⟩ := hs.exists_assoc hkey (Or.inr ⟨node, hc⟩)
        rw [hr, tag_of_cell? hc]
        refine iff_of_false (fun h => by cases h) ?_
        rintro ⟨htag, hfound⟩
        cases htag
        simp [Cell.tag] at hfound
    | int _ | sym _ | str _ =>
        rw [assoc_of_atom hc (by simp [Cell.tag]), tag_of_cell? hc]
        constructor
        · intro h
          cases h
          simp [Cell.tag]
        · rintro ⟨htag, _⟩
          cases htag
          rfl

end Heap

/-- After every run on handles of its own, for any key and any value to search: an integer, a symbol
or a string is refused with its tag, and nothing else is. In a list `assoc` finds the element at the
least position that is an entry for the key, or the empty list just if there is none. What is no
pair is no entry, and nothing is found for a string or a pair. Keys that are `eq` find the same. The
heap is not touched. -/
theorem assoc_finds_first_entry (names : List String) (out : Sink) (ops : List Operation)
    (h : (Session.start names out).permitsAll ops) {key alist : Handle}
    (hkey : ((Session.start names out).after ops).task.heap.Has key)
    (halist : ((Session.start names out).after ops).task.heap.Has alist) :
    let task := ((Session.start names out).after ops).task
    (∀ found, task.heap.assoc key alist = .error (.refused (.wrongType "assoc" found)) ↔
      task.heap.tag alist = .ok found ∧ found ∈ [some Tag.int, some .sym, some .str]) ∧
    (task.heap.IsList alist → ∃ xs r, task.heap.Iterates alist xs ∧
      task.heap.assoc key alist = .ok r ∧ (Call.assoc key alist).enter task = .ok r task ∧
      (∀ (i : Nat) x, xs[i]? = some x → task.heap.EntryFor key x →
        (∀ (j : Nat) y, j < i → xs[j]? = some y → ¬ task.heap.EntryFor key y) → r = x) ∧
      (r = .nil ↔ ∀ x ∈ xs, ¬ task.heap.EntryFor key x) ∧
      (task.heap.tag key = .ok (some .str) ∨ task.heap.tag key = .ok (some .pair) → r = .nil)) ∧
    (∀ x, task.heap.tag x ≠ .ok (some .pair) → ¬ task.heap.EntryFor key x) ∧
    (∀ other, task.heap.Has other → task.heap.eq key other = .ok true →
      task.heap.assoc other alist = task.heap.assoc key alist) ∧
    taskLeft (Op.ask (·.assoc key alist) task) = task ∧
    (taskLeft ((Call.assoc key alist).enter task)).heap = task.heap := by
  intro task
  have hs : task.heap.Sound := ((Session.sound_start names out).after h).heap
  refine ⟨hs.assoc_refuses_iff hkey halist, fun hlist => ?_, fun x hx hentry => hx hentry.tag,
    fun other hother hsame => hs.assoc_congr hkey hother hsame alist, ask_leaves _ task,
    ofOp_ask_leaves _ task⟩
  obtain ⟨xs, hxs⟩ := hs.toProper.exists_iterates hlist
  have hfound := hs.assoc_eq hkey hxs
  refine ⟨xs, _, hxs, hfound, ofOp_of_ok (ask_of_ok hfound), ?_, Heap.firstEntry_eq_nil_iff, ?_⟩
  · intro i x hi hx hfirst
    exact Heap.firstEntry_of_first hi hx hfirst
  · intro htag
    exact Heap.firstEntry_eq_nil_iff.mpr fun x _ => hs.not_entryFor hkey htag

/-- Makes `(5 () (k 5) (k))`, with a box of its own for each `k`. -/
def entriesRun : List Operation :=
  [.newAtom (.sym "k"), .newAtom (.int 5), .enter (.list [⟨2⟩, ⟨3⟩]), .newAtom (.sym "k"),
    .enter (.list [⟨6⟩]), .enter (.list [⟨3⟩, .nil, ⟨5⟩, ⟨7⟩])]

theorem assoc_passes_over_atoms :
    (Session.start ["x"] {}).permitsAll entriesRun ∧
    ((Session.start ["x"] {}).after entriesRun).task.heap.elements ⟨11⟩ =
      .ok [⟨3⟩, .nil, ⟨5⟩, ⟨7⟩] ∧
    ((Session.start ["x"] {}).after entriesRun).task.heap.assoc ⟨6⟩ ⟨11⟩ = .ok ⟨5⟩ ∧
    ((Session.start ["x"] {}).after entriesRun).task.heap.assoc ⟨6⟩ ⟨3⟩ =
      .error (.refused (.wrongType "assoc" (some .int))) := by
  have hrun : (Session.start ["x"] {}).permitsAll entriesRun := by decide +kernel
  have hlist : ((Session.start ["x"] {}).after entriesRun).task.heap.cell? ⟨11⟩ =
      some (.pair ⟨4, ⟨3⟩, ⟨10⟩⟩) := by decide +kernel
  have hint : ((Session.start ["x"] {}).after entriesRun).task.heap.cell? ⟨3⟩ =
      some (.int 5) := by decide +kernel
  have hkey : ((Session.start ["x"] {}).after entriesRun).task.heap.Has ⟨6⟩ := by decide +kernel
  have helems : ((Session.start ["x"] {}).after entriesRun).task.heap.elements ⟨11⟩ =
      .ok [⟨3⟩, .nil, ⟨5⟩, ⟨7⟩] := by decide +kernel
  have hentry : ((Session.start ["x"] {}).after entriesRun).task.heap.EntryFor ⟨6⟩ ⟨5⟩ := by
    decide +kernel
  have hskipped : ¬ ((Session.start ["x"] {}).after entriesRun).task.heap.EntryFor ⟨6⟩ ⟨3⟩ ∧
      ¬ ((Session.start ["x"] {}).after entriesRun).task.heap.EntryFor ⟨6⟩ .nil := by decide +kernel
  obtain ⟨_, hsearch, _⟩ := assoc_finds_first_entry ["x"] {} entriesRun hrun hkey
    (Heap.cell?_bounds hlist).2
  obtain ⟨hrefused, _⟩ := assoc_finds_first_entry ["x"] {} entriesRun hrun hkey
    (Heap.cell?_bounds hint).2
  obtain ⟨xs, r, hxs, hr, _, hfirst, _⟩ := hsearch (Or.inr ⟨_, hlist⟩)
  obtain rfl := Except.ok.inj (hxs.elements.symm.trans helems)
  obtain rfl : r = ⟨5⟩ := by
    refine hfirst 2 ⟨5⟩ rfl hentry fun j y hj hy => ?_
    obtain rfl | rfl : j = 0 ∨ j = 1 := by omega
    · obtain rfl := Option.some.inj hy
      exact hskipped.1
    · obtain rfl := Option.some.inj hy
      exact hskipped.2
  exact ⟨hrun, helems, hr, (hrefused _).mpr ⟨Heap.tag_of_cell? hint, List.mem_cons_self⟩⟩

/-! ## Lists in front of lists -/

/-- A list in front of another is searched first, and then the other. -/
theorem Task.LaysOut.assoc {task left : Task} {key b r : Handle} {xs ys : List Handle}
    (h : task.LaysOut xs b ys r left) (hs : task.heap.Sound) (hkey : task.heap.Has key)
    (hg : task.heap.Grows left.heap) (hxs : ∀ x ∈ xs, task.heap.Has x)
    (hys : task.heap.Iterates b ys) :
    left.heap.assoc key r = .ok (task.heap.firstEntry key (xs ++ ys)) := by
  refine hs.assoc_grows hg hkey h.elements fun x hx => ?_
  rcases List.mem_append.mp hx with hx | hx
  · exact hxs x hx
  · exact hs.has_elements hys x hx

/-- After every run on handles of its own, for any two lists and any key: in the two appended
`assoc` finds what it finds in the first, and where that is nothing, what it finds in the second.
With one value consed onto the second it finds that value if it is an entry for the key, and else
what it finds in the second. What it finds in the two lists themselves is the same before and
after. -/
theorem front_of_association_list_shadows (names : List String) (out : Sink)
    (ops : List Operation) (h : (Session.start names out).permitsAll ops) {a b key : Handle}
    (ha : ((Session.start names out).after ops).task.heap.IsList a)
    (hb : ((Session.start names out).after ops).task.heap.IsList b)
    (hkey : ((Session.start names out).after ops).task.heap.Has key) :
    let task := ((Session.start names out).after ops).task
    ∃ x y, (task.heap.assoc key a = .ok x ∧ task.heap.assoc key b = .ok y) ∧
      (∃ r left, Op.append a b task = .ok r left ∧ (Call.append a b).enter task = .ok r left ∧
        (left.heap.assoc key a = .ok x ∧ left.heap.assoc key b = .ok y) ∧
        (x ≠ .nil → left.heap.assoc key r = .ok x) ∧
        (x = .nil → left.heap.assoc key r = .ok y)) ∧
      ∀ e, task.heap.Has e → ∃ p left,
        Op.cons e b task = .ok p left ∧ (Call.cons e b).enter task = .ok p left ∧
        left.heap.assoc key b = .ok y ∧
        (task.heap.EntryFor key e → left.heap.assoc key p = .ok e) ∧
        (¬ task.heap.EntryFor key e → left.heap.assoc key p = .ok y) := by
  intro task
  have hs : task.heap.Sound := ((Session.sound_start names out).after h).heap
  obtain ⟨xs, hxs⟩ := hs.toProper.exists_iterates ha
  obtain ⟨ys, hys⟩ := hs.toProper.exists_iterates hb
  have hx := hs.assoc_eq hkey hxs
  have hy := hs.assoc_eq hkey hys
  refine ⟨_, _, ⟨hx, hy⟩, ?_, fun e he => ?_⟩
  · obtain ⟨r, left, hlist, hlayout⟩ := laysOut_listOnto hs.toProper hb hys xs
    have happend := (append_eq_listOnto ha hb hxs.elements).trans hlist
    have hgrows := (growing_append a b).ok happend
    have hr := hlayout.assoc hs hkey hgrows (hs.has_elements hxs) hys
    rw [Heap.firstEntry_append] at hr
    refine ⟨r, left, happend, ofOp_of_ok happend,
      ⟨(hgrows.assoc key a).ok hx, (hgrows.assoc key b).ok hy⟩, fun hne => ?_, fun hnil => ?_⟩
    · rw [hr, if_neg hne]
    · rw [hr, if_pos hnil]
  · obtain ⟨p, left, hlist, hlayout⟩ := laysOut_listOnto hs.toProper hb hys [e]
    have hcons := (cons_eq_listOnto hb e).trans hlist
    have hgrows := (growing_cons e b).ok hcons
    have hp := hlayout.assoc hs hkey hgrows (List.forall_mem_singleton.mpr he) hys
    rw [List.singleton_append, Heap.firstEntry_cons] at hp
    refine ⟨p, left, hcons, ofOp_of_ok hcons, (hgrows.assoc key b).ok hy, fun hentry => ?_,
      fun hentry => ?_⟩
    · rw [hp, if_pos hentry]
    · rw [hp, if_neg hentry]

/-- Appends a list without an entry to one with two, and puts a further entry in front of that. -/
theorem later_entry_shadows :
    (Session.start ["x"] {}).permitsAll entriesRun ∧
    (∃ y r left, ((Session.start ["x"] {}).after entriesRun).task.heap.assoc ⟨6⟩ ⟨11⟩ = .ok y ∧
      Op.append ⟨5⟩ ⟨11⟩ ((Session.start ["x"] {}).after entriesRun).task = .ok r left ∧
      left.heap.assoc ⟨6⟩ r = .ok y) ∧
    ((Session.start ["x"] {}).after entriesRun).task.heap.EntryFor ⟨6⟩ ⟨7⟩ ∧
    ∃ p left, Op.cons ⟨7⟩ ⟨11⟩ ((Session.start ["x"] {}).after entriesRun).task = .ok p left ∧
      left.heap.assoc ⟨6⟩ p = .ok ⟨7⟩ := by
  have hrun : (Session.start ["x"] {}).permitsAll entriesRun := by decide +kernel
  have hfront : ((Session.start ["x"] {}).after entriesRun).task.heap.cell? ⟨5⟩ =
      some (.pair ⟨2, ⟨2⟩, ⟨4⟩⟩) := by decide +kernel
  have hback : ((Session.start ["x"] {}).after entriesRun).task.heap.cell? ⟨11⟩ =
      some (.pair ⟨4, ⟨3⟩, ⟨10⟩⟩) := by decide +kernel
  have hkey : ((Session.start ["x"] {}).after entriesRun).task.heap.Has ⟨6⟩ := by decide +kernel
  have hnone : ((Session.start ["x"] {}).after entriesRun).task.heap.assoc ⟨6⟩ ⟨5⟩ =
      .ok .nil := by decide +kernel
  have hentry : ((Session.start ["x"] {}).after entriesRun).task.heap.EntryFor ⟨6⟩ ⟨7⟩ := by
    decide +kernel
  have hnew : ((Session.start ["x"] {}).after entriesRun).task.heap.Has ⟨7⟩ := by decide +kernel
  obtain ⟨x, y, ⟨hx, hy⟩, ⟨r, left, happend, _, _, _, hr⟩, hcons⟩ :=
    front_of_association_list_shadows ["x"] {} entriesRun hrun (Or.inr ⟨_, hfront⟩)
      (Or.inr ⟨_, hback⟩) hkey
  obtain rfl : x = .nil := Except.ok.inj (hx.symm.trans hnone)
  obtain ⟨p, left', hp, _, _, hfound, _⟩ := hcons ⟨7⟩ hnew
  exact ⟨hrun, ⟨y, r, left, hy, happend, hr rfl⟩, hentry, p, left', hp, hfound hentry⟩

end LispHeap

import LispHeap.Proofs.Strays
import LispHeap.Proofs.Accessors

/-!
# Printing up to a stray handle

A head is stored unread, so a value may lead to a handle that has no box here. The printer finds out
when it gets there, and by then the text in front of it has been written. This file says which text
that is. The value is described as an expression with gaps (`Outline`), one for each handle without
a box, and its rendering is the rendering of that expression with anything at all in the gaps. What
does not depend on the filling of the first gap, and stands before it, is what the printer has
written when it faults.

The walk and the rendering meet in a flat form: an outline is a row of pieces, each a text or a gap.
The printer puts one piece after the other (`Proper.walk_eq_pieces`), the rendering joins them
(`text_fill`), and the first gap in the row is the first in the tree. What remains is about rows.

A value may contain itself, and then there is no such row. So heads are asked to lead to smaller
numbers, as rests do by themselves, or nowhere at all. This is where the walk gets its end from.
-/

namespace LispHeap

/-! ## Expressions with gaps -/

/-- What a handle stands for, as far as it can be followed. A gap is a handle without a box. -/
inductive Outline where
  | int (value : Int32)
  | sym (name : String)
  | str (text : String)
  | gap (h : Handle)
  | list (items : List Outline)

/-- A part of a rendering. -/
inductive Piece where
  | text (s : String)
  | gap (h : Handle)

namespace Piece

/-- Puts a text, and faults at a gap. -/
def put : Piece → Writer Unit
  | .text s => Sink.put s
  | .gap h => throw (.fault (.unallocated h))

/-- The text of a piece when gaps have names. -/
def named (name : Handle → String) : Piece → String
  | .text s => s
  | .gap h => name h

/-- The handle of a gap. -/
def gap? : Piece → Option Handle
  | .text _ => none
  | .gap h => some h

end Piece

namespace Outline

mutual

/-- The expression with a symbol in each gap. -/
def fill (name : Handle → String) : Outline → SExpr
  | .int value => .int value
  | .sym s => .sym s
  | .str s => .str s
  | .gap h => .sym (name h)
  | .list items => .list (fillAll name items)

/-- The expressions of several outlines. -/
def fillAll (name : Handle → String) : List Outline → List SExpr
  | [] => []
  | x :: xs => x.fill name :: fillAll name xs

end

mutual

/-- The gaps from left to right. -/
def gaps : Outline → List Handle
  | .int _ | .sym _ | .str _ => []
  | .gap h => [h]
  | .list items => gapsAll items

/-- The gaps of several outlines, from left to right. -/
def gapsAll : List Outline → List Handle
  | [] => []
  | x :: xs => x.gaps ++ gapsAll xs

end

mutual

/-- The pieces of the rendering in order. -/
def pieces : Outline → List Piece
  | .int value => [.text value.toInt.repr]
  | .sym name => [.text name]
  | .str s => [.text "\"", .text s, .text "\""]
  | .gap h => [.gap h]
  | .list [] => [.text "()"]
  | .list (x :: xs) => .text "(" :: (x.pieces ++ (restPieces xs ++ [.text ")"]))

/-- The pieces behind the first member of a list. -/
def restPieces : List Outline → List Piece
  | [] => []
  | x :: xs => .text " " :: (x.pieces ++ restPieces xs)

end

mutual

theorem gaps_eq : (s : Outline) → s.gaps = s.pieces.filterMap Piece.gap?
  | .int _ | .sym _ | .str _ | .gap _ => by
      rw [gaps, pieces]
      rfl
  | .list [] => by
      rw [gaps, gapsAll, pieces]
      rfl
  | .list (x :: xs) => by
      rw [gaps, gapsAll, pieces, gaps_eq x, gapsAll_eq xs, List.filterMap_cons_none rfl]
      simp [Piece.gap?]

theorem gapsAll_eq : (xs : List Outline) → gapsAll xs = (restPieces xs).filterMap Piece.gap?
  | [] => by
      rw [gapsAll, restPieces]
      rfl
  | x :: xs => by
      rw [gapsAll, restPieces, gaps_eq x, gapsAll_eq xs, List.filterMap_cons_none rfl,
        List.filterMap_append]

end

section Filling

variable (name : Handle → String)

mutual

/-- The rendering is made of the pieces. -/
theorem text_fill : (s : Outline) →
    (s.fill name).text = String.join (s.pieces.map (Piece.named name))
  | .int _ | .sym _ | .str _ | .gap _ => by
      rw [fill, pieces, SExpr.text]
      simp [Piece.named, String.append_assoc]
  | .list [] => by
      rw [fill, fillAll, pieces, SExpr.text]
      rfl
  | .list (x :: xs) => by
      rw [fill, fillAll, pieces, SExpr.text, SExpr.spaced_cons, text_fill x, restText_fill xs]
      simp [Piece.named, String.append_assoc]

theorem restText_fill : (xs : List Outline) →
    SExpr.restText (fillAll name xs) = String.join ((restPieces xs).map (Piece.named name))
  | [] => by
      rw [fillAll, restPieces, SExpr.restText]
      rfl
  | x :: xs => by
      rw [fillAll, restPieces, SExpr.restText, text_fill x, restText_fill xs]
      simp [Piece.named, String.append_assoc]

end

end Filling

end Outline

/-! ## Rows of pieces -/

section Rows

variable {ps : List Piece} {h : Handle} {others : List Handle}

theorem appends_row (hgaps : ps.filterMap Piece.gap? = []) (name : Handle → String) :
    Appends (ps.forM Piece.put) (String.join (ps.map (Piece.named name))) := by
  induction ps with
  | nil => exact appends_pure
  | cons p ps ih =>
      cases p with
      | gap g => cases hgaps
      | text s =>
          rw [List.filterMap_cons_none rfl] at hgaps
          rw [List.map_cons, String.join_cons]
          exact appends_bind (appends_put s) (ih hgaps)

/-- A row with a gap is put up to the first one, whose name comes next in the joined text. -/
theorem row_stops (hgaps : ps.filterMap Piece.gap? = h :: others) :
    ∃ before : String,
      (∀ name, ∃ after, String.join (ps.map (Piece.named name)) = before ++ name h ++ after) ∧
      ∀ bytes, ps.forM Piece.put ⟨.unlimited, bytes⟩ =
        .error (.fault (.unallocated h)) ⟨.unlimited, bytes ++ before.toUTF8⟩ := by
  induction ps with
  | nil => cases hgaps
  | cons p ps ih =>
      cases p with
      | gap g =>
          obtain rfl := (List.cons.inj hgaps).1
          refine ⟨"", fun name => ⟨String.join (ps.map (Piece.named name)), ?_⟩, fun bytes => ?_⟩
          · rw [List.map_cons, String.join_cons, String.empty_append]
            rfl
          · rw [append_toUTF8_empty]
            rfl
      | text s =>
          rw [List.filterMap_cons_none rfl] at hgaps
          obtain ⟨before, htext, hput⟩ := ih hgaps
          refine ⟨s ++ before, fun name => ?_, fun bytes => ?_⟩
          · obtain ⟨after, hafter⟩ := htext name
            refine ⟨after, ?_⟩
            rw [List.map_cons, String.join_cons, hafter, String.append_assoc, String.append_assoc,
              String.append_assoc]
            rfl
          · show ps.forM Piece.put ⟨.unlimited, bytes ++ s.toUTF8⟩ = _
            rw [hput, append_toUTF8]

end Rows

namespace Heap

variable {heap : Heap} {v u : Handle} {s : Outline} {node : Pair}

/-! ## What can be reached -/

/-- Some path leads from one value to the other. -/
def Reaches (heap : Heap) (v u : Handle) : Prop := ∃ path, heap.Leads v path u

/-- Each pair that is met from a value has a head with a smaller number, or one without a box. -/
def Descends (heap : Heap) (v : Handle) : Prop :=
  ∀ l node, heap.Reaches v l → heap.cell? l = some (.pair node) →
    node.head.index < l.index ∨ heap.cell? node.head = none

theorem reaches_self (heap : Heap) (v : Handle) : heap.Reaches v v := ⟨[], .start⟩

theorem reaches_of_part (h : heap.cell? v = some (.pair node)) (link : Link)
    (hu : heap.Reaches (link.part node) u) : heap.Reaches v u := by
  obtain ⟨path, hpath⟩ := hu
  induction hpath with
  | start => exact ⟨[link], .step .start h⟩
  | step _ hnode ih =>
      obtain ⟨path, hpath⟩ := ih
      exact ⟨_, .step hpath hnode⟩

/-- A path is empty, or its first step goes to a part of the pair it starts from. -/
theorem Reaches.cases (h : heap.Reaches v u) :
    u = v ∨ ∃ node, ∃ link : Link, heap.cell? v = some (.pair node) ∧
      heap.Reaches (link.part node) u := by
  obtain ⟨path, hpath⟩ := h
  induction hpath with
  | start => exact Or.inl rfl
  | @step link path w node _ hnode ih =>
      right
      rcases ih with rfl | ⟨first, link', hfirst, path', hpath'⟩
      · exact ⟨node, link, hnode, reaches_self heap _⟩
      · exact ⟨first, link', hfirst, _, .step hpath' hnode⟩

theorem Reaches.eq_of_leaf (h : heap.Reaches v u) (hv : ∀ node, heap.cell? v ≠ some (.pair node)) :
    u = v := by
  rcases h.cases with rfl | ⟨node, _, hnode, _⟩
  · rfl
  · exact absurd hnode (hv node)

theorem Descends.part (hd : heap.Descends v) (h : heap.cell? v = some (.pair node)) (link : Link) :
    heap.Descends (link.part node) :=
  fun l inner hl hinner => hd l inner (reaches_of_part h link hl) hinner

/-- A handle that is no value here, though a pair may have it as its head. -/
def Missing (heap : Heap) (u : Handle) : Prop := u ≠ .nil ∧ heap.cell? u = none

theorem Missing.view_eq (h : heap.Missing v) : heap.view v = .error (.unallocated v) := by
  obtain ⟨hne, hnone⟩ := h
  have hnil : v.isNil = false := by
    rw [← Bool.not_eq_true, Handle.isNil_iff]
    exact hne
  rw [view, hnil, cell, hnone]
  rfl

/-! ## What a handle shows -/

/-- The outline that a handle shows: as `Denotes` says, but with a gap for a missing box. -/
inductive Shows (heap : Heap) : Handle → Outline → Prop where
  | nil : Shows heap .nil (.list [])
  | gap {v : Handle} (h : heap.Missing v) : Shows heap v (.gap v)
  | int {v : Handle} {value : Int32} (h : heap.cell? v = some (.int value)) :
      Shows heap v (.int value)
  | sym {v : Handle} {id : SymbolId} {name : String} (h : heap.cell? v = some (.sym id))
      (hname : heap.symbols.name? id = some name) : Shows heap v (.sym name)
  | str {v : Handle} {text : String} (h : heap.cell? v = some (.str text)) :
      Shows heap v (.str text)
  | pair {v : Handle} {node : Pair} {x : Outline} {xs : List Outline}
      (h : heap.cell? v = some (.pair node)) (hhead : Shows heap node.head x)
      (hrest : Shows heap node.rest (.list xs)) : Shows heap v (.list (x :: xs))

theorem Shows.eq_list (h : heap.Shows v s) (hl : heap.IsList v) : ∃ xs, s = .list xs := by
  cases h with
  | nil => exact ⟨[], rfl⟩
  | pair h _ _ => exact ⟨_, rfl⟩
  | gap h =>
      rcases hl with rfl | ⟨node, hnode⟩
      · exact absurd rfl h.1
      · cases h.2.symm.trans hnode
  | int h | sym h _ | str h =>
      rcases hl with rfl | ⟨node, hnode⟩
      · cases h
      · cases h.symm.trans hnode

/-- Without a gap the outline is the expression. -/
theorem Shows.denotes (h : heap.Shows v s) (hgaps : s.gaps = []) (name : Handle → String) :
    heap.Denotes v (s.fill name) := by
  induction h with
  | nil =>
      rw [Outline.fill, Outline.fillAll]
      exact .nil
  | gap h => cases hgaps
  | int h =>
      rw [Outline.fill]
      exact .int h
  | sym h hname =>
      rw [Outline.fill]
      exact .sym h hname
  | str h =>
      rw [Outline.fill]
      exact .str h
  | @pair v node x xs h _ _ ihhead ihrest =>
      rw [Outline.gaps, Outline.gapsAll, List.append_eq_nil_iff] at hgaps
      have hrest := ihrest (by rw [Outline.gaps, hgaps.2])
      rw [Outline.fill] at hrest
      rw [Outline.fill, Outline.fillAll]
      exact .pair h (ihhead hgaps.1) hrest

/-- The gaps are the missing boxes that the value leads to. -/
theorem Shows.mem_gaps_iff (h : heap.Shows v s) :
    u ∈ s.gaps ↔ heap.Reaches v u ∧ heap.Missing u := by
  induction h with
  | nil =>
      rw [Outline.gaps, Outline.gapsAll]
      constructor
      · intro hu
        cases hu
      · rintro ⟨hu, hmissing⟩
        exact absurd (hu.eq_of_leaf (by rintro _ ⟨⟩)) hmissing.1
  | @gap v h =>
      rw [Outline.gaps, List.mem_singleton]
      constructor
      · rintro rfl
        exact ⟨reaches_self heap u, h⟩
      · rintro ⟨hu, _⟩
        exact hu.eq_of_leaf fun _ hcell => by cases h.2.symm.trans hcell
  | int h | sym h _ | str h =>
      rw [Outline.gaps]
      constructor
      · intro hu
        cases hu
      · rintro ⟨hu, hmissing⟩
        obtain rfl := hu.eq_of_leaf fun _ hcell => by cases h.symm.trans hcell
        cases h.symm.trans hmissing.2
  | @pair v node x xs h _ _ ihhead ihrest =>
      rw [Outline.gaps] at ihrest
      rw [Outline.gaps, Outline.gapsAll, List.mem_append, ihhead, ihrest, ← or_and_right]
      refine and_congr_left fun hmissing => ?_
      constructor
      · rintro (hhead | hrest)
        · exact reaches_of_part h .a hhead
        · exact reaches_of_part h .d hrest
      · intro hu
        rcases hu.cases with rfl | ⟨node', link, hcell, hpart⟩
        · cases h.symm.trans hmissing.2
        · cases h.symm.trans hcell
          cases link with
          | a => exact Or.inl hpart
          | d => exact Or.inr hpart

theorem cases_handle (heap : Heap) (v : Handle) :
    v = .nil ∨ heap.Missing v ∨ ∃ c, heap.cell? v = some c := by
  by_cases hnil : v = .nil
  · exact Or.inl hnil
  · cases hc : heap.cell? v with
    | none => exact Or.inr (Or.inl ⟨hnil, hc⟩)
    | some c => exact Or.inr (Or.inr ⟨c, rfl⟩)

/-- Where heads descend and symbols have names, every handle shows an outline. -/
theorem Proper.exists_shows (hp : heap.Proper)
    (hnamed : ∀ {v id}, heap.cell? v = some (.sym id) → id.index < heap.symbols.size)
    (hd : heap.Descends v) : ∃ s, heap.Shows v s := by
  have main : ∀ i v, v.index = i → heap.Descends v → ∃ s, heap.Shows v s := by
    intro i
    induction i using Nat.strongRecOn with
    | ind i ih =>
        intro v hi hd
        rcases heap.cases_handle v with rfl | hmissing | ⟨c, hc⟩
        · exact ⟨_, .nil⟩
        · exact ⟨_, .gap hmissing⟩
        · cases c with
          | int value => exact ⟨_, .int hc⟩
          | str text => exact ⟨_, .str hc⟩
          | sym id =>
              obtain ⟨name, hname⟩ := SymbolTable.exists_name? (hnamed hc)
              exact ⟨_, .sym hc hname⟩
          | pair node =>
              have hrest := hp.rest_lt hc
              obtain ⟨x, hx⟩ : ∃ x, heap.Shows node.head x := by
                rcases heap.cases_handle node.head with hnil | hmissing | ⟨c, hhead⟩
                · exact hnil ▸ ⟨_, .nil⟩
                · exact ⟨_, .gap hmissing⟩
                · rcases hd v node (reaches_self heap v) hc with hlt | hnone
                  · exact ih node.head.index (by omega) node.head rfl (hd.part hc .a)
                  · cases hnone.symm.trans hhead
              obtain ⟨r, hr⟩ := ih node.rest.index (by omega) node.rest rfl (hd.part hc .d)
              obtain ⟨xs, rfl⟩ := hr.eq_list (hp.isList_rest hc)
              exact ⟨_, .pair hc hx hr⟩
  exact main v.index v rfl hd

/-! ## The printer puts the pieces -/

/-- Along a value the printer puts the pieces of its outline, and along a list those behind a first
member. A handle without a box needs no depth at all, since nothing is behind it. -/
theorem Proper.walk_eq_pieces (hp : heap.Proper) (h : heap.Shows v s) (hd : heap.Descends v) :
    (∀ depth, v.index ≤ depth ∨ heap.cell? v = none →
      heap.writeWithin (depth + 1) v = s.pieces.forM Piece.put) ∧
    ∀ xs, s = .list xs → ∀ depth budget, v.index ≤ depth → v.index ≤ budget →
      heap.writeRest (heap.writeWithin depth) budget v =
        (Outline.restPieces xs).forM Piece.put := by
  induction h with
  | nil =>
      refine ⟨fun depth _ => ?_, fun xs hxs depth budget _ _ => ?_⟩
      · rw [writeWithin_nil, Outline.pieces]
        simp [Piece.put]
      · obtain rfl := Outline.list.inj hxs
        rw [writeRest_nil, Outline.restPieces]
        rfl
  | gap h =>
      refine ⟨fun depth _ => ?_, fun xs hxs => by cases hxs⟩
      rw [writeWithin_succ, h.view_eq, Outline.pieces]
      rfl
  | int h =>
      refine ⟨fun depth _ => ?_, fun xs hxs => by cases hxs⟩
      rw [writeWithin_int h, Outline.pieces]
      simp [Piece.put]
  | sym h hname =>
      refine ⟨fun depth _ => ?_, fun xs hxs => by cases hxs⟩
      rw [writeWithin_sym h hname, Outline.pieces]
      simp [Piece.put]
  | str h =>
      refine ⟨fun depth _ => ?_, fun xs hxs => by cases hxs⟩
      rw [writeWithin_str h, Outline.pieces]
      simp [Piece.put]
  | @pair v node x xs h _ _ ihhead ihrest =>
      have hrest := hp.rest_lt h
      have hsize := (cell?_bounds h).2
      have hrests := (ihrest (hd.part h .d)).2 xs rfl
      -- One level down is enough for the head: its number is smaller, or it has no box.
      have inner : ∀ depth, v.index ≤ depth →
          heap.writeWithin depth node.head = x.pieces.forM Piece.put := by
        intro depth hdepth
        obtain ⟨d, rfl⟩ : ∃ d, depth = d + 1 := ⟨depth - 1, by omega⟩
        refine (ihhead (hd.part h .a)).1 d ?_
        rcases hd v node (reaches_self heap v) h with hlt | hnone
        · exact Or.inl (by omega)
        · exact Or.inr hnone
      refine ⟨fun depth hdepth => ?_, fun ys hys depth budget hdepth hbudget => ?_⟩
      · have hdepth : v.index ≤ depth := by
          rcases hdepth with hle | hnone
          · exact hle
          · cases h.symm.trans hnone
        rw [writeWithin_pair h, inner depth hdepth,
          hrests depth heap.size (by omega) (by omega), Outline.pieces]
        simp [Piece.put]
      · obtain rfl := Outline.list.inj hys
        obtain ⟨b, rfl⟩ : ∃ b, budget = b + 1 := ⟨budget - 1, by omega⟩
        rw [writeRest_pair h, inner depth hdepth, hrests depth b (by omega) (by omega),
          Outline.restPieces]
        simp [Piece.put]

theorem Proper.write_eq_pieces (hp : heap.Proper) (h : heap.Shows v s) (hd : heap.Descends v) :
    heap.write v = s.pieces.forM Piece.put := by
  funext sink
  show heap.writeWithin (heap.size + sink.room.depth + 1) v sink = _
  refine congrFun ((hp.walk_eq_pieces h hd).1 _ ?_) sink
  cases hc : heap.cell? v with
  | none => exact Or.inr rfl
  | some c => exact Or.inl (Nat.le_add_right_of_le (cell?_bounds hc).2)

end Heap

/-- After every run that places no symbol by another table, whatever its heads are, a value whose
heads descend shows an outline, and the printer ends on it. If the value leads to no missing box,
its rendering is written. Otherwise the printer faults at the first gap from the left, and has
written what stands before it in the rendering, however the gaps are filled. -/
theorem printing_stops_at_first_gap (names : List String) (ops : List Operation)
    (hown : ∀ table name, Operation.place table (.sym name) ∉ ops) {v : Handle}
    (hv : ((Task.fresh names).after ops).heap.Descends v) :
    let heap := ((Task.fresh names).after ops).heap
    (∃ s, heap.Shows v s) ∧ ∀ s, heap.Shows v s →
      (∀ u, u ∈ s.gaps ↔ heap.Reaches v u ∧ heap.Missing u) ∧
      (s.gaps = [] → ∃ e, heap.Denotes v e ∧
        ∀ bytes, heap.write v ⟨.unlimited, bytes⟩ =
          .ok () ⟨.unlimited, bytes ++ e.text.toUTF8⟩) ∧
      ∀ h others, s.gaps = h :: others → ∃ before : String,
        (∀ name, ∃ after, (s.fill name).text = before ++ name h ++ after) ∧
        (∀ bytes, heap.write v ⟨.unlimited, bytes⟩ =
          .error (.fault (.unallocated h)) ⟨.unlimited, bytes ++ before.toUTF8⟩) ∧
        (WriteStop.fault (.unallocated h)).message =
          "internal error: entered unreachable code: box index " ++ h.index.repr ++
            " is not allocated on this heap" := by
  intro heap
  have hp : heap.Proper := Heap.proper_after names ops
  have hnamed : ∀ {v id}, heap.cell? v = some (.sym id) → id.index < heap.symbols.size := by
    intro v id h
    rcases symbol_source names ops h with hlt | ⟨table, name, hplace, _⟩
    · exact hlt
    · exact absurd hplace (hown table name)
  refine ⟨hp.exists_shows hnamed hv, fun s hs => ⟨fun u => hs.mem_gaps_iff, ?_, ?_⟩⟩
  · intro hgaps
    have hrow := appends_row (s.gaps_eq ▸ hgaps) fun _ => ""
    refine ⟨s.fill fun _ => "", hs.denotes hgaps _, ?_⟩
    rw [hp.write_eq_pieces hs hv, Outline.text_fill]
    exact hrow
  · intro h others hgaps
    obtain ⟨before, htext, hput⟩ := row_stops (s.gaps_eq ▸ hgaps)
    refine ⟨before, ?_, ?_, rfl⟩
    · simpa only [Outline.text_fill] using htext
    · rw [hp.write_eq_pieces hs hv]
      exact hput

/-- Builds the list `((5 _) _)` with handles that stand for nothing here in the gaps. -/
def gappedRun : List Operation :=
  [.newAtom (.int 5), .listOnto [⟨2⟩, ⟨90⟩] .nil, .listOnto [⟨4⟩, ⟨91⟩] .nil]

/-- The outline of that list. -/
def gappedOutline : Outline := .list [.list [.int 5, .gap ⟨90⟩], .gap ⟨91⟩]

/-- The first gap stands in the inner list, and neither of the two brackets is closed before it. -/
theorem gapped_run_stops_inside :
    let heap := ((Task.fresh []).after gappedRun).heap
    (∀ table name, Operation.place table (.sym name) ∉ gappedRun) ∧ heap.Descends ⟨6⟩ ∧
    heap.Shows ⟨6⟩ gappedOutline ∧ gappedOutline.gaps = [⟨90⟩, ⟨91⟩] ∧
    heap.write ⟨6⟩ {} =
      .error (.fault (.unallocated ⟨90⟩)) ⟨.unlimited, "((5 ".toUTF8⟩ ∧
    ∀ name, ∃ after, (gappedOutline.fill name).text = "((5 " ++ name ⟨90⟩ ++ after := by
  intro heap
  have hown : ∀ table name, Operation.place table (.sym name) ∉ gappedRun := by simp [gappedRun]
  have hdescends : heap.Descends ⟨6⟩ := by
    intro l node _ hnode
    have hle : l.index ≤ 6 := (Heap.cell?_bounds hnode).2
    rcases l with ⟨_ | _ | _ | _ | _ | _ | _ | i⟩
    · cases hnode
    · cases hnode
    · cases hnode
    · cases hnode
      exact Or.inr rfl
    · cases hnode
      exact Or.inl (by decide)
    · cases hnode
      exact Or.inr rfl
    · cases hnode
      exact Or.inl (by decide)
    · simp only at hle
      omega
  have hinner : heap.Shows ⟨4⟩ (.list [.int 5, .gap ⟨90⟩]) :=
    .pair rfl (.int rfl) (.pair rfl (.gap ⟨by decide, rfl⟩) .nil)
  have hshows : heap.Shows ⟨6⟩ gappedOutline :=
    .pair rfl hinner (.pair rfl (.gap ⟨by decide, rfl⟩) .nil)
  have hwrite : heap.write ⟨6⟩ {} =
      .error (.fault (.unallocated ⟨90⟩)) ⟨.unlimited, "((5 ".toUTF8⟩ := by rfl
  have hgaps : gappedOutline.gaps = [⟨90⟩, ⟨91⟩] := by rfl
  obtain ⟨_, hstops⟩ := printing_stops_at_first_gap [] gappedRun hown hdescends
  obtain ⟨before, htext, hput, _⟩ := (hstops gappedOutline hshows).2.2 ⟨90⟩ [⟨91⟩] hgaps
  obtain rfl : before = "((5 " := by
    have h := (hput .empty).symm.trans hwrite
    rw [ByteArray.empty_append] at h
    injection h with _ h
    injection h with _ h
    exact String.toByteArray_inj.mp h
  exact ⟨hown, hdescends, hshows, hgaps, hwrite, htext⟩

end LispHeap

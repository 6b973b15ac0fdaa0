import LispHeap.Proofs.Lasting
import LispHeap.Proofs.Rendering

/-!
# `eq` is equality of atoms

`eq` never looks at a name. It compares the numbers of two symbols, and this is a comparison of
names only as long as both numbers were given out by the table of this heap and the table has no
name twice. Both are invariants of runs on handles of their own, and then `eq` answers as if it
compared what the two handles stand for: it says yes just if they stand for one expression and this
is the empty list, an integer or a symbol (`Heap.Sound.eq_of_denotes`).

The laws are read off that. An expression is denoted or not, whichever operand comes first, and a
handle denotes only one, so `eq` is symmetric and transitive. Strings and pairs are left out even if
the two operands are the same handle, so it is not reflexive on them. And what is `eq` is printed
alike, because printing depends on the expression alone.
-/

namespace LispHeap

/-- The expressions that can be `eq` to something: all but strings and lists with members. -/
def SExpr.comparable : SExpr → Bool
  | .int _ | .sym _ | .list [] => true
  | .str _ | .list (_ :: _) => false

namespace Heap

variable {heap : Heap} {a b c : Handle} {d e : SExpr}

/-- Both are the empty list, or integers with the same value, or symbols with the same name, byte
for byte. -/
inductive SameAtom (heap : Heap) : Handle → Handle → Prop where
  | nil : SameAtom heap .nil .nil
  | int {a b : Handle} {value : Int32} (ha : heap.cell? a = some (.int value))
      (hb : heap.cell? b = some (.int value)) : SameAtom heap a b
  | sym {a b : Handle} {i j : SymbolId} {name other : String} (ha : heap.cell? a = some (.sym i))
      (hb : heap.cell? b = some (.sym j)) (hi : heap.symbols.name? i = some name)
      (hj : heap.symbols.name? j = some other) (h : name.toUTF8 = other.toUTF8) : SameAtom heap a b

theorem sameAtom_iff :
    heap.SameAtom a b ↔ ∃ e, e.comparable = true ∧ heap.Denotes a e ∧ heap.Denotes b e := by
  constructor
  · intro h
    cases h with
    | nil => exact ⟨_, rfl, .nil, .nil⟩
    | int ha hb => exact ⟨_, rfl, .int ha, .int hb⟩
    | sym ha hb hi hj h =>
        obtain rfl := String.toByteArray_inj.mp h
        exact ⟨_, rfl, .sym ha hi, .sym hb hj⟩
  · rintro ⟨e, he, ha, hb⟩
    cases ha with
    | nil =>
        cases hb with
        | nil => exact .nil
    | int ha =>
        cases hb with
        | int hb => exact .int ha hb
    | sym ha hi =>
        cases hb with
        | sym hb hj => exact .sym ha hb hi hj rfl
    | str _ | pair _ _ _ => cases he

theorem Denotes.comparable_iff (h : heap.Denotes a e) :
    e.comparable = true ↔ heap.tag a = .ok none ∨ heap.tag a = .ok (some .int) ∨
      heap.tag a = .ok (some .sym) := by
  cases h with
  | nil => simp [SExpr.comparable, tag_nil]
  | int h | sym h _ | str h | pair h _ _ => simp [SExpr.comparable, tag_of_cell? h, Cell.tag]

/-! ## What is compared -/

theorem eq_of_views {x y : Option Cell} : heap.view a = .ok x → heap.view b = .ok y →
    heap.eq a b =
      match x, y with
      | none, none => .ok true
      | some (.int i), some (.int j) => .ok (i == j)
      | some (.sym i), some (.sym j) => .ok (i == j)
      | _, _ => .ok false := by
  intro hx hy
  rw [Heap.eq, hx, hy]
  rfl

/-- `eq` answers for what its operands stand for. -/
theorem Sound.eq_of_denotes (hs : heap.Sound) (ha : heap.Denotes a d) (hb : heap.Denotes b e) :
    ∃ r, heap.eq a b = .ok r ∧ (r = true ↔ d.comparable = true ∧ d = e) := by
  cases ha with
  | nil =>
      cases hb with
      | nil => exact ⟨true, rfl, by simp [SExpr.comparable]⟩
      | int hb | sym hb _ | str hb | pair hb _ _ =>
          exact ⟨false, eq_of_views (view_nil heap) (view_of_cell? hb), by simp⟩
  | int ha =>
      cases hb with
      | int hb =>
          exact ⟨_, eq_of_views (view_of_cell? ha) (view_of_cell? hb), by simp [SExpr.comparable]⟩
      | nil => exact ⟨false, eq_of_views (view_of_cell? ha) (view_nil heap), by simp⟩
      | sym hb _ | str hb | pair hb _ _ =>
          exact ⟨false, eq_of_views (view_of_cell? ha) (view_of_cell? hb), by simp⟩
  | sym ha hi =>
      cases hb with
      | sym hb hj =>
          refine ⟨_, eq_of_views (view_of_cell? ha) (view_of_cell? hb), ?_⟩
          simp [SExpr.comparable, hs.distinct.id_eq_iff hi hj]
      | nil => exact ⟨false, eq_of_views (view_of_cell? ha) (view_nil heap), by simp⟩
      | int hb | str hb | pair hb _ _ =>
          exact ⟨false, eq_of_views (view_of_cell? ha) (view_of_cell? hb), by simp⟩
  | str ha | pair ha _ _ =>
      cases hb with
      | nil =>
          exact ⟨false, eq_of_views (view_of_cell? ha) (view_nil heap), by simp [SExpr.comparable]⟩
      | int hb | sym hb _ | str hb | pair hb _ _ =>
          exact ⟨false, eq_of_views (view_of_cell? ha) (view_of_cell? hb),
            by simp [SExpr.comparable]⟩

theorem Sound.eq_total (hs : heap.Sound) (ha : heap.Has a) (hb : heap.Has b) :
    ∃ r, heap.eq a b = .ok r ∧ (r = true ↔ heap.SameAtom a b) := by
  obtain ⟨d, hd⟩ := hs.exists_denotes ha
  obtain ⟨e, he⟩ := hs.exists_denotes hb
  obtain ⟨r, hr, hiff⟩ := hs.eq_of_denotes hd he
  refine ⟨r, hr, hiff.trans ?_⟩
  rw [sameAtom_iff]
  constructor
  · rintro ⟨hcomparable, rfl⟩
    exact ⟨d, hcomparable, hd, he⟩
  · rintro ⟨x, hcomparable, hdx, hex⟩
    obtain rfl := hd.unique hdx
    exact ⟨hcomparable, hex.unique he⟩

/-! ## Laws -/

theorem SameAtom.symm (h : heap.SameAtom a b) : heap.SameAtom b a := by
  obtain ⟨e, he, ha, hb⟩ := sameAtom_iff.mp h
  exact sameAtom_iff.mpr ⟨e, he, hb, ha⟩

theorem SameAtom.trans (h : heap.SameAtom a b) (h' : heap.SameAtom b c) : heap.SameAtom a c := by
  obtain ⟨e, he, ha, hb⟩ := sameAtom_iff.mp h
  obtain ⟨d, _, hd, hc⟩ := sameAtom_iff.mp h'
  obtain rfl := hb.unique hd
  exact sameAtom_iff.mpr ⟨e, he, ha, hc⟩

theorem Sound.eq_true_iff (hs : heap.Sound) (ha : heap.Has a) (hb : heap.Has b) :
    heap.eq a b = .ok true ↔ heap.SameAtom a b := by
  obtain ⟨r, hr, hiff⟩ := hs.eq_total ha hb
  rw [hr, ← hiff, Except.ok.injEq]

theorem Sound.eq_comm (hs : heap.Sound) (ha : heap.Has a) (hb : heap.Has b) :
    heap.eq b a = heap.eq a b := by
  obtain ⟨r, hr, hiff⟩ := hs.eq_total ha hb
  obtain ⟨q, hq, hiff'⟩ := hs.eq_total hb ha
  have hsame : q = r := by
    rw [Bool.eq_iff_iff, hiff, hiff']
    exact ⟨SameAtom.symm, SameAtom.symm⟩
  rw [hr, hq, hsame]

theorem Sound.eq_self_iff (hs : heap.Sound) (ha : heap.Has a) :
    heap.eq a a = .ok true ↔ heap.tag a = .ok none ∨ heap.tag a = .ok (some .int) ∨
      heap.tag a = .ok (some .sym) := by
  obtain ⟨e, he⟩ := hs.exists_denotes ha
  rw [hs.eq_true_iff ha ha, sameAtom_iff, ← he.comparable_iff]
  constructor
  · rintro ⟨d, hd, hda, _⟩
    exact he.unique hda ▸ hd
  · intro hcomparable
    exact ⟨e, hcomparable, he, he⟩

/-- A string or a pair is not `eq` to anything. -/
theorem Sound.eq_false (hs : heap.Sound) (ha : heap.Has a) (hb : heap.Has b)
    (h : heap.tag a = .ok (some .str) ∨ heap.tag a = .ok (some .pair)) :
    heap.eq a b = .ok false := by
  obtain ⟨d, hd⟩ := hs.exists_denotes ha
  obtain ⟨e, he⟩ := hs.exists_denotes hb
  obtain ⟨r, hr, hiff⟩ := hs.eq_of_denotes hd he
  cases r with
  | false => exact hr
  | true =>
      have htag := hd.comparable_iff.mp (hiff.mp rfl).1
      rcases h with h | h <;> simp [h] at htag

end Heap

/-- After every run on handles of its own, for any two values: `eq` answers, and yes just if they
are the same atom; the entry point gives the answer as a value; and any operations later, on
whatever handles, the answer is the same. `eq` is symmetric and transitive, holds of a value and
itself just if that is the empty list, an integer or a symbol, and never holds of a string or a
pair. What is `eq` reads as one expression and is printed alike. -/
theorem eq_is_equality_of_atoms (names : List String) (out : Sink) (ops : List Operation)
    (h : (Session.start names out).permitsAll ops) {a b : Handle}
    (ha : ((Session.start names out).after ops).task.heap.Has a)
    (hb : ((Session.start names out).after ops).task.heap.Has b) :
    let task := ((Session.start names out).after ops).task
    (∃ r, task.heap.eq a b = .ok r ∧ (r = true ↔ task.heap.SameAtom a b) ∧
      (Call.eq a b).enter task = .ok (.ofBool r) task ∧
      ∀ later : List Operation, (task.after later).heap.eq a b = .ok r) ∧
    task.heap.eq b a = task.heap.eq a b ∧
    (∀ c, task.heap.Has c → task.heap.eq a b = .ok true → task.heap.eq b c = .ok true →
      task.heap.eq a c = .ok true) ∧
    (task.heap.eq a a = .ok true ↔ task.heap.tag a = .ok none ∨
      task.heap.tag a = .ok (some .int) ∨ task.heap.tag a = .ok (some .sym)) ∧
    (task.heap.tag a = .ok (some .str) ∨ task.heap.tag a = .ok (some .pair) →
      task.heap.eq a b = .ok false ∧ task.heap.eq b a = .ok false) ∧
    (task.heap.eq a b = .ok true → ∃ e, task.heap.decode a = .ok e ∧ task.heap.decode b = .ok e ∧
      task.heap.write a = task.heap.write b ∧
      ∀ bytes, task.heap.write a ⟨.unlimited, bytes⟩ =
        .ok () ⟨.unlimited, bytes ++ e.text.toUTF8⟩) := by
  intro task
  have hs : task.heap.Sound := ((Session.sound_start names out).after h).heap
  refine ⟨?_, hs.eq_comm ha hb, fun c hc hab hbc => ?_, hs.eq_self_iff ha, fun htag => ?_,
    fun hab => ?_⟩
  · obtain ⟨r, hr, hiff⟩ := hs.eq_total ha hb
    refine ⟨r, hr, hiff, ?_, fun later => ((after_grows task later).eq a b).ok hr⟩
    show EStateM.bind (Entry.ofOp (.look (·.eq a b))) _ task = _
    rw [EStateM.bind, Entry.ofOp, Op.look, hr]
    rfl
  · rw [hs.eq_true_iff ha hb] at hab
    rw [hs.eq_true_iff hb hc] at hbc
    exact (hs.eq_true_iff ha hc).mpr (hab.trans hbc)
  · have hfalse := hs.eq_false ha hb htag
    exact ⟨hfalse, (hs.eq_comm ha hb).trans hfalse⟩
  · obtain ⟨e, _, hae, hbe⟩ := Heap.sameAtom_iff.mp ((hs.eq_true_iff ha hb).mp hab)
    refine ⟨e, hs.decode_eq ha hae, hs.decode_eq hb hbe, ?_, hs.appends_write ha hae⟩
    rw [hs.write_eq_emit ha hae, hs.write_eq_emit hb hbe]

/-- Makes two symbols of a name that is known beforehand, a string and a pair. -/
def twoSymbolsRun : List Operation :=
  [.newAtom (.sym "y"), .newAtom (.int 3), .newAtom (.sym "y"), .newAtom (.str "y"),
    .enter (.list [⟨2⟩])]

theorem two_symbols_are_eq :
    (Session.start ["x", "y"] {}).permitsAll twoSymbolsRun ∧
    ((Session.start ["x", "y"] {}).after twoSymbolsRun).task.heap.eq ⟨2⟩ ⟨4⟩ = .ok true ∧
    (∃ e, ((Session.start ["x", "y"] {}).after twoSymbolsRun).task.heap.decode ⟨2⟩ = .ok e ∧
      ((Session.start ["x", "y"] {}).after twoSymbolsRun).task.heap.decode ⟨4⟩ = .ok e) ∧
    ((Session.start ["x", "y"] {}).after twoSymbolsRun).task.heap.eq ⟨5⟩ ⟨5⟩ = .ok false ∧
    ((Session.start ["x", "y"] {}).after twoSymbolsRun).task.heap.eq ⟨6⟩ ⟨6⟩ = .ok false := by
  have hrun : (Session.start ["x", "y"] {}).permitsAll twoSymbolsRun := by decide +kernel
  have hfirst : ((Session.start ["x", "y"] {}).after twoSymbolsRun).task.heap.cell? ⟨2⟩ =
      some (.sym ⟨1⟩) := by decide +kernel
  have hsecond : ((Session.start ["x", "y"] {}).after twoSymbolsRun).task.heap.cell? ⟨4⟩ =
      some (.sym ⟨1⟩) := by decide +kernel
  have hname : ((Session.start ["x", "y"] {}).after twoSymbolsRun).task.heap.symbols.name? ⟨1⟩ =
      some "y" := by decide +kernel
  have hstr : ((Session.start ["x", "y"] {}).after twoSymbolsRun).task.heap.cell? ⟨5⟩ =
      some (.str "y") := by decide +kernel
  have hpair : ((Session.start ["x", "y"] {}).after twoSymbolsRun).task.heap.cell? ⟨6⟩ =
      some (.pair ⟨1, ⟨2⟩, .nil⟩) := by decide +kernel
  obtain ⟨⟨r, hr, hiff, _⟩, _, _, _, _, halike⟩ := eq_is_equality_of_atoms ["x", "y"] {}
    twoSymbolsRun hrun (Heap.cell?_bounds hfirst).2 (Heap.cell?_bounds hsecond).2
  obtain ⟨_, _, _, _, hstring, _⟩ := eq_is_equality_of_atoms ["x", "y"] {} twoSymbolsRun hrun
    (Heap.cell?_bounds hstr).2 (Heap.cell?_bounds hstr).2
  obtain ⟨_, _, _, _, hlist, _⟩ := eq_is_equality_of_atoms ["x", "y"] {} twoSymbolsRun hrun
    (Heap.cell?_bounds hpair).2 (Heap.cell?_bounds hpair).2
  obtain rfl : r = true := hiff.mpr (.sym hfirst hsecond hname hname rfl)
  obtain ⟨e, hd, hd', _⟩ := halike hr
  exact ⟨hrun, hr, ⟨e, hd, hd'⟩, (hstring (Or.inl (Heap.tag_of_cell? hstr))).1,
    (hlist (Or.inr (Heap.tag_of_cell? hpair))).1⟩

end LispHeap

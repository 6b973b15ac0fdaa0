import LispHeap.Proofs.OwnRuns

/-!
# The printer writes the rendering

A value of a heap that was built on its own handles prints as the rendering of the expression it
stands for. The walk of the printer is settled elsewhere: it ends, and it puts the pieces that
`SExpr.emit` puts. What is left is that these pieces add up to `SExpr.text`, that a line ends with
one newline, and that `text` is the format it is meant to be, with a list between brackets and its
members joined by single spaces.
-/

namespace LispHeap

/-- The members of a list are joined by single spaces, with none before the first or behind the
last. -/
theorem SExpr.text_list (items : List SExpr) :
    (SExpr.list items).text = "(" ++ " ".intercalate (items.map SExpr.text) ++ ")" := by
  have joined : ∀ items : List SExpr, spaced items = " ".intercalate (items.map SExpr.text) := by
    intro items
    induction items with
    | nil => rw [spaced, List.map_nil, String.intercalate_nil]
    | cons x xs ih =>
        cases xs with
        | nil => rw [spaced, List.map_cons, List.map_nil, String.intercalate_singleton]
        | cons y ys =>
            rw [List.map_cons, List.map_cons, String.intercalate_cons_cons, ← List.map_cons, ← ih,
              spaced]
            exact List.cons_ne_nil y ys
  rw [text, joined]

namespace Heap

variable {heap : Heap} {v : Handle} {e : SExpr}

theorem Sound.appends_write (hs : heap.Sound) (hv : heap.Has v) (he : heap.Denotes v e) :
    Appends (heap.write v) e.text := by
  rw [hs.write_eq_emit hv he]
  exact e.appends_emit

theorem Sound.appends_print (hs : heap.Sound) (hv : heap.Has v) (he : heap.Denotes v e) :
    Appends (heap.print v) (e.text ++ "\n") :=
  appends_bind (hs.appends_write hv he) (appends_put "\n")

end Heap

/-- The entry point prints to where its task prints to, and does nothing else. -/
theorem enter_print_of_appends {task : Task} {v : Handle} {text : String} {bytes : ByteArray}
    (h : Appends (task.heap.print v) text) :
    (Call.print v).enter { task with out := ⟨.unlimited, bytes⟩ } =
      .ok .nil { task with out := ⟨.unlimited, bytes ++ text.toUTF8⟩ } := by
  have hprint : Entry.print v { task with out := ⟨.unlimited, bytes⟩ } =
      .ok () { task with out := ⟨.unlimited, bytes ++ text.toUTF8⟩ } := by
    rw [Entry.print, h bytes]
  show EStateM.bind (Entry.print v) _ _ = _
  rw [EStateM.bind, hprint]
  rfl

/-- After every run on handles of its own, each value of the heap stands for one expression; reading
it back gives that expression; and printing it writes the expression's text, in UTF-8 and with
nothing before or after it but the newline that ends a line. -/
theorem written_text_is_rendering (names : List String) (out : Sink) (ops : List Operation)
    (h : (Session.start names out).permitsAll ops) {v : Handle}
    (hv : ((Session.start names out).after ops).task.heap.Has v) :
    let task := ((Session.start names out).after ops).task
    ∃ e : SExpr, (∀ e', task.heap.Denotes v e' ↔ e' = e) ∧ task.heap.decode v = .ok e ∧
      (∀ items, e = .list items →
        e.text = "(" ++ " ".intercalate (items.map SExpr.text) ++ ")") ∧
      ∀ bytes,
        task.heap.write v ⟨.unlimited, bytes⟩ =
          .ok () ⟨.unlimited, bytes ++ e.text.toUTF8⟩ ∧
        task.heap.print v ⟨.unlimited, bytes⟩ =
          .ok () ⟨.unlimited, bytes ++ (e.text ++ "\n").toUTF8⟩ ∧
        (Call.print v).enter { task with out := ⟨.unlimited, bytes⟩ } =
          .ok .nil { task with out := ⟨.unlimited, bytes ++ (e.text ++ "\n").toUTF8⟩ } := by
  intro task
  have hs : task.heap.Sound := ((Session.sound_start names out).after h).heap
  obtain ⟨e, he⟩ := hs.exists_denotes hv
  have hprint := hs.appends_print hv he
  refine ⟨e, fun e' => ⟨fun he' => he'.unique he, fun heq => heq ▸ he⟩, hs.decode_eq hv he, ?_,
    fun bytes => ⟨hs.appends_write hv he bytes, hprint bytes, enter_print_of_appends hprint⟩⟩
  rintro items rfl
  exact SExpr.text_list items

/-- Builds `((x "a b" ()) t)`. -/
def nestedRun : List Operation :=
  [.newAtom (.sym "x"), .newAtom (.str "a b"), .enter (.list [⟨2⟩, ⟨3⟩, .nil]),
    .enter (.list [⟨6⟩, .t])]

theorem nested_run_is_rendered :
    (Session.start [] {}).permitsAll nestedRun ∧
    ((Session.start [] {}).after nestedRun).task.heap.Has ⟨8⟩ ∧
    ∃ e : SExpr, ((Session.start [] {}).after nestedRun).task.heap.decode ⟨8⟩ = .ok e ∧
      ∀ bytes, ((Session.start [] {}).after nestedRun).task.heap.write ⟨8⟩ ⟨.unlimited, bytes⟩ =
        .ok () ⟨.unlimited, bytes ++ e.text.toUTF8⟩ := by
  have hrun : (Session.start [] {}).permitsAll nestedRun := by decide +kernel
  have hv : ((Session.start [] {}).after nestedRun).task.heap.Has ⟨8⟩ := by decide +kernel
  refine ⟨hrun, hv, (written_text_is_rendering [] {} nestedRun hrun hv).imp fun e he => ?_⟩
  exact ⟨he.2.1, fun bytes => (he.2.2.2 bytes).1⟩

end LispHeap

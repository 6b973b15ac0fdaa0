import LispHeap.Proofs.ProperLists
import LispHeap.Proofs.Symbols

/-!
# Sound heaps

A heap is sound if whatever is stored on it can be followed: each symbol has a name, each head is
the empty list or an earlier box, each rest is the empty list or an earlier pair, and the first box
is the symbol `t`. A new heap is sound, and stays so as long as symbols take their numbers from its
own table and pairs take heads that are already there. Whether operations keep to this is not
settled here; this file says what follows if they do.

Heads lead to smaller numbers just as rests do. So nothing contains itself, and a walk through the
whole of a value ends.
-/

namespace LispHeap

namespace Heap

variable {heap : Heap} {v : Handle}

/-- Lists are proper, `t` is itself, every symbol has a name and no name comes twice, and a head is
older than its pair. -/
structure Sound (heap : Heap) : Prop extends heap.Proper where
  truth : ∃ id, heap.cell? .t = some (.sym id) ∧ heap.symbols.name? id = some "t"
  named : ∀ {v : Handle} {id : SymbolId},
    heap.cell? v = some (.sym id) → id.index < heap.symbols.size
  grounded : ∀ {l : Handle} {node : Pair},
    heap.cell? l = some (.pair node) → node.head.index < l.index
  distinct : heap.symbols.Distinct

/-- A number that stands for a value here: the empty list or a box. -/
def Has (heap : Heap) (v : Handle) : Prop := v.index ≤ heap.size

instance : Decidable (heap.Has v) := inferInstanceAs (Decidable (_ ≤ _))

theorem Has.cases (h : heap.Has v) : v = .nil ∨ ∃ c, heap.cell? v = some c := by
  by_cases hv : v.index = 0
  · left
    cases v with
    | mk i => exact congrArg Handle.mk hv
  · exact Or.inr (exists_cell? (by omega) h)

theorem Has.grows {later : Heap} (h : heap.Has v) (hg : heap.Grows later) : later.Has v := by
  rcases h.cases with rfl | ⟨c, hc⟩
  · exact Nat.zero_le _
  · exact (cell?_bounds (hg.cell?_of_some hc)).2

theorem IsList.has (h : heap.IsList v) : heap.Has v := by
  rcases h with rfl | ⟨node, hnode⟩
  · exact Nat.zero_le _
  · exact (cell?_bounds hnode).2

theorem IsList.grows {later : Heap} (h : heap.IsList v) (hg : heap.Grows later) :
    later.IsList v := by
  rcases h with rfl | ⟨node, hnode⟩
  · exact Or.inl rfl
  · exact Or.inr ⟨node, hg.cell?_of_some hnode⟩

/-! ## Additions that keep a heap sound -/

theorem Sound.intern (hs : heap.Sound) (name : String) : (heap.intern name).2.Sound := by
  obtain ⟨id, hid, hname⟩ := hs.truth
  refine ⟨⟨hs.first, hs.continues⟩, ⟨id, hid, ?_⟩, fun h => ?_, hs.grounded, ?_⟩
  · exact SymbolTable.name?_intern_of_some hname
  · exact Nat.lt_of_lt_of_le (hs.named h) (SymbolTable.size_le_intern heap.symbols name)
  · exact hs.distinct.intern name

theorem Sound.push_atom (hs : heap.Sound) {c : Cell} (hc : c.tag ≠ .pair)
    (hid : ∀ id, c = .sym id → id.index < heap.symbols.size) : (heap.push c).Sound := by
  obtain ⟨id, hcell, hname⟩ := hs.truth
  refine ⟨hs.toProper.push_atom hc, ⟨id, cell?_push_of_some hcell, hname⟩, fun h => ?_,
    fun h => ?_, hs.distinct⟩
  · rcases cell?_push_cases h with hold | ⟨_, hnew⟩
    · exact hs.named hold
    · exact hid _ hnew.symm
  · rcases cell?_push_cases h with hold | ⟨_, hnew⟩
    · exact hs.grounded hold
    · subst hnew
      exact absurd rfl hc

theorem Sound.push_pair (hs : heap.Sound) {head rest : Handle} {n : Nat}
    (hn : heap.listLength rest = .ok n) (hhead : heap.Has head) :
    (heap.push (.pair ⟨n + 1, head, rest⟩)).Sound := by
  obtain ⟨id, hcell, hname⟩ := hs.truth
  refine ⟨hs.toProper.push_pair hn, ⟨id, cell?_push_of_some hcell, hname⟩, fun h => ?_,
    fun {l node} h => ?_, hs.distinct⟩
  · rcases cell?_push_cases h with hold | ⟨_, hnew⟩
    · exact hs.named hold
    · cases hnew
  · rcases cell?_push_cases h with hold | ⟨hl, hnew⟩
    · exact hs.grounded hold
    · injection hnew with hnode
      subst hnode
      rw [hl]
      exact Nat.lt_succ_of_le hhead

theorem sound_fresh (names : List String) : (Task.fresh names).heap.Sound := by
  have hd : (({} : SymbolTable).internAll names).Distinct := SymbolTable.distinct_internAll names
  have hname := SymbolTable.name?_intern_self (({} : SymbolTable).internAll names) "t"
  have only : ∀ {v : Handle} {c : Cell}, (Task.fresh names).heap.cell? v = some c →
      c = .sym ((({} : SymbolTable).internAll names).intern "t").1 := by
    intro v c h
    rcases cell?_push_cases h with hold | ⟨_, hnew⟩
    · have := cell?_bounds hold
      have hsize : v.index ≤ 0 := this.2
      omega
    · exact hnew
  refine ⟨proper_fresh names, ⟨_, rfl, hname⟩, fun h => ?_, fun h => ?_, hd.intern "t"⟩
  · injection only h with hid
    rw [hid]
    exact SymbolTable.index_lt_of_name? hname
  · cases only h

/-! ## What a sound heap answers -/

theorem Sound.has_t (hs : heap.Sound) : heap.Has .t := by
  obtain ⟨id, hid, _⟩ := hs.truth
  exact (cell?_bounds hid).2

theorem Sound.has_head (hs : heap.Sound) {node : Pair} (h : heap.cell? v = some (.pair node)) :
    heap.Has node.head := by
  have hlt := hs.grounded h
  have hle := (cell?_bounds h).2
  rw [Has]
  omega

theorem Sound.exists_name? (hs : heap.Sound) {id : SymbolId} (h : heap.cell? v = some (.sym id)) :
    ∃ name, heap.symbols.name? id = some name :=
  SymbolTable.exists_name? (hs.named h)

end Heap

end LispHeap

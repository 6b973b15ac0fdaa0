import Mathlib.Data.List.Forall2
import LispHeap.Primitive.Basic
import LispHeap.Proofs.Denotation

/-!
# Heaps that differ in where things are

Take two sound heaps of sizes `m` and `n` and let the same calls add boxes to both. The boxes that
are added correspond one to one: the `j`-th after the old ones on either side. They hold the same
integers, texts and lengths, symbols of the same name, and handles that correspond again. Nothing is
said about the old boxes, so the two heaps may have nothing else in common; only the empty list and
`t` are shared beforehand.

`Heap.Twin m n k` states this for `k` added boxes. This file shows that no question to a heap can
tell two twins apart: it is answered on both sides by values that correspond, or refused on both
sides with the same error. That it is never a fault is part of the statement, because a handle that
has a counterpart is a handle of its heap. A heap is also a twin of itself, with everything behind
the first box counted as added, and then the same lemmas say that questions about the handles of a
sound heap do not fault.

The content lies in symbols. They are compared by number and the numbers differ on the two sides, so
`eq` and `assoc` need that no table has a name twice.
-/

namespace LispHeap

/-- Handles that correspond when `k` boxes were added to `m` old ones and to `n` old ones. -/
inductive Handle.Twin (m n k : Nat) : Handle → Handle → Prop where
  | nil : Twin m n k .nil .nil
  | t : Twin m n k .t .t
  | box {j : Nat} (hj : j < k) : Twin m n k ⟨m + j + 1⟩ ⟨n + j + 1⟩

/-- Pairs of the same length whose heads and rests correspond. -/
structure Pair.Twin (m n k : Nat) (p q : Pair) : Prop where
  length : p.length = q.length
  head : Handle.Twin m n k p.head q.head
  rest : Handle.Twin m n k p.rest q.rest

/-- Cells with the same contents, where symbols go by their names in the two tables. -/
inductive Cell.Twin (m n k : Nat) (names₁ names₂ : SymbolTable) : Cell → Cell → Prop where
  | int (value : Int32) : Twin m n k names₁ names₂ (.int value) (.int value)
  | pair {p q : Pair} (h : Pair.Twin m n k p q) : Twin m n k names₁ names₂ (.pair p) (.pair q)
  | sym {i j : SymbolId} {name : String} (hi : names₁.name? i = some name)
      (hj : names₂.name? j = some name) : Twin m n k names₁ names₂ (.sym i) (.sym j)
  | str (text : String) : Twin m n k names₁ names₂ (.str text) (.str text)

/-- Two sound heaps, of `m` and `n` boxes and then `k` more that correspond. A box refers to boxes
before it, so the `j`-th corresponds at `j`. -/
structure Heap.Twin (m n k : Nat) (heap₁ heap₂ : Heap) : Prop where
  sound₁ : heap₁.Sound
  sound₂ : heap₂.Sound
  size₁ : heap₁.size = m + k
  size₂ : heap₂.size = n + k
  boxes : ∀ {j : Nat}, j < k → ∃ c₁ c₂, heap₁.cell? ⟨m + j + 1⟩ = some c₁ ∧
    heap₂.cell? ⟨n + j + 1⟩ = some c₂ ∧ Cell.Twin m n j heap₁.symbols heap₂.symbols c₁ c₂

/-- Two answers that agree: related values, or the same error, which is one that may occur. -/
inductive Agree {ε α : Type} (allowed : ε → Prop) (good : α → α → Prop) :
    Except ε α → Except ε α → Prop where
  | ok {a b : α} (h : good a b) : Agree allowed good (.ok a) (.ok b)
  | error {e : ε} (h : allowed e) : Agree allowed good (.error e) (.error e)

/-- No fault at all. -/
def Fault.Never (_ : Fault) : Prop := False

/-- A refusal and not a fault. -/
def Failure.Refusal : Failure → Prop
  | .refused _ => True
  | .fault _ => False

/-! ## Putting answers together -/

section Answers

variable {ε α β : Type} {allowed : ε → Prop} {good : α → α → Prop} {good' : β → β → Prop}

theorem Agree.bind {x y : Except ε α} {f g : α → Except ε β} (h : Agree allowed good x y)
    (hfg : ∀ a b, good a b → Agree allowed good' (f a) (g b)) :
    Agree allowed good' (x >>= f) (y >>= g) := by
  cases h with
  | ok hab => exact hfg _ _ hab
  | error he => exact .error he

theorem Agree.map {x y : Except ε α} {f g : α → β} (h : Agree allowed good x y)
    (hfg : ∀ a b, good a b → good' (f a) (g b)) : Agree allowed good' (x.map f) (y.map g) := by
  cases h with
  | ok hab => exact .ok (hfg _ _ hab)
  | error he => exact .error he

theorem Agree.lift {x y : Except Fault α} (h : Agree Fault.Never good x y) :
    Agree Failure.Refusal good (x.mapError .fault) (y.mapError .fault) := by
  cases h with
  | ok hab => exact .ok hab
  | error hf => exact hf.elim

/-- Answers of a kind that cannot be an error are values. -/
theorem Agree.values {x y : Except Fault α} (h : Agree Fault.Never good x y) :
    ∃ a b, x = .ok a ∧ y = .ok b ∧ good a b := by
  cases h with
  | ok hab => exact ⟨_, _, rfl, rfl, hab⟩
  | error hf => exact hf.elim

end Answers

/-! ## Handles and cells -/

section Twins

variable {m n k : Nat} {heap₁ heap₂ : Heap} {v₁ v₂ : Handle} {c₁ c₂ : Cell}
  {names₁ names₂ : SymbolTable}

theorem Handle.Twin.mono {k' : Nat} (h : Handle.Twin m n k v₁ v₂) (hk : k ≤ k') :
    Handle.Twin m n k' v₁ v₂ := by
  cases h with
  | nil => exact .nil
  | t => exact .t
  | box hj => exact .box (Nat.lt_of_lt_of_le hj hk)

theorem Handle.Twin.isNil (h : Handle.Twin m n k v₁ v₂) : v₁.isNil = v₂.isNil := by
  cases h <;> rfl

theorem Handle.Twin.ofBool (b : Bool) : Handle.Twin m n k (.ofBool b) (.ofBool b) := by
  cases b
  · exact .nil
  · exact .t

theorem Handle.Twin.checkAssertion (h : Handle.Twin m n k v₁ v₂) :
    Agree Failure.Refusal Eq ((checkAssertion v₁).mapError .refused)
      ((checkAssertion v₂).mapError .refused) := by
  rw [LispHeap.checkAssertion, LispHeap.checkAssertion, h.isNil]
  cases v₂.isNil
  · exact .ok rfl
  · exact .error trivial

theorem Cell.Twin.mono {k' : Nat} (h : Cell.Twin m n k names₁ names₂ c₁ c₂) (hk : k ≤ k') :
    Cell.Twin m n k' names₁ names₂ c₁ c₂ := by
  cases h with
  | int value => exact .int value
  | pair h => exact .pair ⟨h.length, h.head.mono hk, h.rest.mono hk⟩
  | sym hi hj => exact .sym hi hj
  | str text => exact .str text

theorem Cell.Twin.intern (h : Cell.Twin m n k names₁ names₂ c₁ c₂) (name : String) :
    Cell.Twin m n k (names₁.intern name).2 (names₂.intern name).2 c₁ c₂ := by
  cases h with
  | int value => exact .int value
  | pair h => exact .pair h
  | sym hi hj =>
      exact .sym (SymbolTable.name?_intern_of_some hi) (SymbolTable.name?_intern_of_some hj)
  | str text => exact .str text

theorem Cell.Twin.tag_eq (h : Cell.Twin m n k names₁ names₂ c₁ c₂) : c₁.tag = c₂.tag := by
  cases h <;> rfl

namespace Heap.Twin

variable (ht : Heap.Twin m n k heap₁ heap₂)

include ht

/-! ## Twins grow alike -/

theorem intern (name : String) :
    Heap.Twin m n k (heap₁.intern name).2 (heap₂.intern name).2 where
  sound₁ := ht.sound₁.intern name
  sound₂ := ht.sound₂.intern name
  size₁ := by rw [size_intern, ht.size₁]
  size₂ := by rw [size_intern, ht.size₂]
  boxes hj := by
    obtain ⟨d₁, d₂, hd₁, hd₂, hd⟩ := ht.boxes hj
    exact ⟨d₁, d₂, hd₁, hd₂, hd.intern name⟩

theorem push (hc : Cell.Twin m n k heap₁.symbols heap₂.symbols c₁ c₂)
    (hs₁ : (heap₁.push c₁).Sound) (hs₂ : (heap₂.push c₂).Sound) :
    Heap.Twin m n (k + 1) (heap₁.push c₁) (heap₂.push c₂) where
  sound₁ := hs₁
  sound₂ := hs₂
  size₁ := by rw [size_push, ht.size₁, Nat.add_assoc]
  size₂ := by rw [size_push, ht.size₂, Nat.add_assoc]
  boxes {j} hj := by
    rcases Nat.lt_succ_iff_lt_or_eq.mp hj with hlt | rfl
    · obtain ⟨d₁, d₂, hd₁, hd₂, hd⟩ := ht.boxes hlt
      exact ⟨d₁, d₂, cell?_push_of_some hd₁, cell?_push_of_some hd₂, hd⟩
    · rw [← ht.size₁, ← ht.size₂]
      exact ⟨c₁, c₂, cell?_push_self heap₁ c₁, cell?_push_self heap₂ c₂, hc⟩

/-- A box that is no pair and has a counterpart can be placed: if it is a symbol it has a name. -/
theorem sound_push_atom (hc : Cell.Twin m n k heap₁.symbols heap₂.symbols c₁ c₂)
    (htag : c₁.tag ≠ .pair) : (heap₁.push c₁).Sound ∧ (heap₂.push c₂).Sound := by
  constructor
  · refine ht.sound₁.push_atom htag fun id hid => ?_
    subst hid
    cases hc with
    | sym hi hj => exact SymbolTable.index_lt_of_name? hi
  · refine ht.sound₂.push_atom (hc.tag_eq ▸ htag) fun id hid => ?_
    subst hid
    cases hc with
    | sym hi hj => exact SymbolTable.index_lt_of_name? hj

/-- The handles of the boxes that are added next correspond. -/
theorem next (c₁ c₂ : Cell) :
    Handle.Twin m n (k + 1) ⟨(heap₁.push c₁).size⟩ ⟨(heap₂.push c₂).size⟩ := by
  rw [size_push, size_push, ht.size₁, ht.size₂]
  exact .box (Nat.lt_succ_self k)

/-! ## Looking at a value -/

/-- Corresponding handles are both the empty list, or both have boxes and these correspond. -/
theorem look (hv : Handle.Twin m n k v₁ v₂) :
    v₁ = .nil ∧ v₂ = .nil ∨ ∃ c₁ c₂, heap₁.cell? v₁ = some c₁ ∧ heap₂.cell? v₂ = some c₂ ∧
      Cell.Twin m n k heap₁.symbols heap₂.symbols c₁ c₂ := by
  cases hv with
  | nil => exact Or.inl ⟨rfl, rfl⟩
  | t =>
      obtain ⟨i, hi, hi_name⟩ := ht.sound₁.truth
      obtain ⟨j, hj, hj_name⟩ := ht.sound₂.truth
      exact Or.inr ⟨_, _, hi, hj, .sym hi_name hj_name⟩
  | box hlt =>
      obtain ⟨d₁, d₂, hd₁, hd₂, hd⟩ := ht.boxes hlt
      exact Or.inr ⟨d₁, d₂, hd₁, hd₂, hd.mono (Nat.le_of_lt hlt)⟩

theorem look_cell (hv : Handle.Twin m n k v₁ v₂) (hc : heap₁.cell? v₁ = some c₁) :
    ∃ c₂, heap₂.cell? v₂ = some c₂ ∧ Cell.Twin m n k heap₁.symbols heap₂.symbols c₁ c₂ := by
  rcases ht.look hv with ⟨rfl, _⟩ | ⟨d₁, d₂, hd₁, hd₂, hd⟩
  · cases hc
  · obtain rfl : c₁ = d₁ := Option.some.inj (hc.symm.trans hd₁)
    exact ⟨d₂, hd₂, hd⟩

/-- What corresponds to a pair is a pair, and so are their parts. -/
theorem look_pair {p : Pair} (hv : Handle.Twin m n k v₁ v₂)
    (hp : heap₁.cell? v₁ = some (.pair p)) :
    ∃ q, heap₂.cell? v₂ = some (.pair q) ∧ Pair.Twin m n k p q := by
  obtain ⟨c₂, hc₂, hc⟩ := ht.look_cell hv hp
  cases hc with
  | pair hpq => exact ⟨_, hc₂, hpq⟩

theorem eq_nil (hv : Handle.Twin m n k .nil v₂) : v₂ = .nil := by
  rcases ht.look hv with ⟨_, h⟩ | ⟨_, _, hcell, _⟩
  · exact h
  · cases hcell

theorem has₁ (hv : Handle.Twin m n k v₁ v₂) : heap₁.Has v₁ := by
  rcases ht.look hv with ⟨rfl, _⟩ | ⟨_, _, hcell, _⟩
  · exact Nat.zero_le _
  · exact (cell?_bounds hcell).2

theorem has₂ (hv : Handle.Twin m n k v₁ v₂) : heap₂.Has v₂ := by
  rcases ht.look hv with ⟨_, rfl⟩ | ⟨_, _, _, hcell, _⟩
  · exact Nat.zero_le _
  · exact (cell?_bounds hcell).2

theorem view (hv : Handle.Twin m n k v₁ v₂) :
    Agree Fault.Never (Option.Rel (Cell.Twin m n k heap₁.symbols heap₂.symbols))
      (heap₁.view v₁) (heap₂.view v₂) := by
  rcases ht.look hv with ⟨rfl, rfl⟩ | ⟨c₁, c₂, hc₁, hc₂, hc⟩
  · exact .ok .none
  · rw [view_of_cell? hc₁, view_of_cell? hc₂]
    exact .ok (.some hc)

theorem tag (hv : Handle.Twin m n k v₁ v₂) :
    Agree Fault.Never Eq (heap₁.tag v₁) (heap₂.tag v₂) := by
  refine (ht.view hv).map fun s₁ s₂ hs => ?_
  cases hs with
  | none => rfl
  | some hc => exact congrArg some hc.tag_eq

theorem narrow (type : BoxType) (hv : Handle.Twin m n k v₁ v₂) :
    Agree Fault.Never (Option.Rel (Handle.Twin m n k)) (heap₁.narrow type v₁)
      (heap₂.narrow type v₂) := by
  refine (ht.tag hv).bind fun found _ h => ?_
  subst h
  cases type.accepts found
  · exact .ok .none
  · exact .ok (.some hv)

theorem isA (tag : Tag) (hv : Handle.Twin m n k v₁ v₂) :
    Agree Fault.Never Eq (heap₁.isA tag v₁) (heap₂.isA tag v₂) := by
  refine (ht.tag hv).bind fun found _ h => ?_
  subst h
  exact .ok rfl

theorem isAtom (hv : Handle.Twin m n k v₁ v₂) :
    Agree Fault.Never Eq (heap₁.isAtom v₁) (heap₂.isAtom v₂) := by
  refine (ht.isA .pair hv).bind fun b _ h => ?_
  subst h
  exact .ok rfl

/-! ## Lists -/

theorem listLength (hv : Handle.Twin m n k v₁ v₂) (hl : heap₁.IsList v₁) :
    Agree Fault.Never Eq (heap₁.listLength v₁) (heap₂.listLength v₂) := by
  rcases hl with rfl | ⟨p, hp⟩
  · rw [ht.eq_nil hv]
    exact .ok rfl
  · obtain ⟨q, hq, hpq⟩ := ht.look_pair hv hp
    rw [listLength_of_cell? hp, listLength_of_cell? hq]
    exact .ok hpq.length

theorem elements : ∀ v₁, heap₁.IsList v₁ → ∀ v₂, Handle.Twin m n k v₁ v₂ →
    Agree Fault.Never (List.Forall₂ (Handle.Twin m n k)) (heap₁.elements v₁)
      (heap₂.elements v₂) := by
  refine ht.sound₁.toProper.induction ?_ ?_
  · intro v₂ hv
    rw [ht.eq_nil hv, elements_nil, elements_nil]
    exact .ok .nil
  · intro v₁ p hp _ ih v₂ hv
    obtain ⟨q, hq, hpq⟩ := ht.look_pair hv hp
    rw [ht.sound₁.toProper.elements_pair hp, ht.sound₂.toProper.elements_pair hq]
    exact (ih q.rest hpq.rest).map fun _ _ hxs => .cons hpq.head hxs

theorem asPair (op : String) (hv : Handle.Twin m n k v₁ v₂) :
    Agree Failure.Refusal (Pair.Twin m n k) (heap₁.asPair op v₁) (heap₂.asPair op v₂) := by
  rw [asPair_eq, asPair_eq]
  refine (ht.view hv).lift.bind fun s₁ s₂ hs => ?_
  cases hs with
  | none => exact .error trivial
  | some hc =>
      cases hc with
      | pair hpq => exact .ok hpq
      | int value => exact .error trivial
      | sym hi hj => exact .error trivial
      | str text => exact .error trivial

/-- A list that was asked for is one, and the lists found on the two sides correspond. -/
theorem asList (op : String) (hv : Handle.Twin m n k v₁ v₂) :
    Agree Failure.Refusal (fun l₁ l₂ => Handle.Twin m n k l₁ l₂ ∧ heap₁.IsList l₁)
      (heap₁.asList op v₁) (heap₂.asList op v₂) := by
  rcases ht.look hv with ⟨rfl, rfl⟩ | ⟨c₁, c₂, hc₁, hc₂, hc⟩
  · exact .ok ⟨hv, Or.inl rfl⟩
  · rw [Heap.asList, Heap.asList, tag_of_cell? hc₁, tag_of_cell? hc₂]
    cases hc with
    | pair hpq => exact .ok ⟨hv, Or.inr ⟨_, hc₁⟩⟩
    | int value => exact .error trivial
    | sym hi hj => exact .error trivial
    | str text => exact .error trivial

theorem step (link : Link) (hv : Handle.Twin m n k v₁ v₂) :
    Agree Failure.Refusal (Handle.Twin m n k) (heap₁.step link v₁) (heap₂.step link v₂) := by
  cases link with
  | a => exact (ht.asPair "car" hv).bind fun _ _ hpq => .ok hpq.head
  | d => exact (ht.asPair "cdr" hv).bind fun _ _ hpq => .ok hpq.rest

theorem follow (path : List Link) (hv : Handle.Twin m n k v₁ v₂) :
    Agree Failure.Refusal (Handle.Twin m n k) (heap₁.follow path v₁) (heap₂.follow path v₂) := by
  induction path with
  | nil => exact .ok hv
  | cons link path ih => exact ih.bind fun _ _ h => ht.step link h

theorem length (hv : Handle.Twin m n k v₁ v₂) :
    Agree Failure.Refusal Eq (heap₁.length v₁) (heap₂.length v₂) :=
  (ht.asList "length" hv).bind fun _ _ hl => (ht.listLength hl.1 hl.2).lift

/-! ## Comparing -/

/-- Equal names have equal numbers on either side, so symbols compare alike. -/
theorem id_beq {i₁ i₂ j₁ j₂ : SymbolId} {name name' : String}
    (hi₁ : heap₁.symbols.name? i₁ = some name) (hi₂ : heap₂.symbols.name? i₂ = some name)
    (hj₁ : heap₁.symbols.name? j₁ = some name') (hj₂ : heap₂.symbols.name? j₂ = some name') :
    (i₁ == j₁) = (i₂ == j₂) := by
  rw [Bool.eq_iff_iff, beq_iff_eq, beq_iff_eq, ht.sound₁.distinct.id_eq_iff hi₁ hj₁,
    ht.sound₂.distinct.id_eq_iff hi₂ hj₂]

theorem eq {x₁ x₂ y₁ y₂ : Handle} (hx : Handle.Twin m n k x₁ x₂)
    (hy : Handle.Twin m n k y₁ y₂) : Agree Fault.Never Eq (heap₁.eq x₁ y₁) (heap₂.eq x₂ y₂) := by
  refine (ht.view hx).bind fun a₁ a₂ ha => (ht.view hy).bind fun b₁ b₂ hb => ?_
  cases ha with
  | none =>
      cases hb with
      | none => exact .ok rfl
      | some hd => exact .ok rfl
  | some hc =>
      cases hb with
      | none => cases hc <;> exact .ok rfl
      | some hd =>
          cases hc with
          | int value => cases hd <;> exact .ok rfl
          | pair hpq => cases hd <;> exact .ok rfl
          | str text => cases hd <;> exact .ok rfl
          | sym hi₁ hi₂ =>
              cases hd with
              | sym hj₁ hj₂ => exact .ok (ht.id_beq hi₁ hi₂ hj₁ hj₂)
              | int value => exact .ok rfl
              | pair hpq => exact .ok rfl
              | str text => exact .ok rfl

theorem findEntry {key₁ key₂ : Handle} {xs ys : List Handle}
    (hkey : Handle.Twin m n k key₁ key₂) (hxs : List.Forall₂ (Handle.Twin m n k) xs ys) :
    Agree Fault.Never (Handle.Twin m n k) (heap₁.findEntry key₁ xs) (heap₂.findEntry key₂ ys) := by
  induction hxs with
  | nil => exact .ok .nil
  | cons hx _ ih =>
      refine (ht.view hx).bind fun s₁ s₂ hs => ?_
      cases hs with
      | none => exact ih
      | some hc =>
          cases hc with
          | int value => exact ih
          | sym hi hj => exact ih
          | str text => exact ih
          | pair hpq =>
              refine (ht.eq hkey hpq.head).bind fun b _ h => ?_
              subst h
              cases b
              · exact ih
              · exact .ok hx

theorem assoc {key₁ key₂ : Handle} (hkey : Handle.Twin m n k key₁ key₂)
    (hv : Handle.Twin m n k v₁ v₂) :
    Agree Failure.Refusal (Handle.Twin m n k) (heap₁.assoc key₁ v₁) (heap₂.assoc key₂ v₂) := by
  refine (ht.asList "assoc" hv).bind fun l₁ l₂ hl => ?_
  obtain ⟨xs, ys, hxs, hys, hall⟩ := (ht.elements l₁ hl.2 l₂ hl.1).values
  rw [search_ofList hxs, search_ofList hys]
  exact (ht.findEntry hkey hall).lift

/-! ## Arithmetic -/

theorem asInts {x₁ x₂ y₁ y₂ : Handle} (op : String) (hx : Handle.Twin m n k x₁ x₂)
    (hy : Handle.Twin m n k y₁ y₂) :
    Agree Failure.Refusal Eq (heap₁.asInts op x₁ y₁) (heap₂.asInts op x₂ y₂) := by
  rw [asInts_eq, asInts_eq]
  refine (ht.view hx).lift.bind fun a₁ a₂ ha => (ht.view hy).lift.bind fun b₁ b₂ hb => ?_
  cases ha with
  | none =>
      cases hb with
      | none => exact .error trivial
      | some hd => cases hd <;> exact .error trivial
  | some hc =>
      cases hb with
      | none => cases hc <;> exact .error trivial
      | some hd =>
          cases hc with
          | int value =>
              cases hd with
              | int value' => exact .ok rfl
              | pair hpq => exact .error trivial
              | sym hi hj => exact .error trivial
              | str text => exact .error trivial
          | pair hpq => cases hd <;> exact .error trivial
          | sym hi hj => cases hd <;> exact .error trivial
          | str text => cases hd <;> exact .error trivial

/-- Whatever is computed from two integers is the same on both sides. -/
theorem ofInts {α : Type} {x₁ x₂ y₁ y₂ : Handle} (op : String) (f : Int32 × Int32 → α)
    (hx : Handle.Twin m n k x₁ x₂) (hy : Handle.Twin m n k y₁ y₂) :
    Agree Failure.Refusal Eq (heap₁.asInts op x₁ y₁ >>= fun p => pure (f p))
      (heap₂.asInts op x₂ y₂ >>= fun p => pure (f p)) :=
  (ht.asInts op hx hy).bind fun _ _ h => .ok (congrArg f h)

theorem gt {x₁ x₂ y₁ y₂ : Handle} (hx : Handle.Twin m n k x₁ x₂)
    (hy : Handle.Twin m n k y₁ y₂) :
    Agree Failure.Refusal Eq (heap₁.gt x₁ y₁) (heap₂.gt x₂ y₂) :=
  ht.ofInts "GT" (fun p => decide (p.2 < p.1)) hx hy

theorem mul {x₁ x₂ y₁ y₂ : Handle} (hx : Handle.Twin m n k x₁ x₂)
    (hy : Handle.Twin m n k y₁ y₂) :
    Agree Failure.Refusal Eq (heap₁.mul x₁ y₁) (heap₂.mul x₂ y₂) :=
  ht.ofInts "MUL" (fun p => p.1 * p.2) hx hy

theorem sub {x₁ x₂ y₁ y₂ : Handle} (hx : Handle.Twin m n k x₁ x₂)
    (hy : Handle.Twin m n k y₁ y₂) :
    Agree Failure.Refusal Eq (heap₁.sub x₁ y₁) (heap₂.sub x₂ y₂) :=
  ht.ofInts "SUB" (fun p => p.1 - p.2) hx hy

/-! ## What a handle stands for -/

theorem denotes {e : SExpr} (hv : Handle.Twin m n k v₁ v₂) (h : heap₁.Denotes v₁ e) :
    heap₂.Denotes v₂ e := by
  induction h generalizing v₂ with
  | nil =>
      rw [ht.eq_nil hv]
      exact .nil
  | int hcell =>
      obtain ⟨c₂, hc₂, hc⟩ := ht.look_cell hv hcell
      cases hc
      exact .int hc₂
  | sym hcell hname =>
      obtain ⟨c₂, hc₂, hc⟩ := ht.look_cell hv hcell
      cases hc with
      | sym hi hj =>
          obtain rfl := Option.some.inj (hi.symm.trans hname)
          exact .sym hc₂ hj
  | str hcell =>
      obtain ⟨c₂, hc₂, hc⟩ := ht.look_cell hv hcell
      cases hc
      exact .str hc₂
  | pair hcell _ _ ihhead ihrest =>
      obtain ⟨q, hq, hpq⟩ := ht.look_pair hv hcell
      exact .pair hq (ihhead hpq.head) (ihrest hpq.rest)

/-- Corresponding handles stand for one expression, and the printer writes it for both. -/
theorem exists_emit (hv : Handle.Twin m n k v₁ v₂) :
    ∃ e : SExpr, heap₁.write v₁ = e.emit ∧ heap₂.write v₂ = e.emit := by
  have hv₁ := ht.has₁ hv
  obtain ⟨e, he⟩ := ht.sound₁.exists_denotes hv₁
  exact ⟨e, ht.sound₁.write_eq_emit hv₁ he,
    ht.sound₂.write_eq_emit (ht.has₂ hv) (ht.denotes hv he)⟩

end Heap.Twin

end Twins

end LispHeap

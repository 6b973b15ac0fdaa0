import LispHeap.Proofs.Twins

/-!
# The operations keep in step

Two tasks whose heaps are twins and that print to equal places are told apart by no operation. Run
the same one on both with arguments that correspond, and the two runs end in the same way: both
return, with values that correspond, or both stop with the same failure. The tasks they leave are
twins again, and since twins have the same number of added boxes, both heaps have grown by the same
number.

`Lockstep` relates the two results. It is closed under sequencing, so a primitive needs no more than
the lemmas for its parts, and each part that only asks is a lemma about heaps. What remains for this
file are the parts that place boxes and the one that prints.

The failures that may occur are named in the relation. A library operation may refuse; an entry
point may stop with the text of a refusal, with a length that no integer can hold, or with an output
that takes no more. None of them may fault.
-/

namespace LispHeap

/-- Tasks on corresponding heaps that have printed the same. -/
structure Task.Twin (m n k : Nat) (task₁ task₂ : Task) : Prop where
  heap : Heap.Twin m n k task₁.heap task₂.heap
  out : task₁.out = task₂.out

/-- Results of two runs that began with `k` added boxes and kept in step. -/
inductive Lockstep {ε α : Type} (m n k : Nat) (allowed : ε → Prop)
    (good : Nat → Task → α → α → Prop) :
    EStateM.Result ε Task α → EStateM.Result ε Task α → Prop where
  | ok {k' : Nat} {a b : α} {task₁ task₂ : Task} (hk : k ≤ k')
      (ht : Task.Twin m n k' task₁ task₂) (h : good k' task₁ a b) :
      Lockstep m n k allowed good (.ok a task₁) (.ok b task₂)
  | error {k' : Nat} {e : ε} {task₁ task₂ : Task} (hk : k ≤ k')
      (ht : Task.Twin m n k' task₁ task₂) (h : allowed e) :
      Lockstep m n k allowed good (.error e task₁) (.error e task₂)

/-! ## How two returned values are related -/

/-- Handles that correspond. -/
def Handles (m n : Nat) : Nat → Task → Handle → Handle → Prop :=
  fun k _ v₁ v₂ => Handle.Twin m n k v₁ v₂

/-- Handles that correspond and are lists. -/
def Lists (m n : Nat) : Nat → Task → Handle → Handle → Prop :=
  fun k task l₁ l₂ => Handle.Twin m n k l₁ l₂ ∧ task.heap.IsList l₁

/-- Values that are equal. -/
def Same {α : Type} : Nat → Task → α → α → Prop := fun _ _ a b => a = b

/-- Related values, given by a run that did nothing to its task. -/
def Unmoved {α : Type} (k : Nat) (task : Task) (good : α → α → Prop) :
    Nat → Task → α → α → Prop :=
  fun k' left a b => k' = k ∧ left = task ∧ good a b

/-- What operations give when it is not wrapped into a handle: handles correspond, the rest is the
same. -/
inductive Call.Value.Twin (m n k : Nat) : Call.Value → Call.Value → Prop where
  | handle {v₁ v₂ : Handle} (h : Handle.Twin m n k v₁ v₂) : Twin m n k (.handle v₁) (.handle v₂)
  | truth (b : Bool) : Twin m n k (.truth b) (.truth b)
  | number (i : Int) : Twin m n k (.number i) (.number i)

/-- Results of operations that correspond. -/
def Values (m n : Nat) : Nat → Task → Call.Value → Call.Value → Prop :=
  fun k _ x y => Call.Value.Twin m n k x y

/-- The stops that an entry point may come to. -/
inductive Stop.Documented : Stop → Prop where
  | refusal (e : Error) : Documented (.failed e.message)
  | tooLong {n : Nat} (h : 2147483648 ≤ n) :
      Documented (.failed ("length: " ++ n.repr ++ " does not fit in an Int"))
  | full : Documented (.failed ("Unable to print: " ++ WriteStop.full.message))
  | noSpace : Documented (.failed ("Unable to print: " ++ WriteStop.noSpace.message))

/-- One primitive with arguments that are related one by one. -/
inductive Call.Twin (R : Handle → Handle → Prop) : Call → Call → Prop where
  | cons {x₁ x₂ y₁ y₂ : Handle} (hx : R x₁ x₂) (hy : R y₁ y₂) : Twin R (.cons x₁ y₁) (.cons x₂ y₂)
  | access (accessor : Accessor) {v₁ v₂ : Handle} (hv : R v₁ v₂) :
      Twin R (.access accessor v₁) (.access accessor v₂)
  | list {xs ys : List Handle} (h : List.Forall₂ R xs ys) : Twin R (.list xs) (.list ys)
  | length {v₁ v₂ : Handle} (hv : R v₁ v₂) : Twin R (.length v₁) (.length v₂)
  | null {v₁ v₂ : Handle} (hv : R v₁ v₂) : Twin R (.null v₁) (.null v₂)
  | append {x₁ x₂ y₁ y₂ : Handle} (hx : R x₁ x₂) (hy : R y₁ y₂) :
      Twin R (.append x₁ y₁) (.append x₂ y₂)
  | assoc {x₁ x₂ y₁ y₂ : Handle} (hx : R x₁ x₂) (hy : R y₁ y₂) :
      Twin R (.assoc x₁ y₁) (.assoc x₂ y₂)
  | atom {v₁ v₂ : Handle} (hv : R v₁ v₂) : Twin R (.atom v₁) (.atom v₂)
  | eq {x₁ x₂ y₁ y₂ : Handle} (hx : R x₁ x₂) (hy : R y₁ y₂) : Twin R (.eq x₁ y₁) (.eq x₂ y₂)
  | numberp {v₁ v₂ : Handle} (hv : R v₁ v₂) : Twin R (.numberp v₁) (.numberp v₂)
  | not {v₁ v₂ : Handle} (hv : R v₁ v₂) : Twin R (.not v₁) (.not v₂)
  | and {x₁ x₂ y₁ y₂ : Handle} (hx : R x₁ x₂) (hy : R y₁ y₂) : Twin R (.and x₁ y₁) (.and x₂ y₂)
  | or {x₁ x₂ y₁ y₂ : Handle} (hx : R x₁ x₂) (hy : R y₁ y₂) : Twin R (.or x₁ y₁) (.or x₂ y₂)
  | assert {v₁ v₂ : Handle} (hv : R v₁ v₂) : Twin R (.assert v₁) (.assert v₂)
  | gt {x₁ x₂ y₁ y₂ : Handle} (hx : R x₁ x₂) (hy : R y₁ y₂) : Twin R (.gt x₁ y₁) (.gt x₂ y₂)
  | mul {x₁ x₂ y₁ y₂ : Handle} (hx : R x₁ x₂) (hy : R y₁ y₂) : Twin R (.mul x₁ y₁) (.mul x₂ y₂)
  | sub {x₁ x₂ y₁ y₂ : Handle} (hx : R x₁ x₂) (hy : R y₁ y₂) : Twin R (.sub x₁ y₁) (.sub x₂ y₂)
  | print {v₁ v₂ : Handle} (hv : R v₁ v₂) : Twin R (.print v₁) (.print v₂)

theorem Call.twin_self {R : Handle → Handle → Prop} (call : Call)
    (h : ∀ v ∈ call.handles, R v v) : Call.Twin R call call := by
  cases call with
  | list elems => exact .list (List.forall₂_same.mpr h)
  | _ => constructor <;> exact h _ (by simp [Call.handles])

theorem Call.twin_make? {R : Handle → Handle → Prop} {xs ys : List Handle} (p : Primitive)
    (h : List.Forall₂ R xs ys) :
    Option.Rel (Call.Twin R) (Call.make? p xs) (Call.make? p ys) := by
  cases p with
  | list => exact .some (.list h)
  | cons | append | assoc | eq | and | or | gt | mul | sub =>
      rcases h with _ | ⟨hx, _ | ⟨hy, _ | ⟨_, _⟩⟩⟩
      · exact .none
      · exact .none
      · exact .some (by constructor <;> assumption)
      · exact .none
  | access | length | null | atom | numberp | not | assert | print =>
      rcases h with _ | ⟨hx, _ | ⟨_, _⟩⟩
      · exact .none
      · exact .some (by constructor; assumption)
      · exact .none

section Operations

variable {m n k : Nat} {task₁ task₂ : Task}

/-! ## Sequencing -/

section Combinators

variable {ε α β : Type} {allowed : ε → Prop} {good : Nat → Task → α → α → Prop}
  {good' : Nat → Task → β → β → Prop}

theorem Lockstep.mono {k₀ : Nat} {r₁ r₂ : EStateM.Result ε Task α}
    (h : Lockstep m n k allowed good r₁ r₂) (hk : k₀ ≤ k) :
    Lockstep m n k₀ allowed good r₁ r₂ := by
  cases h with
  | ok hk' ht hg => exact .ok (Nat.le_trans hk hk') ht hg
  | error hk' ht he => exact .error (Nat.le_trans hk hk') ht he

theorem Lockstep.imp {good₀ : Nat → Task → α → α → Prop} {r₁ r₂ : EStateM.Result ε Task α}
    (h : Lockstep m n k allowed good r₁ r₂)
    (himp : ∀ k' task a b, good k' task a b → good₀ k' task a b) :
    Lockstep m n k allowed good₀ r₁ r₂ := by
  cases h with
  | ok hk ht hg => exact .ok hk ht (himp _ _ _ _ hg)
  | error hk ht he => exact .error hk ht he

theorem Lockstep.bind {x₁ x₂ : EStateM ε Task α} {f₁ f₂ : α → EStateM ε Task β}
    (h : Lockstep m n k allowed good (x₁ task₁) (x₂ task₂))
    (hf : ∀ k' left₁ left₂ a b, k ≤ k' → Task.Twin m n k' left₁ left₂ → good k' left₁ a b →
      Lockstep m n k' allowed good' (f₁ a left₁) (f₂ b left₂)) :
    Lockstep m n k allowed good' ((x₁ >>= f₁) task₁) ((x₂ >>= f₂) task₂) := by
  show Lockstep m n k allowed good' (EStateM.bind x₁ f₁ task₁) (EStateM.bind x₂ f₂ task₂)
  rw [EStateM.bind, EStateM.bind]
  generalize x₁ task₁ = r₁ at h ⊢
  generalize x₂ task₂ = r₂ at h ⊢
  cases h with
  | ok hk ht hg => exact (hf _ _ _ _ _ hk ht hg).mono hk
  | error hk ht he => exact .error hk ht he

theorem lockstep_pure {a b : α} (ht : Task.Twin m n k task₁ task₂) (h : good k task₁ a b) :
    Lockstep m n k allowed good ((pure a : EStateM ε Task α) task₁)
      ((pure b : EStateM ε Task α) task₂) :=
  .ok (Nat.le_refl k) ht h

theorem Lockstep.map {x₁ x₂ : EStateM ε Task α} (f : α → β)
    (h : Lockstep m n k allowed good (x₁ task₁) (x₂ task₂))
    (hf : ∀ k' task a b, good k' task a b → good' k' task (f a) (f b)) :
    Lockstep m n k allowed good' ((f <$> x₁) task₁) ((f <$> x₂) task₂) := by
  rw [map_eq_pure_bind, map_eq_pure_bind]
  exact h.bind fun k' left₁ left₂ a b _ ht hg => lockstep_pure ht (hf k' left₁ a b hg)

theorem lockstep_ask {good : α → α → Prop} {q₁ q₂ : Heap → Except Failure α}
    (ht : Task.Twin m n k task₁ task₂)
    (h : Agree Failure.Refusal good (q₁ task₁.heap) (q₂ task₂.heap)) :
    Lockstep m n k Failure.Refusal (Unmoved k task₁ good) (Op.ask q₁ task₁)
      (Op.ask q₂ task₂) := by
  rw [Op.ask, Op.ask]
  generalize q₁ task₁.heap = r₁ at h ⊢
  generalize q₂ task₂.heap = r₂ at h ⊢
  cases h with
  | ok hab => exact .ok (Nat.le_refl k) ht ⟨rfl, rfl, hab⟩
  | error he => exact .error (Nat.le_refl k) ht he

theorem lockstep_look {good : α → α → Prop} {q₁ q₂ : Heap → Except Fault α}
    {allowed : Failure → Prop} (ht : Task.Twin m n k task₁ task₂)
    (h : Agree Fault.Never good (q₁ task₁.heap) (q₂ task₂.heap)) :
    Lockstep m n k allowed (Unmoved k task₁ good) (Op.look q₁ task₁) (Op.look q₂ task₂) := by
  obtain ⟨a, b, ha, hb, hab⟩ := h.values
  rw [Op.look, Op.look, ha, hb]
  exact .ok (Nat.le_refl k) ht ⟨rfl, rfl, hab⟩

/-- An entry point keeps in step if the operation behind it does: a refusal has one text. -/
theorem lockstep_ofOp {op₁ op₂ : Op α}
    (h : Lockstep m n k Failure.Refusal good (op₁ task₁) (op₂ task₂)) :
    Lockstep m n k Stop.Documented good (Entry.ofOp op₁ task₁) (Entry.ofOp op₂ task₂) := by
  rw [Entry.ofOp, Entry.ofOp]
  generalize op₁ task₁ = r₁ at h ⊢
  generalize op₂ task₂ = r₂ at h ⊢
  cases h with
  | ok hk ht hg => exact .ok hk ht hg
  | @error k' e left₁ left₂ hk ht he =>
      cases e with
      | fault f => exact he.elim
      | refused e => exact .error hk ⟨ht.heap, ht.out⟩ (.refusal e)

end Combinators

/-! ## Placing boxes -/

section Placing

variable {allowed : Failure → Prop}

theorem lockstep_place {c₁ c₂ : Cell} (ht : Task.Twin m n k task₁ task₂)
    (hc : Cell.Twin m n k task₁.heap.symbols task₂.heap.symbols c₁ c₂)
    (hs₁ : (task₁.heap.push c₁).Sound) (hs₂ : (task₂.heap.push c₂).Sound) :
    Lockstep m n k allowed
      (fun k' task v₁ v₂ => Handle.Twin m n k' v₁ v₂ ∧ task.heap.cell? v₁ = some c₁)
      (Op.place c₁ task₁) (Op.place c₂ task₂) := by
  refine .ok (Nat.le_succ k) ⟨ht.heap.push hc hs₁ hs₂, ht.out⟩ ⟨ht.heap.next c₁ c₂, ?_⟩
  rw [Heap.size_push]
  exact Heap.cell?_push_self task₁.heap c₁

theorem lockstep_placeAtom {c₁ c₂ : Cell} (ht : Task.Twin m n k task₁ task₂)
    (hc : Cell.Twin m n k task₁.heap.symbols task₂.heap.symbols c₁ c₂) (htag : c₁.tag ≠ .pair) :
    Lockstep m n k allowed (Handles m n) (Op.place c₁ task₁) (Op.place c₂ task₂) := by
  obtain ⟨hs₁, hs₂⟩ := ht.heap.sound_push_atom hc htag
  exact (lockstep_place ht hc hs₁ hs₂).imp fun _ _ _ _ h => h.1

theorem lockstep_newAtom (atom : Atom) (ht : Task.Twin m n k task₁ task₂) :
    Lockstep m n k allowed (Handles m n) (Op.newAtom atom task₁) (Op.newAtom atom task₂) := by
  cases atom with
  | int value => exact lockstep_placeAtom ht (.int value) (by simp [Cell.tag])
  | str text => exact lockstep_placeAtom ht (.str text) (by simp [Cell.tag])
  | sym name =>
      -- The name is interned on both sides first, and the two numbers it gets may differ.
      have hnamed : Task.Twin m n k { task₁ with heap := (task₁.heap.intern name).2 }
          { task₂ with heap := (task₂.heap.intern name).2 } := ⟨ht.heap.intern name, ht.out⟩
      have hname₁ := SymbolTable.name?_intern_self task₁.heap.symbols name
      have hname₂ := SymbolTable.name?_intern_self task₂.heap.symbols name
      exact lockstep_placeAtom hnamed (.sym hname₁ hname₂) (by simp [Cell.tag])

theorem look_bind {α β : Type} {q : Heap → Except Fault α} {f : α → Op β} {task : Task} {a : α}
    (h : q task.heap = .ok a) : (Op.look q >>= f) task = f a task := by
  show EStateM.bind (Op.look q) f task = f a task
  rw [EStateM.bind, Op.look, h]

theorem lockstep_newPair {x₁ x₂ l₁ l₂ : Handle} (ht : Task.Twin m n k task₁ task₂)
    (hx : Handle.Twin m n k x₁ x₂) (hl : Handle.Twin m n k l₁ l₂)
    (hlist : task₁.heap.IsList l₁) :
    Lockstep m n k allowed (Lists m n) (Op.newPair x₁ l₁ task₁) (Op.newPair x₂ l₂ task₂) := by
  obtain ⟨len, _, hlen₁, hlen₂, rfl⟩ := (ht.heap.listLength hl hlist).values
  rw [Op.newPair, Op.newPair, Op.newPairWithin, Op.newPairWithin,
    look_bind (q := (·.listLength l₁)) hlen₁, look_bind (q := (·.listLength l₂)) hlen₂]
  have hs₁ := ht.heap.sound₁.push_pair hlen₁ (ht.heap.has₁ hx)
  have hs₂ := ht.heap.sound₂.push_pair hlen₂ (ht.heap.has₂ hx)
  have hpair : Pair.Twin m n k ⟨len + 1, x₁, l₁⟩ ⟨len + 1, x₂, l₂⟩ := ⟨rfl, hx, hl⟩
  exact (lockstep_place ht (.pair hpair) hs₁ hs₂).imp
    fun _ _ _ _ h => ⟨h.1, Or.inr ⟨_, h.2⟩⟩

theorem lockstep_listOnto {xs ys : List Handle} {l₁ l₂ : Handle}
    (ht : Task.Twin m n k task₁ task₂) (hxs : List.Forall₂ (Handle.Twin m n k) xs ys)
    (hl : Handle.Twin m n k l₁ l₂) (hlist : task₁.heap.IsList l₁) :
    Lockstep m n k allowed (Lists m n) (Op.listOnto xs l₁ task₁) (Op.listOnto ys l₂ task₂) := by
  induction hxs with
  | nil => exact lockstep_pure ht ⟨hl, hlist⟩
  | cons hx _ ih =>
      show Lockstep m n k allowed (Lists m n) ((Op.listOnto _ l₁ >>= Op.newPair _) task₁)
        ((Op.listOnto _ l₂ >>= Op.newPair _) task₂)
      exact ih.bind fun k' left₁ left₂ r₁ r₂ hk ht' hr =>
        lockstep_newPair ht' (hx.mono hk) hr.1 hr.2

end Placing

/-! ## The operations that build lists -/

theorem Lists.handles {left : Task} {l₁ l₂ : Handle} (h : Lists m n k left l₁ l₂) :
    Handles m n k left l₁ l₂ := h.1

theorem lockstep_newList {xs ys : List Handle} (ht : Task.Twin m n k task₁ task₂)
    (hxs : List.Forall₂ (Handle.Twin m n k) xs ys) :
    Lockstep m n k Failure.Refusal (Handles m n) (Op.newList xs task₁) (Op.newList ys task₂) :=
  (lockstep_listOnto ht hxs .nil (Or.inl rfl)).imp fun _ _ _ _ => Lists.handles

theorem lockstep_cons {x₁ x₂ y₁ y₂ : Handle} (ht : Task.Twin m n k task₁ task₂)
    (hx : Handle.Twin m n k x₁ x₂) (hy : Handle.Twin m n k y₁ y₂) :
    Lockstep m n k Failure.Refusal (Handles m n) (Op.cons x₁ y₁ task₁) (Op.cons x₂ y₂ task₂) := by
  have onto : ∀ {k' : Nat} {left₁ left₂ : Task} {l₁ l₂ : Handle}, k ≤ k' →
      Task.Twin m n k' left₁ left₂ → Handle.Twin m n k' l₁ l₂ → left₁.heap.IsList l₁ →
      Lockstep m n k' Failure.Refusal (Handles m n) (Op.newPair x₁ l₁ left₁)
        (Op.newPair x₂ l₂ left₂) :=
    fun hk ht' hl hlist =>
      (lockstep_newPair ht' (hx.mono hk) hl hlist).imp fun _ _ _ _ => Lists.handles
  rw [Op.cons, Op.cons, Op.consWithin, Op.consWithin]
  rcases ht.heap.look hy with ⟨rfl, rfl⟩ | ⟨c₁, c₂, hc₁, hc₂, hc⟩
  · rw [look_bind (q := (·.tag .nil)) (Heap.tag_nil _),
      look_bind (q := (·.tag .nil)) (Heap.tag_nil _)]
    exact onto (Nat.le_refl k) ht .nil (Or.inl rfl)
  · rw [look_bind (q := (·.tag y₁)) (Heap.tag_of_cell? hc₁),
      look_bind (q := (·.tag y₂)) (Heap.tag_of_cell? hc₂)]
    cases hc with
    | pair hpq => exact onto (Nat.le_refl k) ht hy (Or.inr ⟨_, hc₁⟩)
    | int value =>
        -- An integer tail is first put into a list of its own.
        exact (lockstep_newPair ht hy .nil (Or.inl rfl)).bind
          fun k' left₁ left₂ l₁ l₂ hk ht' hl => onto hk ht' hl.1 hl.2
    | sym hi hj => exact .error (Nat.le_refl k) ht trivial
    | str text => exact .error (Nat.le_refl k) ht trivial

theorem lockstep_append {x₁ x₂ y₁ y₂ : Handle} (ht : Task.Twin m n k task₁ task₂)
    (hx : Handle.Twin m n k x₁ x₂) (hy : Handle.Twin m n k y₁ y₂) :
    Lockstep m n k Failure.Refusal (Handles m n) (Op.append x₁ y₁ task₁)
      (Op.append x₂ y₂ task₂) := by
  rw [Op.append, Op.append, Op.appendWithin, Op.appendWithin]
  refine (lockstep_ask ht (ht.heap.asList "append" hx)).bind ?_
  rintro _ _ mid₂ front₁ front₂ - hmid ⟨rfl, rfl, hfront, hfront_list⟩
  refine (lockstep_ask hmid (hmid.heap.asList "append" hy)).bind ?_
  rintro _ _ late₂ back₁ back₂ - hlate ⟨rfl, rfl, hback, hback_list⟩
  refine (lockstep_look hlate (hlate.heap.elements front₁ hfront_list front₂ hfront)).bind ?_
  rintro _ _ last₂ xs ys - hlast ⟨rfl, rfl, hxs⟩
  exact (lockstep_listOnto hlast hxs hback hback_list).imp fun _ _ _ _ => Lists.handles

/-! ## Printing -/

theorem lockstep_print {v₁ v₂ : Handle} (ht : Task.Twin m n k task₁ task₂)
    (hv : Handle.Twin m n k v₁ v₂) :
    Lockstep m n k Stop.Documented Same (Entry.print v₁ task₁) (Entry.print v₂ task₂) := by
  obtain ⟨e, he₁, he₂⟩ := ht.heap.exists_emit hv
  have hsame : task₂.heap.print v₂ = task₁.heap.print v₁ := by
    rw [Heap.print, Heap.print, he₁, he₂]
  have hsafe := ht.heap.sound₁.faultless_print (ht.heap.has₁ hv)
  rw [Entry.print, Entry.print, hsame, ← ht.out]
  cases hw : task₁.heap.print v₁ task₁.out with
  | ok _ out => exact .ok (Nat.le_refl k) ⟨ht.heap, rfl⟩ rfl
  | error stop out =>
      cases stop with
      | fault f => exact (hsafe _ f out hw).elim
      | full => exact .error (Nat.le_refl k) ⟨ht.heap, rfl⟩ .full
      | noSpace => exact .error (Nat.le_refl k) ⟨ht.heap, rfl⟩ .noSpace

/-! ## The primitives -/

theorem lockstep_find {q₁ q₂ : Heap → Except Failure Handle} (ht : Task.Twin m n k task₁ task₂)
    (h : Agree Failure.Refusal (Handle.Twin m n k) (q₁ task₁.heap) (q₂ task₂.heap)) :
    Lockstep m n k Failure.Refusal (Handles m n) (Op.ask q₁ task₁) (Op.ask q₂ task₂) := by
  refine (lockstep_ask ht h).imp ?_
  rintro _ _ v₁ v₂ ⟨rfl, _, hv⟩
  exact hv

theorem lockstep_verdict {b₁ b₂ : Bool} (ht : Task.Twin m n k task₁ task₂) (h : b₁ = b₂) :
    Lockstep m n k Stop.Documented (Handles m n)
      ((pure (.ofBool b₁) : Entry Handle) task₁) ((pure (.ofBool b₂) : Entry Handle) task₂) := by
  subst h
  exact lockstep_pure ht (Handle.Twin.ofBool b₁)

/-- A question whose answer is given as `t` or the empty list. -/
theorem lockstep_truth {op₁ op₂ : Op Bool}
    (h : Lockstep m n k Failure.Refusal (Unmoved k task₁ Eq) (op₁ task₁) (op₂ task₂)) :
    Lockstep m n k Stop.Documented (Handles m n)
      ((do return .ofBool (← Entry.ofOp op₁) : Entry Handle) task₁)
      ((do return .ofBool (← Entry.ofOp op₂) : Entry Handle) task₂) :=
  (lockstep_ofOp h).bind fun _ _ _ _ _ _ ht hb => lockstep_verdict ht hb.2.2

/-- A question whose answer is given as a new integer. -/
theorem lockstep_number {op₁ op₂ : Op Int32}
    (h : Lockstep m n k Failure.Refusal (Unmoved k task₁ Eq) (op₁ task₁) (op₂ task₂)) :
    Lockstep m n k Stop.Documented (Handles m n)
      ((do let value ← Entry.ofOp op₁; .ofOp (.newInt value) : Entry Handle) task₁)
      ((do let value ← Entry.ofOp op₂; .ofOp (.newInt value) : Entry Handle) task₂) := by
  refine (lockstep_ofOp h).bind fun k' left₁ left₂ a b _ ht hab => ?_
  obtain ⟨_, _, rfl⟩ := hab
  exact lockstep_ofOp (lockstep_newAtom (.int a) ht)

/-- The entry points keep in step and stop with nothing but documented texts. -/
theorem lockstep_enter {call₁ call₂ : Call} (ht : Task.Twin m n k task₁ task₂)
    (hc : Call.Twin (Handle.Twin m n k) call₁ call₂) :
    Lockstep m n k Stop.Documented (Handles m n) (call₁.enter task₁) (call₂.enter task₂) := by
  cases hc with
  | cons hx hy => exact lockstep_ofOp (lockstep_cons ht hx hy)
  | access accessor hv =>
      exact lockstep_ofOp (lockstep_find ht (ht.heap.follow accessor.path hv))
  | list hxs => exact lockstep_ofOp (lockstep_newList ht hxs)
  | length hv =>
      refine (lockstep_ofOp (lockstep_ask ht (ht.heap.length hv))).bind ?_
      rintro k' left₁ left₂ len _ - ht' ⟨-, -, rfl⟩
      by_cases hlen : len < 2147483648
      · rw [if_pos hlen]
        exact lockstep_ofOp (lockstep_newAtom _ ht')
      · rw [if_neg hlen]
        exact .error (Nat.le_refl k') ⟨ht'.heap, ht'.out⟩ (.tooLong (Nat.le_of_not_lt hlen))
  | null hv => exact lockstep_verdict ht hv.isNil
  | append hx hy => exact lockstep_ofOp (lockstep_append ht hx hy)
  | assoc hx hy => exact lockstep_ofOp (lockstep_find ht (ht.heap.assoc hx hy))
  | atom hv => exact lockstep_truth (lockstep_look ht (ht.heap.isAtom hv))
  | eq hx hy => exact lockstep_truth (lockstep_look ht (ht.heap.eq hx hy))
  | numberp hv => exact lockstep_truth (lockstep_look ht (ht.heap.isA .int hv))
  | not hv => exact lockstep_verdict ht hv.isNil
  | and hx hy => exact lockstep_verdict ht (by rw [hx.isNil, hy.isNil])
  | or hx hy => exact lockstep_verdict ht (by rw [hx.isNil, hy.isNil])
  | assert hv =>
      exact (lockstep_ofOp (lockstep_ask ht hv.checkAssertion)).bind
        fun _ _ _ _ _ _ ht' _ => lockstep_pure ht' .nil
  | gt hx hy => exact lockstep_truth (lockstep_ask ht (ht.heap.gt hx hy))
  | mul hx hy => exact lockstep_number (lockstep_ask ht (ht.heap.mul hx hy))
  | sub hx hy => exact lockstep_number (lockstep_ask ht (ht.heap.sub hx hy))
  | print hv =>
      exact (lockstep_print ht hv).bind fun _ _ _ _ _ _ ht' _ => lockstep_pure ht' .nil

theorem lockstep_handle {op₁ op₂ : Op Handle}
    (h : Lockstep m n k Failure.Refusal (Handles m n) (op₁ task₁) (op₂ task₂)) :
    Lockstep m n k Failure.Refusal (Values m n) ((Call.Value.handle <$> op₁) task₁)
      ((Call.Value.handle <$> op₂) task₂) :=
  h.map _ fun _ _ _ _ hv => .handle hv

theorem lockstep_plain {α : Type} {op₁ op₂ : Op α} {f : α → Call.Value}
    (h : Lockstep m n k Failure.Refusal (Unmoved k task₁ Eq) (op₁ task₁) (op₂ task₂))
    (hf : ∀ a, Call.Value.Twin m n k (f a) (f a)) :
    Lockstep m n k Failure.Refusal (Values m n) ((f <$> op₁) task₁) ((f <$> op₂) task₂) := by
  refine h.map f ?_
  rintro _ _ a _ ⟨rfl, _, rfl⟩
  exact hf a

/-- The operations behind the entry points keep in step and fail with nothing but refusals. -/
theorem lockstep_run {call₁ call₂ : Call} (ht : Task.Twin m n k task₁ task₂)
    (hc : Call.Twin (Handle.Twin m n k) call₁ call₂) :
    Option.Rel (fun op₁ op₂ => Lockstep m n k Failure.Refusal (Values m n) (op₁ task₁) (op₂ task₂))
      call₁.run? call₂.run? := by
  cases hc with
  | cons hx hy => exact .some (lockstep_handle (lockstep_cons ht hx hy))
  | access accessor hv =>
      exact .some (lockstep_handle (lockstep_find ht (ht.heap.follow accessor.path hv)))
  | list hxs => exact .some (lockstep_handle (lockstep_newList ht hxs))
  | length hv =>
      refine .some (lockstep_plain (lockstep_ask ht ?_) fun i => .number i)
      exact (ht.heap.length hv).bind fun a b h => .ok (congrArg Nat.cast h)
  | null hv =>
      refine .some (lockstep_pure ht ?_)
      rw [hv.isNil]
      exact .truth _
  | append hx hy => exact .some (lockstep_handle (lockstep_append ht hx hy))
  | assoc hx hy => exact .some (lockstep_handle (lockstep_find ht (ht.heap.assoc hx hy)))
  | atom hv => exact .some (lockstep_plain (lockstep_look ht (ht.heap.isAtom hv)) fun _ => .truth _)
  | eq hx hy => exact .some (lockstep_plain (lockstep_look ht (ht.heap.eq hx hy)) fun _ => .truth _)
  | assert hv => exact .some (lockstep_plain (lockstep_ask ht hv.checkAssertion) fun _ => .truth _)
  | gt hx hy => exact .some (lockstep_plain (lockstep_ask ht (ht.heap.gt hx hy)) fun _ => .truth _)
  | mul hx hy =>
      exact .some (lockstep_plain (lockstep_ask ht (ht.heap.mul hx hy)) fun _ => .number _)
  | sub hx hy =>
      exact .some (lockstep_plain (lockstep_ask ht (ht.heap.sub hx hy)) fun _ => .number _)
  | numberp | not | and | or | print => exact .none

end Operations

end LispHeap

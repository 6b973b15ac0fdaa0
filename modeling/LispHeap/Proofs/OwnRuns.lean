import LispHeap.Proofs.Lockstep

/-!
# Runs on handles of their own do not fault

A caller that uses only what the heap has given it, and passes a handle as a list only after a
narrowing has found it to be one, keeps the heap sound, and none of its calls faults. The argument
is an invariant of sessions: the heap is sound, every known value is a value of the heap, and every
known list is a list.

One step keeps the invariant because a sound heap is a twin of itself. Each operation has been shown
to keep two twins in step and to stop with nothing but what is documented; read with the same heap
on both sides, this says that the operation leaves a sound heap, returns a handle of it, and does
not fault. What was known before stays known because boxes never change.
-/

namespace LispHeap

/-! ## A sound heap is its own twin -/

theorem Handle.twin_self {k : Nat} {v : Handle} (h : v.index ≤ k + 1) :
    Handle.Twin 1 1 k v v := by
  obtain ⟨i⟩ := v
  match i, h with
  | 0, _ => exact .nil
  | 1, _ => exact .t
  | j + 2, h =>
      have hj : j < k := by
        simp only at h
        omega
      have hbox : (⟨j + 2⟩ : Handle) = ⟨1 + j + 1⟩ := congrArg Handle.mk (by omega)
      rw [hbox]
      exact .box hj

theorem Heap.Sound.twin_self {heap : Heap} (hs : heap.Sound) :
    Heap.Twin 1 1 (heap.size - 1) heap heap := by
  have hpos : 1 ≤ heap.size := hs.has_t
  refine ⟨hs, hs, by omega, by omega, fun {j} hj => ?_⟩
  obtain ⟨c, hc⟩ : ∃ c, heap.cell? ⟨1 + j + 1⟩ = some c :=
    exists_cell? (Nat.succ_pos _) (by simp only; omega)
  refine ⟨c, c, hc, hc, ?_⟩
  cases c with
  | int value => exact .int value
  | str text => exact .str text
  | sym id =>
      obtain ⟨name, hname⟩ := hs.exists_name? hc
      exact .sym hname hname
  | pair node =>
      have hhead : node.head.index < 1 + j + 1 := hs.grounded hc
      have hrest : node.rest.index < 1 + j + 1 := hs.toProper.rest_lt hc
      exact .pair ⟨rfl, Handle.twin_self (by omega), Handle.twin_self (by omega)⟩

theorem Heap.Has.twin_self {heap : Heap} {v : Handle} (h : heap.Has v) :
    Handle.Twin 1 1 (heap.size - 1) v v := by
  have hle : v.index ≤ heap.size := h
  exact Handle.twin_self (by omega)

/-! ## What an operation leaves -/

/-- The outcomes that are documented: all but faults. -/
inductive Outcome.Orderly : Outcome → Prop where
  | value (v : Call.Value) : Orderly (.value v)
  | symbol (id : SymbolId) : Orderly (.symbol id)
  | absent : Orderly .absent
  | refused (e : Error) : Orderly (.refused e)
  | stopped {s : Stop} (h : s.Documented) : Orderly (.stopped s)

/-- An operation ended in order, on a sound heap that has the handle it returned. -/
structure Kept (result : Outcome × Task) : Prop where
  orderly : result.1.Orderly
  sound : result.2.heap.Sound
  returned : ∀ v, result.1.handle? = some v → result.2.heap.Has v

theorem kept_ofOp {α : Type} {m n k : Nat} {good : Nat → Task → α → α → Prop}
    {give : α → Outcome} {r : EStateM.Result Failure Task α}
    (h : Lockstep m n k Failure.Refusal good r r)
    (hgive : ∀ k' task a, Task.Twin m n k' task task → good k' task a a →
      (give a).Orderly ∧ ∀ v, (give a).handle? = some v → task.heap.Has v) :
    Kept (Outcome.ofOp give r) := by
  cases r with
  | ok a task =>
      cases h with
      | ok _ ht hg =>
          obtain ⟨horderly, hhas⟩ := hgive _ _ _ ht hg
          exact ⟨horderly, ht.heap.sound₁, hhas⟩
  | error e task =>
      cases h with
      | error _ ht he =>
          cases e with
          | fault f => exact he.elim
          | refused e => exact ⟨.refused e, ht.heap.sound₁, fun v hv => by cases hv⟩

theorem kept_handle {m n k : Nat} {r : EStateM.Result Failure Task Handle}
    (h : Lockstep m n k Failure.Refusal (Handles m n) r r) :
    Kept (Outcome.ofOp .returned r) := by
  refine kept_ofOp h fun k' task a ht ha => ⟨.value _, fun v hv => ?_⟩
  obtain rfl : a = v := Option.some.inj hv
  exact ht.heap.has₁ ha

theorem kept_entry {m n k : Nat} {r : EStateM.Result Stop Task Handle}
    (h : Lockstep m n k Stop.Documented (Handles m n) r r) : Kept (Outcome.ofEntry r) := by
  cases r with
  | ok a task =>
      cases h with
      | ok _ ht ha =>
          refine ⟨.value _, ht.heap.sound₁, fun v hv => ?_⟩
          obtain rfl : a = v := Option.some.inj hv
          exact ht.heap.has₁ ha
  | error s task =>
      cases h with
      | error _ ht hs => exact ⟨.stopped hs, ht.heap.sound₁, fun v hv => by cases hv⟩

/-! ## Narrowing to lists -/

/-- The only box that a type of lists accepts is a pair. -/
theorem BoxType.isList_accepts {type : BoxType} {tag : Tag} (htype : type.isList = true)
    (h : type.accepts (some tag) = true) : tag = .pair := by
  cases type with
  | any => cases htype
  | list => simpa [accepts] using h
  | tagged expected =>
      obtain rfl : tag = expected := by simpa [accepts] using h
      cases tag with
      | pair => rfl
      | int | sym | str => cases htype

theorem Heap.isList_of_narrow {heap : Heap} {type : BoxType} {v l : Handle}
    (htype : type.isList = true) (h : heap.narrow type v = .ok (some l)) : heap.IsList l := by
  rw [narrow] at h
  cases htag : heap.tag v with
  | error f => rw [htag] at h; cases h
  | ok found =>
      rw [htag] at h
      have hfound : (if type.accepts found = true then some v else none) = some l := Except.ok.inj h
      split at hfound
      · next haccepts =>
          obtain rfl := Option.some.inj hfound
          rcases tag_ok_cases htag with ⟨hnil, _⟩ | ⟨c, hc, rfl⟩
          · exact Or.inl hnil
          · have hpair := BoxType.isList_accepts htype haccepts
            cases c with
            | pair node => exact Or.inr ⟨node, hc⟩
            | int _ | sym _ | str _ => cases hpair
      · cases hfound

theorem perform_narrow {type : BoxType} {v l : Handle} {task : Task}
    (h : ((Operation.narrow type v).perform task).1.handle? = some l) :
    task.heap.narrow type v = .ok (some l) := by
  replace h : (Outcome.ofOp .ofNarrowed (Op.look (·.narrow type v) task)).1.handle? = some l := h
  rw [Op.look] at h
  cases hn : task.heap.narrow type v with
  | error f => rw [hn] at h; cases h
  | ok found =>
      rw [hn] at h
      cases found with
      | none => cases h
      | some w => rw [Option.some.inj h]

/-! ## The invariant of a session -/

namespace Session

variable {s : Session} {op : Operation}

/-- The heap is sound, and what the caller may use is there and is what it is taken for. -/
structure Sound (s : Session) : Prop where
  heap : s.task.heap.Sound
  known : ∀ v ∈ s.known, s.task.heap.Has v
  lists : ∀ l ∈ s.lists, s.task.heap.IsList l

theorem sound_start (names : List String) (out : Sink) : (start names out).Sound := by
  have hs : (start names out).task.heap.Sound := Heap.sound_fresh names
  refine ⟨hs, fun v hv => ?_, fun l hl => ?_⟩
  · rcases List.mem_cons.mp hv with rfl | hv
    · exact Nat.zero_le _
    · rw [List.mem_singleton.mp hv]
      exact hs.has_t
  · exact Or.inl (List.mem_singleton.mp hl)

/-- A permitted operation ends in order. -/
theorem Sound.perform (hs : s.Sound) (hp : s.permits op) : Kept (op.perform s.task) := by
  obtain ⟨hvalues, hlists, hnative⟩ := hp
  have ht : Task.Twin 1 1 (s.task.heap.size - 1) s.task s.task := ⟨hs.heap.twin_self, rfl⟩
  have value : ∀ v ∈ op.handles, Handle.Twin 1 1 (s.task.heap.size - 1) v v :=
    fun v hv => (hs.known v (hvalues v hv)).twin_self
  have list : ∀ l ∈ op.lists,
      Handle.Twin 1 1 (s.task.heap.size - 1) l l ∧ s.task.heap.IsList l := by
    intro l hl
    have hlist := hs.lists l (hlists l hl)
    exact ⟨hlist.has.twin_self, hlist⟩
  cases op with
  | newAtom atom => exact kept_handle (lockstep_newAtom atom ht)
  | newPair head rest =>
      obtain ⟨hl, hlist⟩ := list rest (List.mem_singleton_self rest)
      have hhead := value head (List.mem_singleton_self head)
      exact kept_handle ((lockstep_newPair ht hhead hl hlist).imp fun _ _ _ _ => Lists.handles)
  | listOnto elems tail =>
      obtain ⟨hl, hlist⟩ := list tail (List.mem_singleton_self tail)
      have helems := List.forall₂_same.mpr value
      exact kept_handle ((lockstep_listOnto ht helems hl hlist).imp fun _ _ _ _ => Lists.handles)
  | intern name => exact ⟨.symbol _, hs.heap.intern name, fun v hv => by cases hv⟩
  | place table atom => cases hnative
  | narrow type v =>
      have hv := value v (List.mem_singleton_self v)
      refine kept_ofOp (lockstep_look ht (ht.heap.narrow type hv)) ?_
      rintro _ _ found ht' ⟨rfl, rfl, hfound⟩
      cases hfound with
      | none => exact ⟨.absent, fun v hv => by cases hv⟩
      | some hw =>
          refine ⟨.value _, fun w hw' => ?_⟩
          obtain rfl := Option.some.inj hw'
          exact ht'.heap.has₁ hw
  | core call =>
      have hrun := lockstep_run ht (call.twin_self value)
      cases hr : call.run? with
      | none =>
          rw [perform_core_of_none hr]
          exact ⟨.absent, hs.heap, fun v hv => by cases hv⟩
      | some operation =>
          rw [hr] at hrun
          rw [perform_core_of_some hr]
          cases hrun with
          | some h =>
              refine kept_ofOp h fun k' task a ht' ha => ⟨.value a, fun v hv => ?_⟩
              cases ha with
              | handle hw =>
                  obtain rfl := Option.some.inj hv
                  exact ht'.heap.has₁ hw
              | truth b => cases hv
              | number i => cases hv
  | enter call => exact kept_entry (lockstep_enter ht (call.twin_self value))

theorem Sound.step (hs : s.Sound) (hp : s.permits op) : (s.step op).Sound := by
  have hkept := hs.perform hp
  have hgrows := perform_grows op s.task
  refine ⟨hkept.sound, fun v hv => ?_, fun l hl => ?_⟩
  · rcases List.mem_append.mp hv with hnew | hold
    · exact hkept.returned v (Option.mem_toList.mp hnew)
    · exact (hs.known v hold).grows hgrows
  · rcases List.mem_append.mp hl with hnew | hold
    · cases op with
      | narrow type v =>
          rw [narrowed] at hnew
          split at hnew
          · next htype =>
              have hlist := Heap.isList_of_narrow htype
                (perform_narrow (Option.mem_toList.mp hnew))
              exact hlist.grows hgrows
          · cases hnew
      | _ => cases hnew
    · exact (hs.lists l hold).grows hgrows

/-- What holds at the start of a session holds after every permitted run. -/
theorem Sound.after {ops : List Operation} (hs : s.Sound) (hp : s.permitsAll ops) :
    (s.after ops).Sound := by
  induction ops generalizing s with
  | nil => exact hs
  | cons op ops ih => exact ih (hs.step hp.1) hp.2

end Session

/-- After every run on handles of its own: the first box is the symbol `t`, symbols have names, and
a pair holds earlier values and continues with an earlier pair; whatever is permitted next ends in
order, so no call of a run faults; and no known value makes the printer fault. -/
theorem own_runs_never_fault (names : List String) (out : Sink) (ops : List Operation)
    (h : (Session.start names out).permitsAll ops) :
    let s := (Session.start names out).after ops
    let heap := s.task.heap
    (∃ id, heap.cell? .t = some (.sym id) ∧ heap.symbols.name? id = some "t") ∧
    (∀ v id, heap.cell? v = some (.sym id) → id.index < heap.symbols.size) ∧
    (∀ i node, heap.cell? ⟨i⟩ = some (.pair node) →
      (node.head = .nil ∨ node.head.index < i ∧ ∃ c, heap.cell? node.head = some c) ∧
      (node.rest = .nil ∨ node.rest.index < i ∧ ∃ p, heap.cell? node.rest = some (.pair p))) ∧
    (∀ op, s.permits op → (op.perform s.task).1.Orderly) ∧
    ∀ v ∈ s.known, ∀ sink f left,
      heap.write v sink ≠ .error (.fault f) left ∧
      heap.print v sink ≠ .error (.fault f) left := by
  intro s heap
  have hsession : s.Sound := (Session.sound_start names out).after h
  have hs : heap.Sound := hsession.heap
  refine ⟨hs.truth, fun v id hv => hs.named hv, fun i node hnode => ⟨?_, ?_⟩,
    fun op hop => (hsession.perform hop).orderly,
    fun v hv sink f left => ?_⟩
  · have hlt : node.head.index < i := hs.grounded hnode
    have hle : i ≤ heap.size := (Heap.cell?_bounds hnode).2
    have hhas : heap.Has node.head := Nat.le_trans (Nat.le_of_lt hlt) hle
    exact hhas.cases.imp id fun hc => ⟨hlt, hc⟩
  · have hlt : node.rest.index < i := hs.toProper.rest_lt hnode
    exact (hs.toProper.isList_rest hnode).imp id fun hp => ⟨hlt, hp⟩
  · have hhas := hsession.known v hv
    exact ⟨hs.faultless_write hhas sink f left, hs.faultless_print hhas sink f left⟩

/-- A run with a typed rest, a refusal, an integer tail and an output that is soon full. -/
def carefulRun : List Operation :=
  [.newAtom (.sym "x"), .newAtom (.int 5), .enter (.cons ⟨2⟩ ⟨3⟩), .narrow .list ⟨5⟩,
    .newPair .t ⟨5⟩, .enter (.access .car ⟨3⟩), .intern "y", .core (.length ⟨6⟩),
    .enter (.print ⟨6⟩)]

theorem careful_run_never_faults :
    let start := Session.start ["x"] ⟨.bounded 4, ByteArray.empty⟩
    start.permitsAll carefulRun ∧ (start.after carefulRun).permits (.enter (.append ⟨6⟩ ⟨5⟩)) ∧
    ((Operation.enter (.append ⟨6⟩ ⟨5⟩)).perform (start.after carefulRun).task).1.Orderly := by
  intro start
  have hrun : start.permitsAll carefulRun := by decide +kernel
  have hnext : (start.after carefulRun).permits (.enter (.append ⟨6⟩ ⟨5⟩)) := by decide +kernel
  exact ⟨hrun, hnext, (own_runs_never_fault _ _ carefulRun hrun).2.2.2.1 _ hnext⟩

end LispHeap

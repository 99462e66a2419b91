import Mathlib.Algebra.Ring.Nat
import Mathlib.Control.Monad.Basic
import Mathlib.Data.List.Induction
import ClassTrim.Assembly

/-!
# Layouts of assembled bodies

A body is assembled item by item: an operation, a branch that names a label, a label, or a demand
for slots. What the finished body looks like can be said from the items alone. Its instructions are
the operations and branches in their order, one behind the other by their lengths, and a branch
leads to what was emitted first after its label.

The layout is fixed before any label is resolved, with a placeholder in the place of each target.
This does no harm because the length of a branch does not depend on where it leads.
-/

namespace ClassTrim.Assembly

/-- One item of a body under construction. -/
inductive Item where
  | op (operation : Op)
  | jump (name : String)
  | branch (condition : Condition) (name : String)
  | label (name : String)
  | reserve (count : UInt16)
deriving DecidableEq

namespace Item

/-- Whether an item becomes an instruction. -/
def emits : Item → Bool
  | .op _ | .jump _ | .branch _ _ => true
  | .label _ | .reserve _ => false

/-- The label that a branch names. -/
def named? : Item → Option String
  | .jump name | .branch _ name => some name
  | _ => none

/-- The operation that an item becomes, given where labels lead. -/
def op? (target : String → Nat) : Item → Option Op
  | .op operation => some operation
  | .jump name => some (.goto (target name))
  | .branch condition name => some (.branch condition (target name))
  | .label _ | .reserve _ => none

/-- What waits on account of an item until labels are resolved. -/
def pending? : Item → Option PendingOp
  | .op operation => some ⟨operation, none⟩
  | .jump name => some ⟨.goto 0, some name⟩
  | .branch condition name => some ⟨.branch condition 0, some name⟩
  | .label _ | .reserve _ => none

end Item

/-- Adds an item. -/
def add (assembly : Assembly) : Item → Except Fault Assembly
  | .op operation => .ok (assembly.emit operation)
  | .jump name => .ok (assembly.jump name)
  | .branch condition name => .ok (assembly.branch condition name)
  | .label name => assembly.bindLabel name
  | .reserve count => .ok (assembly.reserve count)

/-- Adds an item, or goes on without it. -/
def attempt (assembly : Assembly) (item : Item) : Assembly :=
  match assembly.add item with
  | .ok next => next
  | .error _ => assembly

/-- The assembly that a sequence of items makes. -/
def assemble (items : List Item) : Assembly :=
  items.foldl attempt .empty

/-- How many instructions stand in front of the place that a label is bound to. -/
def place? (name : String) : List Item → Option Nat
  | [] => none
  | item :: rest =>
    if item = .label name then some 0
    else (place? name rest).map (· + if item.emits then 1 else 0)

/-- The length of the first operations of a body. -/
def extent (ops : List Op) (count : Nat) : Nat :=
  ((ops.take count).map Op.encodedLength).sum

/-- Program counters of operations, and the one behind the last of them, in 32-bit words. -/
def wordOffsets (start : UInt32) : List Op → List UInt32
  | [] => [start]
  | op :: rest => start :: wordOffsets (start + UInt32.ofNat op.encodedLength) rest

section Extent

variable {ops : List Op}

/-- The first operation adds its own length to the extent of those behind it. -/
theorem extent_cons (op : Op) (rest : List Op) (count : Nat) :
    extent (op :: rest) (count + 1) = op.encodedLength + extent rest count := by
  simp [extent]

/-- The offset at an index is the start plus the extent of all operations before the index. The
offset behind the last operation is among them. -/
theorem getElem?_offsets (start : Nat) (ops : List Op) (index : Nat)
    (inside : index ≤ ops.length) :
    (offsets start ops)[index]? = some (start + extent ops index) := by
  induction ops generalizing start index with
  | nil =>
    obtain rfl : index = 0 := Nat.le_zero.mp inside
    simp [offsets, extent]
  | cons op rest ih =>
    cases index with
    | zero => simp [offsets, extent]
    | succ index =>
      rw [offsets, List.getElem?_cons_succ, ih _ _ (Nat.le_of_succ_le_succ inside), extent_cons,
        Nat.add_assoc]

/-- Extents grow with the number of operations, since none is empty. -/
theorem extent_lt {first second : Nat} (before : first < second) (inside : second ≤ ops.length) :
    extent ops first < extent ops second := by
  induction ops generalizing first second with
  | nil => exact absurd (Nat.lt_of_lt_of_le before inside) (Nat.not_lt_zero first)
  | cons op rest ih =>
    cases second with
    | zero => exact absurd before (Nat.not_lt_zero first)
    | succ second =>
      rw [extent_cons]
      cases first with
      | zero =>
        have long := op.encodedLength_pos
        simp only [extent, List.take_zero, List.map_nil, List.sum_nil]
        omega
      | succ first =>
        rw [extent_cons]
        exact Nat.add_lt_add_left
          (ih (Nat.lt_of_succ_lt_succ before) (Nat.le_of_succ_le_succ inside)) _

/-- Only the lengths of operations matter for their layout. -/
theorem offsets_congr {start : Nat} {others : List Op}
    (same : ops.map Op.encodedLength = others.map Op.encodedLength) :
    offsets start ops = offsets start others := by
  induction ops generalizing start others with
  | nil =>
    rw [List.map_eq_nil_iff.mp same.symm]
  | cons op rest ih =>
    obtain ⟨other, remaining, rfl, length, lengths⟩ := List.map_eq_cons_iff.mp same.symm
    rw [offsets, offsets, length, ih lengths.symm]

/-- Words do not overflow where the whole fits into one. -/
theorem map_toNat_wordOffsets (start : UInt32)
    (fits : start.toNat + (ops.map Op.encodedLength).sum < 4294967296) :
    (wordOffsets start ops).map UInt32.toNat = offsets start.toNat ops := by
  induction ops generalizing start with
  | nil => rfl
  | cons op rest ih =>
    rw [List.map_cons, List.sum_cons] at fits
    have advanced : (start + UInt32.ofNat op.encodedLength).toNat =
        start.toNat + op.encodedLength := by
      rw [UInt32.toNat_add, UInt32.toNat_ofNat']
      omega
    rw [wordOffsets, offsets, List.map_cons, ih _ (by rw [advanced]; omega), advanced]

end Extent

section Items

variable {items front rear : List Item} {name : String} {item : Item}

/-- The last item is tried on what was assembled from those before it. -/
theorem assemble_concat (items : List Item) (item : Item) :
    assemble (items ++ [item]) = (assemble items).attempt item := by
  simp [assemble]

/-- An item adds the operation that it stands for, if there is one, behind those before it. -/
theorem pending_attempt (assembly : Assembly) (item : Item) :
    (assembly.attempt item).pending.toList = assembly.pending.toList ++ item.pending?.toList := by
  cases item with
  | op operation => cases operation <;> simp [attempt, add, emit, reserve, Item.pending?]
  | jump | branch | reserve => simp [attempt, add, jump, branch, reserve, Item.pending?]
  | label name =>
    by_cases bound : (assembly.labels.lookup name).isSome = true <;>
      simp [attempt, add, bindLabel, bound, Item.pending?]

/-- The operations of an assembly are those that its items stand for, in order. -/
theorem pending_assemble (items : List Item) :
    (assemble items).pending.toList = items.filterMap Item.pending? := by
  induction items using List.reverseRecOn with
  | nil => rfl
  | append_singleton items item ih =>
    rw [assemble_concat, pending_attempt, ih, List.filterMap_append]
    cases waits : item.pending? <;> simp [waits]

/-- As many operations are pending as there are items that emit one. -/
theorem length_filterMap_pending? (items : List Item) :
    (items.filterMap Item.pending?).length = items.countP Item.emits := by
  rw [List.length_filterMap_eq_countP]
  congr 1
  funext item
  cases item <;> rfl

/-- The size of an assembly counts the items that emit an operation. -/
theorem size_assemble (items : List Item) :
    (assemble items).size = items.countP Item.emits := by
  have counted := length_filterMap_pending? items
  rwa [← pending_assemble, Array.length_toList] at counted

/-- A label is bound by the first item that names it and is not moved by a later one. -/
theorem lookup_attempt (assembly : Assembly) (item : Item) (name : String) :
    (assembly.attempt item).labels.lookup name =
      (assembly.labels.lookup name).or
        (if item = .label name then some assembly.size else none) := by
  cases item with
  | op operation => cases operation <;> simp [attempt, add, emit, reserve]
  | jump | branch | reserve => simp [attempt, add, jump, branch, reserve]
  | label other =>
    by_cases same : name = other
    · subst same
      cases bound : assembly.labels.lookup name <;> simp [attempt, add, bindLabel, bound]
    · have different : ¬Item.label other = .label name := fun equal => same (by cases equal; rfl)
      have missed : (name == other) = false := beq_false_of_ne same
      cases bound : assembly.labels.lookup other <;>
        simp [attempt, add, bindLabel, bound, different, List.lookup_cons, missed]

/-- A last item binds a label only if none before it did, and binds it behind all that was emitted.
-/
theorem place?_concat (name : String) (items : List Item) (item : Item) :
    place? name (items ++ [item]) =
      (place? name items).or
        (if item = .label name then some (items.countP Item.emits) else none) := by
  induction items with
  | nil => by_cases here : item = .label name <;> simp [place?, here]
  | cons head rest ih =>
    rw [List.cons_append, place?, place?]
    by_cases here : head = .label name
    · simp [here]
    · rw [if_neg here, if_neg here, ih, Option.map_or, List.countP_cons]
      split <;> simp

/-- Every label has the place at which it was bound first. -/
theorem lookup_assemble (items : List Item) (name : String) :
    (assemble items).labels.lookup name = place? name items := by
  induction items using List.reverseRecOn with
  | nil => rfl
  | append_singleton items item ih =>
    rw [assemble_concat, lookup_attempt, ih, place?_concat, size_assemble]

/-- A label has a place exactly if some item binds it. -/
theorem isSome_place? : (place? name items).isSome = true ↔ .label name ∈ items := by
  induction items with
  | nil => simp [place?]
  | cons head rest ih =>
    rw [place?]
    by_cases here : head = .label name
    · simp [here]
    · simp [here, Ne.symm here, ih]

/-- The first binding of a label places it behind all that was emitted before. -/
theorem place?_append (unbound : .label name ∉ front) :
    place? name (front ++ .label name :: rear) = some (front.countP Item.emits) := by
  induction front with
  | nil => simp [place?]
  | cons head rest ih =>
    obtain ⟨different, unboundRest⟩ := not_or.mp (List.mem_cons.not.mp unbound)
    rw [List.cons_append, place?, if_neg (Ne.symm different), ih unboundRest, List.countP_cons]
    rfl

end Items

section Resolve

variable {labels : List (String × Nat)} {counters : List Nat} {pending : List PendingOp}

/-- Where a label leads. -/
def target (labels : List (String × Nat)) (counters : List Nat) (name : String) : Nat :=
  counters.getD ((labels.lookup name).getD 0) 0

/-- What a pending operation becomes if its label is bound. -/
def resolved (labels : List (String × Nat)) (counters : List Nat) (item : PendingOp) : Op :=
  match item.label with
  | none => item.op
  | some name => retarget item.op (target labels counters name)

/-- An operation whose label is bound is resolved. -/
theorem resolve_of_bound (counters : List Nat) {item : PendingOp}
    (bound : ∀ name, item.label = some name → (labels.lookup name).isSome = true) :
    resolve labels counters item = .ok (resolved labels counters item) := by
  cases named : item.label with
  | none => simp [resolve, resolved, named]
  | some name =>
    obtain ⟨index, found⟩ := Option.isSome_iff_exists.mp (bound name named)
    simp [resolve, resolved, target, named, found]

/-- Where all labels are bound, every pending operation is resolved. -/
theorem mapM_resolve_of_bound (counters : List Nat)
    (bound : ∀ item ∈ pending, ∀ name, item.label = some name →
      (labels.lookup name).isSome = true) :
    pending.mapM (resolve labels counters) = .ok (pending.map (resolved labels counters)) := by
  induction pending with
  | nil => rfl
  | cons item rest ih =>
    have first := resolve_of_bound counters (bound item List.mem_cons_self)
    have others := ih fun other member => bound other (List.mem_cons_of_mem _ member)
    simp [List.mapM_cons, first, others, bind, Except.bind, pure, Except.pure]

/-- The first branch whose label is unbound decides the fault. -/
theorem mapM_resolve_of_unbound (counters : List Nat)
    (unbound : ∃ item ∈ pending, ∃ name, item.label = some name ∧ labels.lookup name = none) :
    ∃ name, (∃ item ∈ pending, item.label = some name) ∧ labels.lookup name = none ∧
      pending.mapM (resolve labels counters) = .error (.malformed (.labelUnbound name)) := by
  induction pending with
  | nil => simp at unbound
  | cons item rest ih =>
    by_cases here : ∃ name, item.label = some name ∧ labels.lookup name = none
    · obtain ⟨name, named, missing⟩ := here
      refine ⟨name, ⟨item, List.mem_cons_self, named⟩, missing, ?_⟩
      simp [List.mapM_cons, resolve, named, missing, bind, Except.bind]
    · have bound : ∀ name, item.label = some name → (labels.lookup name).isSome = true := by
        intro name named
        rw [Option.isSome_iff_ne_none]
        exact fun missing => here ⟨name, named, missing⟩
      obtain ⟨other, member, name, named, missing⟩ := unbound
      have later : other ∈ rest := by
        rcases List.mem_cons.mp member with rfl | later
        · exact absurd ⟨name, named, missing⟩ here
        · exact later
      obtain ⟨name, ⟨other, inside, named⟩, missing, failed⟩ :=
        ih ⟨other, later, name, named, missing⟩
      refine ⟨name, ⟨other, List.mem_cons_of_mem _ inside, named⟩, missing, ?_⟩
      simp [List.mapM_cons, resolve_of_bound counters bound, failed, bind, Except.bind]

/-- Resolving a label does not change the length, which is the same for all targets. -/
theorem encodedLength_resolved (item : PendingOp) :
    (resolved labels counters item).encodedLength = item.op.encodedLength := by
  unfold resolved retarget
  split
  · rfl
  · split <;> simp_all [Op.encodedLength]

/-- Resolved operations are those that the items stand for once targets are known. -/
theorem map_resolved_pending (items : List Item) :
    (items.filterMap Item.pending?).map (resolved labels counters) =
      items.filterMap (Item.op? (target labels counters)) := by
  rw [List.map_filterMap]
  congr 1
  funext item
  cases item <;> rfl

end Resolve

/-- The length of a body in bytes. -/
def encodedLength (body : Body) : Nat :=
  (body.instructions.map (·.op.encodedLength)).sum

/-- A body is laid out as its items say. -/
structure Laid (items : List Item) (body : Body) : Prop where
  ids : ∀ (index : Nat) (instruction : Instruction),
    body.instructions[index]? = some instruction → instruction.id = index
  counters : ∀ (index : Nat) (instruction : Instruction),
    body.instructions[index]? = some instruction →
      instruction.pc = ((body.instructions.take index).map (·.op.encodedLength)).sum
  increasing : (body.instructions.map Instruction.pc).Pairwise (· < ·)
  /-- A label leads to the instruction that stands where the label was bound first, or to the end
  of the body if none does. -/
  ops : ∃ target : String → Nat,
    body.instructions.map Instruction.op = items.filterMap (Item.op? target) ∧
      ∀ name front rear, items = front ++ .label name :: rear → .label name ∉ front →
        target name = ((body.instructions[front.countP Item.emits]?).map Instruction.pc).getD
          (encodedLength body)
  /-- In 32-bit words the counters are the same, unless the body is too long. -/
  words : encodedLength body < 4294967296 →
    (wordOffsets 0 (body.instructions.map Instruction.op)).map UInt32.toNat =
      body.instructions.map Instruction.pc ++ [encodedLength body]

section Placed

variable {ops : List Op} {maxLocals : UInt16}

/-- Operations laid out from the beginning of a body. -/
def placed (maxLocals : UInt16) (ops : List Op) : Body :=
  .ofPlaced maxLocals (ops.zip (offsets 0 ops))

/-- The instruction at an index has the index as its identity and begins where the operations before
it end. -/
theorem getElem?_placed (maxLocals : UInt16) (ops : List Op) (index : Nat) :
    (placed maxLocals ops).instructions[index]? =
      ops[index]?.map fun op => ⟨index, extent ops index, op⟩ := by
  rw [placed, Body.ofPlaced, List.getElem?_mapIdx]
  cases found : ops[index]? with
  | none =>
    have outside : (ops.zip (offsets 0 ops))[index]? = none := by
      have beyond := List.getElem?_eq_none_iff.mp found
      exact List.getElem?_eq_none (by rw [List.length_zip]; omega)
    rw [outside]
    rfl
  | some op =>
    obtain ⟨inside, -⟩ := List.getElem?_eq_some_iff.mp found
    have counter := getElem?_offsets 0 ops index (Nat.le_of_lt inside)
    rw [Nat.zero_add] at counter
    have both : (ops.zip (offsets 0 ops))[index]? = some (op, extent ops index) :=
      List.getElem?_zip_eq_some.mpr ⟨found, counter⟩
    rw [both]
    rfl

/-- Placing operations keeps them and their order. -/
theorem map_op_placed : (placed maxLocals ops).instructions.map Instruction.op = ops := by
  apply List.ext_getElem?
  intro index
  rw [List.getElem?_map, getElem?_placed, Option.map_map]
  cases ops[index]? <;> rfl

/-- Placing operations keeps their lengths. -/
theorem map_encodedLength_placed (maxLocals : UInt16) (ops : List Op) (count : Nat) :
    ((placed maxLocals ops).instructions.take count).map (·.op.encodedLength) =
      (ops.take count).map Op.encodedLength := by
  have split : ((placed maxLocals ops).instructions.take count).map (·.op.encodedLength) =
      (((placed maxLocals ops).instructions.map Instruction.op).take count).map
        Op.encodedLength := by
    rw [← List.map_take, List.map_map]
    rfl
  rw [split, map_op_placed]

/-- A placed body is as long as the extent of all its operations. -/
theorem encodedLength_placed : encodedLength (placed maxLocals ops) = extent ops ops.length := by
  have whole := map_encodedLength_placed maxLocals ops ops.length
  have all : (placed maxLocals ops).instructions.length = ops.length := by
    rw [← List.length_map Instruction.op, map_op_placed]
  rw [← all, List.take_length, all] at whole
  rw [encodedLength, whole, extent]

/-- There is an offset for each operation, and one for the end. -/
theorem length_offsets (start : Nat) (ops : List Op) :
    (offsets start ops).length = ops.length + 1 := by
  induction ops generalizing start with
  | nil => rfl
  | cons op rest ih => rw [offsets, List.length_cons, ih, List.length_cons]

/-- The program counters of a placed body, with its length behind them, are the offsets from zero.
-/
theorem map_pc_placed :
    (placed maxLocals ops).instructions.map Instruction.pc ++
      [encodedLength (placed maxLocals ops)] = offsets 0 ops := by
  have size : ((placed maxLocals ops).instructions.map Instruction.pc).length = ops.length := by
    rw [List.length_map, ← List.length_map Instruction.op, map_op_placed]
  apply List.ext_getElem?
  intro index
  rcases Nat.lt_trichotomy index ops.length with inside | atEnd | outside
  · rw [List.getElem?_append_left (size.symm ▸ inside), List.getElem?_map, getElem?_placed,
      List.getElem?_eq_getElem inside, getElem?_offsets 0 ops index (Nat.le_of_lt inside),
      Nat.zero_add]
    rfl
  · rw [List.getElem?_append_right (by omega), size, atEnd, Nat.sub_self,
      getElem?_offsets 0 ops _ (Nat.le_refl _), Nat.zero_add, encodedLength_placed]
    rfl
  · rw [List.getElem?_eq_none (by simp only [List.length_append, List.length_singleton]; omega),
      List.getElem?_eq_none (by rw [length_offsets]; omega)]

/-- The program counters of a placed body rise from instruction to instruction. -/
theorem increasing_placed :
    ((placed maxLocals ops).instructions.map Instruction.pc).Pairwise (· < ·) := by
  rw [List.pairwise_map, List.pairwise_iff_getElem]
  intro first second firstInside secondInside before
  have standing : ∀ {index : Nat} (inside : index < (placed maxLocals ops).instructions.length),
      index < ops.length ∧
        ((placed maxLocals ops).instructions[index]).pc = extent ops index := by
    intro index inside
    have found := getElem?_placed maxLocals ops index
    rw [List.getElem?_eq_getElem inside] at found
    obtain ⟨op, present, same⟩ := Option.map_eq_some_iff.mp found.symm
    exact ⟨(List.getElem?_eq_some_iff.mp present).1, by rw [← same]⟩
  rw [(standing firstInside).2, (standing secondInside).2]
  exact extent_lt before (Nat.le_of_lt (standing secondInside).1)

end Placed

/-- The layout of operations that items have become. -/
theorem laid_placed {items : List Item} {labels : List (String × Nat)} {ops : List Op}
    (maxLocals : UInt16) (bound : ∀ name, labels.lookup name = place? name items)
    (made : ops = items.filterMap (Item.op? (target labels (offsets 0 ops)))) :
    Laid items (placed maxLocals ops) := by
  have found : ∀ {index : Nat} {instruction : Instruction},
      (placed maxLocals ops).instructions[index]? = some instruction →
        instruction.id = index ∧ instruction.pc = extent ops index := by
    intro index instruction present
    rw [getElem?_placed] at present
    obtain ⟨op, -, rfl⟩ := Option.map_eq_some_iff.mp present
    exact ⟨rfl, rfl⟩
  constructor
  · exact fun index instruction present => (found present).1
  · intro index instruction present
    rw [(found present).2, map_encodedLength_placed, extent]
  · exact increasing_placed
  · refine ⟨target labels (offsets 0 ops), map_op_placed.trans made, ?_⟩
    rintro name front rear split unbound
    have count : (front.countP Item.emits) ≤ ops.length := by
      have all : ops.length = items.countP Item.emits := by
        rw [made, ← map_resolved_pending, List.length_map, length_filterMap_pending?]
      rw [all, split, List.countP_append]
      exact Nat.le_add_right _ _
    rw [target, bound, split, place?_append unbound, Option.getD_some, List.getD_eq_getElem?_getD,
      getElem?_offsets 0 ops _ count, Option.getD_some, Nat.zero_add, getElem?_placed,
      encodedLength_placed]
    rcases Nat.lt_or_eq_of_le count with inside | atEnd
    · rw [List.getElem?_eq_getElem inside]
      rfl
    · rw [atEnd, List.getElem?_eq_none (Nat.le_refl _)]
      rfl
  · intro fits
    rw [map_pc_placed, map_op_placed]
    refine map_toNat_wordOffsets 0 ?_
    rw [encodedLength_placed, extent, List.take_length] at fits
    rwa [UInt32.toNat_zero, Nat.zero_add]

/-- A body can be finished if every label that a branch names is bound; it is laid out then. -/
theorem finish_of_bound {items : List Item}
    (bound : ∀ item ∈ items, ∀ name, item.named? = some name → .label name ∈ items) :
    ∃ body, (assemble items).finish = .ok body ∧ Laid items body := by
  have known : ∀ item ∈ (assemble items).pending.toList, ∀ name, item.label = some name →
      ((assemble items).labels.lookup name).isSome = true := by
    intro waiting member name named
    rw [pending_assemble] at member
    obtain ⟨item, inside, waits⟩ := List.mem_filterMap.mp member
    rw [lookup_assemble, isSome_place?]
    refine bound item inside name ?_
    cases item <;> cases waits <;> cases named <;> rfl
  let ops := (assemble items).pending.toList.map (resolved (assemble items).labels
    (offsets 0 ((assemble items).pending.toList.map PendingOp.op)))
  have counters : offsets 0 ((assemble items).pending.toList.map PendingOp.op) =
      offsets 0 ops := by
    apply offsets_congr
    rw [List.map_map, List.map_map]
    exact List.map_congr_left fun item _ => (encodedLength_resolved item).symm
  have made : ops = items.filterMap
      (Item.op? (target (assemble items).labels (offsets 0 ops))) := by
    rw [← counters, ← map_resolved_pending, ← pending_assemble]
  refine ⟨placed (assemble items).maxLocals ops, ?_, laid_placed _ (lookup_assemble items) made⟩
  simp only [finish, mapM_resolve_of_bound _ known, bind, Except.bind, pure, Except.pure]
  rw [placed, ← counters]

/-- Otherwise the fault names a label that is unbound. -/
theorem finish_of_unbound {items : List Item}
    (unbound : ∃ item ∈ items, ∃ name, item.named? = some name ∧ .label name ∉ items) :
    ∃ name, (∃ item ∈ items, item.named? = some name) ∧ .label name ∉ items ∧
      (assemble items).finish = .error (.malformed (.labelUnbound name)) := by
  have unknown : ∀ {name}, (assemble items).labels.lookup name = none ↔ .label name ∉ items := by
    intro name
    rw [lookup_assemble, ← isSome_place?, Option.not_isSome_iff_eq_none]
  have waiting : ∀ {item name}, item ∈ items → item.named? = some name →
      ∃ waits ∈ (assemble items).pending.toList, waits.label = some name := by
    intro item name member named
    rw [pending_assemble]
    cases item with
    | jump | branch =>
      cases named
      exact ⟨_, List.mem_filterMap.mpr ⟨_, member, rfl⟩, rfl⟩
    | op | label | reserve => cases named
  obtain ⟨item, member, name, named, missing⟩ := unbound
  obtain ⟨waits, inside, labelled⟩ := waiting member named
  obtain ⟨other, ⟨waits, inside, labelled⟩, absent, failed⟩ :=
    mapM_resolve_of_unbound (offsets 0 ((assemble items).pending.toList.map PendingOp.op))
      ⟨waits, inside, name, labelled, unknown.mpr missing⟩
  refine ⟨other, ?_, unknown.mp absent, ?_⟩
  · rw [pending_assemble] at inside
    obtain ⟨item, member, waits⟩ := List.mem_filterMap.mp inside
    refine ⟨item, member, ?_⟩
    cases item <;> cases waits <;> cases labelled <;> rfl
  · simp only [finish, failed, bind, Except.bind]

/-- A label can be bound once. -/
theorem bindLabel_assemble (items : List Item) (name : String) :
    (.label name ∈ items →
      (assemble items).bindLabel name = .error (.malformed (.labelBoundTwice name))) ∧
    (.label name ∉ items → ∃ next, (assemble items).bindLabel name = .ok next) := by
  rw [← isSome_place?, ← lookup_assemble]
  constructor
  · intro bound
    rw [bindLabel, if_pos bound]
  · intro unbound
    rw [bindLabel, if_neg unbound]
    exact ⟨_, rfl⟩

/-- Bodies are laid out and labels resolved as the items say. Finishing succeeds exactly if every
label that a branch names is bound somewhere, before the branch or after it. Then the instructions
are counted from zero, each stands where the lengths of those in front of it put it, what names a
label leads to the first instruction behind the place at which the label was bound, or to the end,
and everything else is as it was emitted. To bind a label again fails and changes nothing. -/
theorem finish_lays_out (items : List Item) :
    ((∃ body, (assemble items).finish = .ok body) ↔
      ∀ item ∈ items, ∀ name, item.named? = some name → .label name ∈ items) ∧
    (∀ body, (assemble items).finish = .ok body → Laid items body) ∧
    ∀ name, (.label name ∉ items → ∃ next, (assemble items).bindLabel name = .ok next) ∧
      (.label name ∈ items →
        (assemble items).bindLabel name = .error (.malformed (.labelBoundTwice name)) ∧
          assemble (items ++ [.label name]) = assemble items) := by
  have bound_of_finish : ∀ body, (assemble items).finish = .ok body →
      ∀ item ∈ items, ∀ name, item.named? = some name → .label name ∈ items := by
    intro body finished item member name named
    by_contra missing
    obtain ⟨other, -, -, failed⟩ := finish_of_unbound ⟨item, member, name, named, missing⟩
    cases failed.symm.trans finished
  refine ⟨⟨fun ⟨body, finished⟩ => bound_of_finish body finished, fun bound => ?_⟩, ?_, ?_⟩
  · obtain ⟨body, finished, -⟩ := finish_of_bound bound
    exact ⟨body, finished⟩
  · intro body finished
    obtain ⟨same, again, laid⟩ := finish_of_bound (bound_of_finish body finished)
    cases finished.symm.trans again
    exact laid
  · intro name
    obtain ⟨fails, succeeds⟩ := bindLabel_assemble items name
    refine ⟨succeeds, fun bound => ⟨fails bound, ?_⟩⟩
    rw [assemble_concat, attempt, add, fails bound]

/-- A loop that is left for a place behind its last instruction, where two labels are bound. -/
def loopItems : List Item :=
  [.label "top", .op .nop, .branch .eq "end", .jump "top", .label "end", .label "exit"]

/-- The branches of the loop lead forward to the end, at the seventh byte, and back to the top. -/
theorem finish_lays_out_loop :
    ∃ body, (assemble loopItems).finish = .ok body ∧ Laid loopItems body ∧
      body.instructions = [⟨0, 0, .nop⟩, ⟨1, 1, .branch .eq 7⟩, ⟨2, 4, .goto 0⟩] := by
  have finished : (assemble loopItems).finish =
      .ok (.ofPlaced 0 [(.nop, 0), (.branch .eq 7, 1), (.goto 0, 4)]) := by decide +kernel
  exact ⟨_, finished, (finish_lays_out loopItems).2.1 _ finished, rfl⟩

end ClassTrim.Assembly

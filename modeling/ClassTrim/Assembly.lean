import ClassTrim.Body

/-!
# Assembling bodies

An assembly collects operations in order. A branch may name a label instead of a
program counter, and a label may be bound before or after the branches that name
it. Finishing lays the operations out one behind the other, by their encoded
lengths, and gives every label the program counter of the operation that was
emitted next after it was bound.
-/

namespace ClassTrim

/-- An operation waiting for its place; a branch may still name its label. -/
structure PendingOp where
  op : Op
  label : Option String
deriving DecidableEq

/-- A body under construction. -/
structure Assembly where
  pending : Array PendingOp
  /-- For each bound label, how many operations stood before it. -/
  labels : List (String × Nat)
  maxLocals : UInt16
deriving DecidableEq

namespace Assembly

/-- Nothing emitted, nothing bound. -/
def empty : Assembly :=
  ⟨#[], [], 0⟩

/-- The number of operations emitted so far. It is also the identity that the
next one will have. -/
def size (assembly : Assembly) : Nat :=
  assembly.pending.size

/-- Declares at least `count` local slots. -/
def reserve (assembly : Assembly) (count : UInt16) : Assembly :=
  { assembly with maxLocals := max assembly.maxLocals count }

/-- The number of slots that an access needs declared; it stops at the largest
word. -/
def slotsThrough (kind : LocalKind) (index : UInt16) : UInt16 :=
  UInt16.ofNat (min 65535 (index.toNat + if kind.isWide then 2 else 1))

/-- Emits an operation. A load or a store declares the slots that it uses. -/
def emit (assembly : Assembly) (op : Op) : Assembly :=
  let reserved :=
    match op with
    | .load kind index | .store kind index => assembly.reserve (slotsThrough kind index)
    | _ => assembly
  { reserved with pending := reserved.pending.push ⟨op, none⟩ }

/-- Emits an unconditional branch to a label. -/
def jump (assembly : Assembly) (label : String) : Assembly :=
  { assembly with pending := assembly.pending.push ⟨.goto 0, some label⟩ }

/-- Emits a conditional branch to a label. -/
def branch (assembly : Assembly) (condition : Condition) (label : String) : Assembly :=
  { assembly with pending := assembly.pending.push ⟨.branch condition 0, some label⟩ }

/-- Binds a label to the place of the next operation. -/
def bindLabel (assembly : Assembly) (label : String) : Except Fault Assembly :=
  if (assembly.labels.lookup label).isSome then .error (.malformed (.labelBoundTwice label))
  else .ok { assembly with labels := (label, assembly.size) :: assembly.labels }

/-- The program counters of operations laid out from `start`, and the one behind
the last of them. -/
def offsets (start : Nat) : List Op → List Nat
  | [] => [start]
  | op :: rest => start :: offsets (start + op.encodedLength) rest

/-- Leads a branch to a program counter. -/
def retarget (op : Op) (target : Nat) : Op :=
  match op with
  | .goto _ => .goto target
  | .branch condition _ => .branch condition target
  | other => other

/-- The finished form of a pending operation. -/
def resolve (labels : List (String × Nat)) (counters : List Nat) (item : PendingOp) :
    Except Fault Op :=
  match item.label with
  | none => .ok item.op
  | some label =>
    match labels.lookup label with
    | none => .error (.malformed (.labelUnbound label))
    | some index => .ok (retarget item.op (counters.getD index 0))

/-- Lays out the operations and resolves the labels. The first branch whose label
is unbound decides the fault. -/
def finish (assembly : Assembly) : Except Fault Body := do
  let items := assembly.pending.toList
  let counters := offsets 0 (items.map PendingOp.op)
  let ops ← items.mapM (resolve assembly.labels counters)
  return Body.ofPlaced assembly.maxLocals (ops.zip counters)

end Assembly

end ClassTrim

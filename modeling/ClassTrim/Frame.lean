import ClassTrim.ClassGroup
import ClassTrim.Provenance.Value

/-!
# Frames

A frame holds the operand stack and the local slots of one execution. The stack
holds identities of values; what is known about them is in the provenance graph.

A wide value stands in the lower of its two slots and the upper one is empty.
Writing over either half of a wide value destroys it.
-/

namespace ClassTrim

/-- The content of a local slot. -/
structure Slot where
  content : Content
  /-- The value that was stored; a parameter has none. -/
  source : Option ValueId
deriving DecidableEq

/-- A slot that holds an unknown value of a type, as for a parameter. -/
def Slot.unknown (type : StackType) : Slot :=
  ⟨.unknown type, none⟩

/-- The local slots of a frame. -/
structure Locals where
  slots : Array (Option Slot)
deriving DecidableEq

namespace Locals

/-- A number of empty slots. -/
def empty (count : Nat) : Locals :=
  ⟨Array.replicate count none⟩

/-- The content of a slot, if it holds a value. -/
def read (locals : Locals) (index : Nat) : Option Slot :=
  locals.slots[index]?.join

/-- Makes sure that there are at least `count` slots. -/
def grow (locals : Locals) (count : Nat) : Locals :=
  ⟨locals.slots ++ Array.replicate (count - locals.slots.size) none⟩

/-- Sets an existing slot and nothing else. -/
def put (locals : Locals) (index : Nat) (slot : Option Slot) : Locals :=
  ⟨locals.slots.setIfInBounds index slot⟩

/-- Whether a slot holds a wide value. -/
def isWideAt (locals : Locals) (index : Nat) : Bool :=
  (locals.read index).any (·.content.type.isWide)

/-- Empties the slot below an index if it holds a wide value, which reaches into
the slot at the index. -/
def cutBelow (locals : Locals) (index : Nat) : Locals :=
  match index with
  | 0 => locals
  | below + 1 => if locals.isWideAt below then locals.put below none else locals

/-- Stores a value in a slot. A wide value also empties the slot above it. -/
def write (locals : Locals) (index : Nat) (slot : Slot) : Locals :=
  let grown := (locals.grow (index + slot.content.type.slots)).cutBelow index
  let cleared := if slot.content.type.isWide then grown.put (index + 1) none else grown
  cleared.put index (some slot)

/-- The slots that hold a value, with their indices, among the first `count`. -/
def occupied (locals : Locals) (count : Nat) : List (Nat × Slot) :=
  (List.range (min count locals.slots.size)).filterMap fun index =>
    (locals.read index).map fun slot => (index, slot)

/-- Puts unknown values of the given types side by side, from a slot upwards. There
must be a slot for each of them. -/
def seed (locals : Locals) (index : Nat) : List StackType → Except Fault Locals
  | [] => .ok locals
  | type :: rest =>
    if index < locals.slots.size then
      seed (locals.put index (some (.unknown type))) (index + type.slots) rest
    else .error (.outOfRange index locals.slots.size)

/-- Seeding succeeds if the first value has a slot and the others can be put behind it. -/
theorem seed_cons_eq_ok {locals last : Locals} {index : Nat} {type : StackType}
    {rest : List StackType} :
    locals.seed index (type :: rest) = .ok last ↔
      index < locals.slots.size ∧
        (locals.put index (some (.unknown type))).seed (index + type.slots) rest = .ok last := by
  rw [seed]
  split
  · next room => exact ⟨fun seeded => ⟨room, seeded⟩, And.right⟩
  · next outside =>
    constructor
    · intro seeded
      cases seeded
    · intro ⟨room, _⟩
      exact absurd room outside

end Locals

/-- The operand stack and the local slots of one execution. -/
structure Frame where
  id : Nat
  /-- The values on the stack, the top first. -/
  stack : List ValueId
  locals : Locals
deriving DecidableEq

namespace Frame

/-- A frame with an empty stack and empty slots. -/
def empty (id : Nat) (slots : UInt16) : Frame :=
  ⟨id, [], .empty slots.toNat⟩

/-- The number of values on the stack. -/
def depth (frame : Frame) : Nat :=
  frame.stack.length

/-- The value that lies a number of entries below the top. -/
def peek? (frame : Frame) (below : Nat) : Option ValueId :=
  frame.stack[below]?

/-- The text of a frame's identity. -/
def renderId (frame : Frame) : String :=
  "frame" ++ Nat.repr frame.id

/-- The types of what a method receives: the instance, for a method that is not
static, and then the parameters. An instance of an unknown class is an object. -/
def received (owner : Option String) (method : MethodDecl) : List StackType :=
  let parameters := method.descriptor.parameters
  if method.isStatic then parameters else .ref (owner.getD StackType.objectName) :: parameters

/-- The number of slots that what a method receives needs, as a 16-bit word. -/
def receivedSlots (method : MethodDecl) : UInt16 :=
  method.descriptor.signature.parameterSlots + if method.isStatic then 0 else 1

/-- The number of slots in the frame of a method: what the body declares, or what
the method receives if that is more. -/
def slotCount (method : MethodDecl) : UInt16 :=
  match method.body with
  | none => receivedSlots method
  | some body => max body.maxLocals (receivedSlots method)

/-- The frame in which a method begins. The slots are counted in 16-bit words, and where
the count has wrapped around there is no room for all that the method receives. -/
def forMethod (id : Nat) (owner : Option String) (method : MethodDecl) : Except Fault Frame :=
  match (Locals.empty (slotCount method).toNat).seed 0 (received owner method) with
  | .error fault => .error fault
  | .ok locals => .ok ⟨id, [], locals⟩

/-- A frame begins with an empty stack and with seeded slots. -/
theorem forMethod_eq_ok {id : Nat} {owner : Option String} {method : MethodDecl} {frame : Frame} :
    forMethod id owner method = .ok frame ↔
      ∃ locals, (Locals.empty (slotCount method).toNat).seed 0 (received owner method) =
        .ok locals ∧ frame = ⟨id, [], locals⟩ := by
  rw [forMethod]
  split
  · next failed => simp [failed]
  · next seeded => simp [seeded, eq_comm]

/-- A method begins with an empty stack. -/
theorem stack_of_forMethod {id : Nat} {owner : Option String} {method : MethodDecl} {frame : Frame}
    (framed : forMethod id owner method = .ok frame) : frame.stack = [] := by
  obtain ⟨locals, _, rfl⟩ := forMethod_eq_ok.mp framed
  rfl

end Frame

end ClassTrim

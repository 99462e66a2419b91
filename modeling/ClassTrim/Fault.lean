import ClassTrim.Instruction

/-!
# Faults

Everything that can go wrong in the library, by cause. The wording of a fault is
decided in one place, by `Fault.message`; everything else works with causes.

An access outside of a table is a fault of a kind of its own: it is no answer that a
caller could act on. The work breaks off at once, and no setting makes it go on.
-/

namespace ClassTrim

/-- The identity of a value in a provenance graph. -/
abbrev ValueId := Nat

/-- The identity of a context in a provenance graph. -/
abbrev ContextId := Nat

/-- The text of a value's identity. -/
def renderValue (value : ValueId) : String :=
  "v" ++ Nat.repr value

/-- The text of a context's identity. -/
def renderContext (context : ContextId) : String :=
  "ctx" ++ Nat.repr context

/-- An edge of a provenance graph that is not recorded at both of its ends. -/
inductive Inconsistency where
  | popsUnknown (context : ContextId) (value : ValueId)
  | missingConsumer (context : ContextId) (value : ValueId)
  | pushesUnknown (context : ContextId) (value : ValueId)
  | otherProducer (context : ContextId) (value : ValueId) (producer : ContextId)
  | unknownProducer (value : ValueId)
  | missingPush (value : ValueId) (producer : ContextId)
  | strayConsumer (value : ValueId) (context : ContextId)
deriving DecidableEq

/-- The text of an inconsistency. -/
def Inconsistency.message : Inconsistency → String
  | .popsUnknown context value =>
    renderContext context ++ " pops unknown value " ++ renderValue value
  | .missingConsumer context value =>
    renderContext context ++ " pops " ++ renderValue value ++ " but is missing from its consumers"
  | .pushesUnknown context value =>
    renderContext context ++ " pushes unknown value " ++ renderValue value
  | .otherProducer context value producer =>
    renderContext context ++ " pushes " ++ renderValue value ++ " which names " ++
      renderContext producer ++ " as producer"
  | .unknownProducer value => renderValue value ++ " has unknown producer"
  | .missingPush value producer =>
    renderValue value ++ " is missing from the pushes of " ++ renderContext producer
  | .strayConsumer value context =>
    renderValue value ++ " lists " ++ renderContext context ++ " as consumer but it does not pop it"

/-- Input that does not describe anything. -/
inductive Malformation where
  | descriptor (defect : Descriptor.Defect)
  | labelBoundTwice (label : String)
  | labelUnbound (label : String)
  | graph (found : Inconsistency)
deriving DecidableEq

/-- The text of a malformation. -/
def Malformation.message : Malformation → String
  | .descriptor defect => defect.message
  | .labelBoundTwice label => String.join ["Label '", label, "' defined twice"]
  | .labelUnbound label => String.join ["Undefined label '", label, "'"]
  | .graph found => found.message

/-- A question that its caller had no right to ask. -/
inductive Breach where
  /-- There is no such value. -/
  | noSuchValue (value : ValueId)
  | noProducer (value : ValueId)
  /-- The value was pushed by another instruction than the one asked. -/
  | foreignValue (value : ValueId) (mnemonic : String) (pc : Nat)
      (askedMnemonic : String) (askedPc : Nat)
  | poppedNothing (context : ContextId) (pc : Nat)
  | notTwoPushes (mnemonic : String) (pc : Nat) (pushes : Nat)
  | notPushed (value : ValueId)
  | notPopped (context : ContextId) (value : ValueId)
deriving DecidableEq

/-- The place of an instruction in a text. -/
def placeText (mnemonic : String) (pc : Nat) : String :=
  "'" ++ mnemonic ++ "' at pc " ++ Nat.repr pc

/-- The text of a breach. -/
def Breach.message : Breach → String
  | .noSuchValue value => renderValue value ++ " does not exist"
  | .noProducer value => renderValue value ++ " has no producer"
  | .foreignValue value mnemonic pc askedMnemonic askedPc =>
    renderValue value ++ " was pushed by " ++ placeText mnemonic pc ++ ", not by " ++
      placeText askedMnemonic askedPc
  | .poppedNothing context pc =>
    renderContext context ++ " at pc " ++ Nat.repr pc ++ " popped nothing"
  | .notTwoPushes mnemonic pc pushes =>
    placeText mnemonic pc ++ " pushed " ++ Nat.repr pushes ++ " values, expected 2"
  | .notPushed value => renderValue value ++ " is not among the pushes"
  | .notPopped context value =>
    renderContext context ++ " does not pop " ++ renderValue value

/-- Something that the library does not model. -/
inductive Limitation where
  | noFloatingForm (operation : ArithOp) (kind : NumericKind) (pc : Nat)
  | narrowOperand (mnemonic : String) (pc : Nat)
  | needsStraightLine (method : MethodRef)
  /-- A limitation stated by a pass from outside the library. -/
  | stated (text : String)
deriving DecidableEq

/-- The text of a limitation. -/
def Limitation.message : Limitation → String
  | .noFloatingForm operation kind pc =>
    String.join ["'", operation.name, "' has no ", kind.name, " form (pc ", Nat.repr pc, ")"]
  | .narrowOperand mnemonic pc =>
    String.join ["'", mnemonic, "' on category-1 values (pc ", Nat.repr pc, ")"]
  | .needsStraightLine method =>
    String.join ["dead store elimination of ", method.render, " needs straight-line code"]
  | .stated text => text

/-- A fault, by cause. -/
inductive Fault where
  | malformed (cause : Malformation)
  | contractViolation (cause : Breach)
  | unsupported (cause : Limitation)
  | stackUnderflow (mnemonic : String) (pc : Nat)
  /-- Values that the instruction pushed are still consumed. -/
  | illegalRemoval (mnemonic : String) (pc : Nat) (consumers : Nat)
  | branchTarget (mnemonic : String) (pc : Nat)
  | instructionNotFound (id : InstructionId)
  | classNotFound (name : String)
  /-- A table of some size was accessed outside of it. -/
  | outOfRange (index size : Nat)
deriving DecidableEq

namespace Fault

/-- The text of a fault. -/
def message : Fault → String
  | .malformed cause => cause.message
  | .contractViolation cause => cause.message
  | .unsupported cause => String.join ["Unsupported - ", cause.message]
  | .stackUnderflow mnemonic pc =>
    String.join ["Stack underflow executing ", placeText mnemonic pc]
  | .illegalRemoval mnemonic pc consumers =>
    String.join ["Illegal removal of ", placeText mnemonic pc, ": ", Nat.repr consumers,
      " live consumer(s)"]
  | .branchTarget mnemonic pc =>
    String.join ["Refusing to remove ", placeText mnemonic pc, ": it is a branch target"]
  | .instructionNotFound id => String.join ["Instruction ", Instruction.renderId id, " not found"]
  | .classNotFound name => String.join ["Class '", name, "' not found"]
  | .outOfRange index size =>
    String.join ["index out of bounds: the len is ", Nat.repr size, " but the index is ",
      Nat.repr index]

/-- Whether the fault is an error of the caller and not of the input. -/
def isContractViolation : Fault → Bool
  | .contractViolation _ => true
  | _ => false

/-- Whether the work broke off. -/
def isCrash : Fault → Bool
  | .outOfRange _ _ => true
  | _ => false

/-- Whether the fault ends a run whatever the settings say. -/
def isFatal (fault : Fault) : Bool :=
  fault.isContractViolation || fault.isCrash

/-- A text that is no descriptor. -/
def ofDefect (defect : Descriptor.Defect) : Fault :=
  .malformed (.descriptor defect)

end Fault

end ClassTrim

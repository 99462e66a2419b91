/-!
# Access flags

Classes, fields and methods carry a 16-bit word of flags. Which bits have a
name depends on the kind of declaration. Bits without a name are kept.
-/

namespace ClassTrim.Access

/-- One named bit. -/
structure Flag where
  name : String
  bit : UInt16

/-- The flags of a class, in order of declaration. -/
def ofClass : List Flag :=
  [⟨"PUBLIC", 0x0001⟩, ⟨"FINAL", 0x0010⟩, ⟨"SUPER", 0x0020⟩, ⟨"INTERFACE", 0x0200⟩,
   ⟨"ABSTRACT", 0x0400⟩, ⟨"SYNTHETIC", 0x1000⟩, ⟨"ANNOTATION", 0x2000⟩, ⟨"ENUM", 0x4000⟩,
   ⟨"MODULE", 0x8000⟩]

/-- The flags of a field, in order of declaration. -/
def ofField : List Flag :=
  [⟨"PUBLIC", 0x0001⟩, ⟨"PRIVATE", 0x0002⟩, ⟨"PROTECTED", 0x0004⟩, ⟨"STATIC", 0x0008⟩,
   ⟨"FINAL", 0x0010⟩, ⟨"VOLATILE", 0x0040⟩, ⟨"TRANSIENT", 0x0080⟩, ⟨"SYNTHETIC", 0x1000⟩,
   ⟨"ENUM", 0x4000⟩]

/-- The flags of a method, in order of declaration. -/
def ofMethod : List Flag :=
  [⟨"PUBLIC", 0x0001⟩, ⟨"PRIVATE", 0x0002⟩, ⟨"PROTECTED", 0x0004⟩, ⟨"STATIC", 0x0008⟩,
   ⟨"FINAL", 0x0010⟩, ⟨"SYNCHRONIZED", 0x0020⟩, ⟨"BRIDGE", 0x0040⟩, ⟨"VARARGS", 0x0080⟩,
   ⟨"NATIVE", 0x0100⟩, ⟨"ABSTRACT", 0x0400⟩, ⟨"STRICT", 0x0800⟩, ⟨"SYNTHETIC", 0x1000⟩]

/-- Whether some bit of `mask` is set. -/
def has (bits mask : UInt16) : Bool :=
  bits &&& mask != 0

/-- The bits that have a name. -/
def known (flags : List Flag) (bits : UInt16) : UInt16 :=
  flags.foldl (fun kept flag => kept ||| (bits &&& flag.bit)) 0

/-- The names of the bits that are set, in order of declaration. -/
def names (flags : List Flag) (bits : UInt16) : List String :=
  (flags.filter fun flag => has bits flag.bit).map Flag.name

/-- Whether every bit that is set has a name. -/
def isValid (flags : List Flag) (bits : UInt16) : Bool :=
  known flags bits = bits

/-- Whether a class is an interface. -/
def isInterface (bits : UInt16) : Bool := has bits 0x0200

/-- Whether a member belongs to the class and not to its instances. -/
def isStatic (bits : UInt16) : Bool := has bits 0x0008

/-- Whether a method is abstract or native, and so has no body. -/
def isBodiless (bits : UInt16) : Bool := has bits 0x0500

end ClassTrim.Access

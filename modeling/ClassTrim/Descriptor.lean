import ClassTrim.StackType

/-!
# Descriptors

A field descriptor names one type: a primitive letter, a class name between
`L` and `;`, or any number of `[` before either. A method descriptor lists the
parameter types in parentheses and then the result, `V` for none.

Reading goes from left to right and stops at the first defect. A scan returns
the type it met, the characters it used, and the rest of the text; these always
concatenate to the input, and a successful scan uses at least one character.
-/

namespace ClassTrim

namespace Descriptor

/-- Why a text is no descriptor. -/
inductive Cause where
  | endsEarly
  | unterminatedClass
  | emptyClass
  | badTag (tag : Char)
  | trailingField
  | noOpening
  | unterminatedParameters
  | trailingMethod
deriving DecidableEq

/-- A text that is no descriptor, and the first thing wrong with it. -/
structure Defect where
  text : String
  cause : Cause
deriving DecidableEq

/-- The first byte of a character's encoding, shown as the character with that
code point. -/
def leadingByte (c : Char) : Char :=
  let code := c.toNat
  if code < 0x80 then c
  else if code < 0x800 then Char.ofNat (0xC0 + code / 0x40)
  else if code < 0x10000 then Char.ofNat (0xE0 + code / 0x1000)
  else Char.ofNat (0xF0 + code / 0x40000)

/-- The text that reports a defect. A text can only end early at its end, so
the position given is its length in bytes. -/
def Defect.message (defect : Defect) : String :=
  let quoted := "'" ++ defect.text ++ "'"
  match defect.cause with
  | .endsEarly =>
    "Unexpected end of descriptor " ++ quoted ++ " at " ++ Nat.repr defect.text.utf8ByteSize
  | .unterminatedClass => "Unterminated class name in " ++ quoted
  | .emptyClass => "Empty class name in " ++ quoted
  | .badTag tag =>
    "Invalid type tag '" ++ (leadingByte tag).toString ++ "' in descriptor " ++ quoted
  | .trailingField => "Trailing characters in field descriptor " ++ quoted
  | .noOpening => "Method descriptor " ++ quoted ++ " does not start with '('"
  | .unterminatedParameters => "Unterminated parameter list in " ++ quoted
  | .trailingMethod => "Trailing characters in method descriptor " ++ quoted

/-- One type at the head of a text. -/
structure Scanned where
  type : StackType
  /-- The characters that denote the type. -/
  lexeme : List Char
  /-- What follows them. -/
  rest : List Char

/-- The type of a primitive letter. -/
def primitive? : Char → Option StackType
  | 'B' | 'C' | 'S' | 'Z' | 'I' => some .int
  | 'J' => some .long
  | 'F' => some .float
  | 'D' => some .double
  | _ => none

/-- Scans a class name up to its semicolon; the opening letter is consumed. -/
def scanClass (chars : List Char) : Except Cause Scanned :=
  let name := chars.takeWhile (· != ';')
  match chars.dropWhile (· != ';') with
  | [] => .error .unterminatedClass
  | close :: rest =>
    if name.isEmpty then .error .emptyClass
    else .ok ⟨.ref (String.ofList name), 'L' :: (name ++ [close]), rest⟩

/-- Scans a type that is no array. -/
def scanElement : List Char → Except Cause Scanned
  | [] => .error .endsEarly
  | tag :: rest =>
    if tag = 'L' then scanClass rest
    else
      match primitive? tag with
      | some type => .ok ⟨type, [tag], rest⟩
      | none => .error (.badTag tag)

/-- Scans any type. An array is a reference named by all of its characters. -/
def scanType (chars : List Char) : Except Cause Scanned :=
  let dimensions := chars.takeWhile (· == '[')
  match scanElement (chars.dropWhile (· == '[')) with
  | .error cause => .error cause
  | .ok element =>
    if dimensions.isEmpty then .ok element
    else
      let lexeme := dimensions ++ element.lexeme
      .ok ⟨.ref (String.ofList lexeme), lexeme, element.rest⟩

/-- A class name and what is left of the text make up the text, with the letter that opened the
name. -/
theorem scanClass_split {chars : List Char} {found : Scanned}
    (scanned : scanClass chars = .ok found) :
    found.lexeme ++ found.rest = 'L' :: chars := by
  unfold scanClass at scanned
  have split := List.takeWhile_append_dropWhile (p := (· != ';')) (l := chars)
  cases tail : chars.dropWhile (· != ';') with
  | nil => simp [tail] at scanned
  | cons close rest =>
    simp only [tail] at scanned
    split at scanned
    · simp at scanned
    · simp only [Except.ok.injEq] at scanned
      subst scanned
      rw [tail] at split
      simpa using split

/-- A type that is no array and what is left of the text make up the text. -/
theorem scanElement_split {chars : List Char} {found : Scanned}
    (scanned : scanElement chars = .ok found) :
    found.lexeme ++ found.rest = chars := by
  cases chars with
  | nil => simp [scanElement] at scanned
  | cons tag rest =>
    simp only [scanElement] at scanned
    split at scanned
    · next letter => rw [scanClass_split scanned, letter]
    · split at scanned
      · simp only [Except.ok.injEq] at scanned
        subst scanned
        rfl
      · simp at scanned

/-- A scan that succeeds has consumed something. -/
theorem scanElement_lexeme_ne_nil {chars : List Char} {found : Scanned}
    (scanned : scanElement chars = .ok found) : found.lexeme ≠ [] := by
  cases chars with
  | nil => simp [scanElement] at scanned
  | cons tag rest =>
    simp only [scanElement, scanClass] at scanned
    repeat' split at scanned
    all_goals first
      | (simp only [Except.ok.injEq] at scanned; subst scanned; simp)
      | simp at scanned

/-- A scan splits its input: nothing is lost and nothing is added. -/
theorem scanType_split {chars : List Char} {found : Scanned}
    (scanned : scanType chars = .ok found) :
    found.lexeme ++ found.rest = chars := by
  simp only [scanType] at scanned
  have split := List.takeWhile_append_dropWhile (p := (· == '[')) (l := chars)
  split at scanned
  · simp at scanned
  · next element inner =>
    have body := scanElement_split inner
    split at scanned
    · next empty =>
      simp only [Except.ok.injEq] at scanned
      subst scanned
      rw [List.isEmpty_iff.mp empty] at split
      rw [body]
      simpa using split
    · simp only [Except.ok.injEq] at scanned
      subst scanned
      rw [List.append_assoc, body, split]

/-- A successful scan uses at least one character. -/
theorem scanType_rest_lt {chars : List Char} {found : Scanned}
    (scanned : scanType chars = .ok found) :
    found.rest.length < chars.length := by
  have split := scanType_split scanned
  have used : found.lexeme ≠ [] := by
    simp only [scanType] at scanned
    split at scanned
    · simp at scanned
    · next element inner =>
      have body := scanElement_lexeme_ne_nil inner
      split at scanned <;> simp only [Except.ok.injEq] at scanned <;> subst scanned
      · exact body
      · simp [body]
  have positive := List.length_pos_iff.mpr used
  rw [← split, List.length_append]
  omega

/-- Reads a whole text as a field descriptor. -/
def readField (text : String) : Except Defect StackType :=
  match scanType text.toList with
  | .error cause => .error ⟨text, cause⟩
  | .ok found => if found.rest.isEmpty then .ok found.type else .error ⟨text, .trailingField⟩

/-- Scans parameter types up to and including the closing parenthesis. -/
def scanParameters (chars : List Char) : Except Cause (List StackType × List Char) :=
  match chars with
  | [] => .error .unterminatedParameters
  | head :: tail =>
    if head = ')' then .ok ([], tail)
    else
      match scanned : scanType (head :: tail) with
      | .error cause => .error cause
      | .ok found =>
        have := scanType_rest_lt scanned
        match scanParameters found.rest with
        | .error cause => .error cause
        | .ok (types, rest) => .ok (found.type :: types, rest)
termination_by chars.length
decreasing_by assumption

/-- What a method takes and gives; a result of `none` is void. -/
structure Signature where
  parameters : List StackType
  result : Option StackType
deriving DecidableEq

/-- Scans the result of a method: `V`, or a type. -/
def scanResult (chars : List Char) : Except Cause (Option StackType × List Char) :=
  match chars with
  | 'V' :: rest => .ok (none, rest)
  | _ =>
    match scanType chars with
    | .error cause => .error cause
    | .ok found => .ok (some found.type, found.rest)

/-- Scans a method descriptor to the end of the text. -/
def scanSignature : List Char → Except Cause Signature
  | '(' :: chars => do
    let (parameters, afterParameters) ← scanParameters chars
    let (result, rest) ← scanResult afterParameters
    if rest.isEmpty then .ok ⟨parameters, result⟩ else .error .trailingMethod
  | _ => .error .noOpening

/-- Reads a whole text as a method descriptor. -/
def readMethod (text : String) : Except Defect Signature :=
  match scanSignature text.toList with
  | .error cause => .error ⟨text, cause⟩
  | .ok signature => .ok signature

end Descriptor

/-- The descriptor of a field: a text together with the type it denotes. -/
structure FieldDescriptor where
  text : String
  type : StackType
  denotes : Descriptor.readField text = .ok type
deriving DecidableEq

namespace FieldDescriptor

/-- Reads a field descriptor. -/
def parse (text : String) : Except Descriptor.Defect FieldDescriptor :=
  match denotes : Descriptor.readField text with
  | .error defect => .error defect
  | .ok type => .ok ⟨text, type, denotes⟩

/-- The text decides the whole descriptor. -/
theorem eq_of_text {first second : FieldDescriptor} (same : first.text = second.text) :
    first = second := by
  obtain ⟨text, type, denotes⟩ := first
  obtain ⟨_, other, otherDenotes⟩ := second
  cases same
  simpa [denotes] using otherDenotes

end FieldDescriptor

/-- The descriptor of a method: a text together with the signature it denotes. -/
structure MethodDescriptor where
  text : String
  signature : Descriptor.Signature
  denotes : Descriptor.readMethod text = .ok signature
deriving DecidableEq

namespace MethodDescriptor

/-- Reads a method descriptor. -/
def parse (text : String) : Except Descriptor.Defect MethodDescriptor :=
  match denotes : Descriptor.readMethod text with
  | .error defect => .error defect
  | .ok signature => .ok ⟨text, signature, denotes⟩

/-- The text decides the whole descriptor. -/
theorem eq_of_text {first second : MethodDescriptor} (same : first.text = second.text) :
    first = second := by
  obtain ⟨text, signature, denotes⟩ := first
  obtain ⟨_, other, otherDenotes⟩ := second
  cases same
  simpa [denotes] using otherDenotes

/-- The types of the parameters, from left to right. -/
def parameters (descriptor : MethodDescriptor) : List StackType :=
  descriptor.signature.parameters

/-- The type of the result, if there is one. -/
def result (descriptor : MethodDescriptor) : Option StackType :=
  descriptor.signature.result

end MethodDescriptor

/-- The number of local slots that parameters fill, as a 16-bit word: slots are
numbered by such words, and a longer list wraps around. -/
def Descriptor.Signature.parameterSlots (signature : Descriptor.Signature) : UInt16 :=
  UInt16.ofNat (StackType.totalSlots signature.parameters)

end ClassTrim

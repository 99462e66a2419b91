import ClassTrim.Descriptor

/-!
# A reader of descriptors by position

A descriptor can be read without taking it apart into characters: the reader keeps a position,
counted in bytes, looks at single bytes, and cuts names out of the text between two positions. A
cut is an error of its own kind, `Halt.crash`, unless both positions lie between two characters of
the text.

Every step goes ahead, and a byte is seen only within the text, so what is left of the text bounds
the steps.
-/

namespace ClassTrim.Descriptor

/-- How reading by position ends without a result. -/
inductive Halt where
  /-- A position lies outside the text, or within a character. -/
  | crash
  /-- The text is no descriptor. -/
  | malformed (message : String)
deriving DecidableEq

/-- The byte at a position, shown as the character with that code point. -/
def byteAt? (text : String) (position : Nat) : Option Char :=
  text.toByteArray.data[position]?.map fun byte => Char.ofNat byte.toNat

/-- The text from one position to another. -/
def slice (text : String) (first last : Nat) : Except Halt String :=
  if bounds : first ≤ last ∧ String.Pos.Raw.IsValid text ⟨first⟩ ∧
      String.Pos.Raw.IsValid text ⟨last⟩ then
    .ok (String.extract ⟨⟨first⟩, bounds.2.1⟩ ⟨⟨last⟩, bounds.2.2⟩)
  else .error .crash

example : slice "é;" 0 2 = .ok "é" ∧ slice "é;" 0 1 = .error .crash ∧
    slice "é;" 2 4 = .error .crash :=
  ⟨rfl, rfl, rfl⟩

/-- The number of bytes ahead of the first semicolon. -/
def semicolon? : List Char → Option Nat
  | [] => none
  | c :: rest => if c = ';' then some 0 else (semicolon? rest).map (c.utf8Size + ·)

/-- Where there is a byte, the position is inside the text. -/
theorem lt_of_byteAt? {text : String} {position : Nat} {byte : Char}
    (met : byteAt? text position = some byte) : position < text.utf8ByteSize := by
  obtain ⟨_, present, _⟩ := Option.map_eq_some_iff.mp met
  exact (Array.getElem?_eq_some_iff.mp present).1

/-- The first position from a given one on at which there is no bracket. -/
def skipBrackets (text : String) (position : Nat) : Nat :=
  if met : byteAt? text position = some '[' then skipBrackets text (position + 1) else position
termination_by text.utf8ByteSize - position
decreasing_by
  have inside := lt_of_byteAt? met
  omega

/-- Skipping brackets never goes back. -/
theorem le_skipBrackets (text : String) (position : Nat) :
    position ≤ skipBrackets text position := by
  induction position using skipBrackets.induct text with
  | case1 position met ih =>
    rw [skipBrackets, dif_pos met]
    omega
  | case2 position other =>
    have stays : skipBrackets text position = position := by rw [skipBrackets, dif_neg other]
    omega

/-- From a bracket, skipping goes on by at least one position. -/
theorem lt_skipBrackets {text : String} {position : Nat}
    (met : byteAt? text position = some '[') : position < skipBrackets text position := by
  rw [skipBrackets, dif_pos met]
  exact le_skipBrackets text (position + 1)

/-- Reads a class name, from the position of its opening letter. -/
def classAt (text : String) (position : Nat) : Except Halt (StackType × Nat) := do
  let tail ← slice text position text.utf8ByteSize
  match semicolon? tail.toList with
  | none => .error (.malformed (Defect.message ⟨text, .unterminatedClass⟩))
  | some offset =>
    let close := position + offset
    if close = position + 1 then .error (.malformed (Defect.message ⟨text, .emptyClass⟩))
    else
      let name ← slice text (position + 1) close
      return (.ref name, close + 1)

/-- Reads one type, and gives the position behind it. The element of an array is read by the same
rule, behind all brackets. -/
def typeAt (text : String) (position : Nat) : Except Halt (StackType × Nat) :=
  match met : byteAt? text position with
  | none =>
    .error (.malformed ("Unexpected end of descriptor " ++ ("'" ++ text ++ "'") ++ " at " ++
      Nat.repr position))
  | some tag =>
    if tag = 'L' then classAt text position
    else if bracket : tag = '[' then do
      have := lt_of_byteAt? met
      have := lt_skipBrackets (bracket ▸ met)
      let (_, next) ← typeAt text (skipBrackets text position)
      let name ← slice text position next
      return (.ref name, next)
    else
      match primitive? tag with
      | some type => .ok (type, position + 1)
      | none =>
        .error (.malformed ("Invalid type tag '" ++ tag.toString ++ "' in descriptor " ++
          ("'" ++ text ++ "'")))
termination_by text.utf8ByteSize - position

/-- Reading a class name moves on. -/
theorem lt_of_classAt {text : String} {position next : Nat} {type : StackType}
    (read : classAt text position = .ok (type, next)) : position < next := by
  simp only [classAt, bind, Except.bind] at read
  split at read
  · cases read
  · split at read
    · cases read
    · split at read
      · cases read
      · split at read
        · cases read
        · cases read
          omega

/-- At the end of the text there is no type to read. -/
theorem typeAt_end {text : String} {position : Nat} (ended : byteAt? text position = none) :
    typeAt text position =
      .error (.malformed ("Unexpected end of descriptor " ++ ("'" ++ text ++ "'") ++ " at " ++
        Nat.repr position)) := by
  rw [typeAt]
  split
  · rfl
  · next met => simp [ended] at met

/-- An array is read as its element behind all brackets, and named by the text of both. -/
theorem typeAt_array {text : String} {position : Nat}
    (bracket : byteAt? text position = some '[') :
    typeAt text position = do
      let (_, next) ← typeAt text (skipBrackets text position)
      let name ← slice text position next
      return (.ref name, next) := by
  rw [typeAt]
  split
  · next ended => simp [bracket] at ended
  · next tag met =>
    rw [bracket] at met
    cases met
    rfl

/-- A type that is no array is a class name or a primitive letter; any other byte is an invalid tag.
-/
theorem typeAt_element {text : String} {position : Nat} {tag : Char}
    (met : byteAt? text position = some tag) (flat : tag ≠ '[') :
    typeAt text position =
      if tag = 'L' then classAt text position
      else
        match primitive? tag with
        | some type => .ok (type, position + 1)
        | none =>
          .error (.malformed ("Invalid type tag '" ++ tag.toString ++ "' in descriptor " ++
            ("'" ++ text ++ "'"))) := by
  rw [typeAt]
  split
  · next ended => simp [met] at ended
  · next other again =>
    rw [met] at again
    cases again
    rw [dif_neg flat]

/-- Reading a type that is no array moves on. -/
theorem lt_of_typeAt_element {text : String} {position next : Nat} {type : StackType} {tag : Char}
    (read : typeAt text position = .ok (type, next)) (met : byteAt? text position = some tag)
    (flat : tag ≠ '[') : position < next := by
  rw [typeAt_element met flat] at read
  split at read
  · exact lt_of_classAt read
  · split at read
    · cases read
      omega
    · cases read

/-- Reading a type goes ahead in the text. -/
theorem lt_of_typeAt {text : String} {position next : Nat} {type : StackType}
    (read : typeAt text position = .ok (type, next)) : position < next := by
  induction position using typeAt.induct text generalizing type with
  | case1 position ended =>
    rw [typeAt_end ended] at read
    cases read
  | case2 position letter => exact lt_of_typeAt_element read letter (by decide)
  | case3 position bracket _ _ _ ih =>
    simp only [typeAt_array bracket, bind, Except.bind] at read
    split at read
    · cases read
    · next inner =>
      split at read
      · cases read
      · cases read
        exact Nat.lt_trans (lt_skipBrackets bracket) (ih inner)
  | case4 position tag met _ flat => exact lt_of_typeAt_element read met flat
  | case5 position tag met _ flat => exact lt_of_typeAt_element read met flat

/-- Reads parameter types up to and including the closing parenthesis. -/
def parametersAt (text : String) (position : Nat) : Except Halt (List StackType × Nat) :=
  match met : byteAt? text position with
  | none => .error (.malformed (Defect.message ⟨text, .unterminatedParameters⟩))
  | some byte =>
    if byte = ')' then .ok ([], position + 1)
    else
      match read : typeAt text position with
      | .error halt => .error halt
      | .ok (type, next) => do
        have := lt_of_byteAt? met
        have := lt_of_typeAt read
        let (types, behind) ← parametersAt text next
        return (type :: types, behind)
termination_by text.utf8ByteSize - position

/-- Parameters that are not closed are refused. -/
theorem parametersAt_end {text : String} {position : Nat} (ended : byteAt? text position = none) :
    parametersAt text position =
      .error (.malformed (Defect.message ⟨text, .unterminatedParameters⟩)) := by
  rw [parametersAt]
  split
  · rfl
  · next met => simp [ended] at met

/-- The closing parenthesis ends the parameters. -/
theorem parametersAt_close {text : String} {position : Nat}
    (closing : byteAt? text position = some ')') :
    parametersAt text position = .ok ([], position + 1) := by
  rw [parametersAt]
  split
  · next ended => simp [closing] at ended
  · next met =>
    rw [closing] at met
    cases met
    rfl

/-- Any other byte begins one more parameter. -/
theorem parametersAt_more {text : String} {position : Nat} {byte : Char}
    (met : byteAt? text position = some byte) (more : byte ≠ ')') :
    parametersAt text position = do
      let (type, next) ← typeAt text position
      let (types, behind) ← parametersAt text next
      return (type :: types, behind) := by
  rw [parametersAt]
  split
  · next ended => simp [met] at ended
  · next again =>
    rw [met] at again
    cases again
    rw [if_neg more]
    split
    · next failed =>
      rw [failed]
      rfl
    · next read => simp only [read, bind, Except.bind]

/-- Reads the result of a method: `V`, or a type. -/
def resultAt (text : String) (position : Nat) : Except Halt (Option StackType × Nat) :=
  if byteAt? text position = some 'V' then .ok (none, position + 1)
  else do
    let (type, next) ← typeAt text position
    return (some type, next)

/-- Reads a whole text as a field descriptor. -/
def readFieldAt (text : String) : Except Halt StackType := do
  let (type, next) ← typeAt text 0
  if next = text.utf8ByteSize then return type
  else .error (.malformed (Defect.message ⟨text, .trailingField⟩))

/-- Reads a whole text as a method descriptor. -/
def readMethodAt (text : String) : Except Halt Signature :=
  if byteAt? text 0 = some '(' then do
    let (parameters, behind) ← parametersAt text 1
    let (result, next) ← resultAt text behind
    if next = text.utf8ByteSize then return ⟨parameters, result⟩
    else .error (.malformed (Defect.message ⟨text, .trailingMethod⟩))
  else .error (.malformed (Defect.message ⟨text, .noOpening⟩))

end ClassTrim.Descriptor

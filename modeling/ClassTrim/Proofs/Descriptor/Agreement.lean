import ClassTrim.Proofs.Descriptor.Grammar
import ClassTrim.Proofs.Descriptor.Positions

/-!
# Reading by position and by character

Each position that the reader by position comes to is where some rest of the text starts. There it
sees the first byte of a character, which is none of the letters of the grammar if the character
is not. Hence it agrees with the reader by character on every text, also in what it reports, and
no cut fails.
-/

namespace ClassTrim.Descriptor

/-- Where a rest of a text starts. -/
def start (text : String) (rest : List Char) : Nat :=
  text.utf8ByteSize - (String.ofList rest).utf8ByteSize

variable {text : String} {used rest : List Char} {c : Char}

/-- The whole text starts at position zero. -/
theorem start_toList (text : String) : start text text.toList = 0 := by
  simp [start]

/-- The empty rest starts at the end of the text. -/
theorem start_nil (text : String) : start text [] = text.utf8ByteSize := by
  simp [start]

/-- Ahead of a rest stand the characters that were used. -/
theorem exists_front (inside : rest <:+ text.toList) :
    ∃ front : String, text = front ++ String.ofList rest ∧
      start text rest = front.utf8ByteSize := by
  obtain ⟨front, whole⟩ := inside
  have text_eq : text = String.ofList front ++ String.ofList rest := by
    rw [← String.toList_inj, ← whole]
    simp
  refine ⟨String.ofList front, text_eq, ?_⟩
  rw [start]
  conv_lhs => rw [text_eq, String.utf8ByteSize_append]
  omega

/-- A rest behind some characters starts as many bytes later as the characters take. -/
theorem start_append (used : List Char) (inside : used ++ rest <:+ text.toList) :
    start text rest = start text (used ++ rest) + (String.ofList used).utf8ByteSize := by
  obtain ⟨front, whole, place⟩ := exists_front inside
  rw [place, start, whole, String.ofList_append]
  simp only [String.utf8ByteSize_append]
  omega

/-- Only the empty rest starts at the end of the text. -/
theorem start_eq_size_iff (inside : rest <:+ text.toList) :
    start text rest = text.utf8ByteSize ↔ rest = [] := by
  obtain ⟨front, whole, place⟩ := exists_front inside
  rw [place, whole, String.utf8ByteSize_append, Nat.left_eq_add, String.utf8ByteSize_eq_zero_iff,
    String.ofList_eq_empty_iff]

/-- A cut between the starts of two rests gives what stands between them. -/
theorem slice_start (used : List Char) (inside : used ++ rest <:+ text.toList) :
    slice text (start text (used ++ rest)) (start text rest) = .ok (String.ofList used) := by
  have behind := start_append used inside
  obtain ⟨front, whole, place⟩ := exists_front inside
  rw [String.ofList_append, ← String.append_assoc] at whole
  have first : String.Pos.Raw.IsValid text ⟨start text (used ++ rest)⟩ := by
    rw [String.Pos.Raw.isValid_iff_exists_append]
    exact ⟨front, String.ofList used ++ String.ofList rest, by rw [whole, String.append_assoc],
      by rw [place]; rfl⟩
  have last : String.Pos.Raw.IsValid text ⟨start text rest⟩ := by
    rw [String.Pos.Raw.isValid_iff_exists_append]
    exact ⟨front ++ String.ofList used, String.ofList rest, whole,
      by rw [behind, place, ← String.utf8ByteSize_append]; rfl⟩
  have bytes : text.toByteArray = front.toByteArray ++
      ((String.ofList used).toByteArray ++ (String.ofList rest).toByteArray) := by
    rw [whole, String.append_assoc, String.toByteArray_append, String.toByteArray_append]
  rw [slice, dif_pos ⟨by omega, first, last⟩, Except.ok.injEq, ← String.toByteArray_inj,
    String.toByteArray_extract]
  simp only [behind, place, bytes, ← String.size_toByteArray]
  exact (ByteArray.extract_append_size_add (i := 0)).trans (ByteArray.extract_append_eq_left rfl)

/-- Code points stay below their bound. -/
theorem toNat_lt (c : Char) : c.toNat < 0x110000 := by
  rcases c.valid with low | ⟨_, high⟩
  · exact low.trans (by decide)
  · exact high

/-- The encoding of a character begins with the byte that a report shows. -/
theorem exists_utf8EncodeChar (c : Char) :
    ∃ byte tail, String.utf8EncodeChar c = byte :: tail ∧
      Char.ofNat byte.toNat = leadingByte c := by
  have bound := toNat_lt c
  have code : c.val.toNat = c.toNat := rfl
  have shown : ∀ byte : Nat, byte < 0x100 → (UInt8.ofNat byte).toNat = byte := by
    intro byte small
    rw [UInt8.toNat_ofNat']
    omega
  simp only [String.utf8EncodeChar, leadingByte, code]
  split
  · refine ⟨_, _, rfl, ?_⟩
    rw [shown _ (by omega), Char.ofNat_toNat, if_pos (by omega)]
  · split
    · refine ⟨_, _, rfl, ?_⟩
      rw [shown _ (by omega), if_neg (by omega), if_pos (by omega)]
      congr 1
      omega
    · split
      · refine ⟨_, _, rfl, ?_⟩
        rw [shown _ (by omega), if_neg (by omega), if_neg (by omega), if_pos (by omega)]
        congr 1
        omega
      · refine ⟨_, _, rfl, ?_⟩
        rw [shown _ (by omega), if_neg (by omega), if_neg (by omega), if_neg (by omega)]
        congr 1
        omega

/-- There is no byte at the end of the text. -/
theorem byteAt?_start_nil (text : String) : byteAt? text (start text []) = none := by
  rw [start_nil, byteAt?, Array.getElem?_eq_none (by simp [← String.size_toByteArray])]
  rfl

/-- Where a rest starts there is the first byte of its first character. -/
theorem byteAt?_start_cons (inside : c :: rest <:+ text.toList) :
    byteAt? text (start text (c :: rest)) = some (leadingByte c) := by
  obtain ⟨front, whole, place⟩ := exists_front inside
  obtain ⟨byte, tail, encoded, shown⟩ := exists_utf8EncodeChar c
  have bytes : text.toByteArray.data = front.toByteArray.data ++
      (byte :: (tail ++ rest.flatMap String.utf8EncodeChar)).toArray := by
    rw [whole, String.toByteArray_append, ByteArray.data_append, String.toByteArray_ofList,
      List.utf8Encode, List.data_toByteArray, List.flatMap_cons, encoded, List.cons_append]
  rw [byteAt?, place, bytes, ← String.size_toByteArray]
  rw [Array.getElem?_append_right (by rfl)]
  simp [shown]

/-- A character outside the first 128 is shown outside of them. -/
theorem le_leadingByte (beyond : 0x80 ≤ c.toNat) : 0x80 ≤ (leadingByte c).toNat := by
  have bound := toNat_lt c
  have shown : ∀ byte : Nat, byte < 0x100 → (Char.ofNat byte).toNat = byte := by
    intro byte small
    have valid : byte.isValidChar := .inl (by omega)
    have char : Char.ofNat byte = Char.ofNatAux byte valid := dif_pos valid
    rw [char]
    rfl
  unfold leadingByte
  simp only
  rw [if_neg (by omega)]
  split
  · rw [shown _ (by omega)]
    omega
  · split
    · rw [shown _ (by omega)]
      omega
    · rw [shown _ (by omega)]
      omega

/-- A character of one byte is its own leading byte. -/
theorem leadingByte_of_lt (inside : c.toNat < 0x80) : leadingByte c = c :=
  if_pos inside

/-- A first byte is a letter only if the character is that letter. -/
theorem leadingByte_eq_iff {letter : Char} (low : letter.toNat < 0x80) :
    leadingByte c = letter ↔ c = letter := by
  by_cases inside : c.toNat < 0x80
  · rw [leadingByte_of_lt inside]
  · have beyond := le_leadingByte (Nat.le_of_not_lt inside)
    constructor
    · rintro rfl
      omega
    · rintro rfl
      exact absurd low inside

/-- No character beyond the first 128 stands for a primitive type. -/
theorem primitive?_of_le (beyond : 0x80 ≤ c.toNat) : primitive? c = none := by
  unfold primitive?
  split <;> first | rfl | exact absurd beyond (by decide)

/-- A leading byte stands for the same primitive type as its character. Neither does if the
character takes more than one byte. -/
theorem primitive?_leadingByte (c : Char) : primitive? (leadingByte c) = primitive? c := by
  by_cases inside : c.toNat < 0x80
  · rw [leadingByte_of_lt inside]
  · have beyond := Nat.le_of_not_lt inside
    rw [primitive?_of_le beyond, primitive?_of_le (le_leadingByte beyond)]

/-- The first 128 characters take one byte each. -/
theorem utf8Size_of_lt (low : c.toNat < 0x80) : c.utf8Size = 1 := by
  rw [Char.utf8Size_eq_one_iff, UInt32.le_iff_toNat_le]
  exact Nat.le_of_lt_succ low

/-- A letter of the grammar takes one byte. -/
theorem start_letter (inside : c :: rest <:+ text.toList) (low : c.toNat < 0x80) :
    start text rest = start text (c :: rest) + 1 := by
  have behind := start_append [c] inside
  rwa [String.ofList_cons, String.ofList_nil, String.append_empty, String.utf8ByteSize_singleton,
    utf8Size_of_lt low] at behind

/-- A letter of the grammar is seen where a rest begins with it, and nowhere else. -/
theorem byteAt?_start_eq_iff (letter : Char) (inside : rest <:+ text.toList)
    (low : letter.toNat < 0x80) :
    byteAt? text (start text rest) = some letter ↔ rest.head? = some letter := by
  cases rest with
  | nil => simp [byteAt?_start_nil]
  | cons c behind =>
    rw [byteAt?_start_cons inside, List.head?_cons, Option.some.injEq, Option.some.injEq,
      leadingByte_eq_iff low]

/-- Skipping brackets by position and dropping them from the characters come to the same place. -/
theorem skipBrackets_start (inside : rest <:+ text.toList) :
    skipBrackets text (start text rest) = start text (rest.dropWhile (· == '[')) := by
  induction rest with
  | nil => rw [skipBrackets, byteAt?_start_nil, dif_neg (by simp), List.dropWhile_nil]
  | cons c behind ih =>
    have seen := byteAt?_start_eq_iff '[' inside (by decide)
    rw [List.head?_cons, Option.some.injEq] at seen
    by_cases bracket : c = '['
    · have low : c.toNat < 0x80 := by
        rw [bracket]
        decide
      rw [skipBrackets, dif_pos (seen.mpr bracket), ← start_letter inside low,
        ih ((List.suffix_cons c behind).trans inside),
        List.dropWhile_cons_of_pos (by simpa using bracket)]
    · rw [skipBrackets, dif_neg (mt seen.mp bracket),
        List.dropWhile_cons_of_neg (by simpa using bracket)]

/-- Without a semicolon none is found. -/
theorem semicolon?_eq_none (absent : ';' ∉ rest) : semicolon? rest = none := by
  induction rest with
  | nil => rfl
  | cons c behind ih =>
    rw [List.mem_cons, not_or] at absent
    rw [semicolon?, if_neg (Ne.symm absent.1), ih absent.2]
    rfl

/-- The first semicolon stands behind the bytes of what has none. -/
theorem semicolon?_append (absent : ';' ∉ used) (rest : List Char) :
    semicolon? (used ++ ';' :: rest) = some (String.ofList used).utf8ByteSize := by
  induction used with
  | nil => rfl
  | cons c behind ih =>
    rw [List.mem_cons, not_or] at absent
    rw [List.cons_append, semicolon?, if_neg (Ne.symm absent.1), ih absent.2, String.ofList_cons,
      String.utf8ByteSize_append, String.utf8ByteSize_singleton]
    rfl

/-- What a scan of characters is to a reader by position: the rest is known by where it starts. -/
def located {α : Type} (text : String) : Except Cause (α × List Char) → Except Halt (α × Nat)
  | .ok (value, rest) => .ok (value, start text rest)
  | .error cause => .error (.malformed (Defect.message ⟨text, cause⟩))

/-- A scanned type, without the characters that it was read from. -/
def Scanned.typed (found : Scanned) : StackType × List Char :=
  (found.type, found.rest)

/-- A class name read by position is the one that is scanned. -/
theorem classAt_start (inside : 'L' :: rest <:+ text.toList) :
    classAt text (start text ('L' :: rest)) =
      located text ((scanClass rest).map Scanned.typed) := by
  have tail : slice text (start text ('L' :: rest)) text.utf8ByteSize =
      .ok (String.ofList ('L' :: rest)) := by
    rw [← List.append_nil ('L' :: rest)] at inside
    have cut := slice_start ('L' :: rest) inside
    rwa [List.append_nil, start_nil] at cut
  rcases scanClass_cases rest with ⟨absent, failed⟩ | ⟨name, behind, absent, rfl, ends⟩
  · have missing : semicolon? ('L' :: rest) = none := semicolon?_eq_none (by simpa using absent)
    simp only [classAt, tail, bind, Except.bind, String.toList_ofList, missing, failed, Except.map,
      located]
  · -- The search starts at the opening letter, which is no semicolon and takes one byte.
    have found : semicolon? ('L' :: (name ++ ';' :: behind)) =
        some (1 + (String.ofList name).utf8ByteSize) := by
      rw [semicolon?, if_neg (by decide), semicolon?_append absent]
      rfl
    have named := (List.suffix_cons 'L' _).trans inside
    have opened := start_letter inside (by decide)
    have closed := start_append name named
    have ended := start_letter ((List.suffix_append name _).trans named) (by decide)
    simp only [classAt, tail, bind, Except.bind, String.toList_ofList, found, ends]
    have sized : (String.ofList name).utf8ByteSize = 0 ↔ name = [] := by
      rw [String.utf8ByteSize_eq_zero_iff, String.ofList_eq_empty_iff]
    by_cases empty : name = []
    · have nothing := sized.mpr empty
      rw [if_pos (by omega), if_pos empty]
      rfl
    · have something := mt sized.mp empty
      rw [if_neg (by omega), if_neg empty, ← opened, ← Nat.add_assoc, ← opened, ← closed,
        slice_start name named, ← ended]
      rfl

/-- A type that is no array is read by position as it is by character. -/
theorem typeAt_start_element (inside : rest <:+ text.toList) (flat : rest.head? ≠ some '[') :
    typeAt text (start text rest) = located text ((scanElement rest).map Scanned.typed) := by
  cases rest with
  | nil =>
    rw [typeAt_end (byteAt?_start_nil text), start_nil]
    rfl
  | cons c behind =>
    have met := byteAt?_start_cons inside
    have apart : leadingByte c ≠ '[' := by
      rw [ne_eq, leadingByte_eq_iff (by decide)]
      rintro rfl
      exact flat rfl
    simp only [typeAt_element met apart, leadingByte_eq_iff (show 'L'.toNat < 0x80 by decide),
      primitive?_leadingByte, scanElement]
    split
    · next letter =>
      subst letter
      exact classAt_start inside
    · cases letter : primitive? c with
      | none => rfl
      | some type =>
        have low : c.toNat < 0x80 := by
          by_contra beyond
          rw [primitive?_of_le (Nat.le_of_not_lt beyond)] at letter
          cases letter
        rw [← start_letter inside low]
        rfl

/-- Once brackets are dropped, none is in front. -/
theorem head?_dropWhile_bracket (chars : List Char) :
    (chars.dropWhile (· == '[')).head? ≠ some '[' := by
  intro bracket
  have stops := List.head?_dropWhile_not (· == '[') chars
  simp [bracket] at stops

/-- A type is read by position as it is by character. -/
theorem typeAt_start (inside : rest <:+ text.toList) :
    typeAt text (start text rest) = located text ((scanType rest).map Scanned.typed) := by
  cases rest with
  | nil => exact typeAt_start_element inside (by simp)
  | cons c behind =>
    by_cases bracket : c = '['
    · -- Behind all brackets there is no bracket, so what is read there is an element.
      subst bracket
      have met := (byteAt?_start_eq_iff '[' inside (by decide)).mpr rfl
      have element := typeAt_start_element ((List.dropWhile_suffix (· == '[')).trans inside)
        (head?_dropWhile_bracket _)
      rw [typeAt_array met, skipBrackets_start inside, element, scanType]
      cases inner : scanElement (('[' :: behind).dropWhile (· == '[')) with
      | error cause => rfl
      | ok found =>
        have whole : ('[' :: behind).takeWhile (· == '[') ++ found.lexeme ++ found.rest =
            '[' :: behind := by
          rw [List.append_assoc, scanElement_split inner, List.takeWhile_append_dropWhile]
        have cut := slice_start _ (whole ▸ inside)
        rw [whole] at cut
        simp only [located, Except.map, Scanned.typed, bind, Except.bind, cut]
        rfl
    · have other : ¬(c == '[') = true := by simpa using bracket
      rw [scanType, List.takeWhile_cons_of_neg (p := (· == '[')) other,
        List.dropWhile_cons_of_neg (p := (· == '[')) other,
        typeAt_start_element inside (by simpa using bracket)]
      cases scanElement (c :: behind) <;> rfl

/-- What a scan of a type leaves is again a rest of the text. -/
theorem suffix_of_scanType {found : Scanned} (inside : rest <:+ text.toList)
    (scanned : scanType rest = .ok found) : found.rest <:+ text.toList := by
  rw [← scanType_split scanned] at inside
  exact (List.suffix_append _ _).trans inside

/-- With a type at the head, reading goes on behind it in both ways. -/
theorem parametersAt_start_more {found : Scanned} (inside : c :: rest <:+ text.toList)
    (more : c ≠ ')') (scanned : scanType (c :: rest) = .ok found)
    (others : parametersAt text (start text found.rest) =
      located text (scanParameters found.rest)) :
    parametersAt text (start text (c :: rest)) = located text (scanParameters (c :: rest)) := by
  have shown : leadingByte c ≠ ')' := by rwa [ne_eq, leadingByte_eq_iff (by decide)]
  have read := typeAt_start inside
  rw [scanned] at read
  rw [parametersAt_more (byteAt?_start_cons inside) shown, read]
  conv_rhs =>
    rw [← scanType_split scanned, (fieldText_of_scanType scanned).scanParameters_append]
  simp only [Except.map, Scanned.typed, located, bind, Except.bind, others]
  cases scanParameters found.rest <;> rfl

/-- Parameters are read by position as they are by character. -/
theorem parametersAt_start (inside : rest <:+ text.toList) :
    parametersAt text (start text rest) = located text (scanParameters rest) := by
  -- The scan by character decides how often both go on; the text itself stays as it is.
  induction rest using scanParameters.induct with
  | case1 =>
    rw [parametersAt_end (byteAt?_start_nil text), scanParameters]
    rfl
  | case2 behind =>
    rw [parametersAt_close ((byteAt?_start_eq_iff ')' inside (by decide)).mpr rfl),
      scanParameters_close, ← start_letter inside (by decide)]
    rfl
  | case3 head behind more cause failed =>
    have shown : leadingByte head ≠ ')' := by rwa [ne_eq, leadingByte_eq_iff (by decide)]
    rw [parametersAt_more (byteAt?_start_cons inside) shown, typeAt_start inside, failed,
      scanParameters_of_error more failed]
    rfl
  | case4 head behind more found scanned _ cause _ ih =>
    exact parametersAt_start_more inside more scanned (ih (suffix_of_scanType inside scanned))
  | case5 head behind more found scanned _ others remaining _ ih =>
    exact parametersAt_start_more inside more scanned (ih (suffix_of_scanType inside scanned))

/-- A result read by position is the one that is scanned. -/
theorem resultAt_start (inside : rest <:+ text.toList) :
    resultAt text (start text rest) = located text (scanResult rest) := by
  have seen := byteAt?_start_eq_iff 'V' inside (by decide)
  by_cases void : rest.head? = some 'V'
  · obtain ⟨behind, rfl⟩ := List.head?_eq_some_iff.mp void
    rw [resultAt, if_pos (seen.mpr void), ← start_letter inside (by decide)]
    rfl
  · rw [resultAt, if_neg (mt seen.mp void), typeAt_start inside, scanResult_value void]
    cases scanType rest <;> rfl

/-- A field descriptor is read by position as it is by character. -/
theorem readFieldAt_eq (text : String) :
    readFieldAt text = (readField text).mapError fun defect => .malformed defect.message := by
  have read := typeAt_start (List.suffix_refl text.toList)
  rw [start_toList] at read
  simp only [readFieldAt, read, readField, bind, Except.bind]
  cases scanned : scanType text.toList with
  | error cause => rfl
  | ok found =>
    have ended := start_eq_size_iff (suffix_of_scanType (List.suffix_refl _) scanned)
    simp only [Except.map, Scanned.typed, located, ended, List.isEmpty_iff]
    split <;> rfl

/-- What a scan of parameters leaves is again a rest of the text. -/
theorem suffix_of_scanParameters {types : List StackType} (inside : rest <:+ text.toList)
    (read : scanParameters rest = .ok (types, used)) : used <:+ text.toList := by
  obtain ⟨lexemes, _, row⟩ := exists_lexemes_of_scanParameters read
  rw [row] at inside
  exact (List.suffix_cons _ _).trans ((List.suffix_append _ _).trans inside)

/-- What a scan of a result leaves is again a rest of the text. -/
theorem suffix_of_scanResult {result : Option StackType} (inside : rest <:+ text.toList)
    (read : scanResult rest = .ok (result, used)) : used <:+ text.toList := by
  by_cases void : rest.head? = some 'V'
  · obtain ⟨behind, rfl⟩ := List.head?_eq_some_iff.mp void
    cases read
    exact (List.suffix_cons _ _).trans inside
  · rw [scanResult_value void] at read
    cases scanned : scanType rest with
    | error cause => simp [scanned, Except.map] at read
    | ok found =>
      rw [scanned] at read
      cases read
      exact suffix_of_scanType inside scanned

/-- A method descriptor is read by position as it is by character. -/
theorem readMethodAt_eq (text : String) :
    readMethodAt text = (readMethod text).mapError fun defect => .malformed defect.message := by
  have seen := byteAt?_start_eq_iff '(' (List.suffix_refl text.toList) (by decide)
  rw [start_toList] at seen
  by_cases opening : text.toList.head? = some '('
  · obtain ⟨chars, opened⟩ := List.head?_eq_some_iff.mp opening
    have entire : '(' :: chars <:+ text.toList := ⟨[], opened.symm⟩
    have inside := (List.suffix_cons _ _).trans entire
    have first : start text chars = 1 := by
      rw [start_letter entire (by decide), ← opened, start_toList]
    have row := parametersAt_start inside
    rw [first] at row
    simp only [readMethodAt, if_pos (seen.mpr opening), row, readMethod, opened, scanSignature,
      bind, Except.bind]
    cases read : scanParameters chars with
    | error cause => rfl
    | ok parameters =>
      have behind := suffix_of_scanParameters inside read
      simp only [located, resultAt_start behind]
      cases given : scanResult parameters.2 with
      | error cause => rfl
      | ok result =>
        have ended := start_eq_size_iff (suffix_of_scanResult behind given)
        simp only [ended, List.isEmpty_iff]
        split <;> rfl
  · have closed : scanSignature text.toList = .error .noOpening := by
      unfold scanSignature
      split
      · next opened =>
        rw [opened] at opening
        exact absurd rfl opening
      · rfl
    rw [readMethodAt, if_neg (mt seen.mp opening), readMethod, closed]
    rfl

/-- The readers accept exactly the descriptors. A field descriptor has the type that the grammar
gives it; a method descriptor is a row of field descriptors in parentheses with a result behind
them, and there is no other way to take it apart. Reading by position gives the same answers and
the same reports on every text, so it ends, and never cuts a text outside of it or within a
character. -/
theorem descriptors_read_exactly (text : String) :
    (∀ type, readField text = .ok type ↔ FieldText text.toList type) ∧
      (∀ signature, readMethod text = .ok signature ↔
        ∃! parts : List String × String, Split text parts.1 parts.2 signature) ∧
      readFieldAt text = (readField text).mapError (fun defect => .malformed defect.message) ∧
      readMethodAt text = (readMethod text).mapError (fun defect => .malformed defect.message) := by
  refine ⟨fun type => readField_eq_ok_iff, fun signature => ?_, readFieldAt_eq text,
    readMethodAt_eq text⟩
  rw [readMethod_eq_ok_iff]
  constructor
  · rintro ⟨parameters, result, split⟩
    refine ⟨(parameters, result), split, ?_⟩
    rintro ⟨others, rival⟩ again
    obtain ⟨rfl, rfl⟩ := split.unique again
    rfl
  · rintro ⟨⟨parameters, result⟩, split, _⟩
    exact ⟨parameters, result, split⟩

/-- A name may hold characters of several bytes. Where one stands for a type, its first byte is
reported. -/
theorem descriptors_read_exactly_accented :
    readMethod "(Lé;[J)V" = .ok ⟨[.ref "é", .ref "[J"], none⟩ ∧
      (∃! parts : List String × String,
        Split "(Lé;[J)V" parts.1 parts.2 ⟨[.ref "é", .ref "[J"], none⟩) ∧
      readMethodAt "(Lé;[J)V" = .ok ⟨[.ref "é", .ref "[J"], none⟩ ∧
      readFieldAt "é" = .error (.malformed "Invalid type tag 'Ã' in descriptor 'é'") := by
  obtain ⟨_, reads, _, byPosition⟩ := descriptors_read_exactly "(Lé;[J)V"
  obtain ⟨_, _, refused, _⟩ := descriptors_read_exactly "é"
  have split : Split "(Lé;[J)V" ["Lé;", "[J"] "V" ⟨[.ref "é", .ref "[J"], none⟩ :=
    ⟨by decide, .cons (by decide) (.cons (by decide) .nil), .inl ⟨rfl, rfl⟩⟩
  have read := readMethod_eq_ok_iff.mpr ⟨_, _, split⟩
  refine ⟨read, (reads _).mp read, ?_, ?_⟩
  · rw [byPosition, read]
    rfl
  · rw [refused]
    decide

end ClassTrim.Descriptor

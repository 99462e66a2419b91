import Mathlib.Data.List.Forall2
import Mathlib.Data.List.TakeWhile
import ClassTrim.Descriptor

/-!
# The grammar of descriptors

Which texts are descriptors, and of what, is said here without a reader: `ElementText` lists the
types that are no arrays, `FieldText` adds the arrays, and `Split` takes a method descriptor apart
into the texts of its parameters and of its result.

A scan finds a lexeme exactly if the grammar has it at the head of the text. Two consequences carry
the rest: no lexeme is continued by another, so a text can be taken apart in one way only, and none
begins like the end of a parameter list.
-/

namespace ClassTrim.Descriptor

variable {chars lexeme other rest tail : List Char} {type another : StackType}

/-- The texts that denote a type that is no array. -/
inductive ElementText : List Char → StackType → Prop where
  | byte : ElementText ['B'] .int
  | char : ElementText ['C'] .int
  | short : ElementText ['S'] .int
  | boolean : ElementText ['Z'] .int
  | int : ElementText ['I'] .int
  | long : ElementText ['J'] .long
  | float : ElementText ['F'] .float
  | double : ElementText ['D'] .double
  | named {name : List Char} (given : name ≠ []) (unclosed : ';' ∉ name) :
      ElementText ('L' :: (name ++ [';'])) (.ref (String.ofList name))

/-- The texts that denote a type. An array is a reference named by the whole of its text. -/
inductive FieldText : List Char → StackType → Prop where
  | element {lexeme : List Char} {type : StackType} (plain : ElementText lexeme type) :
      FieldText lexeme type
  | array {lexeme : List Char} {type : StackType} (dimensions : Nat)
      (plain : ElementText lexeme type) :
      FieldText (List.replicate (dimensions + 1) '[' ++ lexeme)
        (.ref (String.ofList (List.replicate (dimensions + 1) '[' ++ lexeme)))

/-- The text of a type that is no array begins with one of the nine letters. -/
theorem ElementText.exists_cons (plain : ElementText lexeme type) :
    ∃ tag tail, lexeme = tag :: tail ∧ tag ∈ ['B', 'C', 'S', 'Z', 'I', 'J', 'F', 'D', 'L'] := by
  cases plain with
  | named given unclosed => exact ⟨'L', _, rfl, by decide⟩
  | _ => exact ⟨_, [], rfl, by decide⟩

/-- What begins a type neither closes a parameter list nor stands for no result. -/
theorem FieldText.exists_cons (denotes : FieldText lexeme type) :
    ∃ tag tail, lexeme = tag :: tail ∧ tag ≠ ')' ∧ tag ≠ 'V' := by
  cases denotes with
  | element plain =>
    obtain ⟨tag, tail, rfl, letter⟩ := plain.exists_cons
    refine ⟨tag, tail, rfl, ?_, ?_⟩ <;> rintro rfl <;> simp at letter
  | array dimensions plain => exact ⟨'[', _, rfl, by decide, by decide⟩

/-- The letter of a primitive type is a text of the grammar. -/
theorem elementText_of_primitive? {tag : Char} (letter : primitive? tag = some type) :
    ElementText [tag] type := by
  unfold primitive? at letter
  split at letter <;> cases letter <;> constructor

/-- A class name ends at the first semicolon, if there is one. -/
theorem scanClass_cases (chars : List Char) :
    ';' ∉ chars ∧ scanClass chars = .error .unterminatedClass ∨
      ∃ name rest, ';' ∉ name ∧ chars = name ++ ';' :: rest ∧
        scanClass chars = if name = [] then .error .emptyClass
          else .ok ⟨.ref (String.ofList name), 'L' :: (name ++ [';']), rest⟩ := by
  have whole := List.takeWhile_append_dropWhile (p := (· != ';')) (l := chars)
  have before : ';' ∉ chars.takeWhile (· != ';') := fun member => by
    simpa using List.mem_takeWhile_imp member
  unfold scanClass
  cases closed : chars.dropWhile (· != ';') with
  | nil =>
    rw [closed, List.append_nil] at whole
    rw [whole] at before
    exact .inl ⟨before, rfl⟩
  | cons close behind =>
    have semicolon : close = ';' := by
      have stops := List.head?_dropWhile_not (· != ';') chars
      simpa [closed] using stops
    rw [closed, semicolon] at whole
    refine .inr ⟨_, behind, before, whole.symm, ?_⟩
    simp only [semicolon, List.isEmpty_iff]

/-- A class name that was scanned is a text of the grammar. -/
theorem elementText_of_scanClass {found : Scanned} (scanned : scanClass chars = .ok found) :
    ElementText found.lexeme found.type := by
  rcases scanClass_cases chars with ⟨_, failed⟩ | ⟨name, rest, before, _, ends⟩
  · rw [failed] at scanned
    cases scanned
  · rw [ends] at scanned
    split at scanned
    · cases scanned
    · next given =>
      cases scanned
      exact .named given before

/-- A scan gives only what the grammar has. -/
theorem elementText_of_scanElement {found : Scanned} (scanned : scanElement chars = .ok found) :
    ElementText found.lexeme found.type := by
  cases chars with
  | nil => cases scanned
  | cons tag behind =>
    simp only [scanElement] at scanned
    split at scanned
    · exact elementText_of_scanClass scanned
    · split at scanned
      · next letter =>
        cases scanned
        exact elementText_of_primitive? letter
      · cases scanned

/-- A scan finds what the grammar has, whatever follows it. -/
theorem ElementText.scanElement_append (plain : ElementText lexeme type) (rest : List Char) :
    scanElement (lexeme ++ rest) = .ok ⟨type, lexeme, rest⟩ := by
  cases plain with
  | @named name given unclosed =>
    have inside : ∀ c ∈ name, (c != ';') = true := by
      intro c member
      have apart : c ≠ ';' := fun semicolon => unclosed (semicolon ▸ member)
      simpa using apart
    simp [scanElement, scanClass, List.takeWhile_append_of_pos inside,
      List.dropWhile_append_of_pos inside, given]
  | _ => rfl

/-- Whatever is scanned as a type is a text of the grammar that denotes it. -/
theorem fieldText_of_scanType {found : Scanned} (scanned : scanType chars = .ok found) :
    FieldText found.lexeme found.type := by
  simp only [scanType] at scanned
  split at scanned
  · cases scanned
  · next element inner =>
    have plain := elementText_of_scanElement inner
    split at scanned
    · cases scanned
      exact .element plain
    · next deep =>
      cases scanned
      rw [List.isEmpty_iff, ← List.length_eq_zero_iff] at deep
      obtain ⟨dimensions, count⟩ := Nat.exists_eq_succ_of_ne_zero deep
      have brackets : chars.takeWhile (· == '[') = List.replicate (dimensions + 1) '[' :=
        List.eq_replicate_iff.mpr
          ⟨count, fun c member => by simpa using List.mem_takeWhile_imp member⟩
      rw [brackets]
      exact .array dimensions plain

/-- No bracket begins a type that is no array. -/
theorem ElementText.span_brackets (plain : ElementText lexeme type) (rest : List Char) :
    (lexeme ++ rest).takeWhile (· == '[') = [] ∧
      (lexeme ++ rest).dropWhile (· == '[') = lexeme ++ rest := by
  obtain ⟨tag, tail, rfl, letter⟩ := plain.exists_cons
  have flat : tag ≠ '[' := by
    rintro rfl
    simp at letter
  simp [flat]

/-- A text of the grammar is scanned to its end, whatever stands behind it. -/
theorem FieldText.scanType_append (denotes : FieldText lexeme type) (rest : List Char) :
    scanType (lexeme ++ rest) = .ok ⟨type, lexeme, rest⟩ := by
  cases denotes with
  | element plain =>
    obtain ⟨nothing, all⟩ := plain.span_brackets rest
    simp [scanType, nothing, all, plain.scanElement_append]
  | @array element inner dimensions plain =>
    obtain ⟨nothing, all⟩ := plain.span_brackets rest
    have brackets : ∀ c ∈ List.replicate (dimensions + 1) '[', (c == '[') = true := by
      intro c member
      simpa using (List.mem_replicate.mp member).2
    rw [List.append_assoc, scanType, List.takeWhile_append_of_pos brackets,
      List.dropWhile_append_of_pos brackets, nothing, all, plain.scanElement_append]
    simp

/-- No lexeme is continued by another. -/
theorem FieldText.unique (denotes : FieldText lexeme type) (also : FieldText other another)
    (same : lexeme ++ rest = other ++ tail) : lexeme = other ∧ type = another ∧ rest = tail := by
  have first := denotes.scanType_append rest
  rw [same, also.scanType_append tail] at first
  cases first
  exact ⟨rfl, rfl, rfl⟩

/-- A text is read as a field descriptor exactly if the grammar has it. -/
theorem readField_eq_ok_iff {text : String} :
    readField text = .ok type ↔ FieldText text.toList type := by
  unfold readField
  constructor
  · intro read
    split at read
    · cases read
    · next found scanned =>
      have whole := scanType_split scanned
      split at read
      · next empty =>
        cases read
        rw [← whole, List.isEmpty_iff.mp empty, List.append_nil]
        exact fieldText_of_scanType scanned
      · cases read
  · intro denotes
    have scanned := denotes.scanType_append []
    rw [List.append_nil] at scanned
    simp [scanned]

/-- The texts that denote the result of a method. -/
inductive ResultText : List Char → Option StackType → Prop where
  | void : ResultText ['V'] none
  | value {lexeme : List Char} {type : StackType} (denotes : FieldText lexeme type) :
      ResultText lexeme (some type)

/-- The closing parenthesis ends the parameters. -/
theorem scanParameters_close (rest : List Char) :
    scanParameters (')' :: rest) = .ok ([], rest) := by
  rw [scanParameters, if_pos rfl]

/-- What is no type ends the list of parameters with an error. -/
theorem scanParameters_of_error {head : Char} {cause : Cause} (more : head ≠ ')')
    (failed : scanType (head :: tail) = .error cause) :
    scanParameters (head :: tail) = .error cause := by
  rw [scanParameters, if_neg more]
  split
  · next failure => simpa [failed] using failure.symm
  · next found => simp [failed] at found

/-- A type at the head is the first parameter; the others are read behind it. -/
theorem FieldText.scanParameters_append (denotes : FieldText lexeme type) (rest : List Char) :
    scanParameters (lexeme ++ rest) =
      (scanParameters rest).map fun read => (type :: read.1, read.2) := by
  have scanned := denotes.scanType_append rest
  obtain ⟨tag, tail, rfl, more, _⟩ := denotes.exists_cons
  rw [List.cons_append] at scanned ⊢
  rw [scanParameters, if_neg more]
  split
  · next failed => simp [scanned] at failed
  · next found again =>
    rw [scanned] at again
    cases again
    cases scanParameters rest <;> rfl

/-- Scanned parameters are texts of the grammar side by side, up to the closing parenthesis. -/
theorem exists_lexemes_of_scanParameters {types : List StackType}
    (read : scanParameters chars = .ok (types, rest)) :
    ∃ lexemes, List.Forall₂ FieldText lexemes types ∧ chars = lexemes.flatten ++ ')' :: rest := by
  induction chars using scanParameters.induct generalizing types with
  | case1 => simp [scanParameters] at read
  | case2 behind =>
    rw [scanParameters_close] at read
    cases read
    exact ⟨[], .nil, rfl⟩
  | case3 head behind more cause failed => simp [scanParameters_of_error more failed] at read
  | case4 head behind more found scanned _ cause failed ih =>
    rw [← scanType_split scanned,
      (fieldText_of_scanType scanned).scanParameters_append, failed] at read
    cases read
  | case5 head behind more found scanned _ others remaining inner ih =>
    have denotes := fieldText_of_scanType scanned
    rw [← scanType_split scanned, denotes.scanParameters_append, inner] at read
    cases read
    obtain ⟨lexemes, denote, split⟩ := ih inner
    refine ⟨found.lexeme :: lexemes, .cons denotes denote, ?_⟩
    rw [← scanType_split scanned, split, List.flatten_cons, List.append_assoc]

/-- Texts of the grammar side by side are scanned as the types that they denote. -/
theorem scanParameters_flatten {lexemes : List (List Char)} {types : List StackType}
    (denote : List.Forall₂ FieldText lexemes types) (rest : List Char) :
    scanParameters (lexemes.flatten ++ ')' :: rest) = .ok (types, rest) := by
  induction denote with
  | nil => exact scanParameters_close rest
  | cons denotes _ ih =>
    rw [List.flatten_cons, List.append_assoc, denotes.scanParameters_append, ih]
    rfl

/-- A row of parameter texts is taken apart in one way only. -/
theorem lexemes_unique {lexemes others : List (List Char)} {types additional : List StackType}
    (denote : List.Forall₂ FieldText lexemes types)
    (also : List.Forall₂ FieldText others additional)
    (same : lexemes.flatten ++ ')' :: rest = others.flatten ++ ')' :: tail) :
    lexemes = others ∧ rest = tail := by
  -- Where one row ends the other does: what follows is a parenthesis, and it begins no type.
  induction denote generalizing others additional with
  | nil =>
    cases also with
    | nil => exact ⟨rfl, List.tail_eq_of_cons_eq same⟩
    | cons denotes _ =>
      obtain ⟨tag, behind, rfl, more, _⟩ := denotes.exists_cons
      exact absurd (List.head_eq_of_cons_eq same).symm more
  | cons denotes _ ih =>
    cases also with
    | nil =>
      obtain ⟨tag, behind, rfl, more, _⟩ := denotes.exists_cons
      exact absurd (List.head_eq_of_cons_eq same) more
    | cons first following =>
      simp only [List.flatten_cons, List.append_assoc] at same
      obtain ⟨rfl, _, behind⟩ := denotes.unique first same
      obtain ⟨rfl, rfl⟩ := ih following behind
      exact ⟨rfl, rfl⟩

/-- A result that is not void is a type. -/
theorem scanResult_value (given : chars.head? ≠ some 'V') :
    scanResult chars = (scanType chars).map fun found => (some found.type, found.rest) := by
  unfold scanResult
  split
  · exact absurd rfl given
  · cases scanType chars <;> rfl

/-- A result is read to the end of the text exactly if the grammar has it. -/
theorem scanResult_eq_ok_iff {result : Option StackType} :
    scanResult chars = .ok (result, []) ↔ ResultText chars result := by
  constructor
  · intro read
    by_cases void : chars.head? = some 'V'
    · obtain ⟨rest, rfl⟩ := List.head?_eq_some_iff.mp void
      cases read
      exact .void
    · rw [scanResult_value void] at read
      cases scanned : scanType chars with
      | error cause => simp [scanned, Except.map] at read
      | ok found =>
        simp only [scanned, Except.map, Except.ok.injEq, Prod.mk.injEq] at read
        obtain ⟨rfl, whole⟩ := read
        rw [← scanType_split scanned, whole, List.append_nil]
        exact .value (fieldText_of_scanType scanned)
  · intro denotes
    cases denotes with
    | void => rfl
    | value denotes =>
      have scanned := denotes.scanType_append []
      rw [List.append_nil] at scanned
      obtain ⟨tag, tail, rfl, _, given⟩ := denotes.exists_cons
      rw [scanResult_value (by simpa using given), scanned]
      rfl

/-- A text has a signature exactly if it is a row of parameters in parentheses and a result. -/
theorem scanSignature_eq_ok_iff {signature : Signature} :
    scanSignature chars = .ok signature ↔
      ∃ lexemes tail, List.Forall₂ FieldText lexemes signature.parameters ∧
        ResultText tail signature.result ∧ chars = '(' :: (lexemes.flatten ++ ')' :: tail) := by
  constructor
  · intro read
    unfold scanSignature at read
    split at read
    · next behind =>
      simp only [bind, Except.bind] at read
      split at read
      · cases read
      · next parameters inside =>
        split at read
        · cases read
        · next result given =>
          split at read
          · next whole =>
            cases read
            obtain ⟨lexemes, denote, row⟩ := exists_lexemes_of_scanParameters inside
            refine ⟨lexemes, parameters.2, denote, ?_, by rw [row]⟩
            rw [← scanResult_eq_ok_iff, given, ← List.isEmpty_iff.mp whole]
          · cases read
    · cases read
  · rintro ⟨lexemes, tail, denote, denotes, rfl⟩
    have given := scanResult_eq_ok_iff.mpr denotes
    simp [scanSignature, scanParameters_flatten denote, given, bind, Except.bind]

/-- A method descriptor taken apart: the texts of its parameters, each of which is a field
descriptor, and the text of its result. -/
structure Split (text : String) (parameters : List String) (result : String)
    (signature : Signature) : Prop where
  joined : text = "(" ++ String.join parameters ++ ")" ++ result
  parameters_read :
    List.Forall₂ (fun part type => readField part = .ok type) parameters signature.parameters
  result_read : result = "V" ∧ signature.result = none ∨
    ∃ type, readField result = .ok type ∧ signature.result = some type

variable {text : String} {parameters others : List String} {result rival : String}
  {signature another : Signature}

/-- The parts of a split text make up the text. -/
theorem Split.toList_eq (split : Split text parameters result signature) :
    text.toList = '(' :: ((parameters.map String.toList).flatten ++ ')' :: result.toList) := by
  rw [split.joined]
  simp [String.toList_join, List.flatMap_def]

/-- The parameters of a split text denote those of the signature. -/
theorem Split.parameters_denote (split : Split text parameters result signature) :
    List.Forall₂ FieldText (parameters.map String.toList) signature.parameters := by
  rw [List.forall₂_map_left_iff]
  exact split.parameters_read.imp fun _ _ read => readField_eq_ok_iff.mp read

/-- The result of a split text denotes that of the signature. -/
theorem Split.result_denotes (split : Split text parameters result signature) :
    ResultText result.toList signature.result := by
  rcases split.result_read with ⟨rfl, void⟩ | ⟨type, read, given⟩
  · rw [void]
    exact .void
  · rw [given]
    exact .value (readField_eq_ok_iff.mp read)

/-- A method descriptor is taken apart in one way only. -/
theorem Split.unique (split : Split text parameters result signature)
    (again : Split text others rival another) : parameters = others ∧ result = rival := by
  have same := split.toList_eq.symm.trans again.toList_eq
  obtain ⟨lexemes, behind⟩ := lexemes_unique split.parameters_denote again.parameters_denote
    (List.tail_eq_of_cons_eq same)
  exact ⟨List.map_injective_iff.mpr (fun _ _ => String.toList_inj.mp) lexemes,
    String.toList_inj.mp behind⟩

/-- A text is read as a signature exactly if its characters are scanned as one. -/
theorem readMethod_eq_ok : readMethod text = .ok signature ↔
    scanSignature text.toList = .ok signature := by
  unfold readMethod
  cases scanSignature text.toList <;> simp

/-- A text is read as a method descriptor exactly if it can be taken apart. -/
theorem readMethod_eq_ok_iff :
    readMethod text = .ok signature ↔
      ∃ parameters result, Split text parameters result signature := by
  rw [readMethod_eq_ok, scanSignature_eq_ok_iff]
  constructor
  · rintro ⟨lexemes, tail, denote, denotes, whole⟩
    refine ⟨lexemes.map String.ofList, String.ofList tail, ?_, ?_, ?_⟩
    · rw [← String.toList_inj, whole]
      simp [String.toList_join, List.flatMap_def, Function.comp_def]
    · rw [List.forall₂_map_left_iff]
      exact denote.imp fun lexeme type known => by
        rw [readField_eq_ok_iff, String.toList_ofList]
        exact known
    · cases given : signature.result with
      | none =>
        rw [given] at denotes
        cases denotes
        exact .inl ⟨rfl, rfl⟩
      | some type =>
        rw [given] at denotes
        cases denotes with
        | value known =>
          refine .inr ⟨type, ?_, rfl⟩
          rw [readField_eq_ok_iff, String.toList_ofList]
          exact known
  · rintro ⟨parameters, result, split⟩
    exact ⟨_, _, split.parameters_denote, split.result_denotes, split.toList_eq⟩

end ClassTrim.Descriptor

import ClassTrim.Proofs.Descriptor.Grammar
import ClassTrim.Proofs.Simulation.Slots

/-!
# What a method receives

A method finds its instance and its parameters side by side in the first local slots. How many
slots there are is counted with 16-bit words, while a descriptor may list any number of
parameters. As long as the count fits a word there is room for everything, and each value stands
behind the last slot of the one before it. A longer list wraps the count around, and some value
then has no slot to stand in. There is one exception: the last of 65536 slots is the upper half of
a wide value, nothing is put there, and a body may declare the other 65535 itself.
-/

namespace ClassTrim

variable {type : StackType} {types : List StackType} {locals last : Locals} {index place : Nat}
  {fault : Fault}

namespace StackType

/-- Every value fills a slot. -/
theorem slots_pos (type : StackType) : 0 < type.slots := by
  rcases type.slots_cases with ⟨_, two⟩ | ⟨_, one⟩ <;> omega

/-- Values fill as many slots together as in two parts. -/
theorem totalSlots_append (types rest : List StackType) :
    totalSlots (types ++ rest) = totalSlots types + totalSlots rest := by
  induction types with
  | nil => simp [totalSlots]
  | cons type others ih => simp only [List.cons_append, totalSlots, ih, Nat.add_assoc]

/-- Values of one type fill as many slots as there are, times the slots of one. -/
theorem totalSlots_replicate (count : Nat) (type : StackType) :
    totalSlots (List.replicate count type) = count * type.slots := by
  induction count with
  | zero => simp [totalSlots]
  | succ count ih => rw [List.replicate_succ, totalSlots, ih, Nat.succ_mul, Nat.add_comm]

end StackType

/-- The text of a descriptor is read back as the descriptor. -/
theorem MethodDescriptor.parse_text (descriptor : MethodDescriptor) :
    MethodDescriptor.parse descriptor.text = .ok descriptor := by
  unfold parse
  split
  · next defect failed =>
    rw [descriptor.denotes] at failed
    cases failed
  · next signature denotes => exact congrArg _ (eq_of_text rfl)

namespace Locals

open StackType

/-- Setting a slot leaves the others alone. -/
theorem read_put_of_ne (apart : place ≠ index) (slot : Option Slot) :
    (locals.put index slot).read place = locals.read place := by
  simp [read, put, apart.symm]

/-- Seeding leaves the slots below it alone. -/
theorem read_seed_of_lt (seeded : locals.seed index types = .ok last) (below : place < index) :
    last.read place = locals.read place := by
  induction types generalizing locals index with
  | nil =>
    cases seeded
    rfl
  | cons type rest ih =>
    rw [ih (seed_cons_eq_ok.mp seeded).2 (by omega), read_put_of_ne (by omega)]

/-- A value stands behind the last slot of the one before it. -/
theorem read_seed_of_getElem? (seeded : locals.seed index types = .ok last)
    (found : types[place]? = some type) :
    last.read (index + totalSlots (types.take place)) = some (.unknown type) := by
  induction types generalizing locals index place with
  | nil => simp at found
  | cons head rest ih =>
    obtain ⟨room, seededRest⟩ := seed_cons_eq_ok.mp seeded
    cases place with
    | zero =>
      obtain rfl : head = type := Option.some.inj found
      have above := head.slots_pos
      rw [List.take_zero, totalSlots, Nat.add_zero, read_seed_of_lt seededRest (by omega),
        read_put room, if_pos rfl]
    | succ place =>
      rw [List.take_succ_cons, totalSlots, ← Nat.add_assoc]
      exact ih seededRest found

/-- Every other slot is as it was. -/
theorem read_seed_of_forall_ne (seeded : locals.seed index types = .ok last)
    (apart : ∀ k < types.length, place ≠ index + totalSlots (types.take k)) :
    last.read place = locals.read place := by
  induction types generalizing locals index with
  | nil =>
    cases seeded
    rfl
  | cons head rest ih =>
    have here : place ≠ index := by
      have first := apart 0 (Nat.succ_pos _)
      rw [List.take_zero, totalSlots] at first
      omega
    have later : ∀ k < rest.length, place ≠ index + head.slots + totalSlots (rest.take k) := by
      intro k inside
      have behind := apart (k + 1) (Nat.succ_lt_succ inside)
      rwa [List.take_succ_cons, totalSlots, ← Nat.add_assoc] at behind
    rw [ih (seed_cons_eq_ok.mp seeded).2 later, read_put_of_ne here]

/-- Setting a slot does not change how many there are. -/
theorem size_put (locals : Locals) (index : Nat) (slot : Option Slot) :
    (locals.put index slot).slots.size = locals.slots.size := by
  simp [put]

/-- There is room for everything if there is room for the last value. -/
theorem exists_seed_iff (locals : Locals) (index : Nat) (types : List StackType) :
    (∃ last, locals.seed index types = .ok last) ↔
      types = [] ∨ index + totalSlots types.dropLast < locals.slots.size := by
  induction types generalizing locals index with
  | nil => simp [seed]
  | cons head rest ih =>
    simp only [seed_cons_eq_ok, exists_and_left, ih, size_put]
    cases rest with
    | nil => simp [totalSlots]
    | cons next others =>
      have shifted : index + totalSlots (head :: next :: others).dropLast =
          index + head.slots + totalSlots (next :: others).dropLast := by
        rw [List.dropLast_cons_cons, totalSlots, Nat.add_assoc]
      simp only [shifted, reduceCtorEq, false_or, and_iff_right_iff_imp]
      intro room
      omega

/-- Seeding breaks off at a value for which there is no slot, and for no other reason. -/
theorem outOfRange_of_seed (failed : locals.seed index types = .error fault) :
    ∃ place, locals.slots.size ≤ place ∧ fault = .outOfRange place locals.slots.size := by
  induction types generalizing locals index with
  | nil => cases failed
  | cons head rest ih =>
    rw [seed] at failed
    split at failed
    · obtain ⟨place, outside, same⟩ := ih failed
      rw [size_put] at outside same
      exact ⟨place, outside, same⟩
    · next outside =>
      cases failed
      exact ⟨index, Nat.not_lt.mp outside, rfl⟩

/-- Empty slots hold nothing. -/
theorem read_empty (count place : Nat) : (empty count).read place = none := by
  simp only [read, empty, Array.getElem?_replicate]
  split <;> rfl

/-- Seeding does not change how many slots there are. -/
theorem size_seed (seeded : locals.seed index types = .ok last) :
    last.slots.size = locals.slots.size := by
  induction types generalizing locals index with
  | nil =>
    cases seeded
    rfl
  | cons type rest ih => rw [ih (seed_cons_eq_ok.mp seeded).2, size_put]

end Locals

namespace Frame

open StackType

variable {id : Nat} {owner : Option String} {method : MethodDecl} {frame : Frame}

/-- The number of slots in front of the parameters: one, for the instance of a method that has
one. -/
def receiverSlots (method : MethodDecl) : Nat :=
  if method.isStatic then 0 else 1

/-- The number of slots that what a method receives fills, however large it is. -/
def demand (method : MethodDecl) : Nat :=
  receiverSlots method + totalSlots method.descriptor.parameters

/-- The number of slots that a method's body declares. -/
def declared (method : MethodDecl) : Nat :=
  method.body.elim 0 (·.maxLocals.toNat)

/-- The first slot of a parameter: it stands behind the instance and the parameters before it. -/
def parameterSlot (method : MethodDecl) (place : Nat) : Nat :=
  receiverSlots method + totalSlots (method.descriptor.parameters.take place)

/-- The slots of the parameters are counted with sixteen bits. -/
theorem toNat_parameterSlots (signature : Descriptor.Signature) :
    signature.parameterSlots.toNat = totalSlots signature.parameters % UInt16.size := by
  simp [Descriptor.Signature.parameterSlots, UInt16.size]

/-- Slots added up word by word come to the word of their sum. -/
theorem foldl_slots (start : UInt16) (types : List StackType) :
    types.foldl (fun sum type => sum + UInt16.ofNat type.slots) start =
      start + UInt16.ofNat (totalSlots types) := by
  induction types generalizing start with
  | nil => exact (UInt16.add_zero start).symm
  | cons type rest ih => rw [List.foldl_cons, ih, totalSlots, UInt16.ofNat_add, UInt16.add_assoc]

/-- The slots of all that a method receives are counted with sixteen bits. -/
theorem toNat_receivedSlots (method : MethodDecl) :
    (receivedSlots method).toNat = demand method % UInt16.size := by
  rw [receivedSlots, UInt16.toNat_add, toNat_parameterSlots, demand, receiverSlots,
    MethodDescriptor.parameters]
  cases method.isStatic <;> simp [UInt16.size, Nat.add_comm]

/-- A frame has the slots that the body declares, or those that were counted if these are more. -/
theorem toNat_slotCount (method : MethodDecl) :
    (slotCount method).toNat = max (declared method) (demand method % UInt16.size) := by
  rw [← toNat_receivedSlots, slotCount, declared]
  cases method.body with
  | none => simp
  | some body =>
    show (if body.maxLocals ≤ receivedSlots method then receivedSlots method
      else body.maxLocals).toNat = max body.maxLocals.toNat (receivedSlots method).toNat
    split
    · next less => exact (Nat.max_eq_right (UInt16.le_iff_toNat_le.mp less)).symm
    · next more =>
      rw [UInt16.le_iff_toNat_le] at more
      exact (Nat.max_eq_left (Nat.le_of_not_le more)).symm

/-- A static method receives its parameters and nothing in front of them. -/
theorem received_of_static (owner : Option String) (static : method.isStatic = true) :
    received owner method = method.descriptor.parameters ∧ receiverSlots method = 0 := by
  simp [received, receiverSlots, static]

/-- Any other method receives its instance first, which fills one slot. -/
theorem received_of_instance (owner : Option String) (dynamic : method.isStatic = false) :
    received owner method = .ref (owner.getD objectName) :: method.descriptor.parameters ∧
      receiverSlots method = 1 := by
  simp [received, receiverSlots, dynamic]

/-- What a method receives fills the slots that it demands. -/
theorem totalSlots_received (owner : Option String) (method : MethodDecl) :
    totalSlots (received owner method) = demand method := by
  simp only [received, demand, receiverSlots]
  split
  · exact (Nat.zero_add _).symm
  · rfl

/-- The last parameter is the last that a method receives. -/
theorem totalSlots_dropLast_received {front : List StackType} {last : StackType}
    (given : method.descriptor.parameters = front ++ [last]) (owner : Option String) :
    totalSlots (received owner method).dropLast + last.slots = demand method := by
  have ends : (received owner method).dropLast ++ [last] = received owner method := by
    simp only [received, given]
    split
    · rw [List.dropLast_concat]
    · rw [← List.cons_append, List.dropLast_concat]
  rw [← totalSlots_received owner, ← ends, List.dropLast_concat, totalSlots_append]
  simp [totalSlots]

/-- The exception to a count that fits: the last slot would be the upper half of a wide parameter,
and the body declares all the others. -/
structure Brimming (method : MethodDecl) : Prop where
  demand_eq : demand method = UInt16.size
  ends_wide : ∃ type ∈ method.descriptor.parameters.getLast?, type.isWide = true
  declared_eq : declared method + 1 = UInt16.size

/-- A method has a frame if the last value that it receives has a slot to stand in. -/
theorem exists_forMethod (id : Nat) (owner : Option String) (method : MethodDecl) :
    (∃ frame, forMethod id owner method = .ok frame) ↔ received owner method = [] ∨
      totalSlots (received owner method).dropLast < (slotCount method).toNat := by
  have seeds := Locals.exists_seed_iff (.empty (slotCount method).toNat) 0 (received owner method)
  simp only [forMethod_eq_ok]
  rw [exists_comm]
  simpa [Locals.empty] using seeds

/-- A method has no frame for one reason only: a value that it receives has no slot. -/
theorem outOfRange_of_forMethod (failed : forMethod id owner method = .error fault) :
    ∃ place, (slotCount method).toNat ≤ place ∧
      fault = .outOfRange place (slotCount method).toNat := by
  rw [forMethod] at failed
  split at failed
  · next seeding =>
    cases failed
    simpa [Locals.empty] using Locals.outOfRange_of_seed seeding
  · cases failed

/-- A method without parameters always has its frame. -/
theorem exists_forMethod_of_nil (id : Nat) (owner : Option String)
    (bare : method.descriptor.parameters = []) :
    demand method < UInt16.size ∧ ∃ frame, forMethod id owner method = .ok frame := by
  have count := toNat_slotCount method
  rw [exists_forMethod]
  cases kind : method.isStatic with
  | true =>
    obtain ⟨all, noReceiver⟩ := received_of_static owner kind
    have nothing : demand method = 0 := by rw [demand, noReceiver, bare, totalSlots]
    exact ⟨by rw [nothing]; decide, .inl (by rw [all, bare])⟩
  | false =>
    obtain ⟨all, receiver⟩ := received_of_instance owner kind
    have one : demand method = 1 := by rw [demand, receiver, bare, totalSlots]
    have few : demand method < UInt16.size := by rw [one]; decide
    rw [Nat.mod_eq_of_lt few, one] at count
    refine ⟨few, .inr ?_⟩
    rw [all, bare, List.dropLast_singleton, totalSlots]
    omega

/-- A method has a frame exactly if the count of the slots fits a word, but for the one
exception. -/
theorem exists_forMethod_iff (id : Nat) (owner : Option String) (method : MethodDecl) :
    (∃ frame, forMethod id owner method = .ok frame) ↔
      demand method < UInt16.size ∨ Brimming method := by
  have limit : (slotCount method).toNat < UInt16.size := (slotCount method).toNat_lt
  have count := toNat_slotCount method
  rcases List.eq_nil_or_concat' method.descriptor.parameters with bare | ⟨front, last, given⟩
  · obtain ⟨few, complete⟩ := exists_forMethod_of_nil id owner bare
    exact ⟨fun _ => .inl few, fun _ => complete⟩
  have ends := totalSlots_dropLast_received given owner
  have filled : received owner method ≠ [] := by
    intro nothing
    have total := totalSlots_received owner method
    have positive := last.slots_pos
    rw [nothing] at ends total
    simp only [List.dropLast_nil, totalSlots] at ends total
    omega
  rw [exists_forMethod]
  constructor
  · intro room
    have inside := room.resolve_left filled
    by_cases fits : demand method < UInt16.size
    · exact .inl fits
    -- The last value begins below the last slot and reaches beyond it, so it is wide.
    rcases last.slots_cases with ⟨wide, two⟩ | ⟨narrow, one⟩
    · have all : demand method = UInt16.size := by omega
      rw [all, Nat.mod_self] at count
      exact .inr ⟨all, ⟨last, by simp [given], wide⟩, by omega⟩
    · omega
  · rintro (fits | ⟨all, ⟨type, isLast, wide⟩, declared⟩)
    · rw [Nat.mod_eq_of_lt fits] at count
      have positive := last.slots_pos
      exact .inr (by omega)
    · obtain rfl : last = type := by simpa [given] using isLast
      have two : last.slots = 2 := by simp [slots, wide]
      exact .inr (by omega)

/-- Where the count neither fits a word nor is the exception, making the frame breaks off. -/
theorem forMethod_eq_error_iff (id : Nat) (owner : Option String) (method : MethodDecl) :
    (∃ place, (slotCount method).toNat ≤ place ∧
        forMethod id owner method = .error (.outOfRange place (slotCount method).toNat)) ↔
      ¬(demand method < UInt16.size ∨ Brimming method) := by
  rw [← exists_forMethod_iff id owner]
  cases made : forMethod id owner method with
  | ok frame => simp
  | error fault =>
    obtain ⟨place, outside, rfl⟩ := outOfRange_of_forMethod made
    simpa using outside

/-- A parameter stands among all that is received where it stands among the parameters, behind
the instance. -/
theorem exists_received (owner : Option String) {place : Nat} {type : StackType}
    (given : method.descriptor.parameters[place]? = some type) :
    ∃ k, (received owner method)[k]? = some type ∧
      totalSlots ((received owner method).take k) = parameterSlot method place := by
  cases kind : method.isStatic with
  | true =>
    obtain ⟨all, nothing⟩ := received_of_static owner kind
    exact ⟨place, by rw [all, given], by rw [all, parameterSlot, nothing, Nat.zero_add]⟩
  | false =>
    obtain ⟨all, one⟩ := received_of_instance owner kind
    refine ⟨place + 1, by rw [all, List.getElem?_cons_succ, given], ?_⟩
    rw [all, List.take_succ_cons, totalSlots, parameterSlot, one]
    rfl

/-- Whatever is received is the instance or a parameter. -/
theorem received_cases {k : Nat} (inside : k < (received owner method).length) :
    (method.isStatic = false ∧ totalSlots ((received owner method).take k) = 0) ∨
      ∃ place < method.descriptor.parameters.length,
        totalSlots ((received owner method).take k) = parameterSlot method place := by
  cases kind : method.isStatic with
  | true =>
    obtain ⟨all, nothing⟩ := received_of_static owner kind
    rw [all] at inside ⊢
    exact .inr ⟨k, inside, by rw [parameterSlot, nothing, Nat.zero_add]⟩
  | false =>
    obtain ⟨all, one⟩ := received_of_instance owner kind
    rw [all] at inside ⊢
    cases k with
    | zero => exact .inl ⟨rfl, rfl⟩
    | succ place =>
      refine .inr ⟨place, Nat.lt_of_succ_lt_succ inside, ?_⟩
      rw [List.take_succ_cons, totalSlots, parameterSlot, one]
      rfl

/-- What a frame holds that has everything that a method receives. -/
structure Seeded (frame : Frame) (owner : Option String) (method : MethodDecl) : Prop where
  stack : frame.stack = []
  size : frame.locals.slots.size = (slotCount method).toNat
  /-- The instance comes first; that of an unknown class is an object. -/
  receiver : method.isStatic = false →
    frame.locals.read 0 = some (.unknown (.ref (owner.getD objectName)))
  parameter : ∀ place type, method.descriptor.parameters[place]? = some type →
    frame.locals.read (parameterSlot method place) = some (.unknown type)
  empty : ∀ index, (method.isStatic = false → index ≠ 0) →
    (∀ place < method.descriptor.parameters.length, index ≠ parameterSlot method place) →
      frame.locals.read index = none

/-- The frame in which a method begins holds what it should. -/
theorem seeded_of_forMethod (framed : forMethod id owner method = .ok frame) :
    frame.Seeded owner method := by
  obtain ⟨locals, seeded, rfl⟩ := forMethod_eq_ok.mp framed
  have reads : ∀ k type, (received owner method)[k]? = some type →
      locals.read (totalSlots ((received owner method).take k)) = some (.unknown type) := by
    intro k type found
    have read := Locals.read_seed_of_getElem? seeded found
    rwa [Nat.zero_add] at read
  constructor
  · rfl
  · rw [Locals.size_seed seeded]
    simp [Locals.empty]
  · intro dynamic
    exact reads 0 _ (by rw [(received_of_instance owner dynamic).1]; rfl)
  · intro place type given
    obtain ⟨k, found, position⟩ := exists_received owner given
    rw [← position]
    exact reads k type found
  · intro index notReceiver notParameter
    rw [Locals.read_seed_of_forall_ne seeded, Locals.read_empty]
    intro k inside
    rw [Nat.zero_add]
    rcases received_cases inside with ⟨dynamic, first⟩ | ⟨place, within, position⟩
    · rw [first]
      exact notReceiver dynamic
    · rw [position]
      exact notParameter place within

/-- The parameters are counted exactly if their slots are no more than a word can count. A method
then has its frame, which holds all that the method receives, each value in its slot and nothing
beside them; so it does in the one case in which the last slot is never touched. In every other
case making the frame breaks off at a value for which there is no slot. -/
theorem parameters_seeded_iff (id : Nat) (owner : Option String) (method : MethodDecl) :
    (method.descriptor.signature.parameterSlots =
        method.descriptor.parameters.foldl (fun sum type => sum + UInt16.ofNat type.slots) 0 ∧
      (method.descriptor.signature.parameterSlots.toNat =
          totalSlots method.descriptor.parameters ↔
        totalSlots method.descriptor.parameters < UInt16.size)) ∧
    ((∃ frame, forMethod id owner method = .ok frame ∧ frame.Seeded owner method) ↔
      demand method < UInt16.size ∨ Brimming method) ∧
    ((∃ place, (slotCount method).toNat ≤ place ∧
        forMethod id owner method = .error (.outOfRange place (slotCount method).toNat)) ↔
      ¬(demand method < UInt16.size ∨ Brimming method)) := by
  refine ⟨⟨?_, ?_⟩, ?_, forMethod_eq_error_iff id owner method⟩
  · rw [foldl_slots, UInt16.zero_add]
    rfl
  · rw [toNat_parameterSlots]
    exact Nat.mod_eq_iff_lt (by decide)
  · rw [← exists_forMethod_iff id owner]
    constructor
    · rintro ⟨frame, framed, -⟩
      exact ⟨frame, framed⟩
    · rintro ⟨frame, framed⟩
      exact ⟨frame, framed, seeded_of_forMethod framed⟩

/-- A descriptor that lists a number of long parameters and no result. -/
def longs (count : Nat) : MethodDescriptor where
  text := String.ofList ('(' :: (List.replicate count 'J' ++ [')', 'V']))
  signature := ⟨List.replicate count .long, none⟩
  denotes := by
    refine Descriptor.readMethod_eq_ok.mpr (Descriptor.scanSignature_eq_ok_iff.mpr
      ⟨List.replicate count ['J'], ['V'], ?_, .void, ?_⟩)
    · induction count with
      | zero => exact .nil
      | succ count ih => exact .cons (.element .long) ih
    · simp

/-- Each `long` fills two slots. -/
theorem totalSlots_longs (count : Nat) : totalSlots (longs count).parameters = count * 2 :=
  totalSlots_replicate count .long

/-- A static method with such a descriptor needs two slots for each parameter. -/
theorem demand_longs (name : String) (count : Nat) (body : Option Body) :
    demand ⟨name, longs count, 8, body⟩ = count * 2 := by
  have static : receiverSlots ⟨name, longs count, 8, body⟩ = 0 :=
    if_pos (show Access.isStatic 8 = true by decide)
  rw [demand, totalSlots_longs, static, Nat.zero_add]

/-- The parameters of such a method may need a slot more than a word can count. -/
theorem not_fits_longs (name : String) (body : Option Body)
    (bare : declared ⟨name, longs 32768, 8, body⟩ = 0) :
    ¬(demand ⟨name, longs 32768, 8, body⟩ < UInt16.size ∨
      Brimming ⟨name, longs 32768, 8, body⟩) := by
  rintro (few | ⟨-, -, declares⟩)
  · rw [demand_longs] at few
    exact absurd few (by decide)
  · rw [bare] at declares
    exact absurd declares (by decide)

/-- A static method without a body that takes so many long parameters as to need a slot more than a
word can count is accepted. Its parameters are counted as none, and making its frame breaks off. -/
theorem longs_unseeded :
    MethodDecl.parse "f" (longs 32768).text 8 = .ok ⟨"f", longs 32768, 8, none⟩ ∧
      totalSlots (longs 32768).parameters = 65536 ∧
      (longs 32768).signature.parameterSlots = 0 ∧
      ∃ place, forMethod 0 none ⟨"f", longs 32768, 8, none⟩ = .error (.outOfRange place 0) := by
  have total := totalSlots_longs 32768
  have wraps : (longs 32768).signature.parameterSlots = UInt16.ofNat (32768 * 2) :=
    congrArg UInt16.ofNat total
  have needs := demand_longs "f" 32768 none
  have count : (slotCount ⟨"f", longs 32768, 8, none⟩).toNat = 0 := by
    rw [toNat_slotCount, needs]
    rfl
  refine ⟨?_, total, wraps, ?_⟩
  · rw [MethodDecl.parse, MethodDescriptor.parse_text]
  · obtain ⟨place, -, failed⟩ :=
      (forMethod_eq_error_iff 0 none _).mpr (not_fits_longs "f" none rfl)
    rw [count] at failed
    exact ⟨place, failed⟩

end Frame

end ClassTrim

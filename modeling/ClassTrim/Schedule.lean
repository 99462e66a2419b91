import ClassTrim.Settings

/-!
# Schedules

A pass that works on methods visits one class after the other. Where the settings
leave the order of the classes open, a schedule decides about it, for each round and
in it for each pass. No order leaves a class out or visits one twice.

The visit of a class is not interrupted by that of another. Load order is one of the
schedules.
-/

namespace ClassTrim

/-- An order in which any number of classes are visited. -/
structure VisitOrder where
  /-- The positions of a number of classes. -/
  positions : Nat → List Nat
  /-- Each class is visited, and each once. -/
  complete : ∀ count, (positions count).Perm (List.range count)

namespace VisitOrder

/-- The first class is visited first. -/
def ascending : VisitOrder :=
  ⟨List.range, fun _ => .refl _⟩

/-- What is visited are the positions of the classes. -/
theorem mem_positions {order : VisitOrder} {count position : Nat} :
    position ∈ order.positions count ↔ position < count := by
  rw [(order.complete count).mem_iff, List.mem_range]

/-- No class is visited twice. -/
theorem nodup_positions (order : VisitOrder) (count : Nat) : (order.positions count).Nodup :=
  (order.complete count).nodup_iff.mpr List.nodup_range

end VisitOrder

/-- The order of visits for each round, and in it for each pass. -/
abbrev Schedule := Nat → Nat → VisitOrder

/-- The classes are always visited in load order. -/
def Schedule.loadOrder : Schedule :=
  fun _ _ => .ascending

/-- The schedule that is followed when one is proposed. -/
def Settings.plan (settings : Settings) (proposed : Schedule) : Schedule :=
  if settings.parallel then proposed else .loadOrder

end ClassTrim

import ClassTrim.Hierarchy

/-!
# Used methods

A static or special call means one method and is resolved to it. A virtual or
interface call may reach any override, so it uses every method of its name and
descriptor that is not static.

Some methods are entered from outside and are kept in any case: constructors and
initializers, the main method, methods without a body, overrides of what every
object has, and the instance methods of a class with an ancestor in a library,
which library code may call.
-/

namespace ClassTrim

/-- The targets of all calls of a group. -/
structure MethodUsage where
  /-- The methods meant by static and special calls, each once. -/
  direct : List MethodRef
  /-- The names and descriptors of virtual and interface calls, each once. -/
  dispatched : List (String × String)
deriving DecidableEq

namespace Usage

/-- The method that a static or special call means. -/
def directTarget? (group : ClassGroup) : Op → Option MethodRef
  | .invoke .static target | .invoke .special target => group.resolveMethod target
  | _ => none

/-- The name and the descriptor of a virtual or interface call. -/
def dispatchedTarget? : Op → Option (String × String)
  | .invoke .virtual target | .invoke .interface target =>
    some (target.name, target.descriptor.text)
  | _ => none

/-- The targets of all calls of a group. -/
def usedMethods (group : ClassGroup) : MethodUsage :=
  { direct := (group.ops.filterMap (directTarget? group)).eraseDups
    dispatched := (group.ops.filterMap dispatchedTarget?).eraseDups }

/-- Whether some call may reach a method of a class. -/
def isUsed (usage : MethodUsage) (owner : String) (method : MethodDecl) : Bool :=
  method.reference owner ∈ usage.direct ||
    (!method.isStatic && (method.name, method.descriptor.text) ∈ usage.dispatched)

/-- The methods that every object has and that classes override. -/
def objectMethods : List (String × String) :=
  [("equals", "(Ljava/lang/Object;)Z"),
   ("hashCode", "()I"),
   ("toString", "()Ljava/lang/String;"),
   ("clone", "()Ljava/lang/Object;"),
   ("finalize", "()V")]

/-- Whether a static method has the name and the descriptor of a main method. -/
def isMain (method : MethodDecl) : Bool :=
  method.isNamed "main" "([Ljava/lang/String;)V"

/-- Whether a method is kept even if no call reaches it. -/
def isEntryPoint (group : ClassGroup) (decl : ClassDecl) (method : MethodDecl) : Bool :=
  if method.isConstructor || method.isInitializer || method.isBodiless then true
  else if method.isStatic then isMain method
  else
    objectMethods.any (fun (name, descriptor) => method.isNamed name descriptor) ||
      group.hasLibraryAncestor decl.name

/-- The methods that are neither entry points nor used, in order of declaration. -/
def unusedMethods (group : ClassGroup) (usage : MethodUsage) : List MethodRef :=
  (group.methods.filter fun (decl, method) =>
      !isEntryPoint group decl method && !isUsed usage decl.name method).map
    fun (decl, method) => method.reference decl.name

/-- Removes methods one by one, each from the first class of its name, and returns
those that were declared there. -/
def removeMethods (group : ClassGroup) : List MethodRef → List MethodRef × ClassGroup
  | [] => ([], group)
  | method :: rest =>
    match group.removeMethod method.owner method.name method.descriptor.text with
    | .ok (some _, changed) =>
      let (removed, last) := removeMethods changed rest
      (method :: removed, last)
    | _ => removeMethods group rest

/-- Removes the methods that are neither entry points nor used, and returns them. -/
def removeUnusedMethods (group : ClassGroup) : List MethodRef × ClassGroup :=
  removeMethods group (unusedMethods group (usedMethods group))

end Usage

end ClassTrim

import BytecodeIR.Code.Attribute
import BytecodeIR.Dump.Class
/-!
Which classes extend which.

A hierarchy knows every class of a dump, whether it belongs to the application or not.  Subclasses
are found by a walk that meets every class at most once, nearer classes before farther ones and
classes at one distance in the order of the dump.  Superclasses may be missing and may even run in a
circle: the walk looks no class up twice, so one step for each edge is enough.
-/

namespace BytecodeIR

/-- The classes of a dump in relation to one another. -/
structure Hierarchy where
  /-- The names of the classes, in the order of the dump. -/
  classes : List String
  /-- Superclass and subclass, in the order of the dump. -/
  edges : List (String × String)
  /-- The names of the interfaces. -/
  interfaces : List String
deriving DecidableEq

namespace Hierarchy

/-- The hierarchy of a dump. -/
def ofProgram (p : Dump.Program) : Hierarchy where
  classes := p.classes.map (·.name)
  edges := p.classes.filterMap fun c => c.superClass.map fun parent => (parent, c.name)
  interfaces :=
    let bit := Code.Attribute.interface.bit?.getD 0
    (p.classes.filter fun c => c.modifiers &&& bit != 0).map (·.name)

/-- Whether there is a class with a name. -/
def contains (h : Hierarchy) (name : String) : Bool := h.classes.contains name

/-- Whether a class with a name is an interface. -/
def isInterface (h : Hierarchy) (name : String) : Bool := h.interfaces.contains name

/-- The classes that extend a class directly, in the order of the dump. -/
def directSubclasses (h : Hierarchy) (name : String) : List String :=
  (h.edges.filter fun e => e.1 == name).map (·.2)

/-- How far a walk has come. -/
structure Walk where
  /-- The classes met so far. -/
  seen : List String
  /-- The classes met whose subclasses have not been looked up, nearest first. -/
  queue : List String
  /-- The classes found, in the order in which they were met. -/
  found : List String

/-- Meets a class: unless it was met before, it is queued, and found if it is no interface. -/
def meet (h : Hierarchy) (w : Walk) (name : String) : Walk :=
  if w.seen.contains name then w
  else
    { seen := name :: w.seen
      queue := w.queue ++ [name]
      found := if h.isInterface name then w.found else w.found ++ [name] }

/-- Looks the subclasses of at most `steps` classes up. -/
def walk (h : Hierarchy) : Nat → Walk → Walk
  | 0, w => w
  | steps + 1, w =>
    match w.queue with
    | [] => w
    | name :: rest => h.walk steps ((h.directSubclasses name).foldl h.meet { w with queue := rest })

/-- The classes below a class that are no interfaces, nearest first, if there is such a class. -/
def subclasses? (h : Hierarchy) (name : String) : Option (List String) :=
  if h.contains name then some (h.walk (h.edges.length + 1) ⟨[name], [name], []⟩).found
  else none

end Hierarchy

end BytecodeIR

/-!
Attributes of declarations.

Classes, fields and methods are declared with attributes.  An outside engine reports most of them as
one word in which every attribute has a bit of its own; three more are properties of a class as a
whole and have no bit.
-/

namespace BytecodeIR.Code

/-- An attribute of a declaration. -/
inductive Attribute where
  | isPublic | isPrivate | isProtected | static | final | synchronized | volatile | transient
  | native | interface | abstract | strictfp | synthetic | annotation | enum | constructor
  | declaredSynchronized | libraryClass | javaLibraryClass | phantom
deriving DecidableEq, Inhabited

namespace Attribute

/-- Every attribute that has a bit, with its bit, in ascending order. -/
def bits : List (UInt32 × Attribute) :=
  [(0x1, isPublic), (0x2, isPrivate), (0x4, isProtected), (0x8, static), (0x10, final),
    (0x20, synchronized), (0x40, volatile), (0x80, transient), (0x100, native), (0x200, interface),
    (0x400, abstract), (0x800, strictfp), (0x1000, synthetic), (0x2000, annotation),
    (0x4000, enum), (0x10000, constructor), (0x20000, declaredSynchronized)]

/-- Every attribute, those with a bit first. -/
def all : List Attribute := bits.map (·.2) ++ [libraryClass, javaLibraryClass, phantom]

/-- The name of an attribute. -/
def name : Attribute → String
  | isPublic => "PUBLIC"
  | isPrivate => "PRIVATE"
  | isProtected => "PROTECTED"
  | static => "STATIC"
  | final => "FINAL"
  | synchronized => "SYNCHRONIZED"
  | volatile => "VOLATILE"
  | transient => "TRANSIENT"
  | native => "NATIVE"
  | interface => "INTERFACE"
  | abstract => "ABSTRACT"
  | strictfp => "STRICTFP"
  | synthetic => "SYNTHETIC"
  | annotation => "ANNOTATION"
  | enum => "ENUM"
  | constructor => "CONSTRUCTOR"
  | declaredSynchronized => "DECLARED_SYNCHRONIZED"
  | libraryClass => "LibraryClass"
  | javaLibraryClass => "JavaLibraryClass"
  | phantom => "Phantom"

/-- The bit of an attribute, if it has one. -/
def bit? (a : Attribute) : Option UInt32 := (bits.find? fun e => e.2 == a).map (·.1)

/-- The attributes whose bits are set in a word, lowest bit first. -/
def ofWord (word : UInt32) : List Attribute :=
  (bits.filter fun e => word &&& e.1 != 0).map (·.2)

/-- The bits of a word that belong to no attribute. -/
def unknownBits (word : UInt32) : UInt32 := bits.foldl (fun rest e => rest &&& ~~~e.1) word

/-- The lower-case names of attributes, a space between two of them. -/
def render (attributes : List Attribute) : String :=
  " ".intercalate (attributes.map (·.name.toLower))

/-- The place of an attribute among all attributes. -/
def rank (a : Attribute) : Nat := all.idxOf a

/-- Attributes in the order in which all of them are listed. -/
def sort (attributes : List Attribute) : List Attribute :=
  attributes.mergeSort fun a b => a.rank ≤ b.rank

end Attribute

end BytecodeIR.Code

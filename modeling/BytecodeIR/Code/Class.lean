import BytecodeIR.Code.Method
/-!
Classes: what a program is made of.
-/

namespace BytecodeIR.Code

/-- A declared field. -/
structure Field where
  name : String
  attributes : List Attribute
  ty : String
deriving DecidableEq

/-- A class. -/
structure Class where
  name : String
  /-- The superclass; empty for the root of all classes. -/
  superClass : String
  interfaces : List String
  attributes : List Attribute
  methods : List Method
  fields : List Field
deriving DecidableEq

namespace Class

/-- The first field with a name. -/
def field? (c : Class) (name : String) : Option Field := c.fields.find? fun f => f.name == name

/-- The methods with a name, overloads in the order of their declaration. -/
def methodsNamed (c : Class) (name : String) : List Method :=
  c.methods.filter fun m => m.name == name

/-- Whether the class is an interface. -/
def isInterface (c : Class) : Bool := c.attributes.contains .interface

end Class

/-- Classes under their names. -/
abbrev ClassMap := SortedMap String Class

end BytecodeIR.Code

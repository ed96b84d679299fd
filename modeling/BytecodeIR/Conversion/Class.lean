import BytecodeIR.Code.Class
import BytecodeIR.Conversion.Body
/-!
The conversion of methods and classes.
-/

namespace BytecodeIR

/-- The only class without a superclass. -/
def rootClass : String := "java.lang.Object"

namespace Dump

open Conversion

/-- The method that a body makes of a method without one. -/
def Body.convert (b : Body) (dialect : Dialect) (m : Code.Method) :
    Except Failure Code.Method := do
  checkHandles b
  let (drafts, placed) ← bodyStatements b dialect 0 [] b.blocks
  let edges ← b.blocks.mapM (blockEdges b.blocks.length)
  let phis ← phiArgs b dialect placed
  let blocks ← Conversion.blocks (drafts.map (withSources phis))
  .ok { m with
    blocks
    successors := edgeMap (edges.map (·.1))
    exceptionalPredecessors := edgeMap (edges.map (·.2)) }

/-- The conversion of a method of a class. -/
def Method.convert (m : Method) (dialect : Dialect) (className : String) :
    Except Failure Code.Method := do
  let declared ← attributes m.modifiers
  let bare := Code.Method.withoutBody className m.name m.params m.returnType declared m.exceptions
  match m.body with
  | none => .ok bare
  | some body => body.convert dialect bare

/-- The conversion of a field. -/
def Field.convert (f : Field) : Except Failure Code.Field := do
  let declared ← attributes f.modifiers
  .ok ⟨f.name, declared, f.ty⟩

/-- The superclass of a class; only the root of all classes has none. -/
def Class.superClassName (c : Class) : Except Failure String :=
  if c.name = rootClass then .ok ""
  else
    match c.superClass with
    | some name => .ok name
    | none => .error (.missingSuperClass c.name)

/-- The attributes that say where a class comes from. -/
def Class.origin (c : Class) : List Code.Attribute :=
  (if c.library then [.libraryClass] else []) ++
    (if c.javaLibrary then [.javaLibraryClass] else []) ++ if c.phantom then [.phantom] else []

/-- The conversion of a class. -/
def Class.convert (c : Class) (dialect : Dialect) : Except Failure Code.Class := do
  let superClass ← c.superClassName
  let declared ← attributes c.modifiers
  let fields ← c.fields.mapM Field.convert
  let methods ← c.methods.mapM fun m => m.convert dialect c.name
  .ok ⟨c.name, superClass, c.interfaces, declared ++ c.origin, methods, fields⟩

end Dump

end BytecodeIR

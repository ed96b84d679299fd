import BytecodeIR.Json.Equality
import BytecodeIR.Json.Printer
import BytecodeIR.Json.Record
/-!
Frames: what the service sends back.

A reply is one frame, or for a result that is split a frame that begins it, one frame for each part
and one that ends it.  The parts are of one size, but for the last, and put together they are the
result.
-/

namespace BytecodeIR.Service

open Json (Decoder)
open Json.Decoder
open Json.Record

/-- What a split result is put together to. -/
inductive Container where
  | map
  | list
deriving DecidableEq

/-- The name of a container. -/
def Container.name : Container → String
  | map => "map"
  | list => "list"

/-- A frame. -/
inductive Frame where
  /-- A whole result, its text, both or neither. -/
  | unit (result : Option Json) (text : Option String)
  | begin (container : Container)
  | part (items : Json)
  | finish
  /-- The operation failed. -/
  | failed (operation message : String)
deriving DecidableEq

namespace Frame

/-- Says no more than that the operation is done. -/
def done : Frame := unit none none

/-- Whether the frame reports a failure. -/
def isFailed : Frame → Bool
  | failed _ _ => true
  | _ => false

end Frame

/-! ### Splitting -/

/-- Cuts a list into pieces of `more + 1` elements; the last may be shorter. -/
def piecesOf {α : Type} (more : Nat) : List α → List (List α)
  | [] => []
  | a :: rest => (a :: rest.take more) :: piecesOf more (rest.drop more)
termination_by xs => xs.length
decreasing_by rw [List.length_drop, List.length_cons]; omega

/-- How many elements a piece has when a list is cut into about so many parts. -/
def pieceSize (length parts : Nat) : Nat := max (length / max parts 1) 1

/-- Cuts a list into about so many parts. -/
def cut {α : Type} (parts : Nat) (xs : List α) : List (List α) :=
  piecesOf (pieceSize xs.length parts - 1) xs

/-- The frames of a result that is split; there are none if it has no parts. -/
def split? (result : Json) (parts : Nat) : Option (List Frame) :=
  match result with
  | .object members =>
    some (.begin .map :: (cut parts members).map (fun ms => .part (.object ms)) ++ [.finish])
  | .array items =>
    some (.begin .list :: (cut parts items).map (fun js => .part (.array js)) ++ [.finish])
  | _ => none

/-! ### As JSON -/

/-- A frame as JSON. -/
def Frame.encode : Frame → Json
  | unit result text =>
    .object (("frame", .string "unit") :: ((result.map fun j => ("result", j)).toList ++
      (text.map fun s => ("serialized", Json.string s)).toList))
  | begin container =>
    .object [("frame", .string "begin"), ("container", .string container.name)]
  | part items => .object [("frame", .string "chunk"), ("items", items)]
  | finish => .object [("frame", .string "end")]
  | failed operation message =>
    .object [("frame", .string "failed"), ("op", .string operation), ("message", .string message)]

/-- The text of a frame. -/
def Frame.text (f : Frame) : String := f.encode.text

/-- The line that a frame is sent as. -/
def Frame.line (f : Frame) : String := f.text ++ "\n"

/-- Reads a container by its name. -/
def Container.decoder : Decoder Container :=
  named ([Container.map, Container.list].map fun c => (c.name, c))

/-- Reads a frame. -/
def Frame.decoder : Decoder Frame :=
  tagged "frame"
    [("unit", (Frame.unit <$> optional "result" json <*> optional "serialized" string).decoder),
      ("begin", (Frame.begin <$> required "container" Container.decoder).decoder),
      ("chunk", (Frame.part <$> required "items" json).decoder),
      ("end", bare .finish),
      ("failed", (Frame.failed <$> required "op" string <*> required "message" string).decoder)]

end BytecodeIR.Service

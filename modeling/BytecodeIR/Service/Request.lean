import BytecodeIR.Files.Path
import BytecodeIR.Json.Record
/-!
Requests to the service.

A request names an operation and gives it arguments, by position or by name, and says how the result
is to travel back.
-/

namespace BytecodeIR.Service

open Json (Decoder)
open Json.Decoder
open Json.Record

/-- How a result travels back. -/
structure Transport where
  /-- The result itself is sent. -/
  returnResult : Bool
  /-- The text of the result is sent. -/
  returnText : Bool
  /-- The text of the result is written to a file. -/
  saveTo : Option Path
  /-- Into how many parts a result with parts is split; zero sends it whole. -/
  parts : Nat
deriving DecidableEq

/-- Sends the result whole. -/
def Transport.default : Transport := ⟨true, false, none, 0⟩

/-- Whether anything is sent back. -/
def Transport.sendsBack (t : Transport) : Bool := t.returnResult || t.returnText

/-- A request. -/
structure Request where
  operation : String
  /-- The arguments by position. -/
  args : List Json
  /-- The arguments by name. -/
  named : SortedMap String Json
  transport : Transport

namespace Request

/-- A request without arguments. -/
def ofOperation (operation : String) : Request := ⟨operation, [], ∅, .default⟩

/-- Adds an argument by position. -/
def arg (r : Request) (j : Json) : Request := { r with args := r.args ++ [j] }

/-- Sets an argument by name. -/
def withNamed (r : Request) (name : String) (j : Json) : Request :=
  { r with named := r.named.insert name j }

/-- Sets how the result travels back. -/
def withTransport (r : Request) (t : Transport) : Request := { r with transport := t }

/-- The text of an argument.  The position counts if there are enough arguments, otherwise the name
does; an argument that is no text is none. -/
def text? (r : Request) (index : Nat) (name : String) : Option String :=
  match r.args[index]? with
  | some j => j.asText?
  | none => (r.named.get? name).bind Json.asText?

end Request

/-! ### As JSON -/

/-- How a result travels back, as JSON. -/
def Transport.encode (t : Transport) : Json :=
  .object [("return_result", .bool t.returnResult), ("return_pickle", .bool t.returnText),
    ("save_pickle", .option (fun p => .string p.text) t.saveTo),
    ("split_results", .natural t.parts)]

/-- A request as JSON. -/
def Request.encode (r : Request) : Json :=
  .object [("op", .string r.operation), ("args", .array r.args),
    ("kwargs", .object r.named.entries), ("options", r.transport.encode)]

/-- Reads how a result travels back. -/
def Transport.decoder : Decoder Transport :=
  (Transport.mk <$> defaulted "return_result" bool true <*> defaulted "return_pickle" bool false <*>
    optional "save_pickle" (string.map Path.mk) <*>
    defaulted "split_results" (uint64.map UInt64.toNat) 0).decoder

/-- Reads a request. -/
def Request.decoder : Decoder Request :=
  (Request.mk <$> required "op" string <*> defaulted "args" (list json) [] <*>
    defaulted "kwargs" jsonObject ∅ <*> defaulted "options" Transport.decoder .default).decoder

end BytecodeIR.Service

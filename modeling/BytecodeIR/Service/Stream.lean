import BytecodeIR.Service.Session
import BytecodeIR.Text.Encoding
import BytecodeIR.Text.Line
/-!
The service over a stream of lines.

Every line of the input is a request, blank lines apart, and every frame of an answer is a line of
the output.  The service stops when it is told to, at the end of the input, and at a line that is no
text or no request.
-/

namespace BytecodeIR.Service

/-- Cuts bytes after each line feed; every piece but the last ends in one. -/
def splitLines : List UInt8 → List (List UInt8)
  | [] => []
  | b :: rest =>
    if b = 0x0a then [b] :: splitLines rest
    else
      match splitLines rest with
      | [] => [[b]]
      | line :: lines => (b :: line) :: lines

/-- The lines that are not blank, up to one that is no text, and whether there is such a one. -/
def readLines : List (List UInt8) → List String × Bool
  | [] => ([], false)
  | bytes :: rest =>
    match Text.decode? bytes with
    | none => ([], true)
    | some line =>
      if Text.isBlankText line then readLines rest
      else
        let (lines, unreadable) := readLines rest
        (line :: lines, unreadable)

/-- What the service has come to. -/
structure Served where
  /-- The frames that were sent. -/
  frames : List Frame
  /-- Why the service stopped before it was told to or its input ended. -/
  fault : Option Fault
  session : Session
  files : Tree

/-- What was sent: every frame on a line. -/
def Served.output (s : Served) : String := String.join (s.frames.map Frame.line)

/-- Answers lines until the session ends. -/
def serveLines (unreadable : Bool) : Session → Tree → List String → Served
  | s, files, [] => ⟨[], if unreadable ∧ ¬ s.closed then some (.file .notText) else none, s, files⟩
  | s, files, line :: rest =>
    if s.closed then ⟨[], none, s, files⟩
    else
      match Request.decoder.ofText line with
      | .error p => ⟨[], some (.document p), s, files⟩
      | .ok r =>
        let (frames, s, files) := s.handle r files
        let served := serveLines unreadable s files rest
        { served with frames := frames ++ served.frames }

/-- Answers the requests in a stream of bytes. -/
def Session.serve (s : Session) (files : Tree) (input : List UInt8) : Served :=
  let (lines, unreadable) := readLines (splitLines input)
  serveLines unreadable s files lines

end BytecodeIR.Service

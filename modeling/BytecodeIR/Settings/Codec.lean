import BytecodeIR.Dump.Codec
import BytecodeIR.Settings.Basic
/-!
Settings as JSON.

Every member may be absent, and optional paths that are not set are left out.
-/

namespace BytecodeIR

open Json (Decoder)
open Json.Decoder
open Json.Record

/-- A path as JSON. -/
def Path.encode (p : Path) : Json := .string p.text

/-- Reads a path. -/
def Path.decoder : Decoder Path := string.map .mk

/-- Reads the name of a kind of archive. -/
def Archive.decoder : Decoder Archive := string.andThen fun name =>
  match Archive.ofName? name with
  | some a => .ok a
  | none => .error (.refused (Archive.unsupportedMessage name))

namespace Settings

/-- The member of an optional path, none if the path is not set. -/
def pathMember (name : String) (p : Option Path) : List (String × Json) :=
  (p.map fun p => (name, p.encode)).toList

/-- Settings as JSON. -/
def encode (s : Settings) : Json :=
  .object (pathMember "input_file" s.archiveFile ++
    [("input_format", .string s.archive.name), ("ir_format", .string s.dialect.name),
      ("additional_jars", .list Path.encode s.jars),
      ("additional_jar_roots", .list Path.encode s.jarRoots)] ++
    pathMember "android_sdk" s.androidSdk ++ pathMember "save_to_file" s.saveTo)

/-- The members of settings. -/
def record : Json.Record Settings :=
  Settings.mk <$> optional "input_file" Path.decoder <*>
    defaulted "input_format" Archive.decoder .jar <*>
    defaulted "ir_format" Dump.dialectDecoder .singleAssignment <*>
    defaulted "additional_jars" (list Path.decoder) [] <*>
    defaulted "additional_jar_roots" (list Path.decoder) [] <*>
    optional "android_sdk" Path.decoder <*> optional "save_to_file" Path.decoder

/-- Reads settings. -/
def decoder : Decoder Settings := record.decoder

end Settings

end BytecodeIR

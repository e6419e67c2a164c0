import Ostinato.CommandLine

/-!
# Entry point

Reads the files that the command names, runs it, and carries out what it asks for. No MIDI system
is linked in, so no device is found.
-/

namespace Ostinato.CommandLine

def readText? (name : String) : IO (Option (String × String)) := do
  try
    return some (name, ← IO.FS.readFile name)
  catch _ =>
    return none

def readFiles (arguments : List String) : IO (List (String × String)) := do
  match parse arguments with
  | .ok (.run o) =>
    let files ← (o.config :: o.source.toList).mapM readText?
    return files.filterMap id
  | _ => return []

/-- What a path leads to, as far as its file was read. -/
def placeAmong (files : List (String × String)) (path : String) : Place :=
  match files.lookup path with
  | some text => .file path text
  | none => .free path

end Ostinato.CommandLine

open Ostinato CommandLine in
def main (arguments : List String) : IO UInt32 := do
  let files ← readFiles arguments
  let env : Surroundings := {
    place := placeAmong files
    backend := { names := .error "no MIDI system" }
    patience := 1000000000000 }
  let journal : Journal := { threshold := some Level.warning.severity }
  let (ending, desk) := run env arguments { journal := journal }
  for e in desk.journal.entries do
    IO.eprintln (e.level.name ++ ":" ++ e.origin.name ++ ":" ++ e.text)
  IO.print desk.printed
  for w in desk.written do
    IO.FS.writeBinFile w.name (ByteArray.mk (w.bytes.map UInt8.ofNat).toArray)
  match ending with
  | .ok code => return UInt32.ofNat code.toNat
  | .error f =>
    IO.eprintln f.message
    return 1

import Ostinato.Text.Quoted
import Ostinato.Text.Split

/-!
# Paths

What a path leads to, in a snapshot of the files of the folder that the command runs in. A folder is
there when a file is in it. Of what lies outside that folder nothing is known but the void, which
reads as empty and keeps nothing.
-/

namespace Ostinato.CommandLine

inductive PathFault where
  | missing
  | notFolder
  | isFolder
  | tooLong
  | zeroCharacter
  deriving Repr, DecidableEq

def PathFault.message (path : String) : PathFault → String
  | missing => "[Errno 2] No such file or directory: " ++ Text.quoted path
  | notFolder => "[Errno 20] Not a directory: " ++ Text.quoted path
  | isFolder => "[Errno 21] Is a directory: " ++ Text.quoted path
  | tooLong => "[Errno 36] File name too long: " ++ Text.quoted path
  | zeroCharacter => "embedded null byte"

inductive Place where
  | file (name text : String)
  | folder
  /-- Nothing yet, in a folder that is there. -/
  | free (name : String)
  | void
  /-- Somewhere outside: nothing to read, and what is written there is not seen. -/
  | outside
  /-- No folder, although the path ends like one. -/
  | slashed (fault : PathFault)
  | nowhere (fault : PathFault)
  deriving Repr, DecidableEq

namespace Place

def isTaken : Place → Bool
  | file _ _ => true
  | folder => true
  | void => true
  | _ => false

def read : Place → Except PathFault String
  | file _ text => .ok text
  | void => .ok ""
  | folder => .error .isFolder
  | free _ => .error .missing
  | outside => .error .missing
  | slashed f => .error f
  | nowhere f => .error f

/-- The name of the file that is written there, and whether it is new. -/
def target : Place → Except PathFault (Option (String × Bool))
  | file name _ => .ok (some (name, false))
  | free name => .ok (some (name, true))
  | void => .ok none
  | outside => .ok none
  | folder => .error .isFolder
  | slashed _ => .error .isFolder
  | nowhere f => .error f

end Place

/-! ## Looking for a place -/

/-- Files by the parts of their names. -/
structure Snapshot where
  files : List (List String × String) := []

namespace Snapshot

/-- The parts of a path between slashes. -/
def parts (path : String) : List String :=
  ((Text.splitAt '/' path.toList).filter fun p => !p.isEmpty).map String.ofList

def ofFiles (files : List (String × String)) : Snapshot :=
  ⟨files.map fun (name, text) => (parts name, text)⟩

/-- A folder is there when a file is in it; the one that the command runs in always is. -/
def hasFolder (s : Snapshot) (folder : List String) : Bool :=
  folder.isEmpty || s.files.any fun f => folder.isPrefixOf f.1 && f.1 != folder

def longestName : Nat := 255

def longestPath : Nat := 4095

/-- One part of a path on the way to its last one. Outside, the folder is `none`. -/
def enter (s : Snapshot) (folder : Option (List String)) (part : String) :
    Except PathFault (Option (List String)) :=
  match part, folder with
  | ".", _ => .ok folder
  | "..", none => .ok none
  | "..", some [] => .ok none
  | "..", some ps => .ok (some ps.dropLast)
  | _, none => .error .missing
  | _, some ps =>
    if part.utf8ByteSize > longestName then .error .tooLong
    else if s.hasFolder (ps ++ [part]) then .ok (some (ps ++ [part]))
    else if (s.files.lookup (ps ++ [part])).isSome then .error .notFolder
    else .error .missing

def enterAll (s : Snapshot) (folder : Option (List String)) :
    List String → Except PathFault (Option (List String))
  | [] => .ok folder
  | part :: rest =>
    match s.enter folder part with
    | .ok folder => s.enterAll folder rest
    | .error f => .error f

def last (s : Snapshot) (slash : Bool) (part : String) : Option (List String) → Place
  | none => if slash then .slashed .missing else .outside
  | some ps =>
    let full := ps ++ [part]
    if part.utf8ByteSize > longestName then .nowhere .tooLong
    else if s.hasFolder full then .folder
    else
      match s.files.lookup full with
      | some text =>
        if slash then .slashed .notFolder else .file (String.intercalate "/" full) text
      | none => if slash then .slashed .missing else .free (String.intercalate "/" full)

def place (s : Snapshot) (path : String) : Place :=
  let all := parts path
  let absolute := path.toList.head? == some '/'
  let slash := path.toList.getLast? == some '/'
  if path.toList.contains '\x00' then .nowhere .zeroCharacter
  else if path.utf8ByteSize > longestPath then .nowhere .tooLong
  else if path.isEmpty then .nowhere .missing
  else if absolute && all == ["dev", "null"] then
    if slash then .slashed .notFolder else .void
  else
    match all.getLast? with
    | none => .folder
    | some part =>
      match s.enterAll (if absolute then none else some []) all.dropLast with
      | .error f => .nowhere f
      | .ok folder =>
        if part == "." || part == ".." then .folder else s.last slash part folder

end Snapshot

end Ostinato.CommandLine

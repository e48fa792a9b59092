import RegexMachine.Command.System
import RegexMachine.Text.Offset

/-!
# A folder of files

The files that a command can see, and what it takes to create one of them: every part of a path but
the last one has to lead to a directory that exists, and the last part must not be a directory.

Directories exist by the files and devices in them. Of what is outside the folder the directories
above it and those of the system around it are known, and no files in them.
-/

namespace RegexMachine.Command

/-- The number of bytes that the name of a file may have. -/
def maxName : Nat := 255

/-- The number of bytes that a path may have. -/
def maxPath : Nat := 4095

/-- The parts of a path between its slashes. A slash at either end has an empty part beside it. -/
def pathParts : List Char → List (List Char)
  | [] => [[]]
  | c :: cs =>
    if c = '/' then [] :: pathParts cs
    else
      match pathParts cs with
      | [] => [[c]]
      | part :: parts => (c :: part) :: parts

/-- The files in a folder, and the system around it. -/
structure Folder where
  /-- every file with its content -/
  files : List (Location × String)
  /-- what is named like a file and is none -/
  devices : List (Location × Device) := standardDevices
  /-- directories that exist whatever is in them, and the directories above them -/
  directories : List Location := standardDirectories
  /-- why no file can be created at a place, if none ever can -/
  refusal? : Location → Option FileError := standardRefusal?

namespace Folder

/-- Whether there is a file at a location. -/
def hasFile (folder : Folder) (place : Location) : Bool :=
  folder.files.any (·.1 = place)

/-- The device at a location. -/
def device? (folder : Folder) (place : Location) : Option Device :=
  (folder.devices.find? (·.1 = place)).map (·.2)

/-- The locations of all files and devices. -/
def places (folder : Folder) : List Location :=
  folder.files.map (·.1) ++ folder.devices.map (·.1)

/-- Whether there is a directory at a location. -/
def hasDirectory (folder : Folder) (place : Location) : Bool :=
  place = ["/"] || place.all (· = "..") || folder.directories.any (place.isPrefixOf ·) ||
    folder.places.any fun other => place.isPrefixOf other && place.length < other.length

/-- Replaces the content of a file, or adds the file. -/
def write (folder : Folder) (place : Location) (content : String) : Folder :=
  { folder with
    files :=
      if folder.hasFile place then
        folder.files.map fun file => if file.1 = place then (place, content) else file
      else folder.files ++ [(place, content)] }

/-- Goes from a directory to the one that a part of a path names. -/
def enter (folder : Folder) (place : Location) (name : String) : Except FileError Location :=
  if name = "." then .ok place
  else if name = ".." then .ok place.parent
  else if maxName < Text.byteSize name.toList then .error .nameTooLong
  else if folder.hasDirectory (place ++ [name]) then .ok (place ++ [name])
  else if folder.places.any (· = place ++ [name]) then .error .notDirectory
  else .error .notFound

/-- Opens a place in a directory for writing: that of a device, of a file or of a file to come. -/
def openAt (folder : Folder) (place : Location) : Except FileError Location :=
  if folder.hasDirectory place then .error .isDirectory
  else if (folder.device? place).isSome then .ok place
  else
    match folder.refusal? place with
    | some e => .error e
    | none => .ok place

/-- Where a path starts. -/
def pathStart : List Char → Location
  | '/' :: _ => ["/"]
  | _ => []

/-- The location of the file or device that a path names, opened for writing. -/
def locate (folder : Folder) (path : String) : Except FileError Location := do
  if path = "" then .error .notFound
  if maxPath < Text.byteSize path.toList then .error .nameTooLong
  let parts := (pathParts path.toList).map String.ofList
  let names := parts.filter (· ≠ "")
  let place ← names.dropLast.foldlM folder.enter (pathStart path.toList)
  match parts.getLast? with
  | none | some "" | some "." | some ".." => .error .isDirectory
  | some name =>
    if maxName < Text.byteSize name.toList then .error .nameTooLong
    else folder.openAt (place ++ [name])

end Folder

end RegexMachine.Command

/-!
# The system around a folder

What a command may find around its files: directories, devices, which are named like files and keep
nothing, and places where no file can be created. A folder carries its own; those that most machines
have are here, and so is what the operating system answers when a file cannot be created or written.
-/

namespace RegexMachine.Command

/-- Where a file is, seen from the folder: the names on the way to it. A way out of the folder
begins with `..` or, at the root of all paths, with `/`. -/
abbrev Location : Type := List String

/-- The directory around a location. -/
def Location.parent (place : Location) : Location :=
  if place = ["/"] then place
  else if place.all (· = "..") then place ++ [".."]
  else place.dropLast

/-- The reasons for which a file cannot be created or written. -/
inductive FileError where
  /-- a directory on the way does not exist -/
  | notFound
  /-- there is no terminal behind the path -/
  | noTerminal
  /-- no file may be added to the directory -/
  | denied
  /-- a part on the way is a file -/
  | notDirectory
  /-- the path leads to a directory -/
  | isDirectory
  /-- there is no room for the text -/
  | noSpace
  /-- a name or the path is longer than names and paths may be -/
  | nameTooLong
  deriving DecidableEq, Repr

/-- The error in words, with its number. -/
def FileError.message : FileError → String
  | notFound => "No such file or directory (os error 2)"
  | noTerminal => "No such device or address (os error 6)"
  | denied => "Permission denied (os error 13)"
  | notDirectory => "Not a directory (os error 20)"
  | isDirectory => "Is a directory (os error 21)"
  | noSpace => "No space left on device (os error 28)"
  | nameTooLong => "File name too long (os error 36)"

/-- What becomes of a text that is written to a device. -/
inductive Device where
  /-- it is taken and not kept -/
  | null
  /-- there is never room for it -/
  | full
  /-- it goes to the standard output of the command -/
  | output
  /-- it goes to the standard error of the command -/
  | error
  deriving DecidableEq, Repr

/-- The devices of most machines. The command reads nothing: its standard input is a null device. -/
def standardDevices : List (Location × Device) :=
  [(["/", "dev", "null"], .null), (["/", "dev", "zero"], .null), (["/", "dev", "full"], .full),
   (["/", "dev", "random"], .null), (["/", "dev", "urandom"], .null),
   (["/", "dev", "stdin"], .null), (["/", "dev", "stdout"], .output),
   (["/", "dev", "stderr"], .error),
   (["/", "dev", "fd", "0"], .null), (["/", "dev", "fd", "1"], .output),
   (["/", "dev", "fd", "2"], .error),
   (["/", "proc", "self", "fd", "0"], .null), (["/", "proc", "self", "fd", "1"], .output),
   (["/", "proc", "self", "fd", "2"], .error)]

/-- Directories of most machines. The directories above them exist with them. -/
def standardDirectories : List Location :=
  [["/", "bin"], ["/", "boot"], ["/", "dev", "pts"], ["/", "dev", "shm"], ["/", "etc"],
   ["/", "home"], ["/", "lib"], ["/", "media"], ["/", "mnt"], ["/", "opt"], ["/", "proc"],
   ["/", "root"], ["/", "run"], ["/", "sbin"], ["/", "srv"], ["/", "sys"], ["/", "tmp"],
   ["/", "usr", "bin"], ["/", "usr", "lib"], ["/", "usr", "local", "bin"], ["/", "usr", "sbin"],
   ["/", "usr", "share"], ["/", "var", "cache"], ["/", "var", "lib"], ["/", "var", "log"],
   ["/", "var", "tmp"]]

/-- Why no file can be created at a place of most machines, if none ever can: the system alone fills
its directories about processes and hardware, and the terminal is there only for a command that was
started from one. -/
def standardRefusal? : Location → Option FileError
  | "/" :: "proc" :: _ => some .notFound
  | "/" :: "dev" :: "fd" :: _ => some .notFound
  | ["/", "dev", "tty"] => some .noTerminal
  | "/" :: "sys" :: _ => some .denied
  | _ => none

end RegexMachine.Command

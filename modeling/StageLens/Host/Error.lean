/-!
# Errors of the operating system

The causes for which a host refuses an operation, with the code and the wording of each. Some causes
have no code: a text that cannot be handed to the system, and contents that are no text.
-/

namespace StageLens

/-- Why the host refused an operation. -/
inductive HostError where
  | notPermitted
  | notFound
  | interrupted
  | ioError
  | argumentsTooLong
  | notExecutableFormat
  | unavailable
  | outOfMemory
  | permissionDenied
  | busy
  | alreadyExists
  | notDirectory
  | isDirectory
  | invalidArgument
  | tooManyOpenFiles
  | textBusy
  | noSpace
  | readOnly
  | brokenPipe
  | nameTooLong
  | directoryNotEmpty
  | linkLoop
  /-- A program or argument holds a NUL. -/
  | nulByte
  /-- A path holds a NUL. -/
  | nulInPath
  /-- The contents are not UTF-8. -/
  | notUtf8
  /-- A cause known by its wording only. -/
  | described (text : String)
  deriving DecidableEq, Repr

namespace HostError

/-- The causes that have a code. -/
def coded : List (Nat × HostError × String) :=
  [(1, notPermitted, "Operation not permitted"),
    (2, notFound, "No such file or directory"),
    (4, interrupted, "Interrupted system call"),
    (5, ioError, "Input/output error"),
    (7, argumentsTooLong, "Argument list too long"),
    (8, notExecutableFormat, "Exec format error"),
    (11, unavailable, "Resource temporarily unavailable"),
    (12, outOfMemory, "Cannot allocate memory"),
    (13, permissionDenied, "Permission denied"),
    (16, busy, "Device or resource busy"),
    (17, alreadyExists, "File exists"),
    (20, notDirectory, "Not a directory"),
    (21, isDirectory, "Is a directory"),
    (22, invalidArgument, "Invalid argument"),
    (24, tooManyOpenFiles, "Too many open files"),
    (26, textBusy, "Text file busy"),
    (28, noSpace, "No space left on device"),
    (30, readOnly, "Read-only file system"),
    (32, brokenPipe, "Broken pipe"),
    (36, nameTooLong, "File name too long"),
    (39, directoryNotEmpty, "Directory not empty"),
    (40, linkLoop, "Too many levels of symbolic links")]

/-- The cause with the given code. -/
def ofCode (code : Nat) : HostError :=
  match coded.find? (·.1 == code) with
  | some (_, e, _) => e
  | none => described ("Unknown error " ++ toString code ++ " (os error " ++ toString code ++ ")")

/-- The system's own words for a cause that has a code. -/
def words (e : HostError) : String :=
  match coded.find? (·.2.1 == e) with
  | some (_, _, text) => text
  | none => ""

def message (e : HostError) : String :=
  match e with
  | nulByte => "nul byte found in provided data"
  | nulInPath => "file name contained an unexpected NUL byte"
  | notUtf8 => "stream did not contain valid UTF-8"
  | described text => text
  | e =>
    match coded.find? (·.2.1 == e) with
    | some (code, _, text) => text ++ " (os error " ++ toString code ++ ")"
    | none => ""

end HostError

end StageLens

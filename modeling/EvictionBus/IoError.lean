/-!
# Input and output errors

An error of the operating system is a kind, which the program may act on, and a text, which it
shows.
-/

namespace EvictionBus

/-- The kinds that are told apart. -/
inductive IoErrorKind where
  | unexpectedEof
  | addressInUse
  | other
  deriving DecidableEq, Repr

/-- The text shown for an error that has no text of its own. -/
def IoErrorKind.description : IoErrorKind → String
  | .unexpectedEof => "unexpected end of file"
  | .addressInUse => "address in use"
  | .other => "other error"

/-- A failed operation. -/
structure IoError where
  kind : IoErrorKind
  text : String
  deriving DecidableEq, Repr

namespace IoError

/-- The text if there is one, the description of the kind otherwise. -/
def message (e : IoError) : String :=
  if e.text = "" then e.kind.description else e.text

def ofNumber (kind : IoErrorKind) (name : String) (number : Nat) : IoError :=
  ⟨kind, s!"{name} (os error {number})"⟩

def connectionRefused : IoError := ofNumber .other "Connection refused" 111

/-- There is no route to the address. -/
def networkUnreachable : IoError := ofNumber .other "Network is unreachable" 101

def addressInUse : IoError := ofNumber .addressInUse "Address already in use" 98

def addressNotAvailable : IoError := ofNumber .other "Cannot assign requested address" 99

def brokenPipe : IoError := ofNumber .other "Broken pipe" 32

def permissionDenied : IoError := ofNumber .other "Permission denied" 13

def invalidArgument : IoError := ofNumber .other "Invalid argument" 22

def messageTooLong : IoError := ofNumber .other "Message too long" 90

/-- There is no such interface, or none that can join a group. -/
def noSuchDevice : IoError := ofNumber .other "No such device" 19

def notFound : IoError := ofNumber .other "No such file or directory" 2

/-- A path leads through something that is not a directory. -/
def notADirectory : IoError := ofNumber .other "Not a directory" 20

/-- A path leads to a directory where a file is needed. -/
def isADirectory : IoError := ofNumber .other "Is a directory" 21

/-- A path, or a part of it, is longer than the system takes. -/
def nameTooLong : IoError := ofNumber .other "File name too long" 36

def zeroInName : IoError := ⟨.other, "file name contained an unexpected NUL byte"⟩

def invalidUtf8 : IoError := ⟨.other, "stream did not contain valid UTF-8"⟩

/-- A stream ended inside a run of bytes of known length. -/
def earlyEof : IoError := ⟨.unexpectedEof, "early eof"⟩

/-- Nobody can be asked for the address of a host name. -/
def noNameService : IoError :=
  ⟨.other, "failed to lookup address information: Temporary failure in name resolution"⟩

def unknownName : IoError :=
  ⟨.other, "failed to lookup address information: Name or service not known"⟩

/-- A text that should be a socket address has no port. -/
def invalidSocketAddress : IoError := ⟨.other, "invalid socket address"⟩

/-- The port of a socket address is no number of 16 bits. -/
def invalidPort : IoError := ⟨.other, "invalid port value"⟩

end IoError

end EvictionBus

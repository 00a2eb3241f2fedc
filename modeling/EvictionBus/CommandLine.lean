import EvictionBus.Relay.Server
import EvictionBus.Text.Decimal

/-!
# The command line of the relay

The program takes at most one argument, the port to listen on. Arguments are read from left to right
and the first one that settles the matter does so: a request for help, or an argument that makes no
sense. While the relay runs, each interrupt prints a report, and the last one stops it.
-/

namespace EvictionBus.CommandLine

/-- What the arguments ask for. -/
inductive Request where
  | serve (port : Nat)
  | help
  | version
  /-- The arguments make no sense. -/
  | misuse
  deriving DecidableEq, Repr

/-- A port: a number of 16 bits. -/
def port? (s : List Char) : Option Nat :=
  match Text.int64? s with
  | some n => if 0 ≤ n ∧ n < 65536 then some n.toNat else none
  | none => none

/-- One argument that is neither an option nor stands where options may not. -/
def readPort (port : Option Nat) (arg : List Char) : Option Nat :=
  match port with
  | some _ => none
  | none => port? arg

/-- Reads arguments after the one that ends the options. -/
def readPorts (port : Option Nat) : List (List Char) → Request
  | [] => .serve (port.getD Relay.Config.standardPort)
  | arg :: args =>
    match readPort port arg with
    | some n => readPorts (some n) args
    | none => .misuse

/-- Reads arguments, given the port if there has been one. -/
def readArguments (port : Option Nat) : List (List Char) → Request
  | [] => readPorts port []
  | arg :: args =>
    match arg with
    | ['-', '-'] => readPorts port args
    | '-' :: '-' :: name =>
      if name = "help".toList then .help
      else if name = "version".toList then .version
      else .misuse
    | '-' :: 'h' :: _ => .help
    | '-' :: 'V' :: _ => .version
    | '-' :: _ :: _ => .misuse
    | _ =>
      match readPort port arg with
      | some n => readArguments (some n) args
      | none => .misuse

def parse (args : List String) : Request :=
  readArguments none (args.map String.toList)

/-- Lines, each ended by a line feed. -/
def joinLines (lines : List String) : String :=
  String.join (lines.map (· ++ "\n"))

/-- The answer to a request for help. -/
def helpText : String := joinLines [
  "Broadcast relay for cache eviction notifications",
  "",
  "Usage: evict-relay [PORT]",
  "",
  "Arguments:",
  "  [PORT]  Port to listen on [default: 9999]",
  "",
  "Options:",
  "  -h, --help     Print help",
  "  -V, --version  Print version"]

def versionText : String := "evict-relay 0.1.0\n"

/-- The lines printed at an interrupt, of which `received` have now come; `since` tells when a peer
has connected. -/
def interruptLines (s : Relay.State) (since : Nat → String) (received : Nat) : List String :=
  let remaining := s.config.signalCount - received
  s.report since ++
    if 0 < remaining then [s!"press CTRL-C {remaining} more time(s) to stop"] else []

/-- What a run of the program shows: its exit code, if it has ended, and its output. -/
structure Run where
  code : Option Nat
  output : String
  deriving DecidableEq, Repr

/-- The relay that runs on a port before anybody connects. -/
def idle (me : Identity) (port : Nat) : Relay.State :=
  .start (.ofPort port) me

/-- A run of the program in which nobody connects and a number of interrupts comes; `free` says on
which ports the relay can listen. -/
def run (me : Identity) (free : Nat → Bool) (args : List String) (interrupts : Nat) : Run :=
  match parse args with
  | .help => ⟨some 0, helpText⟩
  | .version => ⟨some 0, versionText⟩
  | .misuse => ⟨some 2, ""⟩
  | .serve port =>
    if free port then
      let s := idle me port
      let count := s.config.signalCount
      let lines := (List.range (min interrupts count)).flatMap fun i =>
        interruptLines s (fun _ => "") (i + 1)
      ⟨if count ≤ interrupts then some 0 else none, joinLines lines⟩
    else ⟨some 1, ""⟩

end EvictionBus.CommandLine

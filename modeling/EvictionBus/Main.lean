import EvictionBus.CommandLine
import EvictionBus.Relay.Input
import Std.Async.Signal
import Std.Async.TCP
import Std.Async.Timer
import Std.Sync.CancellationToken
import Std.Sync.Channel
import Std.Time

/-!
# The relay program

Prints what the arguments ask for, or serves. One loop owns the state of the relay: sockets, timers
and the interrupt key put notices into a channel, the loop turns each notice into an input of the
relay, and then starts to write what the relay has queued. Reports go to standard output, the
journal to standard error.
-/

namespace EvictionBus.Program

open Std.Async
open Std.Async.TCP.Socket (Server Client)

/-- What the loop is told. -/
inductive Notice where
  | client (socket : Client)
  | input (i : Relay.Input)
  /-- A frame has been written to a peer. -/
  | written (key : Nat)
  | interrupt

abbrev Notices := Std.CloseableChannel Notice

def Notices.tell (ns : Notices) (n : Notice) : BaseIO Unit :=
  discard (ns.send n)

structure Held where
  socket : Client
  /-- Stops the reader of the connection. -/
  stop : Std.CancellationToken
  /-- The time of the connection, as it is shown. -/
  since : String
  /-- Whether a frame is being written. -/
  writing : Bool

/-- What the loop owns. -/
structure Service where
  state : Relay.State
  connections : KeyTable Held
  interrupts : Nat

def socketError (e : IO.Error) : IoError :=
  ⟨.other, e.toString⟩

/-- An identity that no other relay has. -/
def newIdentity : IO Identity := do
  match Identity.ofPrefix? (← IO.getRandomBytes Identity.size.toUSize).toList with
  | some id => return id
  | none => throw (IO.userError "no random bytes")

/-- The time of day, as reports show it. -/
def timeText : IO String := do
  let now ← Std.Time.Timestamp.now
  return (Std.Time.DateTime.ofTimestamp now Std.Time.TimeZone.ZoneRules.UTC).format "uuuu-MM-dd HH:mm:ss"

/-- The address of the far end of a connection. -/
def peerAddress (socket : Client) : IO String := do
  match ← socket.getPeerName with
  | .v4 a => return s!"{a.addr.toString}:{a.port}"
  | .v6 a => return s!"[{a.addr.toString}]:{a.port}"

/-! ## Sources of notices -/

/-- Waits for clients for ever. -/
partial def acceptClients (ns : Notices) (server : Server) : Async Unit := do
  try
    ns.tell (.client (← server.accept))
  catch e => IO.eprintln s!"failed to accept connection: {e}"
  acceptClients ns server

partial def awaitInterrupts (ns : Notices) (waiter : Signal.Waiter) : Async Unit := do
  let _ ← Async.ofAsyncTask (← waiter.wait)
  ns.tell .interrupt
  awaitInterrupts ns waiter

/-- Reads from a peer until the stream ends or the reader is told to stop. -/
partial def readPeer (ns : Notices) (key : Nat) (socket : Client) (stop : Std.CancellationToken) :
    Async Unit := do
  let arrived : Option (Option ByteArray) ←
    try
      Selectable.one #[.case (socket.recvSelector 65536) fun bytes => return some bytes,
        .case stop.selector fun _ => return none]
    catch e =>
      ns.tell (.input (.readFailed key (socketError e)))
      return
  match arrived with
  | some (some bytes) =>
    ns.tell (.input (.arrived key bytes.toList))
    readPeer ns key socket stop
  | some none => ns.tell (.input (.ended key))
  | none => return

def writePeer (ns : Notices) (key : Nat) (socket : Client) (frame : Bytes) : Async Unit := do
  try
    socket.send (ByteArray.mk frame.toArray)
    ns.tell (.written key)
  catch e => ns.tell (.input (.writeFailed key (socketError e)))

def endPeer (socket : Client) : Async Unit := do
  try socket.shutdown catch _ => return

/-- Sets a timer for the payload of a peer. -/
def setTimer (ns : Notices) (key millis : Nat) : Async Unit := do
  sleep (.ofNat millis)
  ns.tell (.input (.timer key))

/-- Runs something beside the loop. -/
def beside (work : Async Unit) : IO Unit := do
  discard work.toIO

/-! ## The loop -/

def timedPeer? : Relay.Input → Option Nat
  | .arrived key _ => some key
  | .timer key => some key
  | _ => none

def printJournal (h : Service) : IO Service := do
  for e in h.state.journal do
    let fields := e.fields.map fun
      | (name, .number n) => s!" {name}={n}"
      | (name, .text s) => s!" {name}={s}"
    IO.eprintln (e.message ++ String.join fields)
  return { h with state := { h.state with journal := [] } }

/-- Starts to write to a peer if there is something to write, and lets go of a connection that has
been told to stop. -/
def serveConnection (ns : Notices) (h : Service) (key : Nat) (held : Held) : IO Service := do
  let now ← IO.monoMsNow
  let cancelled := (h.state.connections.get? key).all fun c => c.cancelled
  if cancelled then
    held.stop.cancel
    beside (endPeer held.socket)
    return { h with
      state := h.state.after now (.writerStopped key)
      connections := h.connections.erase key }
  if held.writing then return h
  match h.state.takeOutbound key with
  | (some (.frame bytes), state) =>
    beside (writePeer ns key held.socket bytes)
    return { h with
      state := state
      connections := h.connections.insert key { held with writing := true } }
  | _ => return h

def actOnInput (ns : Notices) (h : Service) (input : Relay.Input) : IO Service := do
  let now ← IO.monoMsNow
  let state := h.state.after now input
  if let some key := timedPeer? input then
    if let some due := state.deadline? key then
      let isTimer := match input with
        | .timer _ => true
        | _ => false
      if isTimer || h.state.deadline? key != some due then
        beside (setTimer ns key (due - now))
  return { h with state := state }

def actOnClient (ns : Notices) (h : Service) (socket : Client) : IO Service := do
  let address ← try peerAddress socket catch _ => return h
  try socket.noDelay catch _ => pure ()
  let h ← actOnInput ns h (.connected address)
  let stop ← Std.CancellationToken.new
  let key := h.state.lastKey
  beside (readPeer ns key socket stop)
  return { h with connections := h.connections.insert key ⟨socket, stop, ← timeText, false⟩ }

/-- Prints a report; the last one stops the relay. -/
def actOnInterrupt (ns : Notices) (h : Service) : IO Service := do
  let received := h.interrupts + 1
  let since (key : Nat) : String := ((h.connections.get? key).map Held.since).getD ""
  IO.print (CommandLine.joinLines (CommandLine.interruptLines h.state since received))
  (← IO.getStdout).flush
  let h := { h with interrupts := received }
  if received < h.state.config.signalCount then return h
  else actOnInput ns h .shutDown

def act (ns : Notices) (h : Service) : Notice → IO Service
  | .client socket => actOnClient ns h socket
  | .input i => actOnInput ns h i
  | .written key =>
    return { h with connections := h.connections.modify key fun c => { c with writing := false } }
  | .interrupt => actOnInterrupt ns h

/-- Serves until the relay has been told to stop. -/
partial def serveLoop (ns : Notices) (h : Service) : IO Unit := do
  let h ← h.connections.entries.foldlM (fun h (key, held) => serveConnection ns h key held) h
  let h ← printJournal h
  if h.state.stopping then return
  match ← IO.wait (← ns.recv) with
  | some notice => serveLoop ns (← act ns h notice)
  | none => return

def serve (port : Nat) : IO UInt32 := do
  let server ← Server.mk
  try
    server.bind (.v4 ⟨.ofParts 0 0 0 0, port.toUInt16⟩)
    server.listen 1024
  catch e =>
    IO.eprintln s!"Error: failed to start relay: {e}"
    return 1
  let ns : Notices ← Std.CloseableChannel.new
  let state := CommandLine.idle (← newIdentity) port
  beside (awaitInterrupts ns (← Signal.Waiter.mk .sigint true))
  beside (acceptClients ns server)
  serveLoop ns ⟨state.note (.listening state.config.bindAddress.text), .empty, 0⟩
  return 0

end EvictionBus.Program

open EvictionBus in
/-- Runs the relay program; the result is its exit code. -/
def main (args : List String) : IO UInt32 := do
  match CommandLine.parse args with
  | .help =>
    IO.print CommandLine.helpText
    return 0
  | .version =>
    IO.print CommandLine.versionText
    return 0
  | .misuse =>
    IO.eprint CommandLine.helpText
    return 2
  | .serve port => Program.serve port

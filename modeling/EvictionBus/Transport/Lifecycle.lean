import EvictionBus.Transport.Error
import EvictionBus.Transport.Kind
import EvictionBus.Transport.Traffic

/-!
# The life of a transport

A transport is started once, sends any number of times and is closed. It is marked as closed before
its link is released, and the mark stays for ever. Some failures mark it as well; which ones depends
on the kind of transport.
-/

namespace EvictionBus

/-- A transport: the mark, the link while there is one, and the traffic so far. -/
structure Lifecycle (L : Type) where
  closed : Bool
  link : Option L
  /-- The call that has started the transport. Its caller is the one who is handed the payloads
  received; a call that fails to start the transport brings its caller nothing. -/
  starter : Option Nat
  traffic : Traffic

namespace Lifecycle

variable {L : Type}

def fresh : Lifecycle L := ⟨false, none, none, .start⟩

/-- Refuses a payload above the largest message, if there is a limit. -/
def checkPayload (limit : Option Nat) (length : Nat) : Except TransportError Unit :=
  match limit with
  | some limit => if length ≤ limit then .ok () else .error (.payloadTooLarge length limit)
  | none => .ok ()

def mayStart (t : Lifecycle L) : Except TransportError Unit :=
  if t.closed then .error .closed
  else if t.link.isSome then .error (.configuration "transport already initialized")
  else .ok ()

/-- The link, if the transport is open and has been started. -/
def active (t : Lifecycle L) : Except TransportError L :=
  if t.closed then .error .closed
  else match t.link with
    | some l => .ok l
    | none => .error .notInitialized

theorem mayStart_eq_ok {t : Lifecycle L} (h : t.mayStart = .ok ()) :
    t.closed = false ∧ t.link = none := by
  unfold mayStart at h
  cases hc : t.closed with
  | true => simp [hc] at h
  | false =>
    cases hl : t.link with
    | some l => simp [hc, hl] at h
    | none => exact ⟨rfl, rfl⟩

theorem link_of_active {t : Lifecycle L} {l : L} (h : t.active = .ok l) : t.link = some l := by
  unfold active at h
  cases hl : t.link with
  | none => cases hc : t.closed <;> simp [hc, hl] at h
  | some k =>
    cases hc : t.closed with
    | true => simp [hc] at h
    | false =>
      simp only [hc, hl] at h
      cases h
      rfl

theorem open_of_active {t : Lifecycle L} {l : L} (h : t.active = .ok l) : t.closed = false := by
  unfold active at h
  cases hc : t.closed with
  | true => simp [hc] at h
  | false => rfl

def started (t : Lifecycle L) (call : Nat) (l : L) : Lifecycle L :=
  { t with link := some l, starter := some call }

def markClosed (t : Lifecycle L) : Lifecycle L := { t with closed := true }

def released (t : Lifecycle L) : Lifecycle L := { t with link := none }

/-- Changes the link, if there is one. -/
def modifyLink (t : Lifecycle L) (f : L → L) : Lifecycle L := { t with link := t.link.map f }

def modifyTraffic (t : Lifecycle L) (f : Traffic → Traffic) : Lifecycle L :=
  { t with traffic := f t.traffic }

def countSent (t : Lifecycle L) : Lifecycle L := t.modifyTraffic .countSent

/-- Connecting has failed after the configuration was found in order. Only a client of a relay is
closed by that. -/
def startFailed (kind : TransportKind) (t : Lifecycle L) : Lifecycle L :=
  match kind with
  | .relay => t.markClosed
  | _ => t

/-- Sending has failed on an active link. The stream to a relay cannot be used after a frame that
was not written whole. -/
def sendFailed (kind : TransportKind) (t : Lifecycle L) : Lifecycle L :=
  match kind with
  | .relay => t.markClosed
  | _ => t

/-- Receiving has ended for good, or no more members can be accepted. A broker is connected to
again, so it alone stays open. -/
def receivingEnded (kind : TransportKind) (t : Lifecycle L) : Lifecycle L :=
  match kind with
  | .broker => t
  | _ => t.markClosed

end Lifecycle

end EvictionBus

import EvictionBus.KeyTable

/-!
# The table of peers

A relay knows every connected peer by a key of its own. The table holds what it shows about them:
address, nickname and the number of evictions received.
-/

namespace EvictionBus.Relay

structure Peer where
  address : String
  nickname : String
  evictions : Nat
  deriving DecidableEq, Repr

/-- A peer that has just connected; its address stands for its name. -/
def Peer.ofAddress (address : String) : Peer :=
  ⟨address, address, 0⟩

def keyText (key : Nat) : String := s!"#{key}"

abbrev PeerTable := KeyTable Peer

namespace PeerTable

/-- Names a peer: its nickname is the name with the address. -/
def setNickname (t : PeerTable) (key : Nat) (name : String) : PeerTable :=
  t.modify key fun p => { p with nickname := s!"{name} ({p.address})" }

def nickname? (t : PeerTable) (key : Nat) : Option String :=
  (t.get? key).map Peer.nickname

def recordEviction (t : PeerTable) (key : Nat) : PeerTable :=
  t.modify key fun p => { p with evictions := p.evictions + 1 }

def evictions? (t : PeerTable) (key : Nat) : Option Nat :=
  (t.get? key).map Peer.evictions

def label (t : PeerTable) (key : Nat) : String :=
  (t.nickname? key).getD (keyText key)

/-- The keys of all peers but one. -/
def recipients (t : PeerTable) (origin : Nat) : List Nat :=
  t.keys.filter (· ≠ origin)

/-- One line of a report, with the time of the connection. -/
def reportLine (key : Nat) (p : Peer) (since : String) : String :=
  s!"{keyText key} {p.nickname}: {p.evictions} evictions since {since}"

/-- One line for each peer, in the order of the keys; `since` tells when a peer has connected. -/
def report (t : PeerTable) (since : Nat → String) : List String :=
  t.entries.map fun e => reportLine e.1 e.2 (since e.1)

theorem mem_recipients_iff (t : PeerTable) (origin key : Nat) :
    key ∈ t.recipients origin ↔ t.contains key = true ∧ key ≠ origin := by
  simp [recipients, KeyTable.mem_keys_iff]

theorem nodup_recipients (t : PeerTable) (origin : Nat) : (t.recipients origin).Nodup :=
  -- The keys are sorted strictly.
  (t.sorted_keys.imp Nat.ne_of_lt).filter _

/-! ## Calls -/

/-- What changes a table. -/
inductive Call where
  | insert (key : Nat) (p : Peer)
  | remove (key : Nat)
  | setNickname (key : Nat) (name : String)
  | recordEviction (key : Nat)
  deriving DecidableEq, Repr

def Call.key : Call → Nat
  | .insert key _ | .remove key | .setNickname key _ | .recordEviction key => key

/-- What a call returns: the peer that is removed, its new nickname or its new count. -/
inductive Answer where
  | done
  | removed (p : Option Peer)
  | named (nickname : Option String)
  | counted (evictions : Option Nat)
  deriving DecidableEq, Repr

def perform (t : PeerTable) : Call → Answer × PeerTable
  | .insert key p => (.done, t.insert key p)
  | .remove key => (.removed (t.get? key), t.erase key)
  | .setNickname key name =>
    let t := t.setNickname key name
    (.named (t.nickname? key), t)
  | .recordEviction key =>
    let t := t.recordEviction key
    (.counted (t.evictions? key), t)

end PeerTable

end EvictionBus.Relay

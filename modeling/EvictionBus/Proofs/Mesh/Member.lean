import EvictionBus.Frame.Codec
import EvictionBus.KeyTable
import EvictionBus.Transport.Lifecycle
import EvictionBus.Transport.Mesh

/-!
# A member of a mesh at work

A member writes a frame to all its peers at the same time. What the network does about it is not
known: whether and when a peer can be dialled, how many bytes a stream takes at a time, and whether
a write fails or stalls may be different each time. A `State` is a member between two events of any
kind, with the bytes that each of its connections has carried.
-/

namespace EvictionBus.Mesh

structure Member where
  codec : Codec
  /-- How long a write may stall, in milliseconds. -/
  sendTimeout : Nat

/-- A connection that has been made: the address that was dialled, and the bytes written to it. -/
structure Wire where
  target : String
  carried : Bytes
  deriving DecidableEq

/-! ## The write to one peer -/

/-- How far a frame to one peer has come. -/
inductive Stage where
  | dialing
  /-- The rest is still to be written. -/
  | writing (connection : Nat) (rest : Bytes)
  | done (outcome : MeshLinks.Outcome)
  deriving DecidableEq

/-- What can happen to the write to one peer. -/
inductive PeerEvent where
  | connected (connection : Nat)
  | refused (e : IoError)
  | dialTimedOut
  /-- The new connection cannot be set up. -/
  | unusable (e : IoError)
  /-- The stream takes at most so many bytes. -/
  | took (count : Nat)
  | failed (e : IoError)
  | stalled
  /-- The closing of the transport is noticed. -/
  | stopped

namespace Stage

def start (frame : Bytes) : Option Nat → Stage
  | some connection => .writing connection frame
  | none => .dialing

/-- The connection that is in use, and what is still to be written to it. -/
def line? : Stage → Option (Nat × Bytes)
  | .writing connection rest => some (connection, rest)
  | .done (.written connection) => some (connection, [])
  | _ => none

def onward (connection : Nat) (rest : Bytes) : Stage :=
  if rest = [] then .done (.written connection) else .writing connection rest

/-- The connections and the stage after an event, if it is possible. -/
def next (m : Member) (closing : Bool) (target : String) (frame : Bytes) (wires : KeyTable Wire) :
    Stage → PeerEvent → Option (KeyTable Wire × Stage)
  | .dialing, .connected connection =>
    if wires.contains connection then none
    else some (wires.insert connection ⟨target, []⟩, .writing connection frame)
  | .dialing, .refused e => some (wires, .done (.broken (MeshLinks.connectFailed target e)))
  | .dialing, .dialTimedOut => some (wires, .done (.broken (MeshLinks.connectTimedOut target)))
  | .dialing, .unusable e => some (wires, .done (.broken (.io e)))
  | .dialing, .stopped => if closing then some (wires, .done .stopped) else none
  | .writing connection rest, .took count =>
    some (wires.modify connection fun wire =>
        { wire with carried := wire.carried ++ rest.take count },
      onward connection (rest.drop count))
  | .writing _ _, .failed e => some (wires, .done (.broken (.writeFailed e)))
  | .writing _ _, .stalled => some (wires, .done (.broken (.writeStalled m.sendTimeout)))
  | .writing _ _, .stopped => if closing then some (wires, .done .stopped) else none
  | _, _ => none

end Stage

/-! ## Members -/

structure Round where
  payload : Bytes
  frame : Bytes
  /-- How far it has come, in the order of the peers. -/
  writes : List (String × Stage)

def outcomes? : List (String × Stage) → Option (List (String × MeshLinks.Outcome))
  | [] => some []
  | (target, .done outcome) :: rest => (outcomes? rest).map ((target, outcome) :: ·)
  | _ :: _ => none

structure State where
  life : Lifecycle MeshLinks
  /-- Whether a call to close has been made. -/
  closing : Bool
  round : Option Round
  wires : KeyTable Wire
  /-- The frames that have been sent, or have been begun to be sent, in order. -/
  frames : List Bytes
  /-- The calls to send that have returned. -/
  answers : List (Bytes × Except TransportError Unit)

/-- What happens to a member. A call to send begins when it is its turn. -/
inductive Event where
  | send (payload : Bytes)
  /-- Something happens to the write to the peer at a place of the list. -/
  | peer (place : Nat) (e : PeerEvent)
  /-- Every write has come to an end, and the call to send returns. -/
  | settle
  | close
  /-- No more members can be accepted. -/
  | acceptFailed
  /-- The connections are closed by a call to close whose turn it is. -/
  | release

namespace State

def initial (peers : List Address) : State where
  life := Lifecycle.fresh.started 0 (.ofPeers peers)
  closing := false
  round := none
  wires := .empty
  frames := []
  answers := []

def answer (s : State) (payload : Bytes) (result : Except TransportError Unit) : State :=
  { s with answers := s.answers ++ [(payload, result)] }

def begun (s : State) (links : MeshLinks) (payload frame : Bytes) : State :=
  { s with
    round := some ⟨payload, frame, links.plan.map fun p => (p.1, .start frame p.2)⟩
    frames := s.frames ++ [frame] }

/-- A call to send begins. It is impossible while a frame is on its way. -/
def send (m : Member) (s : State) (payload : Bytes) : Option State :=
  match Lifecycle.checkPayload (some m.codec.limit) payload.length with
  | .error e => some (s.answer payload (.error e))
  | .ok () =>
    match s.round, s.life.active with
    | some _, _ => none
    | none, .error e => some (s.answer payload (.error e))
    | none, .ok links =>
      match (m.codec.encode .evict payload).mapError TransportError.ofFrame with
      | .error e => some (s.answer payload (.error e))
      | .ok frame => some (s.begun links payload frame)

def put (s : State) (r : Round) (place : Nat) (target : String) (wires : KeyTable Wire)
    (stage : Stage) : State :=
  { s with
    wires := wires
    round := some { r with writes := r.writes.set place (target, stage) } }

def proceed (m : Member) (s : State) (place : Nat) (e : PeerEvent) : Option State :=
  match s.round with
  | none => none
  | some r =>
    match r.writes[place]? with
    | none => none
    | some (target, stage) =>
      (stage.next m s.closing target r.frame s.wires e).map fun x => s.put r place target x.1 x.2

def accounted {L : Type} (life : Lifecycle L) : Except TransportError Unit → Lifecycle L
  | .ok () => life.countSent
  | .error _ => life.sendFailed .reliableMulticast

def settled (s : State) (r : Round) (links : MeshLinks)
    (outcomes : List (String × MeshLinks.Outcome)) : State :=
  { s with
    round := none
    life := accounted (s.life.modifyLink fun _ => (links.sent outcomes).1) (links.sent outcomes).2
    answers := s.answers ++ [(r.payload, (links.sent outcomes).2)] }

def settle (s : State) : Option State :=
  match s.round, s.life.link with
  | some r, some links => (outcomes? r.writes).map (s.settled r links)
  | _, _ => none

def step (m : Member) (s : State) : Event → Option State
  | .send payload => s.send m payload
  | .peer place e => s.proceed m place e
  | .settle => s.settle
  | .close => some { s with life := s.life.markClosed, closing := true }
  | .acceptFailed => some { s with life := s.life.receivingEnded .reliableMulticast }
  | .release =>
    if s.closing ∧ s.round.isNone then some { s with life := s.life.released } else none

def run (m : Member) (s : State) : List Event → Option State
  | [] => some s
  | e :: es => (s.step m e).bind fun s => s.run m es

end State

/-! ## What an event does -/

inductive Stage.Next (closing : Bool) (target : String) (frame : Bytes) (wires : KeyTable Wire) :
    Stage → PeerEvent → KeyTable Wire → Stage → Prop
  | connected (c : Nat) (hnew : wires.get? c = none) :
    Next closing target frame wires .dialing (.connected c) (wires.insert c ⟨target, []⟩)
      (.writing c frame)
  | took (c : Nat) (rest : Bytes) (count : Nat) :
    Next closing target frame wires (.writing c rest) (.took count)
      (wires.modify c fun wire => { wire with carried := wire.carried ++ rest.take count })
      (.onward c (rest.drop count))
  | broken (stage : Stage) (e : PeerEvent) (reason : TransportError) :
    Next closing target frame wires stage e wires (.done (.broken reason))
  | stopped (stage : Stage) (hclosing : closing = true) :
    Next closing target frame wires stage .stopped wires (.done .stopped)

theorem Stage.next_of_eq_some {m : Member} {closing : Bool} {target : String} {frame : Bytes}
    {wires wires' : KeyTable Wire} {stage stage' : Stage} {e : PeerEvent}
    (h : stage.next m closing target frame wires e = some (wires', stage')) :
    stage.Next closing target frame wires e wires' stage' := by
  unfold next at h
  split at h
  case _ c =>
    split at h
    case _ => cases h
    case _ hnew =>
      cases h
      rw [KeyTable.contains, Option.not_isSome_iff_eq_none] at hnew
      exact .connected c hnew
  case _ => cases h; exact .broken ..
  case _ => cases h; exact .broken ..
  case _ => cases h; exact .broken ..
  case _ =>
    split at h
    case _ hclosing =>
      cases h
      exact .stopped _ hclosing
    case _ => cases h
  case _ => cases h; exact .took ..
  case _ => cases h; exact .broken ..
  case _ => cases h; exact .broken ..
  case _ =>
    split at h
    case _ hclosing =>
      cases h
      exact .stopped _ hclosing
    case _ => cases h
  case _ => cases h

namespace State

inductive Stepped (m : Member) (s : State) : Event → State → Prop
  | refused (payload : Bytes) (e : TransportError) :
    Stepped m s (.send payload) (s.answer payload (.error e))
  | begun (payload frame : Bytes) (links : MeshLinks) (hlength : payload.length ≤ m.codec.limit)
      (hround : s.round = none) (hactive : s.life.active = .ok links)
      (hframe : m.codec.encode .evict payload = .ok frame) :
    Stepped m s (.send payload) (s.begun links payload frame)
  | peer (place : Nat) (e : PeerEvent) (r : Round) (target : String) (stage stage' : Stage)
      (wires : KeyTable Wire) (hround : s.round = some r)
      (hplace : r.writes[place]? = some (target, stage))
      (hnext : stage.Next s.closing target r.frame s.wires e wires stage') :
    Stepped m s (.peer place e) (s.put r place target wires stage')
  | settled (r : Round) (links : MeshLinks) (outcomes : List (String × MeshLinks.Outcome))
      (hround : s.round = some r) (hlink : s.life.link = some links)
      (houtcomes : outcomes? r.writes = some outcomes) :
    Stepped m s .settle (s.settled r links outcomes)
  | close : Stepped m s .close { s with life := s.life.markClosed, closing := true }
  | acceptFailed : Stepped m s .acceptFailed
      { s with life := s.life.receivingEnded .reliableMulticast }
  | release (hclosing : s.closing = true) (hround : s.round = none) :
    Stepped m s .release { s with life := s.life.released }

theorem stepped_of_send {m : Member} {s s' : State} {payload : Bytes}
    (h : s.send m payload = some s') : Stepped m s (.send payload) s' := by
  unfold send at h
  cases hcheck : Lifecycle.checkPayload (some m.codec.limit) payload.length with
  | error e =>
    simp only [hcheck] at h
    cases h
    exact .refused payload e
  | ok u =>
    have hlength : payload.length ≤ m.codec.limit := by
      unfold Lifecycle.checkPayload at hcheck
      simp only at hcheck
      split at hcheck
      · assumption
      · cases hcheck
    simp only [hcheck] at h
    split at h
    case _ => cases h
    case _ e hround hactive =>
      cases h
      exact .refused payload e
    case _ links hround hactive =>
      cases hframe : m.codec.encode .evict payload with
      | error e =>
        rw [hframe] at h
        change some (s.answer payload (.error (.ofFrame e))) = some s' at h
        cases h
        exact .refused payload _
      | ok frame =>
        rw [hframe] at h
        change some (s.begun links payload frame) = some s' at h
        cases h
        exact .begun payload frame links hlength hround hactive hframe

theorem proceed_eq_some {m : Member} {s s' : State} {place : Nat} {e : PeerEvent}
    (h : s.proceed m place e = some s') :
    ∃ r target stage wires stage', s.round = some r ∧ r.writes[place]? = some (target, stage) ∧
      stage.next m s.closing target r.frame s.wires e = some (wires, stage') ∧
      s' = s.put r place target wires stage' := by
  unfold proceed at h
  split at h
  case _ => cases h
  case _ r hround =>
    split at h
    case _ => cases h
    case _ target stage hplace =>
      obtain ⟨x, hx, rfl⟩ := Option.map_eq_some_iff.mp h
      exact ⟨r, target, stage, x.1, x.2, hround, hplace, hx, rfl⟩

theorem step_peer {m : Member} {s : State} {r : Round} (hround : s.round = some r)
    {before after : List (String × Stage)} {target : String} {stage stage' : Stage}
    (hwrites : r.writes = before ++ (target, stage) :: after) {wires : KeyTable Wire}
    {e : PeerEvent}
    (hnext : stage.next m s.closing target r.frame s.wires e = some (wires, stage')) :
    s.step m (.peer before.length e) = some { s with
      wires := wires
      round := some { r with writes := before ++ (target, stage') :: after } } := by
  have hplace : r.writes[before.length]? = some (target, stage) := by
    rw [hwrites, List.getElem?_append_right (Nat.le_refl _), Nat.sub_self]
    rfl
  have hset :
      r.writes.set before.length (target, stage') = before ++ (target, stage') :: after := by
    rw [hwrites, List.set_append_right _ _ (Nat.le_refl _), Nat.sub_self]
    rfl
  simp only [step, proceed, hround, hplace, hnext, Option.map_some, put, hset]

theorem settle_eq_some {s s' : State} (h : s.settle = some s') :
    ∃ r links outcomes, s.round = some r ∧ s.life.link = some links ∧
      outcomes? r.writes = some outcomes ∧ s' = s.settled r links outcomes := by
  unfold settle at h
  split at h
  case _ r links hround hlink =>
    obtain ⟨outcomes, houtcomes, rfl⟩ := Option.map_eq_some_iff.mp h
    exact ⟨r, links, outcomes, hround, hlink, houtcomes, rfl⟩
  case _ => cases h

theorem stepped_of_step {m : Member} {s s' : State} {e : Event} (h : s.step m e = some s') :
    Stepped m s e s' := by
  cases e with
  | send payload => exact stepped_of_send h
  | peer place e =>
    obtain ⟨r, target, stage, wires, stage', hround, hplace, hnext, rfl⟩ := proceed_eq_some h
    exact .peer place e r target stage stage' wires hround hplace (Stage.next_of_eq_some hnext)
  | settle =>
    obtain ⟨r, links, outcomes, hround, hlink, houtcomes, rfl⟩ := settle_eq_some h
    exact .settled r links outcomes hround hlink houtcomes
  | close => cases h; exact .close
  | acceptFailed => cases h; exact .acceptFailed
  | release =>
    simp only [step] at h
    split at h
    case _ hcond =>
      cases h
      exact .release hcond.1 (Option.isNone_iff_eq_none.mp hcond.2)
    case _ => cases h

end State

theorem outcomes?_eq_some {writes : List (String × Stage)}
    {outcomes : List (String × MeshLinks.Outcome)} :
    outcomes? writes = some outcomes ↔ writes = outcomes.map fun o => (o.1, .done o.2) := by
  induction writes generalizing outcomes with
  | nil =>
    cases outcomes with
    | nil => simp [outcomes?]
    | cons o outcomes => simp [outcomes?]
  | cons w writes ih =>
    obtain ⟨target, stage⟩ := w
    cases stage with
    | dialing => cases outcomes <;> simp [outcomes?]
    | writing c rest => cases outcomes <;> simp [outcomes?]
    | done outcome =>
      rw [outcomes?, Option.map_eq_some_iff]
      constructor
      · rintro ⟨rest, hrest, rfl⟩
        rw [ih.mp hrest]
        rfl
      · intro h
        cases outcomes with
        | nil => cases h
        | cons o outcomes =>
          rw [List.map_cons, List.cons.injEq, Prod.mk.injEq] at h
          obtain ⟨⟨rfl, heq⟩, hrest⟩ := h
          cases heq
          exact ⟨outcomes, ih.mpr hrest, rfl⟩

theorem mem_of_outcomes? {writes : List (String × Stage)}
    {outcomes : List (String × MeshLinks.Outcome)} (h : outcomes? writes = some outcomes)
    {o : String × MeshLinks.Outcome} (ho : o ∈ outcomes) : (o.1, Stage.done o.2) ∈ writes := by
  rw [outcomes?_eq_some.mp h]
  exact List.mem_map_of_mem (f := fun o => (o.1, Stage.done o.2)) ho

end EvictionBus.Mesh

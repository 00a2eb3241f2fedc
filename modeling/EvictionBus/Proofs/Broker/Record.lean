import Mathlib.Data.List.Basic
import Mathlib.Data.List.TakeWhile
import EvictionBus.Proofs.Broker.Memory

/-!
# The record of a broker

A broker in memory answers one request after another.  The record of its answers says all that
anybody outside can know about it: which sessions have been opened, what has been published and when
the broker has gone offline.  From the record alone it is said here what a session has to read.
-/

namespace EvictionBus.Broker

/-- What may be asked of a broker in memory. -/
inductive Request where
  | connect (binding : Binding)
  | publish (session : Nat) (payload : Bytes)
  | next (session : Nat)
  | acknowledge (session : Nat)
  | dropReader (session : Nat)
  | setReachable (value : Bool)
  deriving DecidableEq

inductive Reply where
  | opened (session : Nat)
  | done
  | found (what : Next)
  | refused (e : TransportError)
  /-- There is no such session, or its reader is gone. -/
  | nobody
  deriving DecidableEq

/-- A request with the broker's reply. -/
structure Entry where
  request : Request
  reply : Reply
  deriving DecidableEq

abbrev Record := List Entry

namespace Memory

/-- The reply to a request that gives nothing but a new state; a refusal leaves the old one. -/
def grant (b : Memory) : Option (Except TransportError Memory) → Reply × Memory
  | some (.ok b') => (.done, b')
  | some (.error e) => (.refused e, b)
  | none => (.nobody, b)

/-- Answers a request. -/
def serve (b : Memory) : Request → Reply × Memory
  | .connect binding =>
    match b.connect binding with
    | .ok (n, b') => (.opened n, b')
    | .error e => (.refused e, b)
  | .publish n payload => b.grant (b.publish n payload)
  | .next n =>
    match b.next n with
    | some (what, b') => (.found what, b')
    | none => (.nobody, b)
  | .acknowledge n => b.grant (b.acknowledge n)
  | .dropReader n => (.done, b.dropReader n)
  | .setReachable value => (.done, b.setReachable value)

/-- The broker after requests one after another. -/
def run (b : Memory) (requests : List Request) : Memory :=
  requests.foldl (fun b r => (b.serve r).2) b

/-- The requests with the replies to them. -/
def record (b : Memory) : List Request → Record
  | [] => []
  | r :: requests => ⟨r, (b.serve r).1⟩ :: (b.serve r).2.record requests

theorem record_append (b : Memory) (first more : List Request) :
    b.record (first ++ more) = b.record first ++ (b.run first).record more := by
  induction first generalizing b with
  | nil => rfl
  | cons r first ih => exact congrArg (_ :: ·) (ih (b.serve r).2)

end Memory

/-! ## Single entries -/

namespace Entry

/-- The session that has been opened belongs to this node. -/
def opened? : Entry → Option Binding
  | ⟨.connect binding, .opened _⟩ => some binding
  | _ => none

def isOutage (e : Entry) : Bool :=
  e.request = .setReachable false

def drops (e : Entry) (n : Nat) : Bool :=
  e.request = .dropReader n

def reachable? : Entry → Option Bool
  | ⟨.setReachable value, _⟩ => some value
  | _ => none

/-- A session, and the payload that has been published through it. -/
def published? : Entry → Option (Nat × Bytes)
  | ⟨.publish n payload, .done⟩ => some (n, payload)
  | _ => none

/-- A session, and the delivery that it has read. -/
def delivery? : Entry → Option (Nat × Delivery)
  | ⟨.next n, .found (.delivery d)⟩ => some (n, d)
  | _ => none

def isAcknowledgement : Entry → Bool
  | ⟨.acknowledge _, .done⟩ => true
  | _ => false

end Entry

/-- What a reader is told about a message: the publisher's routing key and the payload. -/
def Delivery.message (d : Delivery) : String × Bytes :=
  (d.routingKey, d.payload)

/-! ## The record -/

namespace Record

/-- Whose sessions have been opened, in order; a session is known by its place among them. -/
def bindings (h : Record) : List Binding :=
  h.filterMap Entry.opened?

/-- What has happened since a session was opened; nothing if it has not been. -/
def since : Record → Nat → Record
  | [], _ => []
  | e :: h, n =>
    match e.opened?, n with
    | none, n => since h n
    | some _, 0 => h
    | some _, n + 1 => since h n

/-- There has been an outage since a session was opened. -/
def lost (h : Record) (n : Nat) : Bool :=
  (since h n).any Entry.isOutage

/-- The reader of a session has gone away. -/
def dropped (h : Record) (n : Nat) : Bool :=
  (since h n).any fun e => e.drops n

/-- Whether the broker is there: it has been at first, and then as it was told last. -/
def reachable (h : Record) : Bool :=
  ((h.filterMap Entry.reachable?).getLast?).getD true

/-- The message of an entry, if it has been published to an exchange.  The publisher is one of the
given sessions. -/
def message? (sessions : List Binding) (exchange : String) (e : Entry) :
    Option (String × Bytes) := do
  let (n, payload) ← e.published?
  let sender ← (sessions[n]?).filter fun s => s.exchange = exchange
  return (sender.routingKey, payload)

/-- What a session has to read: the messages published to its exchange since it was opened, up to
the next outage. -/
def due (h : Record) (n : Nat) : List (String × Bytes) :=
  match (bindings h)[n]? with
  | none => []
  | some own =>
    ((since h n).takeWhile fun e => !e.isOutage).filterMap (message? (bindings h) own.exchange)

/-- All deliveries that have been read, each with its session. -/
def deliveries (h : Record) : List (Nat × Delivery) :=
  h.filterMap Entry.delivery?

/-- The deliveries that a session has read. -/
def taken (h : Record) (n : Nat) : List Delivery :=
  ((deliveries h).filter fun x => x.1 = n).map Prod.snd

/-- The sessions on an exchange that no outage has ended and that have their readers. -/
def consumers (h : Record) (exchange : String) : List Nat :=
  (List.range (bindings h).length).filter fun n =>
    ((bindings h)[n]?.any fun s => s.exchange = exchange) && !lost h n && !dropped h n

/-- Why a session that an outage has ended cannot be used. -/
def obstacle (h : Record) : TransportError :=
  .brokerUnreachable (if reachable h then "connection was reset" else "broker is offline")

/-! ## One more entry -/

section Concat

variable {h : Record} {e : Entry} {n : Nat}

theorem bindings_concat (h : Record) (e : Entry) :
    bindings (h ++ [e]) = bindings h ++ e.opened?.toList := by
  unfold bindings
  rw [List.filterMap_append]
  cases he : e.opened? <;> simp [he]

theorem reachable_concat (h : Record) (e : Entry) :
    reachable (h ++ [e]) = e.reachable?.getD (reachable h) := by
  unfold reachable
  rw [List.filterMap_append]
  cases he : e.reachable? <;> simp [he]

theorem since_append (h more : Record) (n : Nat) :
    since (h ++ more) n =
      if n < (bindings h).length then since h n ++ more
      else since more (n - (bindings h).length) := by
  induction h generalizing n with
  | nil => rfl
  | cons e h ih =>
    cases he : e.opened? with
    | none =>
      have hb : bindings (e :: h) = bindings h := by
        unfold bindings
        rw [List.filterMap_cons_none he]
      simp only [List.cons_append, since, he, hb]
      exact ih n
    | some binding =>
      have hb : bindings (e :: h) = binding :: bindings h := by
        unfold bindings
        rw [List.filterMap_cons_some he]
      rw [hb, List.length_cons]
      -- The first session is the one that this entry opens.
      cases n with
      | zero => simp only [List.cons_append, since, he, Nat.zero_lt_succ, if_true]
      | succ n =>
        simp only [List.cons_append, since, he, Nat.succ_lt_succ_iff, Nat.succ_sub_succ_eq_sub]
        exact ih n

theorem since_concat (hn : n < (bindings h).length) : since (h ++ [e]) n = since h n ++ [e] := by
  rw [since_append, if_pos hn]

theorem since_of_le (hn : (bindings h).length ≤ n) : since h n = [] := by
  have := since_append h [] n
  rw [List.append_nil, if_neg (by omega)] at this
  rw [this]
  rfl

theorem since_opened {binding : Binding} (he : e.opened? = some binding) :
    since (h ++ [e]) (bindings h).length = [] := by
  rw [since_append, if_neg (Nat.lt_irrefl _), Nat.sub_self]
  simp only [since, he]

theorem lost_concat (hn : n < (bindings h).length) :
    lost (h ++ [e]) n = (lost h n || e.isOutage) := by
  unfold lost
  rw [since_concat hn, List.any_append]
  simp

theorem lt_of_lost (hl : lost h n = true) : n < (bindings h).length := by
  by_contra hn
  unfold lost at hl
  rw [since_of_le (by omega)] at hl
  cases hl

/-- A session that an outage has ended stays ended. -/
theorem lost_append (hl : lost h n = true) (more : Record) : lost (h ++ more) n = true := by
  have hn := lt_of_lost hl
  unfold lost at hl ⊢
  rw [since_append, if_pos hn, List.any_append, hl]
  rfl

theorem dropped_concat (hn : n < (bindings h).length) :
    dropped (h ++ [e]) n = (dropped h n || e.drops n) := by
  unfold dropped
  rw [since_concat hn, List.any_append]
  simp

theorem deliveries_concat (h : Record) (e : Entry) :
    deliveries (h ++ [e]) = deliveries h ++ e.delivery?.toList := by
  unfold deliveries
  rw [List.filterMap_append]
  cases he : e.delivery? <;> simp [he]

theorem taken_concat (h : Record) (e : Entry) (n : Nat) :
    taken (h ++ [e]) n =
      taken h n ++ ((e.delivery?.toList.filter fun x => x.1 = n).map Prod.snd) := by
  unfold taken
  rw [deliveries_concat, List.filter_append, List.map_append]

/-- Every message comes from a session that has been opened, and every delivery was read by one. -/
structure Grounded (h : Record) : Prop where
  publisher_lt : ∀ e ∈ h, ∀ x, e.published? = some x → x.1 < (bindings h).length
  reader_lt : ∀ x ∈ deliveries h, x.1 < (bindings h).length

theorem Grounded.message?_concat (hh : Grounded h) (e : Entry) (exchange : String) {d : Entry}
    (hd : d ∈ h) :
    message? (bindings (h ++ [e])) exchange d = message? (bindings h) exchange d := by
  unfold message?
  cases hp : d.published? with
  | none => rfl
  | some x =>
    have hlt := hh.publisher_lt d hd x hp
    simp only [Option.bind_eq_bind, Option.bind_some]
    rw [bindings_concat, List.getElem?_append_left hlt]

theorem message?_of_unpublished (he : e.published? = none) (sessions : List Binding)
    (exchange : String) : message? sessions exchange e = none := by
  unfold message?
  rw [he]
  rfl

theorem taken_concat_of_other (he : ∀ d, e.delivery? ≠ some (n, d)) :
    taken (h ++ [e]) n = taken h n := by
  rw [taken_concat]
  cases hd : e.delivery? with
  | none => exact List.append_nil _
  | some x =>
    obtain ⟨m, d⟩ := x
    have hm : m ≠ n := fun hm => he d (by rw [hd, hm])
    simp [hm]

theorem Grounded.concat (hh : Grounded h)
    (hp : ∀ x, e.published? = some x → x.1 < (bindings h).length)
    (hd : ∀ x, e.delivery? = some x → x.1 < (bindings h).length) : Grounded (h ++ [e]) := by
  have hle : (bindings h).length ≤ (bindings (h ++ [e])).length := by
    rw [bindings_concat, List.length_append]
    omega
  constructor
  · intro d hmem x hx
    rcases List.mem_append.1 hmem with hmem | hmem
    · exact Nat.lt_of_lt_of_le (hh.publisher_lt d hmem x hx) hle
    · rw [List.mem_singleton.1 hmem] at hx
      exact Nat.lt_of_lt_of_le (hp x hx) hle
  · intro x hx
    rw [deliveries_concat] at hx
    rcases List.mem_append.1 hx with hx | hx
    · exact Nat.lt_of_lt_of_le (hh.reader_lt x hx) hle
    · exact Nat.lt_of_lt_of_le (hd x (by simpa using hx)) hle

theorem mem_of_mem_since {d : Entry} {h : Record} {n : Nat} (hd : d ∈ since h n) : d ∈ h := by
  induction h generalizing n with
  | nil => cases hd
  | cons e h ih =>
    rw [List.mem_cons]
    cases he : e.opened? with
    | none =>
      simp only [since, he] at hd
      exact .inr (ih hd)
    | some binding =>
      cases n with
      | zero =>
        simp only [since, he] at hd
        exact .inr hd
      | succ n =>
        simp only [since, he] at hd
        exact .inr (ih hd)

/-- The next entry adds its message to what a session has to read, unless an outage has come before.
-/
theorem Grounded.due_concat (hh : Grounded h) {own : Binding} (hown : (bindings h)[n]? = some own)
    (e : Entry) : due (h ++ [e]) n = due h n ++
      if lost h n then [] else (message? (bindings (h ++ [e])) own.exchange e).toList := by
  have hn := (List.getElem?_eq_some_iff.1 hown).1
  have hown' : (bindings (h ++ [e]))[n]? = some own := by
    rw [bindings_concat, List.getElem?_append_left hn, hown]
  -- The messages of before come from the sessions of before.
  have hold : ((since h n).takeWhile fun e => !e.isOutage).filterMap
        (message? (bindings (h ++ [e])) own.exchange) =
      ((since h n).takeWhile fun e => !e.isOutage).filterMap
        (message? (bindings h) own.exchange) := by
    apply List.filterMap_congr
    intro d hd
    exact hh.message?_concat e own.exchange
      (mem_of_mem_since (List.takeWhile_prefix _ |>.subset hd))
  unfold due
  simp only [hown, hown', since_concat hn]
  by_cases hl : lost h n = true
  · rw [if_pos hl, List.append_nil, ← hold]
    congr 1
    unfold lost at hl
    obtain ⟨d, hd, hout⟩ := List.any_eq_true.1 hl
    rw [List.takeWhile_append, if_neg]
    intro heq
    have hall := List.takeWhile_eq_self_iff.1
      ((List.takeWhile_prefix fun e : Entry => !e.isOutage).eq_of_length heq)
    have := hall d hd
    rw [hout] at this
    cases this
  · rw [if_neg hl]
    have hwhole : (since h n).takeWhile (fun e => !e.isOutage) = since h n := by
      rw [List.takeWhile_eq_self_iff]
      intro d hd
      unfold lost at hl
      rw [Bool.not_eq_true, List.any_eq_false] at hl
      simpa using hl d hd
    rw [hwhole] at hold ⊢
    rw [List.takeWhile_append, if_pos (by rw [hwhole]), List.filterMap_append, hold]
    congr 1
    -- An outage is no message.
    cases hout : e.isOutage with
    | false =>
      cases hm : message? (bindings (h ++ [e])) own.exchange e <;> simp [hout, hm]
    | true =>
      have hrequest : e.request = .setReachable false := by simpa [Entry.isOutage] using hout
      have hnone : e.published? = none := by
        obtain ⟨request, reply⟩ := e
        cases hrequest
        rfl
      simp [hout, message?_of_unpublished hnone]

theorem Grounded.taken_of_le (hh : Grounded h) (hn : (bindings h).length ≤ n) : taken h n = [] := by
  unfold taken
  rw [List.map_eq_nil_iff, List.filter_eq_nil_iff]
  intro x hx hxn
  have := hh.reader_lt x hx
  have : x.1 = n := by simpa using hxn
  omega

end Concat

end Record

end EvictionBus.Broker

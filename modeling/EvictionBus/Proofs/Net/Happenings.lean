import EvictionBus.Net.Steps
import EvictionBus.Proofs.Net.Turns

/-!
# Happenings

One thing after another happens in a world, in any order: calls are made on nodes, get their turn
and go on; links take in what has come, and fail; streams and datagrams arrive; and everything else
on the machine is as it likes. What a world does in a step is a list of such happenings.
-/

namespace EvictionBus.Net

/-- What can happen to the nodes of a world. -/
inductive Happening where
  /-- A call on a node, which is known by its number. -/
  | call (i number : Nat) (request : Request)
  /-- The next call on a node gets its turn. -/
  | turn (i : Nat)
  /-- The call whose turn it is goes on. -/
  | proceed (i : Nat)
  /-- A link takes in what has come, a member of a mesh on one of its streams. -/
  | takeIn (i place : Nat)
  /-- The socket that a link lives by fails. -/
  | failLink (i : Nat)
  /-- A stream from another member of a mesh fails. -/
  | failInflow (i place : Nat)
  /-- A member of a mesh is dialled from outside. -/
  | dial (i : Nat)
  | datagram (d : Datagram)
  /-- Everything but the nodes is as in another world. -/
  | elsewhere (v : World)

namespace World

/-- Lets a call return without another trace. -/
def answer (w : World) (call : Nat) (result : Except TransportError Unit) : World :=
  { w with returned := w.returned ++ [(call, result)] }

/-- The nodes of a world in the surroundings of another. No number of a connection is used twice. -/
def surroundedBy (w v : World) : World :=
  { v with
    nodes := w.nodes
    returned := w.returned
    lastConnection := max w.lastConnection v.lastConnection }

/-- What a link does with what has come, or `none` if nothing has. -/
def moveInlet (w : World) (i : Nat) (n : Node) (place : Nat) : Option World :=
  match n.life.link with
  | none => none
  | some (.multicast _) => none
  | some (.mesh _ inflows) => inflows[place]?.bind (w.moveInflow i n)
  | some (.relay connection reader) => w.moveRelayLink i n connection reader
  | some (.broker link) => w.moveSupervisor i n link

def failInflow (w : World) (i : Nat) (n : Node) (place : Nat) : World :=
  match n.life.link with
  | some (.mesh _ inflows) =>
    match inflows[place]? with
    | some inflow => w.dropInflow i inflow.connection
    | none => w
  | _ => w

/-- A node makes a move, if it can. -/
def onNode (w : World) (i : Nat) (move : Node → Option World) : World :=
  (w.nodes[i]?.bind move).getD w

/-- Something happens; it leaves the world as it is if there is nothing to do. -/
def after (w : World) : Happening → World
  | .call i number request => w.call i number request
  | .turn i => w.onNode i (w.moveQueue i)
  | .proceed i => w.onNode i (w.moveCall i)
  | .takeIn i place => w.onNode i fun n => w.moveInlet i n place
  | .failLink i => w.onNode i fun n => some (w.failLink i n)
  | .failInflow i place => w.onNode i fun n => some (w.failInflow i n place)
  | .dial i => w.onNode i fun n =>
    (nodeAddress? n).map fun _ => w.newStream.2.accept w.newStream.1 (.node i)
  | .datagram d => w.castDatagram d.port d.bytes
  | .elsewhere v => w.surroundedBy v

def run (w : World) (hs : List Happening) : World :=
  hs.foldl after w

@[simp] theorem run_nil (w : World) : w.run [] = w := rfl

theorem run_cons (w : World) (h : Happening) (hs : List Happening) :
    w.run (h :: hs) = (w.after h).run hs := rfl

theorem run_append (w : World) (hs more : List Happening) :
    w.run (hs ++ more) = (w.run hs).run more :=
  List.foldl_append

end World

/-! ## Calls -/

/-- The calls on a node among what has happened. -/
def callsOn (i : Nat) (hs : List Happening) : List (Nat × Request) :=
  hs.filterMap fun
    | .call j number request => if j = i then some (number, request) else none
    | _ => none

/-- The numbers of all calls. -/
def callNumbers (hs : List Happening) : List Nat :=
  hs.filterMap fun
    | .call _ number _ => some number
    | _ => none

theorem mem_fst {α β : Type} {a : α} {b : β} {l : List (α × β)} (h : (a, b) ∈ l) :
    a ∈ l.map Prod.fst :=
  List.mem_map_of_mem (f := Prod.fst) h

theorem callsOn_append (i : Nat) (hs more : List Happening) :
    callsOn i (hs ++ more) = callsOn i hs ++ callsOn i more :=
  List.filterMap_append

theorem callNumbers_append (hs more : List Happening) :
    callNumbers (hs ++ more) = callNumbers hs ++ callNumbers more :=
  List.filterMap_append

theorem map_fst_callsOn_sublist (i : Nat) (hs : List Happening) :
    ((callsOn i hs).map Prod.fst).Sublist (callNumbers hs) := by
  induction hs with
  | nil => exact .slnil
  | cons h hs ih =>
    cases h with
    | call j number request =>
      by_cases hj : j = i
      · subst hj
        simpa [callsOn, callNumbers] using ih
      · have := List.Sublist.cons number ih
        simpa [callsOn, callNumbers, hj] using this
    | _ => exact ih

variable {i number : Nat} {request : Request} {hs : List Happening}

theorem callsOn_call (i : Nat) (hs : List Happening) (number : Nat) (request : Request) :
    callsOn i (hs ++ [.call i number request]) = callsOn i hs ++ [(number, request)] := by
  rw [callsOn_append]
  simp [callsOn]

theorem callsOn_call_of_ne {j : Nat} (hj : i ≠ j) (hs : List Happening) (number : Nat)
    (request : Request) : callsOn j (hs ++ [.call i number request]) = callsOn j hs := by
  rw [callsOn_append]
  simp [callsOn, hj]

theorem callNumbers_call (hs : List Happening) (i number : Nat) (request : Request) :
    callNumbers (hs ++ [.call i number request]) = callNumbers hs ++ [number] := by
  rw [callNumbers_append]
  rfl

theorem not_mem_callNumbers (h : (callNumbers (hs ++ [.call i number request])).Nodup) :
    number ∉ callNumbers hs := by
  rw [callNumbers_call, List.nodup_append] at h
  exact fun hmem => h.2.2 number hmem number (List.mem_singleton_self number) rfl

theorem map_fst_callsOn_nodup (h : (callNumbers hs).Nodup) (i : Nat) :
    ((callsOn i hs).map Prod.fst).Nodup :=
  h.sublist (map_fst_callsOn_sublist i hs)

/-- A call is on one node only. -/
theorem not_mem_callsOn_of_ne (h : (callNumbers hs).Nodup) {j : Nat} (hj : i ≠ j)
    (hnumber : number ∈ (callsOn i hs).map Prod.fst) :
    number ∉ (callsOn j hs).map Prod.fst := by
  induction hs with
  | nil => exact List.not_mem_nil
  | cons e hs ih =>
    cases e with
    | call k m request =>
      have hcons : callNumbers (.call k m request :: hs) = m :: callNumbers hs := rfl
      rw [hcons, List.nodup_cons] at h
      have hout : ∀ l, m ∉ (callsOn l hs).map Prod.fst :=
        fun l hl => h.1 ((map_fst_callsOn_sublist l hs).subset hl)
      have hcalls : ∀ l, callsOn l (.call k m request :: hs) =
          if k = l then (m, request) :: callsOn l hs else callsOn l hs := by
        intro l
        by_cases hk : k = l <;> simp [callsOn, hk]
      rw [hcalls] at hnumber ⊢
      by_cases hki : k = i
      · have hkj : k ≠ j := hki ▸ hj
        rw [if_pos hki, List.map_cons, List.mem_cons] at hnumber
        rw [if_neg hkj]
        rcases hnumber with rfl | hnumber
        · exact hout j
        · exact ih h.2 hnumber
      · rw [if_neg hki] at hnumber
        by_cases hkj : k = j
        · rw [if_pos hkj, List.map_cons, List.mem_cons]
          rintro (rfl | hmem)
          · exact hout i hnumber
          · exact ih h.2 hnumber hmem
        · rw [if_neg hkj]
          exact ih h.2 hnumber
    | _ => exact ih h hnumber

end EvictionBus.Net

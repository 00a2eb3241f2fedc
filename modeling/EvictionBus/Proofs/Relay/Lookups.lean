import EvictionBus.Proofs.Relay.Queues

/-!
# Readers and whom they look up

What a reader has in hand between its steps: an eviction of which it has not looked up whom it is
for, or one that it offers to one peer after the other, or a greeting without an answer.  A step of
the tasks is one of a few turns for each reader.
-/

namespace EvictionBus.Relay

/-- A reader has looked up the peers that an eviction is for. -/
structure Lookup where
  sender : Nat
  frame : RawFrame
  keys : List Nat

/-! ## What a reader has in hand -/

namespace Work

/-- The eviction of which the reader has not looked up whom it is for. -/
def unaddressed : Option Work → List RawFrame
  | some (.counted f _) | some (.numbered f _ _) | some (.identified f _ _ _)
  | some (.reported f _) => [f]
  | _ => []

/-- The bytes of an eviction, and the peers that it is still to be offered to. -/
def outstanding : Option Work → Bytes × List Nat
  | some (.addressed f _ keys) => (f.bytes, keys)
  | some (.offering bytes keys) | some (.dropping _ _ bytes keys) => (bytes, keys)
  | _ => ([], [])

/-- The peer that has refused an eviction and is still to be taken out of the table. -/
def refusedBy? : Option Work → Option Nat
  | some (.dropping j (.remove _) _ _) => some j
  | _ => none

/-- What is still to be offered to a peer. -/
def pending (key : Nat) (w : Option Work) : List Bytes :=
  if key ∈ (outstanding w).2 then [(outstanding w).1] else []

/-- Whether `n` greetings of the peer can be without an answer. -/
def Owes (n : Nat) : Option Work → Prop
  | some (.named _) | some .greeted | some .answering => n = 1
  -- The peer is dropped for its greeting, or for something else.
  | some (.ending _) | some .returned => n ≤ 1
  | _ => n = 0

/-- The peers that the reader looks up in its next step. -/
def lookups (s : State) (sender : Nat) : Work → List Lookup
  | .reported f _ => [⟨sender, f, s.peers.recipients sender⟩]
  | _ => []

theorem sender_lookups {s : State} {sender : Nat} {w : Work} {l : Lookup}
    (hl : l ∈ w.lookups s sender) : l.sender = sender := by
  unfold lookups at hl
  split at hl
  · rw [List.mem_singleton.1 hl]
  · cases hl

theorem source_puts {s : State} {sender key : Nat} {w : Work} {o : Offer}
    (ho : o ∈ w.puts s sender key) : o.source = sender := by
  unfold puts at ho
  split at ho
  · split at ho
    · rw [List.mem_singleton.1 ho]
    · cases ho
  · split at ho
    · rw [List.mem_singleton.1 ho]
    · cases ho
  · cases ho

end Work

namespace Tasks

variable {t : Tasks} {taken missed sender key : Nat} {x : Step} {w : Option Work}

/-- The peers that are looked up at a step. -/
def lookupsAt (t : Tasks) : Step → List Lookup
  | .proceed sender => (t.works.get? sender).elim [] (Work.lookups t.relay sender)
  | _ => []

theorem lookupsAt_proceed {v : Work} (h : t.works.get? sender = some v) :
    t.lookupsAt (.proceed sender) = v.lookups t.relay sender := by
  show (t.works.get? sender).elim [] _ = _
  rw [h]
  rfl

theorem acceptedAt_proceed {v : Work} (h : t.works.get? sender = some v) :
    t.acceptedAt key (.proceed sender) = v.puts t.relay sender key := by
  show (t.works.get? sender).elim [] _ = _
  rw [h]
  rfl

/-! ## The turns of one reader -/

/-- What a step is for the reader of one connection, and the point that it comes to. -/
inductive Turn (t : Tasks) (sender : Nat) : Step → Option Work → Prop where
  | other {x : Step} (started : ∀ e ∈ t.startedAt x, e.1 ≠ sender)
    (looked : ∀ l ∈ t.lookupsAt x, l.sender ≠ sender)
    (accepted : ∀ key, ∀ o ∈ t.acceptedAt key x, o.source ≠ sender) :
    Turn t sender x (t.works.get? sender)
  | read (frame : RawFrame) (can : t.canRead sender = true) :
    Turn t sender (.read sender frame) (some (Work.take t.relay sender frame).2)
  | giveUp (reason : Disconnect) (waits : t.waits sender = true) :
    Turn t sender (.giveUp sender reason) (some (.ending (.remove reason)))
  | proceed {w : Work} (working : t.works.get? sender = some w) :
    Turn t sender (.proceed sender) (w.proceed t.relay sender).2

theorem get?_put_of_ne (t : Tasks) {j : Nat} (hj : sender ≠ j) (outcome : State × Option Work) :
    (t.put j outcome).works.get? sender = t.works.get? sender := by
  obtain ⟨s, _ | w⟩ := outcome
  · exact (KeyTable.get?_erase ..).trans (if_neg hj)
  · exact (KeyTable.get?_insert ..).trans (if_neg hj)

theorem get?_of_waits (h : t.waits sender = true) : t.works.get? sender = none := by
  unfold waits at h
  rw [Bool.and_eq_true] at h
  exact Option.isNone_iff_eq_none.1 h.2

/-- A step with which no reader has anything to do. -/
theorem turn_of_same (hworks : (t.step x).works = t.works) (hstarted : t.startedAt x = [])
    (hlooked : t.lookupsAt x = []) (haccepted : ∀ key, t.acceptedAt key x = []) :
    t.Turn sender x ((t.step x).works.get? sender) := by
  rw [hworks]
  refine .other (fun e he => ?_) (fun l hl => ?_) fun key o ho => ?_
  · rw [hstarted] at he
    cases he
  · rw [hlooked] at hl
    cases hl
  · rw [haccepted] at ho
    cases ho

theorem turn_read (t : Tasks) (sender j : Nat) (frame : RawFrame) :
    t.Turn sender (.read j frame) ((t.read j frame).works.get? sender) := by
  have hstarted : ∀ e ∈ t.startedAt (.read j frame), e.1 = j := by
    intro e he
    change e ∈ (if t.canRead j then [(j, frame)] else []) at he
    split at he
    · rw [List.mem_singleton.1 he]
    · cases he
  unfold read
  split
  next hcan =>
    by_cases hj : sender = j
    · subst hj
      rw [get?_put]
      exact .read frame hcan
    · rw [get?_put_of_ne t hj]
      exact .other (fun e he h => hj (h.symm.trans (hstarted e he))) nofun nofun
  next hcan =>
    refine .other (fun e he => ?_) nofun nofun
    change e ∈ (if t.canRead j then [(j, frame)] else []) at he
    rw [if_neg hcan] at he
    cases he

theorem turn_giveUp (t : Tasks) (sender j : Nat) (reason : Disconnect) :
    t.Turn sender (.giveUp j reason) ((t.giveUp j reason).works.get? sender) := by
  unfold giveUp
  split
  next hwaits =>
    by_cases hj : sender = j
    · subst hj
      rw [get?_put]
      exact .giveUp reason hwaits
    · rw [get?_put_of_ne t hj]
      exact .other nofun nofun nofun
  next => exact .other nofun nofun nofun

theorem turn_proceed (t : Tasks) (sender j : Nat) :
    t.Turn sender (.proceed j) ((t.proceed j).works.get? sender) := by
  cases hw : t.works.get? j with
  | none =>
    unfold proceed
    rw [hw]
    refine .other nofun (fun l hl => ?_) fun key o ho => ?_
    · change l ∈ (t.works.get? j).elim [] _ at hl
      rw [hw] at hl
      cases hl
    · change o ∈ (t.works.get? j).elim [] _ at ho
      rw [hw] at ho
      cases ho
  | some w =>
    rw [proceed_of_get? hw]
    by_cases hj : sender = j
    · subst hj
      rw [get?_put]
      exact .proceed hw
    · rw [get?_put_of_ne t hj]
      refine .other nofun (fun l hl => ?_) fun key o ho => ?_
      · rw [lookupsAt_proceed hw] at hl
        exact fun h => hj (h.symm.trans (Work.sender_lookups hl))
      · rw [acceptedAt_proceed hw] at ho
        exact fun h => hj (h.symm.trans (Work.source_puts ho))

theorem turn_step (t : Tasks) (sender : Nat) (x : Step) :
    t.Turn sender x ((t.step x).works.get? sender) := by
  cases x with
  | read j frame => exact turn_read t sender j frame
  | giveUp j reason => exact turn_giveUp t sender j reason
  | proceed j => exact turn_proceed t sender j
  | accept address =>
    refine turn_of_same ?_ rfl rfl fun _ => rfl
    show (t.accept address).works = t.works
    unfold accept
    split <;> rfl
  | leave =>
    refine turn_of_same ?_ rfl rfl fun _ => rfl
    show t.leave.works = t.works
    unfold leave
    split
    · split <;> rfl
    · rfl
  | failWriting j e =>
    refine turn_of_same ?_ rfl rfl fun _ => rfl
    show (t.failWriting j e).works = t.works
    unfold failWriting
    split <;> rfl
  | settle j =>
    refine turn_of_same ?_ rfl rfl fun _ => rfl
    show (t.settle j).works = t.works
    unfold settle
    split <;> rfl
  | tell j =>
    refine turn_of_same ?_ rfl rfl fun _ => rfl
    show (t.tell j).works = t.works
    unfold tell
    split <;> rfl
  | request =>
    refine turn_of_same ?_ rfl rfl fun _ => rfl
    show t.request.works = t.works
    unfold request
    split <;> rfl
  | _ => exact turn_of_same rfl rfl rfl fun _ => rfl

end Tasks

end EvictionBus.Relay

import EvictionBus.Proofs.Relay.Tasks
import EvictionBus.Proofs.Relay.Unheard

/-!
# What tasks do beside a quiet connection

A task is at the same point of its work in a relay with one connection more and in the relay without
it, but for the keys.  What it does next is then the same in both, unless it is for that connection:
then it concerns nobody else, as does all that the connection asks for while it sends no eviction.
-/

namespace EvictionBus.Relay

open State

variable {c i : Nat} {js jt : List Event} {s s' : State}

theorem renumber_skip (c i : Nat) : renumber c (skip c i) = i := by
  unfold skip
  by_cases hi : i < c
  · rw [if_pos hi, renumber, if_pos hi]
  · rw [if_neg hi, renumber, if_neg (by omega)]
    rfl

/-- The keys of the others, in the relay without connection `c`. -/
def keysWithout (c : Nat) (keys : List Nat) : List Nat :=
  (keys.filter (· ≠ c)).map (renumber c)

theorem eq_keysWithout {left keys : List Nat} (h : left.map (skip c) = keys.filter (· ≠ c)) :
    left = keysWithout c keys := by
  unfold keysWithout
  rw [← h, List.map_map, show renumber c ∘ skip c = id from funext (renumber_skip c), List.map_id]

theorem keysWithout_cons_self (c : Nat) (keys : List Nat) :
    keysWithout c (c :: keys) = keysWithout c keys := by
  unfold keysWithout
  rw [List.filter_cons_of_neg (by simp)]

theorem keysWithout_cons {key : Nat} (hkey : key ≠ c) (keys : List Nat) :
    keysWithout c (key :: keys) = renumber c key :: keysWithout c keys := by
  unfold keysWithout
  rw [List.filter_cons_of_pos (by simpa using hkey), List.map_cons]

theorem State.Beside.keys_eq (h : State.Beside c s s') :
    s'.peers.keys = keysWithout c s.peers.keys :=
  eq_keysWithout (keys_of_skip h.peer_eq)

theorem sameLabel_getD (c i : Nat) (nickname : Option String) :
    SameLabel c (nickname.getD (keyText (skip c i))) (nickname.getD (keyText i)) := by
  cases nickname with
  | none => exact .key i
  | some name => exact .same name

/-! ## Coming -/

theorem State.Beside.nextKey (h : State.Beside c s s') (hown : s.lastKey + 1 = c) :
    State.Beside c s.nextKey.2 s' := by
  subst hown
  refine ⟨h.config_eq, h.identity_eq, ?_, h.broadcasts_eq, h.stopping_eq, h.peer_eq,
    h.connection_eq⟩
  show s'.lastKey = if s.lastKey + 1 ≤ s.lastKey + 1 then s.lastKey + 1 - 1 else _
  rw [h.lastKey_eq, if_neg (by omega), if_pos (Nat.le_refl _)]
  rfl

theorem State.Mirrors.nextKey (h : State.Mirrors c js jt s s') (hc : 0 < c)
    (hother : s.lastKey + 1 ≠ c) :
    skip c s'.nextKey.1 = s.nextKey.1 ∧ State.Mirrors c js jt s.nextKey.2 s'.nextKey.2 := by
  refine ⟨h.skip_next hc hother, h.of_beside ⟨h.config_eq, h.identity_eq, ?_, h.broadcasts_eq,
    h.stopping_eq, h.peer_eq, h.connection_eq⟩ rfl rfl⟩
  show s'.lastKey + 1 = if c ≤ s.lastKey + 1 then s.lastKey + 1 - 1 else s.lastKey + 1
  rw [h.lastKey_eq]
  by_cases hle : c ≤ s.lastKey
  · rw [if_pos hle, if_pos (by omega)]
    omega
  · rw [if_neg hle, if_neg (by omega)]

theorem State.Mirrors.insertPeer (h : State.Mirrors c js jt s s') (i : Nat) (address : String) :
    State.Mirrors c js jt (s.insertPeer (skip c i) address) (s'.insertPeer i address) := by
  refine h.of_beside ⟨h.config_eq, h.identity_eq, h.lastKey_eq, h.broadcasts_eq, h.stopping_eq,
    fun j => ?_, fun j => ?_⟩ rfl rfl
  · simp only [State.insertPeer, KeyTable.get?_insert, skip_inj, h.peer_eq]
  · simp only [State.insertPeer, KeyTable.get?_insert, skip_inj, h.connection_eq, h.config_eq,
      h.stopping_eq]

theorem State.apart_insertPeer {P : Event → Prop} (s : State) (c : Nat) (address : String) :
    State.Apart P c s (s.insertPeer c address) := by
  refine .trans (.of_peers (s.peers.insert c (.ofAddress address)) fun j hj => ?_) (.insert _)
  rw [KeyTable.get?_insert, if_neg hj]

/-! ## Dropping a peer -/

namespace Dropping

/-- The same in the relay without connection `c`. -/
def without (c : Nat) : Dropping → Dropping
  | .report p reason left => .report p reason (keysWithout c left)
  | d => d

theorem mirrors_proceed (h : State.Mirrors c js jt s s') (i : Nat) (d : Dropping) :
    State.Mirrors c js jt (d.proceed s (skip c i)).1 ((d.without c).proceed s' i).1 ∧
      ((d.without c).proceed s' i).2 = (d.proceed s (skip c i)).2.map (without c) := by
  cases d with
  | remove reason =>
    show State.Mirrors c js jt _ ((remove reason).proceed s' i).1 ∧
      ((remove reason).proceed s' i).2 = _
    cases hp : s.peers.get? (skip c i) with
    | none =>
      rw [proceed_of_get?_eq_none hp, proceed_of_get?_eq_none (by rw [h.peer_eq, hp])]
      exact ⟨h, rfl⟩
    | some p =>
      rw [proceed_of_get? hp, proceed_of_get? (by rw [h.peer_eq, hp])]
      exact ⟨h.erasePeer i, rfl⟩
  | cancel p reason => exact ⟨h.modify i _, rfl⟩
  | count p reason => exact ⟨h, congrArg (fun left => some (report p reason left)) h.keys_eq⟩
  | report p reason left => exact ⟨h.note (.disconnected ..), rfl⟩

/-- To drop connection `c` concerns nobody else. -/
theorem apart_proceed (s : State) (c : Nat) (d : Dropping) :
    State.Apart (fun e => e.isOf c = true) c s (d.proceed s c).1 := by
  cases d with
  | remove reason =>
    cases hp : s.peers.get? c with
    | none =>
      rw [proceed_of_get?_eq_none hp]
      exact .refl _ c s
    | some p =>
      rw [proceed_of_get? hp]
      refine .of_peers _ fun j hj => ?_
      rw [KeyTable.get?_erase, if_neg hj]
  | cancel p reason => exact .modify _
  | count p reason => exact .refl _ c s
  | report p reason left => exact .note (decide_eq_true rfl)

end Dropping

/-! ## Work -/

namespace Work

/-- The same work in the relay without connection `c`. -/
def without (c : Nat) : Work → Work
  | .addressed f sequence keys => .addressed f sequence (keysWithout c keys)
  | .offering bytes keys => .offering bytes (keysWithout c keys)
  | .dropping j d bytes keys =>
    if j = c then .offering bytes (keysWithout c keys)
    else .dropping (renumber c j) (d.without c) bytes (keysWithout c keys)
  | .ending d => .ending (d.without c)
  | w => w

/-- It is about something that nobody else gets to see. -/
def isTalk : Work → Bool
  | .ignored .. | .named _ | .greeted | .answering | .ending _ | .returned => true
  | _ => false

/-- The next step is to offer something to this peer, or to drop it. -/
def isFor (c : Nat) : Work → Bool
  | .offering _ (key :: _) | .dropping key .. => key = c
  | _ => false

theorem without_whileDropping {j : Nat} (hj : j ≠ c) (bytes : Bytes) (keys : List Nat)
    (left : Option Dropping) :
    (whileDropping j bytes keys left).without c =
      whileDropping (renumber c j) bytes (keysWithout c keys) (left.map (Dropping.without c)) := by
  cases left with
  | none => rfl
  | some d => exact if_neg hj

theorem without_whileDropping_self (c : Nat) (bytes : Bytes) (keys : List Nat)
    (left : Option Dropping) :
    (whileDropping c bytes keys left).without c = .offering bytes (keysWithout c keys) := by
  cases left with
  | none => rfl
  | some d => exact if_pos rfl

theorem without_whileEnding (c : Nat) (left : Option Dropping) :
    (whileEnding left).without c = whileEnding (left.map (Dropping.without c)) := by
  cases left <;> rfl

theorem isTalk_whileEnding (left : Option Dropping) : (whileEnding left).isTalk = true := by
  cases left <;> rfl

/-- What comes of two relays at the same point of their work. -/
structure Mirrors (c : Nat) (js jt : List Event) (o o' : State × Option Work) : Prop where
  relay : State.Mirrors c js jt o.1 o'.1
  work_eq : o'.2 = o.2.map (without c)

theorem mirrors_take (h : State.Mirrors c js jt s s') (i : Nat) (f : RawFrame) :
    Mirrors c js jt ((take s (skip c i) f).map id some) ((take s' i f).map id some) := by
  have hignored : ∀ op length, Mirrors c js jt
      (s, some (.ignored op length (s.peers.nickname? (skip c i))))
      (s', some (.ignored op length (s'.peers.nickname? i))) := fun op length =>
    ⟨h, congrArg (fun name => some (ignored op length name)) (h.nickname?_eq i)⟩
  unfold take
  cases f.header.op with
  | evict =>
    simp only
    split
    · have hcounted := h.modifyPeer i fun p => { p with evictions := p.evictions + 1 }
      have hevictions := hcounted.evictions?_eq i
      refine ⟨hcounted, ?_⟩
      unfold PeerTable.recordEviction
      simp only [Prod.map]
      rw [hevictions]
      rfl
    · exact hignored _ _
  | hello =>
    have hnamed := h.modifyPeer i fun p =>
      { p with nickname := s!"{String.ofList (Text.Utf8.decodeLossy f.payload)} ({p.address})" }
    have hname := hnamed.nickname?_eq i
    refine ⟨hnamed, ?_⟩
    unfold PeerTable.setNickname
    simp only [Prod.map]
    rw [hname]
    rfl
  | welcome => exact hignored _ _
  | other code => exact hignored _ _

theorem mirrors_offer (h : State.Mirrors c js jt s s') (i : Nat) (bytes : Bytes)
    (keys : List Nat) :
    Mirrors c js jt ((offer s bytes (skip c i) keys).map id some)
      ((offer s' bytes i (keysWithout c keys)).map id some) := by
  unfold offer
  rcases h.enqueue i bytes with ⟨t, t', ht, ht', h'⟩ | ⟨reason, ht, ht'⟩
  · rw [ht, ht']
    exact ⟨h', rfl⟩
  · rw [ht, ht']
    refine ⟨h, ?_⟩
    show some (dropping i _ bytes _) = some (if skip c i = c then _ else _)
    rw [if_neg (skip_ne c i), renumber_skip]
    rfl

theorem mirrors_answer (h : State.Mirrors c js jt s s') (i : Nat) :
    Mirrors c js jt (answer s (skip c i)) (answer s' i) := by
  unfold answer
  rw [h.welcome_eq]
  rcases h.enqueue i s.welcome with ⟨t, t', ht, ht', h'⟩ | ⟨reason, ht, ht'⟩
  · rw [ht, ht']
    exact ⟨h', rfl⟩
  · rw [ht, ht']
    exact ⟨h, rfl⟩

theorem mirrors_proceed (h : State.Mirrors c js jt s s') (i : Nat) {w : Work}
    (hw : w.isFor c = false) :
    Mirrors c js jt (w.proceed s (skip c i)) ((w.without c).proceed s' i) := by
  cases w with
  | counted f evictions =>
    obtain ⟨hsequence, hnumbered⟩ := h.nextSequence
    exact ⟨hnumbered, congrArg (fun n => some (numbered f evictions n)) hsequence⟩
  | numbered f evictions sequence =>
    exact ⟨h, congrArg (fun name => some (identified f evictions sequence name))
      (h.nickname?_eq i)⟩
  | identified f evictions sequence nickname =>
    exact ⟨h.note (.received _ _ _ (sameLabel_getD c i nickname)), rfl⟩
  | reported f sequence =>
    exact ⟨h, congrArg (fun keys => some (addressed f sequence keys))
      (eq_keysWithout (h.recipients_eq i))⟩
  | addressed f sequence keys => exact ⟨h.note (.sending ..), rfl⟩
  | offering bytes keys =>
    cases keys with
    | nil => exact ⟨h, rfl⟩
    | cons key keys =>
      have hkey : key ≠ c := of_decide_eq_false hw
      have hoffered := mirrors_offer h (renumber c key) bytes keys
      rw [skip_renumber hkey] at hoffered
      show Mirrors c js jt _ (proceed s' i (.offering bytes (keysWithout c (key :: keys))))
      rw [keysWithout_cons hkey]
      exact hoffered
  | dropping j d bytes keys =>
    have hj : j ≠ c := of_decide_eq_false hw
    obtain ⟨hdropped, hleft⟩ := Dropping.mirrors_proceed h (renumber c j) d
    rw [skip_renumber hj] at hdropped hleft
    have hwithout : (dropping j d bytes keys).without c =
        .dropping (renumber c j) (d.without c) bytes (keysWithout c keys) := if_neg hj
    rw [hwithout]
    refine ⟨hdropped, Eq.trans ?_ (congrArg some (without_whileDropping hj bytes keys _).symm)⟩
    exact congrArg (fun left =>
      some (whileDropping (renumber c j) bytes (keysWithout c keys) left)) hleft
  | ignored op length nickname => exact ⟨h.note (.ignored _ _ (sameLabel_getD c i nickname)), rfl⟩
  | named nickname => exact ⟨h.note (.hello _), rfl⟩
  | greeted =>
    refine ⟨h, ?_⟩
    show some (if s'.peers.contains i = true then answering else _) = _
    rw [h.contains_eq]
    show some (ite ..) = some (without c (ite ..))
    split <;> rfl
  | answering => exact mirrors_answer h i
  | ending d =>
    obtain ⟨hdropped, hleft⟩ := Dropping.mirrors_proceed h i d
    refine ⟨hdropped, Eq.trans ?_ (congrArg some (without_whileEnding c _).symm)⟩
    exact congrArg (fun left => some (whileEnding left)) hleft
  | returned => exact ⟨h, rfl⟩

/-- What connection `c` asks for concerns nobody else, and neither does what is left to do. -/
structure Apart (c : Nat) (s : State) (o : State × Option Work) : Prop where
  relay : State.Apart (Event.IsOwn c) c s o.1
  talk : ∀ w, o.2 = some w → w.isTalk = true

theorem apart_same {w : Option Work} (hw : ∀ v, w = some v → v.isTalk = true) :
    Apart c s (s, w) :=
  ⟨.refl _ c s, hw⟩

theorem apart_take (s : State) (c : Nat) {f : RawFrame} (hf : f.isEviction = false) :
    Apart c s ((take s c f).map id some) := by
  unfold take
  cases hop : f.header.op with
  | evict =>
    have hempty : ¬ 0 < f.header.length := fun hpos => by
      simp [RawFrame.isEviction, hop, hpos] at hf
    simp only [if_neg hempty]
    exact apart_same fun w hw => by cases hw; rfl
  | hello =>
    refine ⟨.of_peers _ fun j hj => ?_, fun w hw => by cases hw; rfl⟩
    unfold PeerTable.setNickname
    rw [KeyTable.get?_modify, if_neg hj]
  | welcome => exact apart_same fun w hw => by cases hw; rfl
  | other code => exact apart_same fun w hw => by cases hw; rfl

theorem apart_proceed (s : State) (c : Nat) {w : Work} (hw : w.isTalk = true) :
    Apart c s (w.proceed s c) := by
  cases w with
  | ignored op length nickname => exact ⟨.note (.inr rfl), fun w hw => by cases hw⟩
  | named nickname => exact ⟨.note (.inr rfl), fun w hw => by cases hw; rfl⟩
  | greeted =>
    refine apart_same fun w hw => ?_
    cases hw
    split <;> rfl
  | answering =>
    show Apart c s (answer s c)
    unfold answer
    cases h : s.enqueue c s.welcome with
    | ok t => exact ⟨apart_enqueue h, fun w hw => by cases hw⟩
    | error reason => exact apart_same fun w hw => by cases hw; rfl
  | ending d =>
    refine ⟨(Dropping.apart_proceed s c d).mono fun _ he => .inl he, fun w hw => ?_⟩
    cases hw
    exact isTalk_whileEnding _
  | returned => exact apart_same fun w hw => by cases hw; rfl
  | _ => cases hw

/-- To offer an eviction to connection `c`, or to drop it for that, concerns nobody else, and the
work goes on as if the connection were not there. -/
theorem apart_for (s : State) (key : Nat) {w : Work} (hw : w.isFor c = true) :
    State.Apart (Event.IsOwn c) c s (w.proceed s key).1 ∧
      (w.proceed s key).2.map (without c) = some (w.without c) := by
  cases w with
  | offering bytes keys =>
    cases keys with
    | nil => cases hw
    | cons next keys =>
      cases of_decide_eq_true hw
      show State.Apart _ _ _ (offer s bytes c keys).1 ∧
        some ((offer s bytes c keys).2.without c) =
          some (.offering bytes (keysWithout c (c :: keys)))
      rw [keysWithout_cons_self]
      unfold offer
      cases h : s.enqueue c bytes with
      | ok t => exact ⟨apart_enqueue h, rfl⟩
      | error reason => exact ⟨.refl _ c s, congrArg some (if_pos rfl)⟩
  | dropping j d bytes keys =>
    cases of_decide_eq_true hw
    refine ⟨(Dropping.apart_proceed s c d).mono fun _ he => Or.inl he, ?_⟩
    show some ((whileDropping c bytes keys _).without c) = some (if c = c then _ else _)
    rw [without_whileDropping_self, if_pos rfl]
  | _ => cases hw

end Work

/-! ## The task that accepts connections -/

namespace Serving

/-- What is left to do in the relay without connection `c`. -/
def without (c : Nat) : Serving → Serving
  | .keyed key address => if key = c then .accepting else .keyed (renumber c key) address
  | .inserted key address => if key = c then .accepting else .inserted (renumber c key) address
  | .counted key address peers =>
    if key = c then .accepting else .counted (renumber c key) address (keysWithout c peers)
  | .leaving keys => .leaving (keysWithout c keys)
  | .dropping key d keys =>
    if key = c then .leaving (keysWithout c keys)
    else .dropping (renumber c key) (d.without c) (keysWithout c keys)
  | serving => serving

/-- The next step is about this peer. -/
def isFor (c : Nat) : Serving → Bool
  | .keyed key _ | .inserted key _ | .counted key _ _ | .leaving (key :: _)
  | .dropping key _ _ => key = c
  | _ => false

theorem without_whileDropping {key : Nat} (hkey : key ≠ c) (keys : List Nat)
    (left : Option Dropping) :
    (whileDropping key keys left).without c =
      whileDropping (renumber c key) (keysWithout c keys) (left.map (Dropping.without c)) := by
  cases left with
  | none => rfl
  | some d => exact if_neg hkey

theorem without_whileDropping_self (c : Nat) (keys : List Nat) (left : Option Dropping) :
    (whileDropping c keys left).without c = .leaving (keysWithout c keys) := by
  cases left with
  | none => rfl
  | some d => exact if_pos rfl

theorem hasStarted_without (c i : Nat) (serving : Serving) :
    (serving.without c).hasStarted i = serving.hasStarted (skip c i) := by
  have hrenumber : ∀ key, key ≠ c → decide (i ≠ renumber c key) = decide (skip c i ≠ key) := by
    intro key hkey
    refine decide_eq_decide.2 (not_congr ?_)
    rw [← skip_inj (c := c), skip_renumber hkey]
  cases serving with
  | inserted key address =>
    by_cases hkey : key = c
    · subst hkey
      simp [without, hasStarted, skip_ne]
    · have hwithout : (inserted key address).without c = .inserted (renumber c key) address :=
        if_neg hkey
      rw [hwithout]
      exact hrenumber key hkey
  | counted key address peers =>
    by_cases hkey : key = c
    · subst hkey
      simp [without, hasStarted, skip_ne]
    · have hwithout : (counted key address peers).without c =
          .counted (renumber c key) address (keysWithout c peers) := if_neg hkey
      rw [hwithout]
      exact hrenumber key hkey
  | keyed key address => by_cases hkey : key = c <;> simp [without, hasStarted, hkey]
  | dropping key d keys => by_cases hkey : key = c <;> simp [without, hasStarted, hkey]
  | _ => rfl

/-- The task waits for a connection in both relays, or in none. -/
theorem without_eq_accepting {serving : Serving} (hs : serving.isFor c = false) :
    serving.without c = .accepting ↔ serving = .accepting := by
  cases serving with
  | keyed key address => simp [without, of_decide_eq_false hs]
  | inserted key address => simp [without, of_decide_eq_false hs]
  | counted key address peers => simp [without, of_decide_eq_false hs]
  | dropping key d keys => simp [without, of_decide_eq_false hs]
  | leaving keys => simp [without]
  | _ => rfl

theorem mirrors_proceed (h : State.Mirrors c js jt s s') {serving : Serving}
    (hs : serving.isFor c = false) :
    State.Mirrors c js jt (serving.proceed s).1 ((serving.without c).proceed s').1 ∧
      ((serving.without c).proceed s').2 = (serving.proceed s).2.without c := by
  cases serving with
  | keyed key address =>
    have hkey : key ≠ c := of_decide_eq_false hs
    have hwithout : (keyed key address).without c = .keyed (renumber c key) address := if_neg hkey
    have hinserted := h.insertPeer (renumber c key) address
    rw [skip_renumber hkey] at hinserted
    rw [hwithout]
    exact ⟨hinserted, (if_neg hkey).symm⟩
  | inserted key address =>
    have hkey : key ≠ c := of_decide_eq_false hs
    have hwithout : (inserted key address).without c = .inserted (renumber c key) address :=
      if_neg hkey
    rw [hwithout]
    refine ⟨h, ?_⟩
    show counted (renumber c key) address s'.peers.keys = if key = c then _ else _
    rw [h.keys_eq, if_neg hkey]
  | counted key address peers =>
    have hkey : key ≠ c := of_decide_eq_false hs
    have hwithout : (counted key address peers).without c =
        .counted (renumber c key) address (keysWithout c peers) := if_neg hkey
    have hsame : Event.Same c (.accepted key address peers.length)
        (.accepted (renumber c key) address (keysWithout c peers).length) := by
      have hskip := Event.Same.accepted (c := c) (renumber c key) address peers.length
        (keysWithout c peers).length
      rwa [skip_renumber hkey] at hskip
    rw [hwithout]
    exact ⟨h.note hsame, rfl⟩
  | notified => exact ⟨h, congrArg leaving h.keys_eq⟩
  | leaving keys =>
    cases keys with
    | nil => exact ⟨h, congrArg totalled h.broadcasts_eq⟩
    | cons key keys =>
      have hkey : key ≠ c := of_decide_eq_false hs
      have hwithout : (leaving (key :: keys)).without c =
          .leaving (renumber c key :: keysWithout c keys) :=
        congrArg leaving (keysWithout_cons hkey keys)
      rw [hwithout]
      exact ⟨h, (if_neg hkey).symm⟩
  | dropping key d keys =>
    have hkey : key ≠ c := of_decide_eq_false hs
    have hwithout : (dropping key d keys).without c =
        .dropping (renumber c key) (d.without c) (keysWithout c keys) := if_neg hkey
    obtain ⟨hdropped, hleft⟩ := Dropping.mirrors_proceed h (renumber c key) d
    rw [skip_renumber hkey] at hdropped hleft
    rw [hwithout]
    refine ⟨hdropped, Eq.trans ?_ (without_whileDropping hkey keys _).symm⟩
    exact congrArg (whileDropping (renumber c key) (keysWithout c keys)) hleft
  | totalled broadcasts => exact ⟨h.note (.stopped _), rfl⟩
  | accepting => exact ⟨h, rfl⟩
  | returned => exact ⟨h, rfl⟩

/-- That connection `c` comes, or is dropped when the relay stops, concerns nobody else. -/
theorem apart_for (s : State) {serving : Serving} (hs : serving.isFor c = true) :
    State.Apart (Event.IsOwn c) c s (serving.proceed s).1 ∧
      (serving.proceed s).2.without c = serving.without c := by
  cases serving with
  | keyed key address =>
    cases of_decide_eq_true hs
    exact ⟨apart_insertPeer s c address, (if_pos rfl).trans (if_pos rfl).symm⟩
  | inserted key address =>
    cases of_decide_eq_true hs
    exact ⟨.refl _ c s, (if_pos rfl).trans (if_pos rfl).symm⟩
  | counted key address peers =>
    cases of_decide_eq_true hs
    exact ⟨.note (.inl (decide_eq_true rfl)), (if_pos rfl).symm⟩
  | leaving keys =>
    cases keys with
    | nil => cases hs
    | cons key keys =>
      cases of_decide_eq_true hs
      refine ⟨.refl _ c s, ?_⟩
      show (if c = c then _ else _) = leaving (keysWithout c (c :: keys))
      rw [if_pos rfl, keysWithout_cons_self]
  | dropping key d keys =>
    cases of_decide_eq_true hs
    refine ⟨(Dropping.apart_proceed s c d).mono fun _ he => Or.inl he, ?_⟩
    show (whileDropping c keys _).without c = if c = c then _ else _
    rw [without_whileDropping_self, if_pos rfl]
  | _ => cases hs

end Serving

end EvictionBus.Relay

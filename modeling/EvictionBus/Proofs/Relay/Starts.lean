import EvictionBus.Proofs.Relay.Drops
import EvictionBus.Proofs.Relay.Origins

/-!
# Starting nodes while nothing fails

While no connection fails and no time limit is reached, a node that is being started keeps its
connection to the relay unless the relay drops it, and the relay drops it only if it refuses a
frame.  So a start fails only because of the relay's answer, or after the relay has hung up.
-/

namespace EvictionBus.Relay

open State Client

variable {ι : Type} {u : Setup ι} {c : Cluster ι}

/-! ## Runs without failures -/

/-- Whether nothing fails when a node does something: a stream ends or fails only after the relay
has hung up. -/
def Action.Smooth (x : Client) : Action → Prop
  | .giveUp e =>
    (∃ io, e = RelayClient.helloFailed io ∨ e = RelayClient.welcomeFailed io) ∧
      ∀ w, x.wire = some w → w.downEnded = true
  | .writeFails => ∀ w, x.wire = some w → w.downEnded = true
  | .readEnds => ∀ w, x.wire = some w → w.downEnded = true ∧ w.down = []
  | .readFails _ => False
  | .reset => False
  | _ => True

/-- Whether nothing fails at a step: nodes can connect, the relay goes on, it stops writing only to
nodes that it has dropped, and it sees the end of a stream only when the node has ended it. -/
def Step.Smooth (u : Setup ι) (c : Cluster ι) : Step ι → Prop
  | .refused .. => False
  | .act i action => action.Smooth (c.client i)
  | .stop i _ => ∀ w, (c.client i).wire = some w → (c.relay u).peers.contains w.key = false
  | .event _ (.ended key) =>
    ∀ i w, (c.client i).wire = some w → w.key = key → w.upEnded = true ∧ w.up = []
  | .event .. => False
  | _ => True

/-- Whether nothing fails at any step. -/
def Cluster.Smooth [DecidableEq ι] (u : Setup ι) (c : Cluster ι) : List (Step ι) → Prop
  | [] => True
  | s :: steps => s.Smooth u c ∧ (c.step u s).Smooth u steps

/-- The names of all nodes are within the limits. -/
def Setup.Fits (u : Setup ι) : Prop :=
  ∀ i, (Text.Utf8.encode (u.member i).config.relayAlias).length ≤
    min (u.member i).codec.limit u.config.maxMessageSize

/-- A name within the limits can be announced, and its greeting is a frame for the relay. -/
theorem Setup.Fits.exists_hello (h : u.Fits) (i : ι) : ∃ frame,
    RelayClient.hello (u.member i).codec (u.member i).config.relayAlias = .ok frame ∧
      WholeFrame u.config.maxMessageSize frame := by
  have hle := Nat.le_min.1 (h i)
  have hmax := Nat.le_trans hle.1 (u.member i).codec.limit_le
  refine ⟨_, ?_, wholeFrame_bytes (u.member i).identity .hello hle.2 hmax⟩
  unfold RelayClient.hello Codec.encode
  rw [Codec.checkLength_eq_ok_iff.2 hle.1]
  change (encodeFrame (u.member i).identity .hello _).mapError TransportError.ofFrame = _
  unfold encodeFrame putHeader
  rw [if_neg (by decide), if_neg (by omega)]
  rfl

/-! ## Steady nodes -/

/-- A peer has been offered a frame that it has not taken. -/
def Cluster.Refuses (u : Setup ι) (c : Cluster ι) (key : Nat) : Prop :=
  ∃ r ∈ c.readings u, r.refuses key = true

/-- What holds of a node while nothing fails: its connection lasts while it is being started, unless
the relay drops it for a frame that it has not taken. -/
structure Client.Steady (u : Setup ι) (c : Cluster ι) (m : Member) (x : Client) : Prop where
  upEnded : ∀ w, x.wire = some w → x.greeting ≠ none → w.upEnded = false
  member : ∀ w, x.wire = some w → x.greeting ≠ none →
    (c.relay u).peers.contains w.key = true ∨ c.Refuses u w.key
  downEnded : ∀ w, x.wire = some w → x.greeting ≠ none → w.downEnded = true →
    (c.relay u).peers.contains w.key = false
  /-- A start that has failed has failed for the relay's answer, or the node has been dropped. -/
  failed : ∀ e, x.outcome = some (.error e) →
    x.heard.length = headerSize ∧ RelayClient.checkWelcome m.codec x.heard = .error e ∨
      (∃ w, x.wire = some w ∧ c.Refuses u w.key) ∧
        ∃ io, e = RelayClient.helloFailed io ∨ e = RelayClient.welcomeFailed io

variable {m : Member} {x y : Client}

theorem steady_fresh (u : Setup ι) (c : Cluster ι) (m : Member) : fresh.Steady u c m := by
  constructor
  · intro w hw
    cases hw
  · intro w hw
    cases hw
  · intro w hw
    cases hw
  · intro e he
    cases he

theorem steady_of_idle (hgreeting : x.greeting = none)
    (houtcome : ∀ e, x.outcome ≠ some (.error e)) : x.Steady u c m where
  upEnded _ _ hg := absurd hgreeting hg
  member _ _ hg := absurd hgreeting hg
  downEnded _ _ hg := absurd hgreeting hg
  failed e he := absurd he (houtcome e)

theorem Client.Steady.of_wire (h : x.Steady u c m)
    (hgreeting : y.greeting ≠ none → x.greeting ≠ none) (houtcome : y.outcome = x.outcome)
    (hheard : ∀ e, x.outcome = some (.error e) → y.heard = x.heard)
    (hkey : y.wire.map Wire.key = x.wire.map Wire.key)
    (hwire : ∀ w, y.wire = some w → y.greeting ≠ none → ∃ v, x.wire = some v ∧ v.key = w.key ∧
      w.upEnded = v.upEnded ∧ w.downEnded = v.downEnded) : y.Steady u c m where
  upEnded w hw hg := by
    obtain ⟨v, hv, -, hup, -⟩ := hwire w hw hg
    rw [hup]
    exact h.upEnded v hv (hgreeting hg)
  member w hw hg := by
    obtain ⟨v, hv, hk, -⟩ := hwire w hw hg
    rw [← hk]
    exact h.member v hv (hgreeting hg)
  downEnded w hw hg he := by
    obtain ⟨v, hv, hk, -, hdown⟩ := hwire w hw hg
    rw [← hk]
    exact h.downEnded v hv (hgreeting hg) (hdown ▸ he)
  failed e he := by
    rw [houtcome] at he
    -- A start that has failed keeps its reason, and the node keeps its key.
    rcases h.failed e he with ⟨hlen, hjudged⟩ | ⟨⟨v, hv, hr⟩, hio⟩
    · rw [hheard e he]
      exact .inl ⟨hlen, hjudged⟩
    · rw [hv] at hkey
      obtain ⟨w, hw, hk⟩ := Option.map_eq_some_iff.1 hkey
      exact .inr ⟨⟨w, hw, by rw [hk]; exact hr⟩, hio⟩

theorem Client.Steady.modifyWire (h : x.Steady u c m) {f : Wire → Wire}
    (hkey : ∀ w, (f w).key = w.key) (hup : ∀ w, (f w).upEnded = w.upEnded)
    (hdown : ∀ w, (f w).downEnded = w.downEnded) : (x.modifyWire f).Steady u c m := by
  refine h.of_wire (fun hg => hg) rfl (fun _ _ => rfl) ?_ fun w hw _ => ?_
  · show (x.wire.map f).map Wire.key = _
    rw [Option.map_map]
    congr 1
    exact funext hkey
  · obtain ⟨v, hv, rfl⟩ := Option.map_eq_some_iff.1 hw
    exact ⟨v, hv, (hkey v).symm, hup v, hdown v⟩

theorem Client.Steady.setWire (h : x.Steady u c m) {v : Wire} (hv : x.wire = some v) (w : Wire)
    (hkey : w.key = v.key) (hup : w.upEnded = v.upEnded) (hdown : w.downEnded = v.downEnded) :
    { x with wire := some w }.Steady u c m := by
  refine h.of_wire (fun hg => hg) rfl (fun _ _ => rfl) ?_ fun w' hw _ => ?_
  · rw [hv]
    exact congrArg some hkey
  · cases hw
    exact ⟨v, hv, hkey.symm, hup, hdown⟩

/-! ## What a node does -/

theorem steady_answer (h : x.Steady u c m) (n : Nat) (hs : x.Sound m) :
    (x.answer m n).Steady u c m := by
  unfold answer
  split
  next received w hg hw =>
    split
    next =>
      simp only
      obtain ⟨hheard, hlen, houtcome⟩ := hs.greeted received hg
      split
      next hj =>
        refine h.of_wire (fun _ => by rw [hg]; simp) rfl ?_ ?_ fun w' hw' _ => ?_
        · intro e he
          rw [houtcome] at he
          cases he
        · rw [hw]
          rfl
        · cases hw'
          exact ⟨w, hw, rfl, rfl, rfl⟩
      next hj => exact steady_of_idle rfl fun e he => by cases he
      -- The node has read the header that it fails for.
      next e hj =>
        obtain ⟨hge, hjudged⟩ := judge_eq_some hj
        have hle := List.length_take_le (min n (headerSize - received.length)) w.down
        have hboth : ((x.hear w (min n (headerSize - received.length))).failStart e).heard =
            received ++ w.down.take (min n (headerSize - received.length)) := by
          rw [← hheard]
          rfl
        constructor
        · exact fun _ _ hn => absurd rfl hn
        · exact fun _ _ hn => absurd rfl hn
        · exact fun _ _ hn => absurd rfl hn
        · intro e' he'
          cases he'
          rw [hboth]
          refine .inl ⟨?_, hjudged⟩
          rw [List.length_append] at hge ⊢
          omega
    next => exact h
  next => exact h

theorem steady_giveUp (h : x.Steady u c m) {e : TransportError} (hs : x.Sound m)
    (hsmooth : (Action.giveUp e).Smooth x) : (x.giveUp e).Steady u c m := by
  unfold giveUp
  cases hg : x.greeting with
  | none => exact h
  | some received =>
    have hne : x.greeting ≠ none := by
      rw [hg]
      simp
    obtain ⟨w, hw⟩ : ∃ w, x.wire = some w := by
      cases hw : x.wire with
      | none => exact absurd (hs.unconnected hw).2.2.1 hne
      | some w => exact ⟨w, rfl⟩
    -- The stream has ended, so the relay has dropped the node.
    have hgone := h.downEnded w hw hne (hsmooth.2 w hw)
    constructor
    · exact fun _ _ hn => absurd rfl hn
    · exact fun _ _ hn => absurd rfl hn
    · exact fun _ _ hn => absurd rfl hn
    · intro e' he'
      cases he'
      refine .inr ⟨⟨w.hangUp, ?_, ?_⟩, hsmooth.1⟩
      · show x.wire.map Wire.hangUp = _
        rw [hw]
        rfl
      · rcases h.member w hw hne with hm | hr
        · rw [hgone] at hm
          cases hm
        · exact hr

theorem steady_takeIn (h : x.Steady u c m) (yielded : FrameReader × List FrameItem) :
    (x.takeIn yielded).Steady u c m :=
  h.of_wire (fun hg => hg) rfl (fun _ _ => rfl) rfl fun w hw _ => ⟨w, hw, rfl, rfl, rfl⟩

theorem steady_send (h : x.Steady u c m) (payload : Bytes) : (x.send m payload).Steady u c m := by
  unfold send
  split
  next w _ _ _ hw =>
    split
    · exact h.of_wire (fun hg => hg) rfl (fun _ _ => rfl) (by rw [hw]; rfl) fun w' hw' _ => by
        cases hw'
        exact ⟨w, hw, rfl, rfl, rfl⟩
    · exact h
  next => exact h

theorem steady_write (h : x.Steady u c m) (n : Nat) : (x.write n).Steady u c m := by
  unfold write
  split
  next w hw =>
    have hwrite := h.setWire hw (w.write n) rfl rfl rfl
    simp only
    split
    · exact hwrite.of_wire (fun hg => hg) rfl (fun _ _ => rfl) rfl fun w hw _ =>
        ⟨w, hw, rfl, rfl, rfl⟩
    · exact hwrite
  next => exact h

theorem steady_writeFails (h : x.Steady u c m) : x.writeFails.Steady u c m := by
  unfold writeFails
  split
  next w hg hw =>
    split
    · exact h
    · exact h.of_wire (fun hg => hg) rfl (fun _ _ => rfl) (by rw [hw]; rfl)
        fun _ _ hn => absurd hg hn
  next => exact h

theorem steady_read (h : x.Steady u c m) (n : Nat) (hs : x.Sound m) :
    (x.read m n).Steady u c m := by
  unfold Client.read
  split
  next pending w hlink hw =>
    have ho := hs.outcome_of_link (by rw [hlink]; simp)
    -- A node that reads frames has been started.
    have hg : x.greeting = none := by
      cases hg : x.greeting with
      | none => rfl
      | some g =>
        have := (hs.greeted g hg).2.2
        rw [ho] at this
        cases this
    exact steady_of_idle hg fun e he => by
      change x.outcome = some (.error e) at he
      rw [ho] at he
      cases he
  next => exact h

theorem steady_release (h : x.Steady u c m) : x.release.Steady u c m := by
  unfold release
  split
  · exact h
  next hg =>
    split
    · refine h.of_wire (fun hg => hg) rfl (fun _ _ => rfl) ?_ fun _ _ hn => absurd hg hn
      show (x.wire.map Wire.hangUp).map Wire.key = _
      rw [Option.map_map]
      rfl
    · exact h

theorem steady_act (h : x.Steady u c m) (hs : x.Sound m) {action : Action}
    (hsmooth : action.Smooth x) : (x.act m action).Steady u c m := by
  cases action with
  | answer n => exact steady_answer h n hs
  | giveUp e => exact steady_giveUp h hs hsmooth
  | send payload => exact steady_send h payload
  | write n => exact steady_write h n
  | writeFails => exact steady_writeFails h
  | read n => exact steady_read h n hs
  | readEnds =>
    show (x.readEnds m).Steady u c m
    unfold readEnds
    split
    · exact steady_takeIn h _
    · exact h
  | readFails e => exact hsmooth.elim
  | close => exact h.of_wire (fun hg => hg) rfl (fun _ _ => rfl) rfl fun w hw _ =>
      ⟨w, hw, rfl, rfl, rfl⟩
  | release => exact steady_release h
  | forward n => exact h.modifyWire (fun _ => rfl) (fun _ => rfl) fun _ => rfl
  | reset => exact hsmooth.elim

/-! ## What happens to the relay -/

namespace Cluster

theorem readings_input (u : Setup ι) (c : Cluster ι) (now : Nat) (input : Input) :
    (c.input now input).readings u = c.readings u ++ (c.relay u).readingsAt now input := by
  refine (readingsOver_append _ c.inputs [(now, input)]).trans ?_
  exact congrArg _ (List.append_nil _)

theorem Refuses.input {key : Nat} (h : c.Refuses u key) (now : Nat) (input : Input) :
    (c.input now input).Refuses u key := by
  obtain ⟨r, hr, hrefuses⟩ := h
  refine ⟨r, ?_, hrefuses⟩
  rw [readings_input]
  exact List.mem_append_left _ hr

theorem not_member_input {key : Nat} (hkey : key ≤ (c.relay u).lastKey)
    (h : (c.relay u).peers.contains key = false) (now : Nat) (input : Input) :
    ((c.input now input).relay u).peers.contains key = false := by
  rw [relay_input]
  have hgone : (c.relay u).Gone key := ⟨hkey, h⟩
  exact (hgone.follows (follows_after (c.relay_sound u) now input)).not_member

/-- A node keeps what holds of it when something happens to the relay, unless the relay drops the
node for another reason than a frame that it has not taken. -/
theorem Coherent.steady_input (h : c.Coherent u) {i : ι}
    (hx : (c.client i).Steady u c (u.member i)) {now : Nat} {input : Input}
    (hsmooth : input.Smooth (c.relay u))
    (hkeep : ∀ w, (c.client i).wire = some w → (c.client i).greeting ≠ none →
      input ≠ .ended w.key ∧ ∀ bytes, input = .arrived w.key bytes →
        ∀ d, (c.relay u).reading? w.key = some d →
          ∃ next, (d.input.feed (c.relay u).readRules now bytes).2 = .ok next) :
    (c.client i).Steady u (c.input now input) (u.member i) where
  upEnded := hx.upEnded
  member w hw hg := by
    rcases hx.member w hw hg with hm | hr
    -- The relay keeps the node in its table, or offers it a frame that it does not take.
    · by_cases hrefuses : ∀ r ∈ (c.relay u).readingsAt now input, r.refuses w.key = false
      · obtain ⟨hended, hread⟩ := hkeep w hw hg
        left
        rw [relay_input]
        exact member_after hsmooth hm hrefuses hended hread
      · simp only [not_forall] at hrefuses
        obtain ⟨r, hr, hrefuses⟩ := hrefuses
        refine .inr ⟨r, ?_, by simpa using hrefuses⟩
        rw [readings_input]
        exact List.mem_append_right _ hr
    · exact .inr (hr.input now input)
  downEnded w hw hg he :=
    not_member_input (h.key_le i w hw).2 (hx.downEnded w hw hg he) now input
  failed e he := by
    rcases hx.failed e he with hjudged | ⟨⟨w, hw, hr⟩, hio⟩
    · exact .inl hjudged
    · exact .inr ⟨⟨w, hw, hr.input now input⟩, hio⟩

/-- While a node is being started it has nothing to write but its greeting, so that the relay finds
nothing wrong with its bytes. -/
theorem Coherent.feed_greeting (h : c.Coherent u) (hfits : u.Fits) {i : ι} {w : Wire}
    (hw : (c.client i).wire = some w) (hg : (c.client i).greeting ≠ none) (now n : Nat)
    {d : Connection} (hd : (c.relay u).reading? w.key = some d) :
    ∃ next, (d.input.feed (c.relay u).readRules now (w.up.take n)).2 = .ok next := by
  obtain ⟨frame, hhello, hwhole⟩ := hfits.exists_hello i
  have hwritten := (h.sound i).written_of_greeting hg hhello
  obtain ⟨hget, hm⟩ := (c.relay_sound u).member_of_reading? hd
  obtain ⟨lost, hup, -⟩ := (h.linked i w hw).up
  obtain ⟨rest, hread, hrest⟩ := read_eq u c w.key
  have hheld : (c.relay u).held w.key = d.input.held := by
    unfold State.held
    rw [hget]
  obtain ⟨rest', hsplit, hframes, hend⟩ :=
    Reader.feed_spec now (w.up.take n) ((c.relay_sound u).reader_sound hget)
  -- Otherwise the reader has stopped at a header.
  rcases hend with ⟨next, hnext, -⟩ | ⟨-, hlen, hover⟩
  · exact ⟨next, hnext⟩
  -- A header that declares too much would be the header of the greeting.
  rw [hwritten, hread, hrest hm, hheld, ← List.take_append_drop n w.up, List.append_assoc,
    List.append_assoc, ← List.append_assoc d.input.held, hsplit, List.append_assoc,
    ← List.append_assoc, ← List.flatten_append] at hup
  have hconfig : (c.relay u).readRules.limit = u.config.maxMessageSize := by
    show (c.relay u).config.maxMessageSize = _
    rw [(c.between_readings u).follows.config_eq]
    rfl
  rw [hconfig] at hover
  have hle := declared_le_of_flatten_eq
    (fun raw hraw => (?_ : WholeFrame u.config.maxMessageSize raw)) ?_ hlen hup
  · omega
  · rcases List.mem_append.1 hraw with hraw | hraw
    · obtain ⟨r, hr, rfl⟩ := List.mem_map.1 hraw
      exact (sound_of_mem_readings (List.mem_filter.1 hr).1).frame_sound.whole
    · obtain ⟨f, hf, rfl⟩ := List.mem_map.1 hraw
      rw [← hconfig]
      exact (hframes f hf).whole
  · intro raw hraw
    rw [List.mem_singleton.1 hraw]
    exact hwhole

/-! ## Steady clusters -/

/-- What holds of a cluster while nothing fails. -/
structure Steady (u : Setup ι) (c : Cluster ι) : Prop where
  opened : (c.relay u).Open
  opened_before : ∀ r ∈ c.readings u, r.before.Open
  clients : ∀ i, (c.client i).Steady u c (u.member i)

theorem steady_initial (u : Setup ι) : (initial : Cluster ι).Steady u where
  opened := open_start u.config u.identity
  opened_before r hr := by cases hr
  clients i := steady_fresh u initial (u.member i)

theorem Steady.input (h : c.Steady u) (hc : c.Coherent u) {now : Nat} {input : Input}
    (hsmooth : input.Smooth (c.relay u))
    (hkeep : ∀ i w, (c.client i).wire = some w → (c.client i).greeting ≠ none →
      input ≠ .ended w.key ∧ ∀ bytes, input = .arrived w.key bytes →
        ∀ d, (c.relay u).reading? w.key = some d →
          ∃ next, (d.input.feed (c.relay u).readRules now bytes).2 = .ok next) :
    (c.input now input).Steady u where
  opened := by
    rw [relay_input]
    exact open_after h.opened (c.relay_sound u) now hsmooth
  opened_before r hr := by
    rw [readings_input] at hr
    rcases List.mem_append.1 hr with hr | hr
    · exact h.opened_before r hr
    · exact open_readingsAt h.opened now input r hr
  clients i := hc.steady_input (h.clients i) hsmooth (hkeep i)

variable [DecidableEq ι]

theorem Steady.setClient (h : c.Steady u) (i : ι) {y : Client} (hy : y.Steady u c (u.member i)) :
    (c.setClient i y).Steady u where
  opened := h.opened
  opened_before := h.opened_before
  clients :=
    forall_setClient (P := fun j x => x.Steady u (c.setClient i y) (u.member j))
      ⟨hy.upEnded, hy.member, hy.downEnded, hy.failed⟩ fun j _ =>
      have hj := h.clients j
      ⟨hj.upEnded, hj.member, hj.downEnded, hj.failed⟩

theorem Steady.start (h : c.Steady u) (hc : c.Coherent u) (hfits : u.Fits) (i : ι) (now : Nat)
    (address : String) (hmay : c.mayStart i = true) (hgoing : (c.relay u).stopping = false) :
    ((c.input now (.connected address)).setClient i
      ((c.client i).connect (u.member i) ((c.relay u).lastKey + 1))).Steady u := by
  have hinput : (c.input now (.connected address)).Steady u :=
    h.input hc trivial fun _ _ _ _ => ⟨nofun, nofun⟩
  refine hinput.setClient i ?_
  obtain ⟨hstart, hgreeting⟩ := mayStart_eq_true.1 hmay
  obtain ⟨-, houtcome⟩ := (hc.sound i).of_mayStart hstart hgreeting
  obtain ⟨frame, hhello, -⟩ := hfits.exists_hello i
  unfold connect
  rw [hhello]
  -- A new connection: it is open on both sides, and the relay has just accepted it.
  constructor
  · intro w hw _
    cases hw
    rfl
  · intro w hw _
    cases hw
    left
    show ((c.input now (.connected address)).relay u).peers.contains
      ((c.relay u).lastKey + 1) = true
    rw [relay_input, after_connected hgoing, accept_contains, if_pos rfl]
  · intro w hw _ he
    cases hw
    cases he
  · intro e he
    change (c.client i).outcome = _ at he
    rw [houtcome] at he
    cases he

theorem Steady.arrive (h : c.Steady u) (hc : c.Coherent u) (hfits : u.Fits) (i : ι) (now n : Nat)
    {w : Wire} (hw : (c.client i).wire = some w) :
    ((c.input now (.arrived w.key (w.up.take n))).setClient i
      { c.client i with wire := some { w with up := w.up.drop n } }).Steady u := by
  have hinput : (c.input now (.arrived w.key (w.up.take n))).Steady u := by
    refine h.input hc trivial fun j v hv hg => ⟨nofun, ?_⟩
    intro bytes he d hd
    obtain ⟨hkey, hbytes⟩ := Input.arrived.inj he
    have hj := hc.key_inj i j w v hw hv hkey
    subst hj
    rw [hw] at hv
    cases hv
    rw [← hbytes]
    exact hc.feed_greeting hfits hw hg now n hd
  exact hinput.setClient i ((hinput.clients i).setWire hw _ rfl rfl rfl)

theorem Steady.take (h : c.Steady u) (hc : c.Coherent u) (i : ι) (now : Nat) {w : Wire}
    (hw : (c.client i).wire = some w) (bytes : Bytes) :
    ((c.input now (.taken w.key)).setClient i
      { c.client i with wire := some { w with writing := bytes } }).Steady u := by
  have hinput : (c.input now (.taken w.key)).Steady u :=
    h.input hc trivial fun _ _ _ _ => ⟨nofun, nofun⟩
  exact hinput.setClient i ((hinput.clients i).setWire hw _ rfl rfl rfl)

theorem Steady.stop (h : c.Steady u) (hc : c.Coherent u) (i : ι) (now : Nat) {w : Wire}
    (hw : (c.client i).wire = some w) (hgone : (c.relay u).peers.contains w.key = false) :
    ((c.input now (.writerStopped w.key)).setClient i
      { c.client i with wire := some w.stop }).Steady u := by
  have hinput : (c.input now (.writerStopped w.key)).Steady u :=
    h.input hc hgone fun _ _ _ _ => ⟨nofun, nofun⟩
  have hx := hinput.clients i
  have hgone' := not_member_input (hc.key_le i w hw).2 hgone now (.writerStopped w.key)
  -- The writer stops for a node that has been dropped, so the end of the stream is in order.
  refine hinput.setClient i ⟨?_, ?_, ?_, ?_⟩
  · intro v hv hg
    cases hv
    exact hx.upEnded w hw hg
  · intro v hv hg
    cases hv
    exact hx.member w hw hg
  · intro v hv _ _
    cases hv
    exact hgone'
  · intro e he
    rcases hx.failed e he with hjudged | ⟨⟨v, hv, hr⟩, hio⟩
    · exact .inl hjudged
    · change (c.client i).wire = some v at hv
      rw [hw] at hv
      cases hv
      exact .inr ⟨⟨w.stop, rfl, hr⟩, hio⟩

theorem steady_step (h : c.Steady u) (hc : c.Coherent u) (hfits : u.Fits) {s : Step ι}
    (hsmooth : s.Smooth u c) : (c.step u s).Steady u := by
  cases s with
  | start i now address =>
    simp only [step]
    split
    next hmay => exact h.start hc hfits i now address hmay.1 (by simpa using hmay.2)
    next => exact h
  | refused i e => exact hsmooth.elim
  | act i action => exact h.setClient i (steady_act (h.clients i) (hc.sound i) hsmooth)
  | arrive i now n =>
    simp only [step]
    split
    next w hw =>
      split
      · exact h.arrive hc hfits i now n hw
      · exact h
    next => exact h
  | take i now =>
    simp only [step]
    split
    next w hw =>
      split
      · exact h.take hc i now hw _
      · exact h
    next => exact h
  | stop i now =>
    simp only [step]
    split
    next w hw => exact h.stop hc i now hw (hsmooth w hw)
    next => exact h
  | event now input =>
    cases input with
    -- The node has ended its stream, so it is not being started any more.
    | ended key =>
      refine h.input hc trivial fun i w hw hg => ⟨fun he => ?_, fun _ he => ?_⟩
      · have hup := (hsmooth i w hw (Input.ended.inj he).symm).1
        rw [(h.clients i).upEnded w hw hg] at hup
        cases hup
      · cases he
    | _ => exact hsmooth.elim

theorem steady_run (h : c.Steady u) (hc : c.Coherent u) (hfits : u.Fits) {steps : List (Step ι)}
    (hsmooth : c.Smooth u steps) : (c.run u steps).Steady u := by
  -- Each step starts from a cluster that is steady and coherent, since nothing has failed before.
  induction steps generalizing c with
  | nil => exact h
  | cons s steps ih =>
    exact ih (steady_step h hc hfits hsmooth.1) (coherent_step hc s) hsmooth.2

end Cluster

end EvictionBus.Relay

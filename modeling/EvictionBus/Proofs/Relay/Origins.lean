import Mathlib.Data.List.Basic
import EvictionBus.Proofs.Relay.Coherence
import EvictionBus.Proofs.Relay.History

/-!
# Where frames come from

In a cluster whose parts have the same limit, the frames that the relay acts on are those that the
nodes have written: the first ones of each node, in order.  An eviction among them has the identity
and a payload of the node that has written it.
-/

namespace EvictionBus

/-! ## Evictions as bytes -/

/-- The payload of a frame, if the frame is an eviction that is not empty. -/
def evicted? (me : Identity) (raw : Bytes) : Option Bytes :=
  match Header.decode me raw with
  | .ok header =>
    if header.op = .evict ∧ 0 < header.length then some (raw.drop headerSize) else none
  | .error _ => none

namespace Relay

theorem Member.op_of_hello {m : Member} {frame : Bytes} {me : Identity} {header : Header}
    (h : RelayClient.hello m.codec m.config.relayAlias = .ok frame)
    (hd : Header.decode me frame = .ok header) : header.op = .hello := by
  obtain ⟨name, hname, rfl⟩ := Member.hello_eq_ok h
  rw [Header.decode_bytes me m.identity name (by decide)
    (Nat.le_trans hname m.codec.limit_le)] at hd
  exact (congrArg Header.op (Except.ok.inj hd)).symm

namespace Client

variable {m : Member} {x : Client}

theorem Sound.exists_hello (h : x.Sound m) (hsent : x.sent ≠ []) :
    ∃ frame, RelayClient.hello m.codec m.config.relayAlias = .ok frame := by
  by_cases ho : x.outcome = some (.ok ())
  · exact h.announced (.inr ho)
  · exact absurd (h.unstarted ho).2.2 hsent

theorem Sound.written_of_greeting (h : x.Sound m) (hg : x.greeting ≠ none) {frame : Bytes}
    (hhello : RelayClient.hello m.codec m.config.relayAlias = .ok frame) :
    x.written m = [frame] := by
  obtain ⟨g, hg'⟩ := Option.ne_none_iff_exists'.1 hg
  have houtcome := (h.greeted g hg').2.2
  unfold written
  rw [hhello, (h.unstarted (by rw [houtcome]; simp)).2.2]
  rfl

theorem mem_written {raw : Bytes} (h : raw ∈ x.written m) :
    RelayClient.hello m.codec m.config.relayAlias = .ok raw ∨
      ∃ payload ∈ x.sent, raw = m.evictionFrame payload := by
  unfold written at h
  split at h
  next frame hhello =>
    rcases List.mem_cons.1 h with rfl | h
    · exact .inl hhello
    · obtain ⟨payload, hp, rfl⟩ := List.mem_map.1 h
      exact .inr ⟨payload, hp, rfl⟩
  next => cases h

theorem Sound.whole_written (h : x.Sound m) :
    ∀ raw ∈ x.written m, WholeFrame m.codec.limit raw := by
  intro raw hraw
  rcases mem_written hraw with hhello | ⟨payload, hp, rfl⟩
  · obtain ⟨name, hname, rfl⟩ := Member.hello_eq_ok hhello
    exact wholeFrame_bytes m.identity .hello hname (Nat.le_trans hname m.codec.limit_le)
  · exact m.whole_eviction (h.sent_le payload hp)

end Client

/-! ## Frames of one peer -/

namespace Reading

end Reading

namespace Cluster

open Client State

variable {ι : Type} {u : Setup ι} {c : Cluster ι}

/-- The frames that the relay of a cluster has acted on. -/
def readings (u : Setup ι) (c : Cluster ι) : List Reading :=
  (State.start u.config u.identity).readingsOver c.inputs

/-- What the relay has put into the queue of a peer. -/
def accepted (u : Setup ι) (c : Cluster ι) (key : Nat) : List Offer :=
  (c.readings u).filterMap (·.accepted? key)

theorem sound_of_mem_readings {r : Reading} (hr : r ∈ c.readings u) :
    r.Sound (State.start u.config u.identity) :=
  readingsOver_sound (State.sound_start u.config u.identity) c.inputs r hr

theorem queued_eq (u : Setup ι) (c : Cluster ι) (key : Nat) :
    (c.records u).queued key = (c.accepted u key).map Offer.item :=
  (queue_run (State.sound_start u.config u.identity) c.inputs key).1

theorem between_readings (u : Setup ι) (c : Cluster ι) :
    Between (State.start u.config u.identity) (c.readings u) (c.relay u) :=
  between_readingsOver (State.sound_start u.config u.identity) c.inputs

/-! ## Frames of one node -/

theorem read_eq (u : Setup ι) (c : Cluster ι) (key : Nat) : ∃ rest, (c.records u).read key =
    (((c.readings u).filter (·.sender = key)).map (·.frame.bytes)).flatten ++ rest ∧
      ((c.relay u).peers.contains key = true → rest = (c.relay u).held key) := by
  obtain ⟨rest, hread, hrest⟩ :=
    stream_run (State.sound_start u.config u.identity) c.inputs key
  refine ⟨rest, ?_, fun hm => hrest ?_⟩
  · rw [← List.flatMap_def]
    exact hread
  -- A peer in the table is not gone.
  · rintro ⟨-, hgone⟩
    change (c.relay u).peers.contains key = false at hgone
    rw [hm] at hgone
    cases hgone

theorem unfinished_held {key : Nat} (hm : (c.relay u).peers.contains key = true) :
    Unfinished u.config.maxMessageSize ((c.relay u).held key) := by
  obtain ⟨d, hd⟩ := (c.relay_sound u).member_connected hm
  have hheld := ((c.relay_sound u).reader_sound hd).unfinished
  have hconfig : (c.relay u).config = u.config :=
    (follows_run (State.sound_start u.config u.identity) c.inputs).config_eq
  unfold State.held
  rw [hd]
  unfold readRules at hheld
  rw [hconfig] at hheld
  exact hheld

/-- The frames that the relay has acted on are the first ones of those that a node has written. -/
theorem Coherent.frames_prefix (h : c.Coherent u) {i : ι} {w : Wire}
    (hw : (c.client i).wire = some w) :
    ((c.readings u).filter (·.sender = w.key)).map (·.frame.bytes) <+:
      (c.client i).written (u.member i) := by
  obtain ⟨lost, hup, -⟩ := (h.linked i w hw).up
  obtain ⟨rest, hread, -⟩ := read_eq u c w.key
  rw [hread, List.append_assoc] at hup
  -- Both are streams of frames, and one is the beginning of the other.
  refine prefix_of_flatten_eq (fun raw hraw => (?_ : WholeFrame maxPayload raw))
    (fun raw hraw => ?_) hup
  · obtain ⟨r, hr, rfl⟩ := List.mem_map.1 hraw
    exact (sound_of_mem_readings (List.mem_filter.1 hr).1).frame_sound.whole.within_maxPayload
  · exact ((h.sound i).whole_written raw hraw).within_maxPayload

/-- The relay has acted on all frames that a node has written when nothing is on its way and the
node has not been dropped. -/
theorem Coherent.frames_eq (h : c.Coherent u) {i : ι} {w : Wire}
    (hw : (c.client i).wire = some w)
    (hwritten : ∀ raw ∈ (c.client i).written (u.member i),
      WholeFrame u.config.maxMessageSize raw)
    (hm : (c.relay u).peers.contains w.key = true) (hnone : w.up = []) (hunsent : w.unsent = [])
    (hended : w.upEnded = false) :
    ((c.readings u).filter (·.sender = w.key)).map (·.frame.bytes) =
      (c.client i).written (u.member i) := by
  obtain ⟨lost, hup, hlost⟩ := (h.linked i w hw).up
  obtain ⟨rest, hread, hrest⟩ := read_eq u c w.key
  rw [hread, hlost hended, hnone, hunsent, List.append_nil, List.append_nil] at hup
  -- What the reader of the relay holds is no whole frame, so nothing is left.
  have hunfinished : Unfinished u.config.maxMessageSize rest := by
    rw [hrest hm]
    exact unfinished_held hm
  refine (flatten_append_inj (fun raw hraw => ?_) hwritten hunfinished unfinished_nil
    (hup.trans (List.append_nil _).symm)).1
  obtain ⟨r, hr, rfl⟩ := List.mem_map.1 hraw
  exact (sound_of_mem_readings (List.mem_filter.1 hr).1).frame_sound.whole

end Cluster

end Relay

end EvictionBus

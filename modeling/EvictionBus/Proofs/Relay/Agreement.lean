import EvictionBus.Proofs.Frame.Chunks
import EvictionBus.Proofs.Relay.Reasons
import EvictionBus.Proofs.Relay.Streams

/-!
# Two readers of one format

A relay reads its peers in its own way: it waits for a header, judges the length by its own limit,
and waits for the payload.  The codec of the clients looks for frames in a buffer instead.  Both cut
a stream into the same frames, and where one of them stops the other one stops as well, for the same
reason.
-/

namespace EvictionBus.Relay

open State

/-! ## Where a stream stops -/

/-- Why a peer is dropped, by what is left of its stream behind the last frame. -/
def dropAt (limit : Nat) (rest : Bytes) : Disconnect :=
  if rest.length < headerSize then .closed
  else if limit < Header.declared rest then .oversized (Header.declared rest) limit
  else .truncated (Header.declared rest)

/-- A relay and a codec give the same reason for reading no further; a relay does not tell the end
of a stream from an end inside a header. -/
structure Agrees (reason : Disconnect) (stop : Option FrameError) : Prop where
  oversized_iff : ∀ length limit,
    reason = .oversized length limit ↔ stop = some (.payloadTooLarge length limit)
  truncated_iff : ∀ length, reason = .truncated length ↔
    ∃ got, headerSize ≤ got ∧ stop = some (.truncated (headerSize + length) got)
  closed_iff : reason = .closed ↔
    stop = none ∨ ∃ got, got < headerSize ∧ stop = some (.truncated headerSize got)

theorem agrees_stopAt (c : Codec) (limit : Nat) (rest : Bytes)
    (hlimit : c.limit = min limit maxPayload) : Agrees (dropAt limit rest) (c.stopAt rest) := by
  have hle := Header.declared_le rest
  unfold dropAt Codec.stopAt
  by_cases hshort : rest.length < headerSize
  · rw [if_pos hshort, if_pos hshort]
    by_cases hempty : rest = []
    · rw [if_pos hempty]
      exact ⟨by simp, by simp, by simp⟩
    · rw [if_neg hempty]
      refine ⟨by simp, fun length => ?_, by simp [hshort]⟩
      -- Inside a header nothing is known about the length.
      refine iff_of_false nofun ?_
      rintro ⟨got, hgot, heq⟩
      simp only [Option.some.injEq, FrameError.truncated.injEq] at heq
      omega
  · rw [if_neg hshort, if_neg hshort]
    by_cases hover : limit < Header.declared rest
    · -- The length is one that a header can declare, so the limit is below the largest one.
      have hsame : c.limit = limit := by omega
      rw [if_pos hover, if_pos (by omega), hsame]
      exact ⟨by simp, by simp, by simp⟩
    · rw [if_neg hover, if_neg (by omega)]
      refine ⟨by simp, fun length => ?_, ?_⟩
      · constructor
        · intro heq
          cases heq
          exact ⟨rest.length, by omega, rfl⟩
        · rintro ⟨got, -, heq⟩
          simp only [Option.some.injEq, FrameError.truncated.injEq] at heq
          rw [show Header.declared rest = length by omega]
      · refine iff_of_false nofun ?_
        rintro (heq | ⟨got, hgot, heq⟩)
        · cases heq
        · simp only [Option.some.injEq, FrameError.truncated.injEq] at heq
          omega

/-! ## The bytes of frames -/

/-- The first bytes, cut into pieces of the sizes of the frames. -/
def cut : Bytes → List Frame → List Bytes
  | _, [] => []
  | bs, f :: fs => bs.take f.header.frameSize :: cut (bs.drop f.header.frameSize) fs

theorem cut_eq {c : Codec} {raws : List Bytes} {fs : List Frame} (h : c.Reads raws fs)
    (rest : Bytes) : cut (raws.flatten ++ rest) fs = raws := by
  induction raws generalizing fs with
  | nil =>
    have hfs : fs = [] := List.map_eq_nil_iff.1 h.frames.symm
    rw [hfs]
    rfl
  | cons raw raws ih =>
    cases fs with
    | nil => cases h.frames
    | cons f fs =>
      have hw := h.whole raw List.mem_cons_self
      obtain ⟨hf, hfs⟩ := List.cons.inj h.frames
      obtain ⟨header, hd, hdatagram⟩ := Codec.decodeDatagram_of_whole hw
      rw [hf] at hdatagram
      cases hdatagram
      have hsize : raw.length = header.frameSize := by
        rw [hw.length_eq, Header.frameSize, (Header.length_of_decode hd).2]
      have hmore : c.Reads raws fs := ⟨fun r hr => h.whole r (List.mem_cons_of_mem _ hr), hfs⟩
      rw [List.flatten_cons, List.append_assoc, cut, ← hsize, List.take_left, List.drop_left,
        ih hmore]

/-- The bytes that arrive from a peer. -/
def Input.bytesFrom (key : Nat) : Input → Bytes
  | .arrived sender bytes => if sender = key then bytes else []
  | _ => []

theorem Input.bytesFrom_of_other {key : Nat} {input : Input}
    (h : ∀ bytes, input ≠ .arrived key bytes) : input.bytesFrom key = [] := by
  cases input with
  | arrived sender bytes => exact if_neg fun he => h bytes (by rw [he])
  | _ => rfl

/-- The reader of a peer goes on with the bytes that arrive from it. -/
theorem feed_of_reading?_after {s : State} (hs : s.Sound) (now : Nat) {key : Nat} {input : Input}
    {d : Connection} (hkey : key ≤ s.lastKey) (hd : (s.after now input).reading? key = some d) :
    ∃ c, s.reading? key = some c ∧
      (c.input.feed s.readRules now (input.bytesFrom key)).2 = .ok d.input := by
  have hf := follows_after hs now input
  obtain ⟨hafter, hm⟩ := hf.sound.member_of_reading? hd
  obtain ⟨c, hc⟩ := Option.isSome_iff_exists.1 (hs.reading?_of_member (hf.member hkey hm))
  obtain ⟨hget, -⟩ := hs.member_of_reading? hc
  refine ⟨c, hc, ?_⟩
  by_cases harrived : ∃ bytes, input = .arrived key bytes
  · obtain ⟨bytes, rfl⟩ := harrived
    rw [show Input.bytesFrom key (.arrived key bytes) = bytes from if_pos rfl]
    rcases receive_cases hs hc now bytes with ⟨t, next, ht, hnext, -, heq⟩ | ⟨-, -, hgone⟩
    · have ho := onward_handleAll s key (c.input.feed s.readRules now bytes).1
      rw [ht] at ho
      obtain ⟨e, he, -⟩ := ho.exists_connection hget
      change (s.receive now key bytes).connections.get? key = some d at hafter
      rw [heq] at hafter
      simp only [KeyTable.get?_modify, if_pos, he, Option.map_some, Option.some.injEq] at hafter
      rw [hnext, ← hafter]
    · change (s.receive now key bytes).peers.contains key = true at hm
      rw [hgone] at hm
      cases hm
  · have hother : ∀ bytes, input ≠ .arrived key bytes := fun bytes he => harrived ⟨bytes, he⟩
    have hold : ∀ address, input = .connected address → key ≠ s.lastKey + 1 := fun _ _ => by omega
    have hsame := reader?_after hs now hold hother
    unfold reader? at hsame
    rw [hafter, hget] at hsame
    rw [Input.bytesFrom_of_other hother]
    exact congrArg Except.ok (Option.some.inj hsame).symm

def arrivedOver (key : Nat) (inputs : List (Nat × Input)) : Bytes :=
  inputs.flatMap fun i => i.2.bytesFrom key

/-- The frames of a peer as they have been received. -/
def rawsOf (rs : List Reading) (sender : Nat) : List Bytes :=
  (rs.filter (·.sender = sender)).map (·.frame.bytes)

theorem rawsOf_append (rs more : List Reading) (sender : Nat) :
    rawsOf (rs ++ more) sender = rawsOf rs sender ++ rawsOf more sender := by
  unfold rawsOf
  rw [List.filter_append, List.map_append]

theorem rawsOf_readings (s : State) (sender : Nat) (fs : List RawFrame) :
    rawsOf (s.readings sender fs) sender =
      ((s.readings sender fs).map Reading.frame).map RawFrame.bytes := by
  unfold rawsOf
  rw [List.filter_eq_self.2 fun r hr => decide_eq_true (sender_of_mem_readings r hr),
    List.map_map]
  rfl

theorem rawsOf_of_other (s : State) (now : Nat) {input : Input} {sender : Nat}
    (h : ∀ bytes, input = .arrived sender bytes → s.reading? sender = none) :
    rawsOf (s.readingsAt now input) sender = [] := by
  unfold rawsOf
  rw [filter_readingsAt_of_other s now h]
  rfl

theorem State.Gone.rawsOf_over {s : State} {sender : Nat} (h : s.Gone sender) (hs : s.Sound)
    (inputs : List (Nat × Input)) : rawsOf (s.readingsOver inputs) sender = [] := by
  induction inputs generalizing s with
  | nil => rfl
  | cons i inputs ih =>
    obtain ⟨now, input⟩ := i
    have hf := follows_after hs now input
    rw [readingsOver, rawsOf_append, ih (h.follows hf) hf.sound, List.append_nil]
    exact rawsOf_of_other s now fun _ _ => hs.reading?_of_gone h

/-! ## What has become of a peer -/

/-- What has become of a peer from which the bytes `b` have arrived, of which `raws` have been acted
on: it is read from, it has been dropped at a header that declares too much, or it has been dropped
for something else than its bytes. -/
inductive Fate (s : State) (key : Nat) (b : Bytes) (raws : List Bytes) : Prop where
  | reading (member : s.peers.contains key = true) (fresh : s.reasons key = [])
      (split : b = raws.flatten ++ s.held key)
      (whole : ∀ raw ∈ raws, WholeFrame s.config.maxMessageSize raw)
  | refused (rest : Bytes) (gone : s.Gone key) (split : b = raws.flatten ++ rest)
      (whole : ∀ raw ∈ raws, WholeFrame s.config.maxMessageSize raw)
      (header : headerSize ≤ rest.length)
      (exceeds : s.config.maxMessageSize < Header.declared rest)
      (reason : s.reasons key = [.oversized (Header.declared rest) s.config.maxMessageSize])
  | foreign {reason : Disconnect} (gone : s.Gone key) (reason_foreign : reason.Foreign)
      (reason_eq : s.reasons key = [reason])

variable {s t : State} {key : Nat} {b : Bytes} {raws : List Bytes}

/-- What is said about a peer that is gone stays, as long as its frames are its own. -/
theorem Fate.of_gone (h : Fate s key b raws) (hgone : s.Gone key)
    (hf : s.Follows t) (hreasons : t.reasons key = s.reasons key) (more : Bytes) :
    Fate t key (b ++ more) raws := by
  have hgone' := hgone.follows hf
  cases h with
  | reading hm =>
    rw [hgone.not_member] at hm
    cases hm
  | refused rest _ hsplit hwhole hlen hover hreason =>
    have hdecl := Header.declared_append more hlen
    rw [← hf.config_eq] at hwhole hover hreason
    refine .refused (rest ++ more) hgone' ?_ hwhole ?_ ?_ ?_
    · rw [hsplit, List.append_assoc]
    · rw [List.length_append]
      omega
    · rw [hdecl]
      exact hover
    · rw [hreasons, hreason, hdecl]
  | foreign _ hforeign hreason => exact .foreign hgone' hforeign (hreasons.trans hreason)

/-- A peer that nobody has dropped is gone for a foreign reason, if it is gone. -/
theorem Fate.of_parting {P : Disconnect → Prop} (hfresh : s.reasons key = [])
    (h : Parting P key s t) (hP : ∀ reason, P reason → reason.Foreign) (hf : s.Follows t)
    (hkey : key ≤ s.lastKey) (hm : t.peers.contains key = false)
    (hms : s.peers.contains key = true) (b : Bytes) (raws : List Bytes) : Fate t key b raws := by
  cases h with
  | stays hsame _ =>
    rw [hm, hms] at hsame
    cases hsame
  | dropped hreason _ hafter hr =>
    rw [hfresh] at hr
    exact .foreign ⟨Nat.le_trans hkey hf.lastKey_le, hafter⟩ (hP _ hreason) hr

theorem fate_receive (hs : s.Sound) (hm : s.peers.contains key = true)
    (hfresh : s.reasons key = []) (hwhole : ∀ raw ∈ raws, WholeFrame s.config.maxMessageSize raw)
    (now : Nat) (bytes : Bytes) :
    Fate (s.receive now key bytes) key (raws.flatten ++ s.held key ++ bytes)
      (raws ++ rawsOf (s.readingsAt now (.arrived key bytes)) key) := by
  obtain ⟨c, hc⟩ := Option.isSome_iff_exists.1 (hs.reading?_of_member hm)
  obtain ⟨hget, -⟩ := hs.member_of_reading? hc
  have hkey : key ≤ s.lastKey := hs.key_le hget
  have hheld : s.held key = c.input.held := by
    unfold State.held
    rw [hget]
  have hf := follows_receive hs now key bytes
  obtain ⟨rest, hsplit, hframes, hend⟩ := Reader.feed_spec now bytes (hs.reader_sound hget)
  obtain ⟨-, hall⟩ := map_frame_readings s key (c.input.feed s.readRules now bytes).1
  obtain ⟨hparting, houter⟩ :=
    parting_handleAll s key (c.input.feed s.readRules now bytes).1 key
  replace hparting := hparting.mono fun _ => Disconnect.Outer.foreign
  have honward := onward_handleAll s key (c.input.feed s.readRules now bytes).1
  rw [readingsAt_of_reading hc, rawsOf_readings, hheld, List.append_assoc, hsplit]
  cases hh : s.handleAll key (c.input.feed s.readRules now bytes).1 with
  | mk t outcome =>
    rw [hh] at hparting houter honward hall
    cases outcome with
    | some reason =>
      -- A frame that cannot be answered costs the peer its place.
      have hpart : Parting Disconnect.Foreign key s (t.disconnect key reason) :=
        hparting.trans (parting_disconnect t fun _ => (houter reason rfl).foreign)
      rw [receive_of_unanswered hc hh] at hf ⊢
      exact Fate.of_parting hfresh hpart (fun _ h => h) hf hkey
        (disconnect_not_member t key reason) hm _ _
    | none =>
      have hmember : t.peers.contains key = true := by
        have h := handleAll_keeps_sender hm (congrArg Prod.snd hh)
        rwa [hh] at h
      have hreasons : t.reasons key = [] := by
        cases hparting with
        | stays _ hr => exact hr.trans hfresh
        | dropped _ _ hafter =>
          rw [hmember] at hafter
          cases hafter
      rw [hall rfl, ← List.append_assoc, ← List.flatten_append]
      have hraws : ∀ raw ∈ raws ++ (c.input.feed s.readRules now bytes).1.map RawFrame.bytes,
          WholeFrame s.config.maxMessageSize raw := by
        intro raw hraw
        rcases List.mem_append.1 hraw with h | h
        · exact hwhole raw h
        · obtain ⟨f, hframe, rfl⟩ := List.mem_map.1 h
          exact (hframes f hframe).whole
      rw [← hf.config_eq] at hraws
      rcases hend with ⟨next, hnext, -, hrest⟩ | ⟨herror, hlen, hover⟩
      · rw [receive_of_read hc hh hnext] at hf hraws ⊢
        refine .reading hmember hreasons ?_ hraws
        obtain ⟨d, hd, -⟩ := honward.exists_connection hget
        unfold State.held
        simp only [KeyTable.get?_modify, if_pos, hd, Option.map_some, hrest]
      · rw [receive_of_refused hc hh herror] at hf hraws ⊢
        refine .refused rest ⟨Nat.le_trans hkey hf.lastKey_le, disconnect_not_member t key _⟩
          rfl hraws hlen ?_ ?_
        · rw [hf.config_eq]
          exact hover
        · rw [reasons_disconnect, hreasons, if_pos ⟨rfl, hmember⟩, hf.config_eq]
          rfl

theorem Fate.le_lastKey (h : Fate s key b raws) (hs : s.Sound) : key ≤ s.lastKey := by
  cases h with
  | reading hm =>
    obtain ⟨c, hc⟩ := hs.member_connected hm
    exact hs.key_le hc
  | refused _ hgone => exact hgone.key_le
  | foreign hgone => exact hgone.key_le

/-- One input, unless it is the end of the peer's side, goes on with what has become of it. -/
theorem Fate.after (h : Fate s key b raws) (hs : s.Sound) (now : Nat) {input : Input}
    (hended : input ≠ .ended key) :
    Fate (s.after now input) key (b ++ input.bytesFrom key)
      (raws ++ rawsOf (s.readingsAt now input) key) := by
  have hkey := h.le_lastKey hs
  have hf := follows_after hs now input
  have hparting := parting_after s now input (.inl hkey)
  cases hm : s.peers.contains key with
  | false =>
    have hgone : s.Gone key := ⟨hkey, hm⟩
    rw [rawsOf_of_other s now fun _ _ => hs.reading?_of_gone hgone, List.append_nil]
    exact h.of_gone hgone hf (hparting.reasons_of_not_member hm) _
  | true =>
    cases h with
    | refused _ hgone =>
      rw [hgone.not_member] at hm
      cases hm
    | foreign hgone =>
      rw [hgone.not_member] at hm
      cases hm
    | reading _ hfresh hsplit hwhole =>
      by_cases harrived : ∃ bytes, input = .arrived key bytes
      · obtain ⟨bytes, rfl⟩ := harrived
        rw [hsplit, show Input.bytesFrom key (.arrived key bytes) = bytes from if_pos rfl]
        exact fate_receive hs hm hfresh hwhole now bytes
      · -- Nothing comes from the peer, so only something foreign can have dropped it.
        have hother : ∀ bytes, input ≠ .arrived key bytes := fun bytes he => harrived ⟨bytes, he⟩
        have hP : ∀ reason : Disconnect, reason.Foreign ∨ input.IsFrom key → reason.Foreign :=
          fun _ h => h.resolve_right fun hfrom => hfrom.elim hended harrived
        rw [Input.bytesFrom_of_other hother, List.append_nil,
          rawsOf_of_other s now fun bytes he => absurd he (hother bytes), List.append_nil]
        cases hmember : (s.after now input).peers.contains key with
        | true =>
          refine .reading hmember ?_ ?_ ?_
          · cases hparting with
            | stays _ hr => exact hr.trans hfresh
            | dropped _ _ hafter =>
              rw [hmember] at hafter
              cases hafter
          · rw [hsplit, held_after hs now hother]
          · rw [hf.config_eq]
            exact hwhole
        | false => exact Fate.of_parting hfresh hparting hP hf hkey hmember hm b raws

/-- The bytes of a peer and the frames among them, over a run in which its side does not end. -/
theorem Fate.run (h : Fate s key b raws) (hs : s.Sound) {inputs : List (Nat × Input)}
    (hended : ∀ now, (now, Input.ended key) ∉ inputs) :
    Fate (s.run inputs) key (b ++ arrivedOver key inputs)
      (raws ++ rawsOf (s.readingsOver inputs) key) := by
  induction inputs generalizing s b raws with
  | nil =>
    show Fate s key (b ++ []) (raws ++ [])
    rw [List.append_nil, List.append_nil]
    exact h
  | cons i inputs ih =>
    obtain ⟨now, input⟩ := i
    have hfirst := h.after hs now fun (he : input = .ended key) =>
      hended now (by rw [he]; exact List.mem_cons_self)
    have hrest := ih hfirst (follows_after hs now input).sound
      fun later hin => hended later (List.mem_cons_of_mem _ hin)
    rw [readingsOver, rawsOf_append, ← List.append_assoc]
    show Fate _ key (b ++ (input.bytesFrom key ++ arrivedOver key inputs)) _
    rw [← List.append_assoc]
    exact hrest

/-- Once its side has ended a peer is gone.  Unless the reason is a foreign one, it is what follows
the last whole frame. -/
theorem Fate.ended (h : Fate s key b raws) (hs : s.Sound) (now : Nat) :
    (s.after now (.ended key)).Gone key ∧
      ∃ reason, (s.after now (.ended key)).reasons key = [reason] ∧
        (reason.Foreign ∨ ∃ rest, b = raws.flatten ++ rest ∧
          (∀ raw ∈ raws, WholeFrame s.config.maxMessageSize raw) ∧
          Unfinished s.config.maxMessageSize rest ∧
          reason = dropAt s.config.maxMessageSize rest) := by
  have hkey := h.le_lastKey hs
  have hf := follows_after hs now (.ended key)
  have hgone : s.Gone key → (s.after now (.ended key)).Gone key ∧
      (s.after now (.ended key)).reasons key = s.reasons key := fun hgone =>
    ⟨hgone.follows hf, (parting_after s now _ (.inl hkey)).reasons_of_not_member hgone.not_member⟩
  cases h with
  | refused rest hgone' hsplit hwhole hlen hover hreason =>
    obtain ⟨hgone, hsame⟩ := hgone hgone'
    refine ⟨hgone, _, hsame.trans hreason, .inr ⟨rest, hsplit, hwhole, ?_, ?_⟩⟩
    · exact unfinished_of_oversized hover
    · rw [dropAt, if_neg (Nat.not_lt.2 hlen), if_pos hover]
  | foreign hgone' hforeign hreason =>
    obtain ⟨hgone, hsame⟩ := hgone hgone'
    exact ⟨hgone, _, hsame.trans hreason, .inl hforeign⟩
  | reading hm hfresh hsplit hwhole =>
    obtain ⟨c, hc⟩ := Option.isSome_iff_exists.1 (hs.reading?_of_member hm)
    obtain ⟨hget, -⟩ := hs.member_of_reading? hc
    have hheld : s.held key = c.input.held := by
      unfold State.held
      rw [hget]
    have hreader := hs.reader_sound hget
    have hafter : s.after now (.ended key) = s.disconnect key c.input.atEnd := by
      show s.inputEnded key = _
      unfold inputEnded
      rw [hc]
    rw [hafter] at hf ⊢
    refine ⟨⟨Nat.le_trans hkey hf.lastKey_le, disconnect_not_member s key _⟩, c.input.atEnd, ?_,
      .inr ⟨s.held key, hsplit, hwhole, ?_, ?_⟩⟩
    · rw [reasons_disconnect, hfresh, if_pos ⟨rfl, hm⟩]
      rfl
    · rw [hheld]
      exact hreader.unfinished
    · rw [hheld, Reader.atEnd_eq hreader, dropAt]
      split
      · rfl
      next hlong =>
        have hle : Header.declared c.input.held ≤ s.config.maxMessageSize :=
          hreader.declared_le (Nat.not_lt.1 hlong)
        rw [if_neg (Nat.not_lt.2 hle)]

theorem fate_accept (hfresh : s.reasons (s.lastKey + 1) = []) (address : String) :
    Fate (s.accept address).2 (s.lastKey + 1) [] [] := by
  have hmember := accept_contains s address (s.lastKey + 1)
  have hheld : (s.accept address).2.held (s.lastKey + 1) = [] := by
    unfold State.held
    rw [accept_get?, if_pos rfl]
    rfl
  rw [if_pos rfl] at hmember
  refine .reading hmember ?_ hheld.symm fun raw hraw => absurd hraw List.not_mem_nil
  exact (reasons_note _ _ _).trans ((List.append_nil _).trans hfresh)

/-- A relay that accepts a peer cuts all bytes that arrive from it, until its side ends, into the
frames that a codec with the limit of the relay finds in them, wherever either stream is cut into
chunks.  Unless something foreign has come in between, the relay drops the peer once, and for the
reason for which the codec stops. -/
theorem agrees_run (config : Config) (identity codecIdentity : Identity)
    (before during later : List (Nat × Input)) (opened closing : Nat) (address : String)
    (chunks : List Bytes)
    (hgoing : ((start config identity).run before).stopping = false) :
    let s := ((start config identity).run before).after opened (.connected address)
    let run := during ++ (closing, .ended s.lastKey) :: later
    (∀ now, (now, Input.ended s.lastKey) ∉ during) →
    chunks.flatten = arrivedOver s.lastKey during →
    (∀ reason ∈ (s.run run).reasons s.lastKey, ¬ reason.Foreign) →
    ∃ frames stop reason,
      readStream ((Codec.ofIdentity codecIdentity).withLimit config.maxMessageSize)
          (chunks.map .chunk) = frames.map .ok ++ stop.toList.map .error ∧
        rawsOf (s.readingsOver run) s.lastKey = cut (arrivedOver s.lastKey during) frames ∧
        (s.run run).reasons s.lastKey = [reason] ∧ Agrees reason stop := by
  intro s run hopen hchunks hown
  have hbefore := follows_run (sound_start config identity) before
  have hs : s.Sound := (follows_after hbefore.sound opened _).sound
  have haccept : s = (State.accept _ address).2 := after_connected hgoing opened address
  have hkey : s.lastKey = ((start config identity).run before).lastKey + 1 := by
    rw [haccept]
    rfl
  have hfate : Fate s s.lastKey [] [] := by
    rw [hkey, haccept]
    exact fate_accept (reasons_of_fresh (sound_start config identity) (fun _ _ => rfl) before
      (Nat.lt_succ_self _)) address
  -- The bytes until the end, the end itself, and the rest of the run.
  have hduring := follows_run hs during
  obtain ⟨hgone, reason, hreason, hwhy⟩ := (hfate.run hs hopen).ended hduring.sound closing
  have hended := (follows_after hduring.sound closing (.ended s.lastKey)).sound
  have hreasons : (s.run run).reasons s.lastKey = [reason] := by
    rw [run_append]
    exact (hgone.reasons_run hended later).trans hreason
  have hraws : rawsOf (s.readingsOver run) s.lastKey =
      rawsOf (s.readingsOver during) s.lastKey := by
    rw [readingsOver_append, rawsOf_append]
    show _ ++ rawsOf ([] ++ State.readingsOver _ later) _ = _
    rw [List.nil_append, hgone.rawsOf_over hended, List.append_nil]
  have hconfig : (s.run during).config = config := by
    rw [hduring.config_eq, haccept]
    exact hbefore.config_eq
  rw [hreasons] at hown
  obtain ⟨rest, hsplit, hwhole, hrest, rfl⟩ :=
    hwhy.resolve_left (hown reason List.mem_cons_self)
  rw [hconfig, List.nil_append] at hwhole
  rw [hconfig] at hrest hreasons
  rw [List.nil_append, List.nil_append] at hsplit
  -- The codec cuts the same bytes, and there is one way only to cut them.
  let d := (Codec.ofIdentity codecIdentity).withLimit config.maxMessageSize
  obtain ⟨raws, frames, rest', hflat, hreads, hunfinished, hread⟩ := readStream_spec d chunks
  have hlimit : d.limit = min config.maxMessageSize maxPayload := rfl
  have hwhole' : ∀ raw ∈ raws, WholeFrame config.maxMessageSize raw := fun raw hraw =>
    wholeFrame_min_iff.1 (hreads.whole raw hraw)
  rw [hchunks, hsplit] at hflat
  obtain ⟨hsame, rfl⟩ :=
    flatten_append_inj hwhole hwhole' hrest (unfinished_min_iff.1 hunfinished) hflat
  refine ⟨frames, d.stopAt rest, dropAt config.maxMessageSize rest, hread, ?_, hreasons,
    agrees_stopAt d _ rest hlimit⟩
  rw [hraws, hsplit, hsame, cut_eq hreads]

def stranger : Identity :=
  ⟨List.replicate 16 2, rfl⟩

/-- A peer greets, sends an eviction, and goes on with the header of a payload that is too long. -/
def tooMuch : List (Nat × Input) :=
  let sent := Header.bytes stranger .hello 0 ++ Header.bytes stranger .evict 2 ++ [7, 8] ++
    Header.bytes stranger .evict 65001 ++ [9]
  [(1, .arrived 1 (sent.take 30)), (2, .taken 1), (3, .arrived 1 (sent.drop 30))]

theorem agrees_run_tooMuch :
    (((start .standard stranger).run []).stopping = false ∧
      (∀ now, (now, Input.ended 1) ∉ tooMuch) ∧
      (((start .standard stranger).after 0 (.connected "peer")).run
        (tooMuch ++ [(4, .ended 1)])).reasons 1 = [.oversized 65001 65000]) ∧
    ∃ frames, readStream ((Codec.ofIdentity stranger).withLimit 65000)
        [.chunk (arrivedOver 1 tooMuch)] =
          frames.map .ok ++ [.error (.payloadTooLarge 65001 65000)] ∧
      rawsOf (((start .standard stranger).after 0 (.connected "peer")).readingsOver
        (tooMuch ++ [(4, .ended 1)])) 1 = cut (arrivedOver 1 tooMuch) frames := by
  have hopen : ∀ now, (now, Input.ended 1) ∉ tooMuch := by
    intro now hin
    simp [tooMuch] at hin
  have hreasons : (((start .standard stranger).after 0 (.connected "peer")).run
      (tooMuch ++ [(4, .ended 1)])).reasons 1 = [.oversized 65001 65000] := by
    decide +kernel
  have hown : ∀ reason ∈ (((start .standard stranger).after 0 (.connected "peer")).run
      (tooMuch ++ [(4, .ended 1)])).reasons 1, ¬ reason.Foreign := by
    rw [hreasons]
    intro reason hin hforeign
    rw [List.mem_singleton.1 hin] at hforeign
    exact hforeign
  refine ⟨⟨rfl, hopen, hreasons⟩, ?_⟩
  obtain ⟨frames, stop, reason, hread, hraws, hreason, hagrees⟩ :=
    agrees_run .standard stranger stranger [] tooMuch [] 0 4 "peer" [arrivedOver 1 tooMuch] rfl
      hopen (List.append_nil _) hown
  have hover : reason = .oversized 65001 65000 :=
    (List.singleton_inj.1 (hreasons.symm.trans hreason)).symm
  have hstop := (hagrees.oversized_iff 65001 65000).1 hover
  rw [hstop] at hread
  exact ⟨frames, hread, hraws⟩

end EvictionBus.Relay

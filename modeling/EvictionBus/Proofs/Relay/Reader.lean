import EvictionBus.Proofs.Frame.Whole
import EvictionBus.Relay.Reader

/-!
# What a relay reads from a peer

The reader of a connection keeps the bytes of the frame under way.  Whatever the chunks are, the
frames that come out are the bytes that went in, cut into whole frames, and the reader holds the
rest.
-/

namespace EvictionBus.Relay

/-- The frame is whole and within the limit, and its header is the one that its bytes start with. -/
structure RawFrame.Sound (rules : ReadRules) (f : RawFrame) : Prop where
  whole : WholeFrame rules.limit f.bytes
  decoded : Header.decode rules.me f.bytes = .ok f.header

theorem RawFrame.Sound.length_eq {rules : ReadRules} {f : RawFrame} (h : f.Sound rules) :
    f.header.length = Header.declared f.bytes :=
  (Header.length_of_decode h.decoded).2

namespace Reader

/-- The bytes of the frame under way. -/
def held : Reader → Bytes
  | .inHeader read _ => read.reverse
  | .inPayload _ read _ _ => read.reverse

/-- What is missing is what the frame under way lacks. -/
def Sound (rules : ReadRules) : Reader → Prop
  | .inHeader read missing => 0 < missing ∧ read.length + missing = headerSize
  | .inPayload header read missing _ =>
    0 < missing ∧ read.length + missing = header.frameSize ∧ header.length ≤ rules.limit ∧
      Header.decode rules.me read.reverse = .ok header

variable {rules : ReadRules}

theorem sound_start : start.Sound rules := by
  simp [start, Sound, headerSize]

@[simp] theorem held_start : start.held = [] := rfl

theorem Sound.unfinished {r : Reader} (h : r.Sound rules) : Unfinished rules.limit r.held := by
  cases r with
  | inHeader read missing =>
    obtain ⟨hpos, hlen⟩ := h
    apply unfinished_of_short
    show read.reverse.length < headerSize
    rw [List.length_reverse]
    omega
  | inPayload header read missing deadline =>
    obtain ⟨hpos, hlen, -, hd⟩ := h
    obtain ⟨hle, hdecl⟩ := Header.length_of_decode hd
    apply unfinished_of_partial hle
    show read.reverse.length < headerSize + Header.declared read.reverse
    rw [List.length_reverse, ← hdecl]
    unfold Header.frameSize at hlen
    omega

/-- A length above the limit has been refused with its header. -/
theorem Sound.declared_le {r : Reader} (h : r.Sound rules) (hlen : headerSize ≤ r.held.length) :
    Header.declared r.held ≤ rules.limit := by
  cases r with
  | inHeader read missing =>
    obtain ⟨hpos, hsum⟩ := h
    change headerSize ≤ read.reverse.length at hlen
    rw [List.length_reverse] at hlen
    omega
  | inPayload header read missing deadline =>
    obtain ⟨-, -, hle, hd⟩ := h
    show Header.declared read.reverse ≤ rules.limit
    rw [← (Header.length_of_decode hd).2]
    exact hle

/-! ## One byte -/

/-- What becomes of a reader that holds `bytes` now. -/
def Progress.Sound (rules : ReadRules) (bytes : Bytes) : Progress → Prop
  | .reading r => r.Sound rules ∧ r.held = bytes
  | .complete f => f.Sound rules ∧ f.bytes = bytes
  | .refused reason => headerSize ≤ bytes.length ∧ rules.limit < Header.declared bytes ∧
      reason = .oversized (Header.declared bytes) rules.limit

/-- A whole header is refused for the length that it declares, and for nothing else. -/
theorem judge_sound (now : Nat) {bytes : Bytes} (h : bytes.length = headerSize) :
    (judge rules now bytes).Sound rules bytes := by
  obtain ⟨header, hd, hl, -⟩ := Header.exists_decode rules.me (Nat.le_of_eq h.symm)
  unfold judge
  rw [hd]
  simp only
  split
  next hover => exact ⟨Nat.le_of_eq h.symm, by omega, by rw [hl]⟩
  next hover =>
    split
    -- A frame without a payload ends with its header.
    next hzero =>
      have hw : WholeFrame rules.limit bytes := ⟨Nat.le_of_eq h.symm, by omega, by omega⟩
      exact ⟨⟨hw, hd⟩, rfl⟩
    next hpos =>
      refine ⟨⟨by omega, ?_, by omega, ?_⟩, List.reverse_reverse bytes⟩
      · rw [List.length_reverse, Header.frameSize, h]
      · rw [List.reverse_reverse]
        exact hd

theorem push_sound (now : Nat) (b : UInt8) {r : Reader} (h : r.Sound rules) :
    (r.push rules now b).Sound rules (r.held ++ [b]) := by
  cases r with
  | inHeader read missing =>
    obtain ⟨hpos, hlen⟩ := h
    have hheld : (b :: read).reverse = (inHeader read missing).held ++ [b] := List.reverse_cons
    -- The last byte of a header has it judged; any other one is kept.
    rw [push]
    split
    next hmore =>
      refine ⟨⟨by omega, ?_⟩, hheld⟩
      rw [List.length_cons]
      omega
    next hlast =>
      rw [hheld]
      apply judge_sound
      rw [← hheld, List.length_reverse, List.length_cons]
      omega
  | inPayload header read missing deadline =>
    obtain ⟨hpos, hlen, hlimit, hd⟩ := h
    have hheld : (b :: read).reverse = (inPayload header read missing deadline).held ++ [b] :=
      List.reverse_cons
    obtain ⟨hle, hdecl⟩ := Header.length_of_decode hd
    have hd' : Header.decode rules.me (b :: read).reverse = .ok header := by
      rw [List.reverse_cons, Header.decode_append rules.me [b] hle, hd]
    -- The header has been read before, so it says how long the whole frame is.
    rw [push]
    split
    next hmore =>
      refine ⟨⟨by omega, ?_, hlimit, hd'⟩, hheld⟩
      rw [List.length_cons]
      omega
    next hlast =>
      obtain ⟨hle', hdecl'⟩ := Header.length_of_decode hd'
      have hsize : (b :: read).reverse.length =
          headerSize + Header.declared (b :: read).reverse := by
        rw [← hdecl', List.length_reverse, List.length_cons]
        unfold Header.frameSize at hlen
        omega
      have hw : WholeFrame rules.limit (b :: read).reverse := ⟨hle', hsize, by omega⟩
      exact ⟨⟨hw, hd'⟩, hheld⟩

/-! ## Bytes that arrive together -/

/-- The frames that a reader yields and what it holds afterwards are the bytes that it held and the
bytes that have arrived.  It stops only at a header that declares too much. -/
theorem feed_spec (now : Nat) (bs : Bytes) {r : Reader} (h : r.Sound rules) :
    ∃ rest, r.held ++ bs = ((r.feed rules now bs).1.map RawFrame.bytes).flatten ++ rest ∧
      (∀ f ∈ (r.feed rules now bs).1, f.Sound rules) ∧
      ((∃ next, (r.feed rules now bs).2 = .ok next ∧ next.Sound rules ∧ next.held = rest) ∨
        (r.feed rules now bs).2 = .error (.oversized (Header.declared rest) rules.limit) ∧
          headerSize ≤ rest.length ∧ rules.limit < Header.declared rest) := by
  -- Byte by byte: the reader goes on, yields a frame and starts again, or refuses a header.
  induction bs generalizing r with
  | nil =>
    refine ⟨r.held, List.append_nil _, fun f hf => absurd hf List.not_mem_nil, .inl ?_⟩
    exact ⟨r, rfl, h, rfl⟩
  | cons b bs ih =>
    have hpush := push_sound now b h
    have hsplit : r.held ++ b :: bs = (r.held ++ [b]) ++ bs := by
      rw [List.append_assoc, List.singleton_append]
    rw [hsplit]
    unfold feed
    cases hp : r.push rules now b with
    | reading next =>
      rw [hp] at hpush
      obtain ⟨hs, hheld⟩ := hpush
      rw [← hheld]
      exact ih hs
    | complete f =>
      rw [hp] at hpush
      obtain ⟨hs, hbytes⟩ := hpush
      obtain ⟨rest, heq, hall, hend⟩ := ih sound_start
      rw [held_start, List.nil_append] at heq
      refine ⟨rest, ?_, ?_, hend⟩
      · rw [List.map_cons, List.flatten_cons, hbytes, List.append_assoc (_ ++ _), ← heq]
      · intro g hg
        rcases List.mem_cons.1 hg with rfl | hg
        · exact hs
        · exact hall g hg
    | refused reason =>
      rw [hp] at hpush
      obtain ⟨hlen, hover, rfl⟩ := hpush
      refine ⟨(r.held ++ [b]) ++ bs, rfl, fun f hf => absurd hf List.not_mem_nil, .inr ?_⟩
      rw [Header.declared_append bs hlen, List.length_append]
      exact ⟨rfl, by omega, hover⟩

/-! ## The end of a stream -/

/-- Why a peer is dropped when its stream ends is decided by the bytes of the frame under way. -/
theorem atEnd_eq {r : Reader} (h : r.Sound rules) :
    r.atEnd = if r.held.length < headerSize then .closed
      else .truncated (Header.declared r.held) := by
  cases r with
  | inHeader read missing =>
    obtain ⟨hpos, hlen⟩ := h
    have hshort : (inHeader read missing).held.length < headerSize := by
      show read.reverse.length < headerSize
      rw [List.length_reverse]
      omega
    rw [if_pos hshort]
    rfl
  | inPayload header read missing deadline =>
    obtain ⟨-, -, -, hd⟩ := h
    obtain ⟨hle, hdecl⟩ := Header.length_of_decode hd
    have hlong : ¬ (inPayload header read missing deadline).held.length < headerSize := by
      show ¬ read.reverse.length < headerSize
      omega
    rw [if_neg hlong]
    show Disconnect.truncated header.length = .truncated (Header.declared read.reverse)
    rw [hdecl]

end Reader

end EvictionBus.Relay

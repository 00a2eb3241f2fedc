import EvictionBus.Frame.Stream
import EvictionBus.Proofs.Frame.Whole

/-!
# What a codec reads from a stream

`Codec.drain` cuts a buffer into whole frames, each of which is taken in exactly once, up to the
first bytes that are no whole frame: there is no more of them yet, or their header declares too much.
-/

namespace EvictionBus

namespace Codec

variable {c : Codec} {buffer rest raw : Bytes} {f : Frame}

/-! ## One frame -/

theorem checkLength_eq_ok_iff {length : Nat} :
    c.checkLength length = .ok () ↔ length ≤ c.limit := by
  unfold checkLength
  split <;> simp_all

theorem decodeDatagram_of_whole (h : WholeFrame c.limit raw) :
    ∃ header, Header.decode c.identity raw = .ok header ∧
      c.decodeDatagram raw = .ok ⟨header, raw.drop headerSize⟩ := by
  obtain ⟨header, hd, hl, -⟩ := Header.exists_decode c.identity h.header_le
  refine ⟨header, hd, ?_⟩
  have hcheck : c.checkLength header.length = .ok () :=
    checkLength_eq_ok_iff.2 (by rw [hl]; exact h.declared_le)
  have hlen : (raw.drop headerSize).length = header.length := by
    rw [List.length_drop, hl]
    have := h.length_eq
    omega
  -- The two checks in the order in which they are made: the limit, and then the length.
  unfold decodeDatagram decodeHeader
  rw [hd]
  change (c.checkLength header.length >>= fun _ => _) = _
  rw [hcheck]
  change (if (raw.drop headerSize).length = header.length then _ else _) = _
  rw [if_pos hlen]
  rfl

theorem whole_of_decodeDatagram (h : c.decodeDatagram raw = .ok f) : WholeFrame c.limit raw := by
  unfold decodeDatagram at h
  cases hheader : c.decodeHeader raw with
  | error e => simp [hheader, Bind.bind, Except.bind] at h
  | ok header =>
    obtain ⟨hle, hlength⟩ := Header.length_of_decode hheader
    cases hcheck : c.checkLength header.length with
    | error e => simp [hheader, hcheck, Bind.bind, Except.bind] at h
    | ok _ =>
      have hlimit := checkLength_eq_ok_iff.mp hcheck
      simp only [hheader, hcheck, Bind.bind, Except.bind, List.length_drop] at h
      split at h
      · exact ⟨hle, by omega, by omega⟩
      · cases h

theorem decode_of_short (h : buffer.length < headerSize) : c.decode buffer = .ok none := by
  have htake : (buffer.take headerSize).length < headerSize := by
    rw [List.length_take]
    omega
  obtain ⟨e, he⟩ := Header.decode_of_short c.identity htake
  unfold decode decodeHeader
  rw [he]

theorem exists_decode_take (h : headerSize ≤ buffer.length) :
    ∃ header, Header.decode c.identity (buffer.take headerSize) = .ok header ∧
      Header.decode c.identity buffer = .ok header ∧ header.length = Header.declared buffer := by
  obtain ⟨header, hd, hl, -⟩ := Header.exists_decode c.identity h
  have htake : headerSize ≤ (buffer.take headerSize).length := by
    rw [List.length_take]
    omega
  -- Only the first bytes of a buffer are read for its header.
  refine ⟨header, ?_, hd, hl⟩
  rw [← hd]
  conv => rhs; rw [← List.take_append_drop headerSize buffer]
  exact (Header.decode_append c.identity _ htake).symm

theorem decode_of_oversized (h : headerSize ≤ buffer.length)
    (hl : c.limit < Header.declared buffer) :
    c.decode buffer = .error (.payloadTooLarge (Header.declared buffer) c.limit) := by
  obtain ⟨header, hd, -, hlen⟩ := exists_decode_take (c := c) h
  have hc : c.checkLength header.length = .error (.payloadTooLarge header.length c.limit) := by
    rw [checkLength, if_neg (by omega)]
  rw [← hlen]
  simp only [decode, decodeHeader, hd, hc]

theorem decode_of_partial (h : headerSize ≤ buffer.length) (hl : Header.declared buffer ≤ c.limit)
    (hp : buffer.length < headerSize + Header.declared buffer) : c.decode buffer = .ok none := by
  obtain ⟨header, hd, -, hlen⟩ := exists_decode_take (c := c) h
  have hc : c.checkLength header.length = .ok () := checkLength_eq_ok_iff.2 (by omega)
  have hpay : ((buffer.drop headerSize).take header.length).length < header.length := by
    rw [List.length_take, List.length_drop]
    omega
  simp only [decode, decodeHeader, hd, hc]
  rw [if_pos hpay]

theorem decode_whole (h : WholeFrame c.limit raw) (rest : Bytes) :
    ∃ f, c.decodeDatagram raw = .ok f ∧ c.decode (raw ++ rest) = .ok (some (f, rest)) := by
  obtain ⟨header, hraw, hdatagram⟩ := decodeDatagram_of_whole h
  refine ⟨_, hdatagram, ?_⟩
  have hlen : headerSize ≤ (raw ++ rest).length := by
    rw [List.length_append]
    have := h.header_le
    omega
  obtain ⟨header', hd, hall, hdecl⟩ := exists_decode_take (c := c) hlen
  rw [Header.decode_append c.identity rest h.header_le, hraw] at hall
  cases hall
  rw [Header.declared_append rest h.header_le] at hdecl
  have hc : c.checkLength header.length = .ok () := by
    rw [checkLength_eq_ok_iff, hdecl]
    exact h.declared_le
  have hsize : (raw.drop headerSize).length = header.length := by
    rw [List.length_drop, h.length_eq, hdecl]
    omega
  -- The payload is what the header says it is, and the rest begins behind it.
  have hpay : ((raw ++ rest).drop headerSize).take header.length = raw.drop headerSize := by
    rw [List.drop_append_of_le_length h.header_le, ← hsize, List.take_left]
  have hframe : raw.length = header.frameSize := by
    rw [h.length_eq, Header.frameSize, hdecl]
  simp only [decode, decodeHeader, hd, hc, hpay]
  rw [if_neg (by omega), ← hframe, List.drop_left]

/-- What `decode` finds in a buffer: too large a frame, a frame with what follows it, or nothing
yet. -/
theorem decode_cases (c : Codec) (buffer : Bytes) :
    (headerSize ≤ buffer.length ∧ c.limit < Header.declared buffer ∧
      c.decode buffer = .error (.payloadTooLarge (Header.declared buffer) c.limit)) ∨
    (Unfinished c.limit buffer ∧ c.decode buffer = .ok none) ∨
    (∃ raw rest f, buffer = raw ++ rest ∧ WholeFrame c.limit raw ∧
      c.decodeDatagram raw = .ok f ∧ c.decode buffer = .ok (some (f, rest))) := by
  by_cases hshort : buffer.length < headerSize
  · exact .inr (.inl ⟨unfinished_of_short hshort, decode_of_short hshort⟩)
  have hlen : headerSize ≤ buffer.length := by omega
  by_cases hover : c.limit < Header.declared buffer
  · exact .inl ⟨hlen, hover, decode_of_oversized hlen hover⟩
  have hle : Header.declared buffer ≤ c.limit := by omega
  by_cases hp : buffer.length < headerSize + Header.declared buffer
  · exact .inr (.inl ⟨unfinished_of_partial hlen hp, decode_of_partial hlen hle hp⟩)
  -- What is left is a buffer with a whole frame at its front.
  let size := headerSize + Header.declared buffer
  have hsplit : buffer.take size ++ buffer.drop size = buffer := List.take_append_drop _ _
  have htake : (buffer.take size).length = size := by
    rw [List.length_take]
    omega
  have hhead : headerSize ≤ (buffer.take size).length := by omega
  have hdecl : Header.declared (buffer.take size) = Header.declared buffer := by
    rw [← Header.declared_append (buffer.drop size) hhead, hsplit]
  have hw : WholeFrame c.limit (buffer.take size) := ⟨hhead, by rw [htake, hdecl], by omega⟩
  obtain ⟨f, hf, hd⟩ := decode_whole hw (buffer.drop size)
  rw [hsplit] at hd
  exact .inr (.inr ⟨_, _, f, hsplit.symm, hw, hf, hd⟩)

/-! ## All frames of a buffer -/

/-- The byte strings are whole frames, and these are what the codec reads in them. -/
structure Reads (c : Codec) (raws : List Bytes) (fs : List Frame) : Prop where
  whole : ∀ raw ∈ raws, WholeFrame c.limit raw
  frames : raws.map c.decodeDatagram = fs.map .ok

theorem Reads.nil (c : Codec) : c.Reads [] [] :=
  ⟨fun _ h => absurd h List.not_mem_nil, rfl⟩

theorem Reads.cons {raws : List Bytes} {fs : List Frame} (hw : WholeFrame c.limit raw)
    (hf : c.decodeDatagram raw = .ok f) (h : c.Reads raws fs) :
    c.Reads (raw :: raws) (f :: fs) := by
  constructor
  · intro r hr
    rcases List.mem_cons.1 hr with rfl | hr
    · exact hw
    · exact h.whole r hr
  · rw [List.map_cons, List.map_cons, hf, h.frames]

theorem Reads.append {raws more : List Bytes} {fs gs : List Frame} (h : c.Reads raws fs)
    (h' : c.Reads more gs) : c.Reads (raws ++ more) (fs ++ gs) := by
  constructor
  · intro r hr
    rcases List.mem_append.1 hr with hr | hr
    · exact h.whole r hr
    · exact h'.whole r hr
  · rw [List.map_append, List.map_append, h.frames, h'.frames]

theorem drain_of_error {e : FrameError} (h : c.decode buffer = .error e) :
    c.drain buffer = ([], .error e) := by
  rw [drain]
  split <;> simp_all

theorem drain_of_none (h : c.decode buffer = .ok none) : c.drain buffer = ([], .ok buffer) := by
  rw [drain]
  split <;> simp_all

theorem drain_of_some (h : c.decode buffer = .ok (some (f, rest))) :
    c.drain buffer = (f :: (c.drain rest).1, (c.drain rest).2) := by
  rw [drain]
  split <;> simp_all

/-- `drain` takes every whole frame off the front of a buffer.  It stops where no frame is complete,
or where a header declares too much. -/
theorem drain_spec (c : Codec) (buffer : Bytes) :
    ∃ raws rest, buffer = raws.flatten ++ rest ∧ c.Reads raws (c.drain buffer).1 ∧
      ((c.drain buffer).2 = .ok rest ∧ Unfinished c.limit rest ∨
        (c.drain buffer).2 = .error (.payloadTooLarge (Header.declared rest) c.limit) ∧
          headerSize ≤ rest.length ∧ c.limit < Header.declared rest) := by
  -- By recursion as in `drain`: a whole frame is taken off as long as there is one.
  induction buffer using drain.induct c with
  | case1 buffer e hd =>
    rw [drain_of_error hd]
    refine ⟨[], buffer, rfl, Reads.nil c, .inr ?_⟩
    rcases decode_cases c buffer with ⟨hlen, hover, h⟩ | ⟨-, h⟩ | ⟨_, _, _, -, -, -, h⟩
    · rw [hd] at h
      cases h
      exact ⟨rfl, hlen, hover⟩
    · rw [hd] at h
      cases h
    · rw [hd] at h
      cases h
  | case2 buffer hd =>
    rw [drain_of_none hd]
    refine ⟨[], buffer, rfl, Reads.nil c, .inl ⟨rfl, ?_⟩⟩
    rcases decode_cases c buffer with ⟨-, -, h⟩ | ⟨hu, -⟩ | ⟨_, _, _, -, -, -, h⟩
    · rw [hd] at h
      cases h
    · exact hu
    · rw [hd] at h
      cases h
  | case3 buffer f rest hd _ _ _ _ ih =>
    rw [drain_of_some hd]
    obtain ⟨raws, last, hrest, hreads, hend⟩ := ih
    rcases decode_cases c buffer with ⟨-, -, h⟩ | ⟨-, h⟩ | ⟨raw, after, g, hb, hw, hg, h⟩
    · rw [hd] at h
      cases h
    · rw [hd] at h
      cases h
    · rw [hd] at h
      cases h
      refine ⟨raw :: raws, last, ?_, hreads.cons hw hg, hend⟩
      rw [List.flatten_cons, List.append_assoc, ← hrest, hb]

theorem decode_of_unfinished (h : Unfinished c.limit buffer)
    (hd : c.decode buffer = .ok (some (f, rest))) : False := by
  rcases decode_cases c buffer with ⟨-, -, h'⟩ | ⟨-, h'⟩ | ⟨raw, after, g, hb, hw, -, -⟩
  · rw [hd] at h'
    cases h'
  · rw [hd] at h'
    cases h'
  -- It would have been at the front.
  · exact h raw after hb hw

theorem drainFinal_of_unfinished (h : Unfinished c.limit buffer) :
    (c.drainFinal buffer).1 = [] := by
  rw [drainFinal]
  split
  next => rfl
  next => rfl
  next f rest hd =>
    unfold decodeFinal at hd
    split at hd
    · cases hd
    next found hfound =>
      cases hd
      -- The final reading finds what the one before has found, and nothing more.
      exact absurd hfound fun hf => decode_of_unfinished h hf
    · split at hd <;> cases hd

end Codec

end EvictionBus

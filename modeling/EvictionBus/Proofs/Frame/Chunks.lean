import EvictionBus.Proofs.Frame.Stream

/-!
# Streams in chunks

A codec cannot tell where the chunks of a stream begin.  What it finds in a buffer stays found when
more bytes follow, so a reader that is fed a stream piece by piece yields what it would have yielded
for all of it at once.  The frames that one node has written are therefore read back by every other
node, wherever the stream has been cut on its way.
-/

namespace EvictionBus

namespace Codec

variable {c d : Codec} {buffer rest raw : Bytes} {f : Frame}

/-! ## More bytes behind a buffer -/

theorem decode_append_of_some (more : Bytes) (h : c.decode buffer = .ok (some (f, rest))) :
    c.decode (buffer ++ more) = .ok (some (f, rest ++ more)) := by
  rcases decode_cases c buffer with ⟨-, -, h'⟩ | ⟨-, h'⟩ | ⟨raw, after, g, hb, hw, hg, h'⟩
  · rw [h] at h'
    cases h'
  · rw [h] at h'
    cases h'
  · rw [h] at h'
    cases h'
    -- The frame is whole by itself, and whatever comes behind it is left over.
    obtain ⟨f', hf', hd⟩ := decode_whole hw (rest ++ more)
    rw [hg] at hf'
    cases hf'
    rw [hb, List.append_assoc, hd]

theorem decode_append_of_error {e : FrameError} (more : Bytes) (h : c.decode buffer = .error e) :
    c.decode (buffer ++ more) = .error e := by
  rcases decode_cases c buffer with ⟨hlen, hover, h'⟩ | ⟨-, h'⟩ | ⟨_, _, _, -, -, -, h'⟩
  · rw [h] at h'
    cases h'
    have hdecl := Header.declared_append more hlen
    rw [← hdecl] at hover ⊢
    apply decode_of_oversized _ hover
    rw [List.length_append]
    omega
  · rw [h] at h'
    cases h'
  · rw [h] at h'
    cases h'

theorem drain_append_of_error {e : FrameError} (more : Bytes) (h : (c.drain buffer).2 = .error e) :
    c.drain (buffer ++ more) = c.drain buffer := by
  induction buffer using drain.induct c with
  | case1 buffer e' hd => rw [drain_of_error hd, drain_of_error (decode_append_of_error more hd)]
  | case2 buffer hd =>
    rw [drain_of_none hd] at h
    cases h
  | case3 buffer f rest hd _ _ _ _ ih =>
    rw [drain_of_some hd] at h
    rw [drain_of_some hd, drain_of_some (decode_append_of_some more hd), ih h]

/-- More bytes behind a buffer are read together with what the buffer has left over. -/
theorem drain_append_of_ok (more : Bytes) (h : (c.drain buffer).2 = .ok rest) :
    c.drain (buffer ++ more) =
      ((c.drain buffer).1 ++ (c.drain (rest ++ more)).1, (c.drain (rest ++ more)).2) := by
  induction buffer using drain.induct c with
  | case1 buffer e hd =>
    rw [drain_of_error hd] at h
    cases h
  | case2 buffer hd =>
    rw [drain_of_none hd] at h
    cases h
    rw [drain_of_none hd, List.nil_append]
  | case3 buffer f next hd _ _ _ _ ih =>
    rw [drain_of_some hd] at h
    rw [drain_of_some hd, drain_of_some (decode_append_of_some more hd), ih h, List.cons_append]

/-! ## The last bytes -/

theorem decode_of_drain (h : (c.drain buffer).2 = .ok rest) : c.decode rest = .ok none := by
  induction buffer using drain.induct c with
  | case1 buffer e hd =>
    rw [drain_of_error hd] at h
    cases h
  | case2 buffer hd =>
    rw [drain_of_none hd] at h
    cases h
    exact hd
  | case3 buffer f next hd _ _ _ _ ih =>
    rw [drain_of_some hd] at h
    exact ih h

theorem drainFinal_of_none (h : c.decode buffer = .ok none) :
    c.drainFinal buffer =
      ([], if buffer = [] then none else some (.truncated (c.needed buffer) buffer.length)) := by
  have hfinal : c.decodeFinal buffer =
      if buffer = [] then .ok none else .error (.truncated (c.needed buffer) buffer.length) := by
    unfold decodeFinal
    rw [h]
  rw [drainFinal]
  split
  next e he =>
    rw [hfinal] at he
    split at he
    · cases he
    next hb =>
      cases he
      rw [if_neg hb]
  next he =>
    rw [hfinal] at he
    split at he
    next hb => rw [if_pos hb]
    · cases he
  next f rest he =>
    rw [hfinal] at he
    split at he <;> cases he

end Codec

/-! ## Chunks -/

namespace FrameReader

variable (c : Codec)

theorem feed_of_ok {pending chunk rest : Bytes} (h : (c.drain (pending ++ chunk)).2 = .ok rest) :
    (reading pending).feed c chunk =
      (reading rest, (c.drain (pending ++ chunk)).1.map .ok) := by
  unfold feed
  rcases hd : c.drain (pending ++ chunk) with ⟨fs, outcome⟩
  rw [hd] at h
  simp only [hd, show outcome = .ok rest from h]

theorem feed_of_error {pending chunk : Bytes} {e : FrameError}
    (h : (c.drain (pending ++ chunk)).2 = .error e) :
    (reading pending).feed c chunk =
      (stopped, (c.drain (pending ++ chunk)).1.map .ok ++ [.error e]) := by
  unfold feed
  rcases hd : c.drain (pending ++ chunk) with ⟨fs, outcome⟩
  rw [hd] at h
  simp only [hd, show outcome = .error e from h]

/-- A reader that is fed two chunks yields what it yields for both in one. -/
theorem feed_append (r : FrameReader) (chunk more : Bytes) :
    r.feed c (chunk ++ more) =
      (((r.feed c chunk).1.feed c more).1,
        (r.feed c chunk).2 ++ ((r.feed c chunk).1.feed c more).2) := by
  cases r with
  | stopped => rfl
  | reading pending =>
    cases hout : (c.drain (pending ++ chunk)).2 with
    | error e =>
      have hboth := c.drain_append_of_error more hout
      rw [List.append_assoc] at hboth
      rw [feed_of_error c hout, feed_of_error c (by rw [hboth, hout]), hboth]
      exact Prod.ext rfl (List.append_nil _).symm
    | ok rest =>
      have hboth := c.drain_append_of_ok more hout
      rw [List.append_assoc] at hboth
      rw [feed_of_ok c hout]
      -- The second chunk ends in the same way behind the rest as behind the first chunk.
      cases hlast : (c.drain (rest ++ more)).2 with
      | error e =>
        rw [feed_of_error c hlast, feed_of_error c (by rw [hboth, hlast]), hboth, List.map_append,
          List.append_assoc]
      | ok last =>
        rw [feed_of_ok c hlast, feed_of_ok c (by rw [hboth, hlast]), hboth, List.map_append]

/-- The chunks of a stream count only together. -/
theorem run_chunks (r : FrameReader) (chunk : Bytes) (chunks : List Bytes) (later : List Arrival) :
    (r.feed c chunk).2 ++ (r.feed c chunk).1.run c (chunks.map .chunk ++ later) =
      (r.feed c (chunk ++ chunks.flatten)).2 ++
        (r.feed c (chunk ++ chunks.flatten)).1.run c later := by
  -- The next chunk joins the ones before it.
  induction chunks generalizing chunk with
  | nil => rw [List.map_nil, List.nil_append, List.flatten_nil, List.append_nil]
  | cons next chunks ih =>
    rw [List.flatten_cons, ← List.append_assoc, ← ih (chunk ++ next), feed_append c r chunk next]
    show _ ++ (((r.feed c chunk).1.feed c next).2 ++ _) = _
    rw [List.append_assoc]
    rfl

end FrameReader

/-- Of the chunks of a stream a reader only sees the bytes in order. -/
theorem readStream_chunks (c : Codec) (chunks : List Bytes) (later : List Arrival) :
    readStream c (chunks.map .chunk ++ later) =
      (FrameReader.start.feed c chunks.flatten).2 ++
        (FrameReader.start.feed c chunks.flatten).1.run c later := by
  have hempty : FrameReader.start.feed c [] = (FrameReader.start, []) := by
    have hnone : c.decode [] = .ok none := Codec.decode_of_short (by decide)
    have hdrain : c.drain ([] ++ []) = ([], .ok []) := Codec.drain_of_none hnone
    unfold FrameReader.start
    rw [FrameReader.feed_of_ok c (congrArg Prod.snd hdrain), hdrain]
    rfl
  have h := FrameReader.run_chunks c FrameReader.start [] chunks later
  rw [hempty] at h
  exact h

/-- The error at which a stream stops, by what is left of it behind its last frame. -/
def Codec.stopAt (c : Codec) (rest : Bytes) : Option FrameError :=
  if rest.length < headerSize then
    if rest = [] then none else some (.truncated headerSize rest.length)
  else if c.limit < Header.declared rest then
    some (.payloadTooLarge (Header.declared rest) c.limit)
  else some (.truncated (headerSize + Header.declared rest) rest.length)

theorem Codec.needed_eq (c : Codec) (bs : Bytes) :
    c.needed bs =
      if bs.length < headerSize then headerSize else headerSize + Header.declared bs := by
  unfold needed decodeHeader
  by_cases h : bs.length < headerSize
  · have htake : (bs.take headerSize).length < headerSize := by
      rw [List.length_take]
      omega
    obtain ⟨e, he⟩ := Header.decode_of_short c.identity htake
    rw [he, if_pos h]
  · obtain ⟨header, hd, -, hl⟩ := exists_decode_take (c := c) (Nat.not_lt.1 h)
    rw [hd, if_neg h]
    show headerSize + header.length = _
    rw [hl]

/-- A stream is read as whole frames up to its end or to the first bytes that are none. -/
theorem readStream_spec (c : Codec) (chunks : List Bytes) :
    ∃ raws fs rest, chunks.flatten = raws.flatten ++ rest ∧ c.Reads raws fs ∧
      Unfinished c.limit rest ∧
      readStream c (chunks.map .chunk) = fs.map .ok ++ (c.stopAt rest).toList.map .error := by
  obtain ⟨raws, rest, hflat, hreads, hend⟩ := c.drain_spec chunks.flatten
  have hread := readStream_chunks c chunks []
  rw [List.append_nil] at hread
  refine ⟨raws, _, rest, hflat, hreads, ?_⟩
  rcases hend with ⟨hok, hu⟩ | ⟨herror, hlen, hover⟩
  · refine ⟨hu, ?_⟩
    have hfeed : FrameReader.start.feed c chunks.flatten =
        (.reading rest, (c.drain chunks.flatten).1.map .ok) := FrameReader.feed_of_ok c hok
    have hnone := Codec.decode_of_drain hok
    have hfinal := Codec.drainFinal_of_none hnone
    rw [hread, hfeed]
    show _ ++ ((c.drainFinal rest).1.map Except.ok ++
      (c.drainFinal rest).2.toList.map Except.error) = _
    rw [hfinal, List.map_nil, List.nil_append, Codec.needed_eq]
    congr 3
    unfold Codec.stopAt
    by_cases hshort : rest.length < headerSize
    · rw [if_pos hshort, if_pos hshort]
    · -- A header that declared too much would have been an error before.
      have hle : ¬ c.limit < Header.declared rest := by
        intro hover
        rw [Codec.decode_of_oversized (Nat.not_lt.1 hshort) hover] at hnone
        cases hnone
      have hne : rest ≠ [] := by
        rintro rfl
        exact hshort (by decide)
      rw [if_neg hshort, if_neg hshort, if_neg hle, if_neg hne]
  · refine ⟨unfinished_of_oversized hover, ?_⟩
    have hfeed : FrameReader.start.feed c chunks.flatten =
        (.stopped, (c.drain chunks.flatten).1.map .ok ++ [.error _]) :=
      FrameReader.feed_of_error c herror
    have hstop : c.stopAt rest = some (.payloadTooLarge (Header.declared rest) c.limit) := by
      unfold Codec.stopAt
      rw [if_neg (Nat.not_lt.2 hlen), if_pos hover]
    rw [hread, hfeed, hstop]
    exact List.append_nil _

/-! ## Frames of another node -/

/-- The frame that `me` reads where `sender` has written a payload. -/
def Frame.received (me sender : Identity) (op : OpCode) (payload : Bytes) : Frame :=
  ⟨⟨sender, op, payload.length, decide (me = sender)⟩, payload⟩

namespace Codec

variable {c d : Codec} {op : OpCode} {payload raw : Bytes}

/-- Appends frames to `out`, one after the other. -/
def appendAll (c : Codec) (out : Bytes) (items : List (OpCode × Bytes)) : Except FrameError Bytes :=
  items.foldlM (fun out item => c.append out item.1 item.2) out

theorem encode_eq_ok (h : c.encode op payload = .ok raw) :
    payload.length ≤ c.limit ∧ op.isEncodable = true ∧
      raw = Header.bytes c.identity op payload.length ++ payload := by
  unfold encode at h
  cases hc : c.checkLength payload.length with
  | error e =>
    rw [hc] at h
    cases h
  | ok u =>
    rw [hc] at h
    obtain ⟨hop, -, hraw⟩ := encodeFrame_eq_ok h
    exact ⟨checkLength_eq_ok_iff.1 hc, hop, hraw⟩

/-- Both ways of writing a frame accept the same payloads and produce the same bytes. -/
theorem append_eq (c : Codec) (out : Bytes) (op : OpCode) (payload : Bytes) :
    c.append out op payload = (c.encode op payload).map (out ++ ·) := by
  unfold append encode encodeFrame putHeader
  cases c.checkLength payload.length with
  | error e => rfl
  | ok u =>
    show (Except.bind (if _ then _ else _) _ : Except FrameError Bytes) =
      Except.map _ (Except.map _ (if _ then _ else _))
    split
    · rfl
    · split
      · rfl
      · show Except.ok _ = Except.ok _
        rw [List.nil_append, List.append_assoc]

theorem appendAll_eq (c : Codec) (out : Bytes) (items : List (OpCode × Bytes)) :
    c.appendAll out items =
      (items.mapM fun item => c.encode item.1 item.2).map (out ++ ·.flatten) := by
  unfold appendAll
  induction items generalizing out with
  | nil =>
    show Except.ok out = Except.ok (out ++ [])
    rw [List.append_nil]
  | cons item items ih =>
    rw [List.foldlM_cons, List.mapM_cons, append_eq]
    cases c.encode item.1 item.2 with
    | error e => rfl
    | ok raw =>
      show items.foldlM _ (out ++ raw) = _
      rw [ih]
      cases items.mapM fun item => c.encode item.1 item.2 with
      | error e => rfl
      | ok raws =>
        show Except.ok ((out ++ raw) ++ raws.flatten) = Except.ok (out ++ (raw :: raws).flatten)
        rw [List.flatten_cons, List.append_assoc]

theorem decode_encode (hlimit : c.limit ≤ d.limit) (h : c.encode op payload = .ok raw)
    (rest : Bytes) : d.decode (raw ++ rest) =
      .ok (some (Frame.received d.identity c.identity op payload, rest)) := by
  obtain ⟨hle, hop, rfl⟩ := encode_eq_ok h
  have hmax : payload.length ≤ maxPayload := Nat.le_trans hle c.limit_le
  have hw := wholeFrame_bytes c.identity op (Nat.le_trans hle hlimit) hmax
  obtain ⟨f, hf, hd⟩ := decode_whole hw rest
  rw [hd]
  -- The header is read as it has been written, and so is the payload behind it.
  obtain ⟨header, hh, hf'⟩ := decodeDatagram_of_whole hw
  rw [Header.decode_bytes d.identity c.identity payload hop hmax] at hh
  cases hh
  rw [hf] at hf'
  cases hf'
  rw [← Header.length_bytes c.identity op payload.length, List.drop_left]
  rfl

/-- What one node has written another one takes apart without anything being left over. -/
theorem drain_encoded {items : List (OpCode × Bytes)} {raws : List Bytes}
    (hlimit : c.limit ≤ d.limit)
    (h : (items.mapM fun item => c.encode item.1 item.2) = .ok raws) :
    d.drain raws.flatten =
      (items.map fun item => Frame.received d.identity c.identity item.1 item.2, .ok []) := by
  induction items generalizing raws with
  | nil =>
    cases h
    exact drain_of_none (decode_of_short (by decide))
  | cons item items ih =>
    rw [List.mapM_cons] at h
    cases hraw : c.encode item.1 item.2 with
    | error e =>
      rw [hraw] at h
      cases h
    | ok raw =>
      cases hraws : (items.mapM fun item => c.encode item.1 item.2) with
      | error e =>
        rw [hraw, hraws] at h
        cases h
      | ok more =>
        rw [hraw, hraws] at h
        cases h
        rw [List.flatten_cons, drain_of_some (decode_encode hlimit hraw more.flatten), ih hraws]
        rfl

/-- Whatever its chunks, a stream is read in one way only.  If another node has written it frame by
frame, within the limit of the reader, then these frames are read, in order and without an error. -/
theorem readStream_of_flatten (d : Codec) :
    (∀ (c : Codec) (items : List (OpCode × Bytes)) (raws chunks : List Bytes),
      c.limit ≤ d.limit → (items.mapM fun item => c.encode item.1 item.2) = .ok raws →
      chunks.flatten = raws.flatten →
      c.appendAll [] items = .ok raws.flatten ∧
        readStream d (chunks.map .chunk) =
          items.map fun item => .ok (Frame.received d.identity c.identity item.1 item.2)) ∧
    ∀ (chunks others : List Bytes) (failure : Option IoError), chunks.flatten = others.flatten →
      readStream d (chunks.map .chunk ++ failure.toList.map .failure) =
        readStream d (others.map .chunk ++ failure.toList.map .failure) := by
  constructor
  · intro c items raws chunks hlimit hraws hflat
    refine ⟨by rw [appendAll_eq, hraws]; rfl, ?_⟩
    have hdrain := drain_encoded hlimit hraws
    have hread := readStream_chunks d chunks []
    have hfeed : (FrameReader.reading []).feed d raws.flatten =
        (.reading [], (d.drain raws.flatten).1.map .ok) :=
      FrameReader.feed_of_ok d (congrArg Prod.snd hdrain)
    rw [List.append_nil, hflat] at hread
    -- Nothing is left over, so that the end of the stream is no error.
    have hend : d.drainFinal [] = ([], none) :=
      drainFinal_of_none (decode_of_drain (congrArg Prod.snd hdrain))
    rw [hread, FrameReader.start, hfeed]
    show (d.drain raws.flatten).1.map .ok ++ (FrameReader.finish d (.reading [])).2 = _
    rw [hdrain, FrameReader.finish, hend, List.map_map]
    exact List.append_nil _
  · intro chunks others failure h
    rw [readStream_chunks, readStream_chunks, h]

/-- Two frames that arrive in two chunks, of which the first ends within a header. -/
theorem readStream_of_flatten_two_frames :
    let c := ofIdentity ⟨List.replicate 16 1, rfl⟩
    let d := (ofIdentity ⟨List.replicate 16 2, rfl⟩).withLimit 20000000
    let items : List (OpCode × Bytes) := [(.evict, [7, 8]), (.hello, [])]
    let raws : List Bytes :=
      [List.replicate 16 1 ++ [4, 2, 0, 0, 7, 8], List.replicate 16 1 ++ [1, 0, 0, 0]]
    let chunks := [raws.flatten.take 5, raws.flatten.drop 5]
    let reset : Option IoError := some ⟨.other, "connection reset"⟩
    (c.limit ≤ d.limit ∧ (items.mapM fun item => c.encode item.1 item.2) = .ok raws ∧
      chunks.flatten = raws.flatten) ∧
    readStream d (chunks.map .chunk) =
      [.ok ⟨⟨c.identity, .evict, 2, false⟩, [7, 8]⟩, .ok ⟨⟨c.identity, .hello, 0, false⟩, []⟩] ∧
    readStream d (chunks.map .chunk ++ reset.toList.map .failure) =
      readStream d (raws.map .chunk ++ reset.toList.map .failure) := by
  intro c d items raws chunks reset
  have hlimit : c.limit ≤ d.limit := by decide
  have hraws : (items.mapM fun item => c.encode item.1 item.2) = .ok raws := by rfl
  have hflat : chunks.flatten = raws.flatten := by decide
  refine ⟨⟨hlimit, hraws, hflat⟩, ?_, ?_⟩
  · exact ((readStream_of_flatten d).1 c items raws chunks hlimit hraws hflat).2
  · exact (readStream_of_flatten d).2 chunks raws reset hflat

end Codec

end EvictionBus

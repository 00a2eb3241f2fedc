import EvictionBus.Proofs.Frame.Buffer

/-!
# Frames written into a buffer

`writeFrame` puts a whole frame behind what a buffer holds, the one that `encode` returns, or it fails
as `encode` does and leaves the buffer alone.  So does `writeHeader` with the header of a frame.  After
any calls, failed ones among them, the buffer has gained the frames of the calls that succeeded, and
the codec that has written them reads them back.
-/

namespace EvictionBus

/-! ## One call -/

/-- What a call has done to a buffer into which it was to write `whole`: `answer` is what it has
returned, and `left` is the buffer after it. -/
structure Writes (buffer : Bytes) (whole : Except FrameError Bytes)
    (answer : Except FrameError Unit) (left : Bytes) : Prop where
  succeeds_iff : answer = .ok () ↔ ∃ raw, whole = .ok raw
  fails_iff : ∀ e, answer = .error e ↔ whole = .error e
  written : ∀ raw, whole = .ok raw → left = buffer ++ raw
  unchanged : ∀ e, answer = .error e → left = buffer

/-- The bytes of what is written; of an error there are none. -/
def gained : Except FrameError Bytes → Bytes
  | .ok raw => raw
  | .error _ => []

theorem writes_of_eq {buffer left : Bytes} {whole : Except FrameError Bytes}
    {answer : Except FrameError Unit}
    (h : (answer, left) = (whole.map fun _ => (), buffer ++ gained whole)) :
    Writes buffer whole answer left := by
  cases h
  cases whole with
  | error e =>
    exact {
      succeeds_iff := ⟨fun h => (by cases h), fun h => (by obtain ⟨raw, h⟩ := h; cases h)⟩
      fails_iff := fun e' => ⟨fun h => (by cases h; rfl), fun h => (by cases h; rfl)⟩
      written := fun raw h => (by cases h)
      unchanged := fun _ _ => List.append_nil buffer }
  | ok raw =>
    exact {
      succeeds_iff := ⟨fun _ => ⟨raw, rfl⟩, fun _ => rfl⟩
      fails_iff := fun e => ⟨fun h => (by cases h), fun h => (by cases h)⟩
      written := fun _ h => (by cases h; rfl)
      unchanged := fun _ h => (by cases h) }

/-- A header by itself, or why there is none. -/
def encodeHeader (sender : Identity) (op : OpCode) (length : Nat) : Except FrameError Bytes :=
  putHeader [] sender op length

theorem encodeHeader_eq_ok {sender : Identity} {op : OpCode} {length : Nat} {raw : Bytes}
    (h : encodeHeader sender op length = .ok raw) : raw = Header.bytes sender op length := by
  unfold encodeHeader putHeader at h
  split at h
  · cases h
  · split at h
    · cases h
    · cases h
      rfl

theorem writeHeader_eq (sender : Identity) (op : OpCode) (length : Nat) (buffer : Bytes) :
    (writeHeader sender op length).run.run buffer =
      ((encodeHeader sender op length).map fun _ => (),
        buffer ++ gained (encodeHeader sender op length)) := by
  -- Both tests come before the first byte is written.
  unfold writeHeader encodeHeader putHeader
  change StateT.run (ExceptT.run (if _ then _ else _)) buffer = _
  by_cases hop : op.isEncodable = true
  · rw [if_neg (not_not_intro hop), if_neg (not_not_intro hop)]
    change StateT.run (ExceptT.run (if _ then _ else _)) buffer = _
    by_cases hlen : maxPayload < length
    · rw [if_pos hlen, if_pos hlen]
      exact Prod.ext rfl (List.append_nil buffer).symm
    · rw [if_neg hlen, if_neg hlen]
      exact Prod.ext rfl (List.append_assoc buffer sender.bytes _)
  · rw [if_pos hop, if_pos hop]
    exact Prod.ext rfl (List.append_nil buffer).symm

/-- A header is the front of every frame whose payload has the length. -/
theorem encodeFrame_eq_header (sender : Identity) (op : OpCode) (payload : Bytes) :
    encodeFrame sender op payload =
      (encodeHeader sender op payload.length).map (· ++ payload) :=
  rfl

namespace Codec

variable {c : Codec} {op : OpCode} {payload raw : Bytes}

theorem writeFrame_eq (c : Codec) (op : OpCode) (payload buffer : Bytes) :
    (c.writeFrame op payload).run.run buffer =
      ((c.encode op payload).map fun _ => (), buffer ++ gained (c.encode op payload)) := by
  unfold writeFrame encode
  cases c.checkLength payload.length with
  | error e => exact Prod.ext rfl (List.append_nil buffer).symm
  | ok _ =>
    change ((writeHeader c.identity op payload.length >>= fun _ => writeBytes payload).run.run
      buffer) = ((encodeFrame c.identity op payload).map fun _ => (),
        buffer ++ gained (encodeFrame c.identity op payload))
    rw [ExceptT.run_bind, StateT.run_bind, writeHeader_eq, encodeFrame_eq_header]
    cases encodeHeader c.identity op payload.length with
    | error e => rfl
    | ok header => exact Prod.ext rfl (List.append_assoc buffer header payload)

/-! ## Many calls -/

/-- The answers to calls of `writeFrame`, one after the other. -/
def writeFrames (c : Codec) : List (OpCode × Bytes) →
    StateM Bytes (List (Except FrameError Unit))
  | [] => return []
  | item :: items => return (← (c.writeFrame item.1 item.2).run) :: (← c.writeFrames items)

/-- The items of which the codec makes frames. -/
def accepted (c : Codec) (items : List (OpCode × Bytes)) : List (OpCode × Bytes) :=
  items.filter fun item => (c.encode item.1 item.2).isOk

/-- The frames that the codec makes of items. -/
def encoded (c : Codec) (items : List (OpCode × Bytes)) : List Bytes :=
  items.filterMap fun item => (c.encode item.1 item.2).toOption

theorem flatten_encoded_cons (c : Codec) (item : OpCode × Bytes) (items : List (OpCode × Bytes)) :
    (c.encoded (item :: items)).flatten =
      gained (c.encode item.1 item.2) ++ (c.encoded items).flatten := by
  unfold encoded
  rw [List.filterMap_cons]
  cases c.encode item.1 item.2 <;> rfl

theorem writeFrames_eq (c : Codec) (items : List (OpCode × Bytes)) (buffer : Bytes) :
    (c.writeFrames items).run buffer =
      (items.map fun item => (c.encode item.1 item.2).map fun _ => (),
        buffer ++ (c.encoded items).flatten) := by
  induction items generalizing buffer with
  | nil => exact Prod.ext rfl (List.append_nil buffer).symm
  | cons item items ih =>
    rw [writeFrames, StateT.run_bind, writeFrame_eq]
    change (_ :: ((c.writeFrames items).run _).1, ((c.writeFrames items).run _).2) = _
    rw [ih, flatten_encoded_cons, List.map_cons, ← List.append_assoc]

theorem decodeDatagram_encode (h : c.encode op payload = .ok raw) :
    WholeFrame c.limit raw ∧
      c.decodeDatagram raw = .ok (Frame.received c.identity c.identity op payload) := by
  have hd := decode_encode (Nat.le_refl c.limit) h []
  rw [List.append_nil] at hd
  have hdatagram := decodeDatagram_eq_ok_iff.2 (takeFrame_of_some hd)
  exact ⟨whole_of_decodeDatagram hdatagram, hdatagram⟩

/-- What the codec has made of items it reads as these items. -/
theorem reads_encoded (c : Codec) (items : List (OpCode × Bytes)) :
    c.Reads (c.encoded items)
      ((c.accepted items).map fun item => Frame.received c.identity c.identity item.1 item.2) := by
  induction items with
  | nil => exact .nil c
  | cons item items ih =>
    unfold encoded accepted at ih ⊢
    cases h : c.encode item.1 item.2 with
    | error e =>
      rw [List.filterMap_cons_none (by rw [h]; rfl),
        List.filter_cons_of_neg (by rw [h]; exact Bool.false_ne_true)]
      exact ih
    | ok raw =>
      obtain ⟨hwhole, hd⟩ := decodeDatagram_encode h
      rw [List.filterMap_cons_some (by rw [h]; rfl), List.filter_cons_of_pos (by rw [h]; rfl)]
      exact ih.cons hwhole hd

theorem Reads.unique {raws : List Bytes} {fs gs : List Frame} (h : c.Reads raws fs)
    (h' : c.Reads raws gs) : fs = gs := by
  have hmap : fs.map (Except.ok : Frame → FrameItem) = gs.map .ok := h.frames.symm.trans h'.frames
  exact List.map_inj_right (fun _ _ hf => Except.ok.inj hf) |>.1 hmap

/-! ## Reading the buffer again -/

/-- In a buffer made by a codec there is nothing but the frames of the items that it has accepted. -/
theorem frames_of_encoded {items : List (OpCode × Bytes)} {raws : List Bytes} {fs : List Frame}
    {rest : Bytes} (hreads : c.Reads raws fs) (hrest : Unfinished c.limit rest)
    (hflat : (c.encoded items).flatten = raws.flatten ++ rest) :
    fs = (c.accepted items).map (fun item =>
      Frame.received c.identity c.identity item.1 item.2) ∧ rest = [] := by
  have hown := reads_encoded c items
  rw [← List.append_nil (c.encoded items).flatten] at hflat
  obtain ⟨rfl, rfl⟩ := flatten_append_inj hreads.whole hown.whole hrest unfinished_nil hflat.symm
  exact ⟨hreads.unique hown, rfl⟩

theorem readStream_encoded {items : List (OpCode × Bytes)} {chunks : List Bytes}
    (h : chunks.flatten = (c.encoded items).flatten) :
    readStream c (chunks.map .chunk) = (c.accepted items).map fun item =>
      .ok (Frame.received c.identity c.identity item.1 item.2) := by
  obtain ⟨raws, fs, rest, hflat, hreads, hrest, hread⟩ := readStream_spec c chunks
  obtain ⟨rfl, rfl⟩ := frames_of_encoded hreads hrest (h.symm.trans hflat)
  -- Behind the last frame the stream is over.
  have hstop : c.stopAt [] = none := rfl
  rw [hread, hstop, List.map_map]
  exact List.append_nil _

theorem takeFinals_encoded (c : Codec) (items : List (OpCode × Bytes)) :
    (c.takeFinals ((c.accepted items).length + 1)).run (c.encoded items).flatten =
      (((c.accepted items).map fun item =>
        .ok (some (Frame.received c.identity c.identity item.1 item.2))) ++ [.ok none], []) := by
  obtain ⟨raws, left, hflat, hreads, hu, hnone, hrun⟩ := takeFinals_spec c (c.encoded items).flatten
  obtain ⟨hframes, rfl⟩ := frames_of_encoded hreads hu hflat
  rw [hframes, List.length_map, hnone.2 rfl, List.map_map] at hrun
  exact hrun

/-- A header or a frame is written as a whole behind what the buffer holds, or not at all.  The calls
that fail are those for which there is no header or no frame, and after any calls the buffer has
gained the frames of the others.  In a buffer that was empty the codec reads just these. -/
theorem writes_whole_or_nothing (c : Codec) (buffer : Bytes) :
    (∀ (sender : Identity) (op : OpCode) (length : Nat),
      Writes buffer (encodeHeader sender op length)
        ((writeHeader sender op length).run.run buffer).1
        ((writeHeader sender op length).run.run buffer).2 ∧
      (∀ header, encodeHeader sender op length = .ok header → header.length = headerSize) ∧
      ∀ payload : Bytes, payload.length = length →
        encodeFrame sender op payload = (encodeHeader sender op length).map (· ++ payload)) ∧
    (∀ (op : OpCode) (payload : Bytes),
      Writes buffer (c.encode op payload) ((c.writeFrame op payload).run.run buffer).1
        ((c.writeFrame op payload).run.run buffer).2) ∧
    ∀ items : List (OpCode × Bytes),
      (c.writeFrames items).run buffer =
        (items.map fun item => (c.encode item.1 item.2).map fun _ => (),
          buffer ++ (c.encoded items).flatten) ∧
      (∀ chunks : List Bytes, chunks.flatten = ((c.writeFrames items).run []).2 →
        readStream c (chunks.map .chunk) = (c.accepted items).map fun item =>
          .ok (Frame.received c.identity c.identity item.1 item.2)) ∧
      (c.takeFinals ((c.accepted items).length + 1)).run ((c.writeFrames items).run []).2 =
        (((c.accepted items).map fun item =>
          .ok (some (Frame.received c.identity c.identity item.1 item.2))) ++ [.ok none], []) := by
  refine ⟨fun sender op length => ⟨?_, ?_, ?_⟩, fun op payload => ?_, fun items => ?_⟩
  · exact writes_of_eq (writeHeader_eq sender op length buffer)
  · intro header h
    rw [encodeHeader_eq_ok h]
    exact Header.length_bytes sender op length
  · rintro payload rfl
    exact encodeFrame_eq_header sender op payload
  · exact writes_of_eq (c.writeFrame_eq op payload buffer)
  · have hempty : ((c.writeFrames items).run []).2 = (c.encoded items).flatten := by
      rw [writeFrames_eq]
      rfl
    rw [hempty]
    exact ⟨c.writeFrames_eq items buffer, fun chunks h => readStream_encoded h,
      c.takeFinals_encoded items⟩

/-- Four calls, of which two fail between the others: one for its operation, one for its length. -/
theorem writes_whole_or_nothing_mixed :
    let c := (ofIdentity ⟨List.replicate 16 61, rfl⟩).withLimit 4
    let items : List (OpCode × Bytes) :=
      [(.evict, [7, 8]), (.other 0x84, []), (.hello, [1, 2, 3, 4, 5]), (.other 0x10, [9])]
    let first : Bytes := List.replicate 16 61 ++ [4, 2, 0, 0, 7, 8]
    let second : Bytes := List.replicate 16 61 ++ [0x10, 1, 0, 0, 9]
    let chunks : List Bytes := [first ++ second.take 3, second.drop 3]
    (chunks.flatten = ((c.writeFrames items).run []).2 ∧
      [7, 8].length = 2) ∧
    (c.writeFrames items).run [0xff] =
      ([.ok (), .error (.invalidOpCode 0x84), .error (.payloadTooLarge 5 4), .ok ()],
        0xff :: (first ++ second)) ∧
    readStream c (chunks.map .chunk) =
      [.ok ⟨⟨c.identity, .evict, 2, true⟩, [7, 8]⟩, .ok ⟨⟨c.identity, .other 0x10, 1, true⟩, [9]⟩] ∧
    encodeFrame c.identity .evict [7, 8] =
      (encodeHeader c.identity .evict 2).map (· ++ [7, 8]) := by
  intro c items first second chunks
  obtain ⟨hheader, -, hitems⟩ := writes_whole_or_nothing c [0xff]
  have hflat : chunks.flatten = ((c.writeFrames items).run []).2 := by decide
  obtain ⟨hwrite, hread, -⟩ := hitems items
  exact ⟨⟨hflat, rfl⟩, hwrite, hread chunks hflat, (hheader c.identity .evict 2).2.2 [7, 8] rfl⟩

end Codec

end EvictionBus

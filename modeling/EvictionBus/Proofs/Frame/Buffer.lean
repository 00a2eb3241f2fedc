import EvictionBus.Proofs.Frame.Chunks

/-!
# Frames taken from a buffer

`Codec.takeFrame` takes the frame at the front of a buffer out of it, neither more nor less.  It
leaves the buffer alone while the frame is not complete, and also when its header declares too much.
At the end of its input a codec goes on with `Codec.takeFinal` until that yields no frame; then the
buffer is empty, or its rest is an error.
-/

namespace EvictionBus

namespace Codec

variable {c : Codec} {buffer rest raw : Bytes} {f : Frame} {e : FrameError}

/-! ## One frame -/

/-- What is left of a buffer in which `decode` has found something. -/
def remaining (buffer : Bytes) : Except FrameError (Option (Frame × Bytes)) → Bytes
  | .ok (some (_, rest)) => rest
  | _ => buffer

theorem decode_of_complete (h : headerSize ≤ buffer.length)
    (hl : Header.declared buffer ≤ c.limit)
    (hp : headerSize + Header.declared buffer ≤ buffer.length) :
    ∃ header, c.decodeHeader buffer = .ok header ∧ header.length = Header.declared buffer ∧
      c.decode buffer =
        .ok (some (⟨header, (buffer.drop headerSize).take header.length⟩,
          buffer.drop (headerSize + header.length))) := by
  obtain ⟨header, htake, hd, hlen⟩ := exists_decode_take (c := c) h
  refine ⟨header, hd, hlen, ?_⟩
  have hc : c.checkLength header.length = .ok () := checkLength_eq_ok_iff.2 (by omega)
  have hpay : ¬ ((buffer.drop headerSize).take header.length).length < header.length := by
    rw [List.length_take, List.length_drop]
    omega
  simp only [decode, decodeHeader, htake, hc]
  rw [if_neg hpay, Header.frameSize]

/-- The buffer in place is read as any byte string is. -/
theorem takeFrame_eq (c : Codec) (buffer : Bytes) :
    c.takeFrame.run.run buffer =
      ((c.decode buffer).map (·.map Prod.fst), remaining buffer (c.decode buffer)) := by
  -- The tests come in the order in which `decode` makes them, each before the next action.
  unfold takeFrame
  change StateT.run (ExceptT.run (if _ then _ else _)) buffer = _
  by_cases hshort : buffer.length < headerSize
  · rw [if_pos hshort, decode_of_short hshort]
    rfl
  have hlen : headerSize ≤ buffer.length := Nat.not_lt.1 hshort
  obtain ⟨header, -, hd, hdecl⟩ := exists_decode_take (c := c) hlen
  rw [if_neg hshort, decodeHeader, hd]
  change StateT.run (ExceptT.run (liftM (c.checkLength header.length) >>= fun _ => _)) buffer = _
  by_cases hover : c.limit < Header.declared buffer
  · have hcheck : c.checkLength header.length = .error (.payloadTooLarge header.length c.limit) :=
      if_neg (by omega)
    rw [hcheck, decode_of_oversized hlen hover, hdecl]
    rfl
  have hle : Header.declared buffer ≤ c.limit := Nat.not_lt.1 hover
  rw [checkLength_eq_ok_iff.2 (by omega : header.length ≤ c.limit)]
  change StateT.run (ExceptT.run (if _ then _ else _)) buffer = _
  by_cases hpart : buffer.length < header.frameSize
  · rw [if_pos hpart, decode_of_partial hlen hle (by rw [← hdecl]; exact hpart)]
    rfl
  · have hp : headerSize + Header.declared buffer ≤ buffer.length := by
      rw [← hdecl]
      exact Nat.not_lt.1 hpart
    obtain ⟨header', hd', -, hdecode⟩ := decode_of_complete hlen hle hp
    rw [decodeHeader, hd] at hd'
    cases hd'
    rw [if_neg hpart, hdecode]
    change (Except.ok (some (Frame.mk header ((buffer.drop headerSize).splitAt header.length).1)),
      ((buffer.drop headerSize).splitAt header.length).2) = _
    rw [List.splitAt_eq, List.drop_drop]
    rfl

theorem takeFrame_of_some (h : c.decode buffer = .ok (some (f, rest))) :
    c.takeFrame.run.run buffer = (.ok (some f), rest) := by
  rw [takeFrame_eq, h]
  rfl

theorem takeFrame_of_none (h : c.decode buffer = .ok none) :
    c.takeFrame.run.run buffer = (.ok none, buffer) := by
  rw [takeFrame_eq, h]
  rfl

theorem takeFrame_of_error (h : c.decode buffer = .error e) :
    c.takeFrame.run.run buffer = (.error e, buffer) := by
  rw [takeFrame_eq, h]
  rfl

/-- What becomes of a buffer from which a frame is to be taken: `found` is the answer, and `left` is
the buffer after it. -/
structure Takes (c : Codec) (buffer : Bytes) (found : Except FrameError (Option Frame))
    (left : Bytes) : Prop where
  /-- A frame is the front of the buffer, and what follows it is left. -/
  frame : ∀ f, found = .ok (some f) →
    c.decodeHeader buffer = .ok f.header ∧ headerSize + f.header.length ≤ buffer.length ∧
      f.payload = (buffer.drop headerSize).take f.header.length ∧
      left = buffer.drop (headerSize + f.header.length)
  unchanged : (∀ f, found ≠ .ok (some f)) → left = buffer
  refused : ∀ e, found = .error e ↔
    headerSize ≤ buffer.length ∧ c.limit < Header.declared buffer ∧
      e = .payloadTooLarge (Header.declared buffer) c.limit
  incomplete : found = .ok none ↔
    buffer.length < headerSize ∨
      Header.declared buffer ≤ c.limit ∧ buffer.length < headerSize + Header.declared buffer
  /-- Bytes that are added later do not change an answer. -/
  settled : found ≠ .ok none → ∀ more, c.takeFrame.run.run (buffer ++ more) = (found, left ++ more)

theorem takes (c : Codec) (buffer : Bytes) :
    c.Takes buffer (c.takeFrame.run.run buffer).1 (c.takeFrame.run.run buffer).2 := by
  by_cases hshort : buffer.length < headerSize
  · have hd := takeFrame_of_none (decode_of_short (c := c) hshort)
    rw [hd]
    exact {
      frame := fun f h => (by cases h)
      unchanged := fun _ => rfl
      refused := fun _ => ⟨fun h => (by cases h), fun h => by omega⟩
      incomplete := ⟨fun _ => .inl hshort, fun _ => rfl⟩
      settled := fun h => absurd rfl h }
  have hlen : headerSize ≤ buffer.length := Nat.not_lt.1 hshort
  by_cases hover : c.limit < Header.declared buffer
  · have hdecode := decode_of_oversized hlen hover
    rw [takeFrame_of_error hdecode]
    exact {
      frame := fun f h => (by cases h)
      unchanged := fun _ => rfl
      refused := fun _ => ⟨fun h => ⟨hlen, hover, by cases h; rfl⟩, fun h => by rw [h.2.2]⟩
      incomplete := ⟨fun h => (by cases h), fun h => by omega⟩
      settled := fun _ more => takeFrame_of_error (decode_append_of_error more hdecode) }
  have hle : Header.declared buffer ≤ c.limit := Nat.not_lt.1 hover
  by_cases hpart : buffer.length < headerSize + Header.declared buffer
  · rw [takeFrame_of_none (decode_of_partial hlen hle hpart)]
    exact {
      frame := fun f h => (by cases h)
      unchanged := fun _ => rfl
      refused := fun _ => ⟨fun h => (by cases h), fun h => by omega⟩
      incomplete := ⟨fun _ => .inr ⟨hle, hpart⟩, fun _ => rfl⟩
      settled := fun h => absurd rfl h }
  · obtain ⟨header, hd, hdecl, hdecode⟩ := decode_of_complete hlen hle (Nat.not_lt.1 hpart)
    rw [takeFrame_of_some hdecode]
    exact {
      frame := fun f h => by
        cases h
        exact ⟨hd, by rw [hdecl]; exact Nat.not_lt.1 hpart, rfl, rfl⟩
      unchanged := fun h => absurd rfl (h _)
      refused := fun _ => ⟨fun h => (by cases h), fun h => by omega⟩
      incomplete := ⟨fun h => (by cases h), fun h => by omega⟩
      settled := fun _ more => takeFrame_of_some (decode_append_of_some more hdecode) }

/-- A datagram is read as a buffer out of which one frame is taken, and nothing is left. -/
theorem decodeDatagram_eq_ok_iff :
    c.decodeDatagram raw = .ok f ↔ c.takeFrame.run.run raw = (.ok (some f), []) := by
  constructor
  · intro h
    obtain ⟨g, hg, hd⟩ := decode_whole (whole_of_decodeDatagram h) []
    rw [List.append_nil] at hd
    rw [h] at hg
    cases hg
    exact takeFrame_of_some hd
  · intro h
    rcases decode_cases c raw with ⟨-, -, hd⟩ | ⟨-, hd⟩ | ⟨front, rest, g, hb, -, hg, hd⟩
    · rw [takeFrame_of_error hd] at h
      cases h
    · rw [takeFrame_of_none hd] at h
      cases h
    · rw [takeFrame_of_some hd] at h
      cases h
      rw [hb, List.append_nil, hg]

/-! ## The last frames -/

theorem takeFinal_eq (c : Codec) (buffer : Bytes) :
    c.takeFinal.run.run buffer =
      ((c.decodeFinal buffer).map (·.map Prod.fst), remaining buffer (c.decodeFinal buffer)) := by
  unfold takeFinal decodeFinal
  rw [ExceptT.run_bind, StateT.run_bind]
  cases hd : c.decode buffer with
  | error e =>
    rw [takeFrame_of_error hd]
    rfl
  | ok found =>
    cases found with
    | some found =>
      rw [takeFrame_of_some hd]
      rfl
    | none =>
      rw [takeFrame_of_none hd]
      change StateT.run (ExceptT.run (if _ then _ else _)) buffer = _
      by_cases hb : buffer = []
      · simp only [if_pos hb]
        rfl
      · simp only [if_neg hb]
        rfl

/-- The answers to `n` calls of `takeFinal`, one after the other. -/
def takeFinals (c : Codec) : Nat → StateM Bytes (List (Except FrameError (Option Frame)))
  | 0 => return []
  | n + 1 => return (← c.takeFinal.run) :: (← c.takeFinals n)

theorem takeFinals_succ {found : Except FrameError (Option Frame)}
    (h : c.takeFinal.run.run buffer = (found, rest)) (n : Nat) :
    (c.takeFinals (n + 1)).run buffer =
      (found :: ((c.takeFinals n).run rest).1, ((c.takeFinals n).run rest).2) := by
  rw [takeFinals, StateT.run_bind, h]
  rfl

theorem drainFinal_of_decodeFinal_error (h : c.decodeFinal buffer = .error e) :
    c.drainFinal buffer = ([], some e) := by
  rw [drainFinal]
  split <;> simp_all

theorem drainFinal_of_decodeFinal_none (h : c.decodeFinal buffer = .ok none) :
    c.drainFinal buffer = ([], none) := by
  rw [drainFinal]
  split <;> simp_all

theorem drainFinal_of_decodeFinal_some (h : c.decodeFinal buffer = .ok (some (f, rest))) :
    c.drainFinal buffer = (f :: (c.drainFinal rest).1, (c.drainFinal rest).2) := by
  rw [drainFinal]
  split <;> simp_all

theorem decodeFinal_eq_none_iff : c.decodeFinal buffer = .ok none ↔ buffer = [] := by
  constructor
  · intro h
    unfold decodeFinal at h
    split at h
    · cases h
    · cases h
    · split at h
      next hb => exact hb
      · cases h
  · rintro rfl
    unfold decodeFinal
    rw [decode_of_short (by decide)]
    rfl

theorem unfinished_of_decodeFinal_error (h : c.decodeFinal buffer = .error e) :
    buffer ≠ [] ∧ Unfinished c.limit buffer := by
  constructor
  · rintro rfl
    rw [decodeFinal_eq_none_iff.2 rfl] at h
    cases h
  · rcases decode_cases c buffer with ⟨-, hover, -⟩ | ⟨hu, -⟩ | ⟨_, _, _, -, -, -, hd⟩
    · exact unfinished_of_oversized hover
    · exact hu
    · unfold decodeFinal at h
      rw [hd] at h
      cases h

theorem exists_whole_of_decodeFinal_some (h : c.decodeFinal buffer = .ok (some (f, rest))) :
    ∃ raw, buffer = raw ++ rest ∧ WholeFrame c.limit raw ∧ c.decodeDatagram raw = .ok f := by
  unfold decodeFinal at h
  rcases decode_cases c buffer with ⟨-, -, hd⟩ | ⟨-, hd⟩ | ⟨raw, after, g, hb, hw, hg, hd⟩
  · rw [hd] at h
    cases h
  · -- Without a frame there is nothing, or an error.
    simp only [hd] at h
    split at h <;> cases h
  · rw [hd] at h
    cases h
    exact ⟨raw, hb, hw, hg⟩

/-- One call of `takeFinal` after the other takes all whole frames out of a buffer. -/
theorem takeFinals_spec (c : Codec) (buffer : Bytes) :
    ∃ raws left, buffer = raws.flatten ++ left ∧ c.Reads raws (c.drainFinal buffer).1 ∧
      Unfinished c.limit left ∧ ((c.drainFinal buffer).2 = none ↔ left = []) ∧
      (c.takeFinals ((c.drainFinal buffer).1.length + 1)).run buffer =
        ((c.drainFinal buffer).1.map (fun f => .ok (some f)) ++
          [(c.drainFinal buffer).2.elim (.ok none) .error], left) := by
  -- By recursion as in `drainFinal`, whose frames are the answers.
  induction buffer using drainFinal.induct c with
  | case1 buffer e hd =>
    have htake := takeFinal_eq c buffer
    obtain ⟨hne, hu⟩ := unfinished_of_decodeFinal_error hd
    rw [hd] at htake
    rw [drainFinal_of_decodeFinal_error hd]
    refine ⟨[], buffer, rfl, .nil c, hu, ⟨fun h => (by cases h), fun h => absurd h hne⟩, ?_⟩
    exact takeFinals_succ htake 0
  | case2 buffer hd =>
    have htake := takeFinal_eq c buffer
    have hb := decodeFinal_eq_none_iff.1 hd
    rw [hd] at htake
    rw [drainFinal_of_decodeFinal_none hd]
    refine ⟨[], buffer, rfl, .nil c, by rw [hb]; exact unfinished_nil, by simp [hb], ?_⟩
    exact takeFinals_succ htake 0
  | case3 buffer f rest hd _ _ _ _ ih =>
    have htake := takeFinal_eq c buffer
    rw [hd] at htake
    obtain ⟨raw, hb, hw, hf⟩ := exists_whole_of_decodeFinal_some hd
    obtain ⟨raws, left, hrest, hreads, hu, hnone, hrun⟩ := ih
    rw [drainFinal_of_decodeFinal_some hd]
    refine ⟨raw :: raws, left, ?_, hreads.cons hw hf, hu, hnone, ?_⟩
    · rw [List.flatten_cons, List.append_assoc, ← hrest, hb]
    · rw [List.length_cons, takeFinals_succ htake, remaining, hrun]
      rfl

/-! ## All ways of reading -/

/-- A buffer is read in place by one law; a datagram is a buffer with one frame in it; and the last
buffer of a stream is taken apart in finitely many calls, without an error exactly if it is made of
whole frames. -/
theorem takes_frames (c : Codec) (buffer : Bytes) :
    c.Takes buffer (c.takeFrame.run.run buffer).1 (c.takeFrame.run.run buffer).2 ∧
    (∀ f, c.decodeDatagram buffer = .ok f ↔
      c.takeFrame.run.run buffer = (.ok (some f), [])) ∧
    ((c.takeFinal.run.run buffer).1 = .ok none ↔ buffer = []) ∧
    ∃ (fs : List Frame) (failure : Option FrameError) (left : Bytes),
      c.drainFinal buffer = (fs, failure) ∧
      (c.takeFinals (fs.length + 1)).run buffer =
        (fs.map (fun f => .ok (some f)) ++ [failure.elim (.ok none) .error], left) ∧
      (failure = none ↔
        ∃ raws : List Bytes, buffer = raws.flatten ∧
          ∀ raw ∈ raws, ∃ f, c.decodeDatagram raw = .ok f) := by
  refine ⟨takes c buffer, fun f => decodeDatagram_eq_ok_iff, ?_, ?_⟩
  · rw [takeFinal_eq, ← decodeFinal_eq_none_iff (c := c)]
    rcases c.decodeFinal buffer with e | (_ | found) <;> simp [Except.map]
  · obtain ⟨raws, left, hbuffer, hreads, hu, hnone, hrun⟩ := takeFinals_spec c buffer
    refine ⟨_, _, left, rfl, hrun, ?_⟩
    rw [hnone]
    constructor
    · rintro rfl
      rw [List.append_nil] at hbuffer
      refine ⟨raws, hbuffer, fun raw hraw => ?_⟩
      obtain ⟨header, -, hd⟩ := decodeDatagram_of_whole (hreads.whole raw hraw)
      exact ⟨_, hd⟩
    · rintro ⟨raws', hflat, hall⟩
      have hwhole : ∀ raw ∈ raws', WholeFrame c.limit raw := fun raw hraw => by
        obtain ⟨f, hf⟩ := hall raw hraw
        exact whole_of_decodeDatagram hf
      -- There is only one way to cut the buffer into frames.
      rw [hbuffer, ← List.append_nil raws'.flatten] at hflat
      exact (flatten_append_inj hreads.whole hwhole hu unfinished_nil hflat).2

/-- Two frames, of which the first is taken out whatever comes behind the second. -/
theorem takes_frames_two :
    let c := (ofIdentity ⟨List.replicate 16 31, rfl⟩).withLimit 4
    let sender : Identity := ⟨List.replicate 16 32, rfl⟩
    let second : Bytes := List.replicate 16 32 ++ [1, 0, 0, 0]
    let buffer : Bytes := List.replicate 16 32 ++ [4, 2, 0, 0, 7, 8] ++ second
    let f : Frame := ⟨⟨sender, .evict, 2, false⟩, [7, 8]⟩
    c.takeFrame.run.run buffer = (.ok (some f), second) ∧
      (c.takeFinal.run.run buffer).1 ≠ .ok none ∧
      ∀ more, c.takeFrame.run.run (buffer ++ more) = (.ok (some f), second ++ more) := by
  intro c sender second buffer f
  have hrun : c.takeFrame.run.run buffer = (.ok (some f), second) := rfl
  obtain ⟨htakes, -, hfinal, -⟩ := takes_frames c buffer
  rw [hrun] at htakes
  have hsome : (Except.ok (some f) : Except FrameError (Option Frame)) ≠ .ok none :=
    fun h => by cases h
  exact ⟨hrun, fun h => absurd (hfinal.1 h) (by decide), htakes.settled hsome⟩

end Codec

end EvictionBus

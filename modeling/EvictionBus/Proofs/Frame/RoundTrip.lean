import EvictionBus.Proofs.Frame.Stream

/-!
# Writing and reading one frame

Behind the identity a header has one word of 32 bits, least significant byte first: the operation in
its low byte, the length of the payload above it.  What is written is read back by every receiver,
and what is read can be written again.  The bytes come out as they were, but for the reserved bit of
the operation.
-/

namespace EvictionBus

/-! ## Operations -/

namespace OpCode

theorem stripReserved_eq_self_iff {b : UInt8} : stripReserved b = b ↔ b &&& 0x80 = 0 := by
  -- A byte is put together from its low bits and the reserved one.
  have hparts : (b &&& 0x7f) ||| (b &&& 0x80) = b := by
    apply UInt8.toNat_inj.1
    have hb : b.toNat &&& 2 ^ 8 - 1 = b.toNat := by
      rw [Nat.and_two_pow_sub_one_eq_mod, Nat.mod_eq_of_lt b.toNat_lt]
    rw [UInt8.toNat_or, UInt8.toNat_and, UInt8.toNat_and, ← Nat.and_or_distrib_left]
    exact hb
  unfold stripReserved
  constructor
  · intro h
    rw [← h, UInt8.and_assoc]
    exact UInt8.and_zero
  · intro h
    rw [h, UInt8.or_zero] at hparts
    exact hparts

/-- The codes that have a meaning of their own. -/
def known : List UInt8 := [hello.code, welcome.code, evict.code]

theorem mem_known_iff {code : UInt8} : code ∈ known ↔ code = 1 ∨ code = 2 ∨ code = 4 := by
  simp [known, OpCode.code]

theorem ofWire_eq_other_iff {b code : UInt8} :
    ofWire b = .other code ↔ stripReserved b = code ∧ code ∉ known := by
  unfold ofWire
  rw [mem_known_iff]
  split
  next h => exact iff_of_false (fun h' => by cases h') (fun h' => h'.2 (.inl (h'.1 ▸ h)))
  next h => exact iff_of_false (fun h' => by cases h') (fun h' => h'.2 (.inr (.inl (h'.1 ▸ h))))
  next h => exact iff_of_false (fun h' => by cases h') (fun h' => h'.2 (.inr (.inr (h'.1 ▸ h))))
  next h₁ h₂ h₄ =>
    rw [OpCode.other.injEq]
    refine ⟨fun h => ⟨h, ?_⟩, And.left⟩
    rw [← h, not_or, not_or]
    exact ⟨h₁, h₂, h₄⟩

theorem toWire_ofWire (b : UInt8) : (ofWire b).toWire = stripReserved b := by
  have hstrip : stripReserved (stripReserved b) = stripReserved b := by
    simp [stripReserved, UInt8.and_assoc]
  unfold ofWire
  split
  next h =>
    rw [h]
    rfl
  next h =>
    rw [h]
    rfl
  next h =>
    rw [h]
    rfl
  next => exact hstrip

/-- Every operation that has been read can be written. -/
theorem isEncodable_ofWire (b : UInt8) : (ofWire b).isEncodable = true := by
  unfold isEncodable
  rw [toWire_ofWire, ofWire_stripReserved, decide_eq_true_eq]

/-- An operation can be written unless it would be read as another one. -/
theorem isEncodable_iff {op : OpCode} :
    op.isEncodable = true ↔ ¬ ∃ code, op = .other code ∧ (code &&& 0x80 ≠ 0 ∨ code ∈ known) := by
  cases op with
  | hello =>
    refine iff_of_true rfl ?_
    rintro ⟨_, ⟨⟩, _⟩
  | welcome =>
    refine iff_of_true rfl ?_
    rintro ⟨_, ⟨⟩, _⟩
  | evict =>
    refine iff_of_true rfl ?_
    rintro ⟨_, ⟨⟩, _⟩
  | other code =>
    have hread : (other code).isEncodable = true ↔ ofWire code = .other code := by
      rw [isEncodable, decide_eq_true_eq, toWire, ofWire_stripReserved, OpCode.code]
    rw [hread, ofWire_eq_other_iff, stripReserved_eq_self_iff]
    constructor
    · rintro ⟨hbit, hknown⟩ ⟨_, ⟨⟩, hbad⟩
      exact hbad.elim (absurd hbit) (absurd · hknown)
    · intro h
      exact ⟨Decidable.not_not.1 fun hbit => h ⟨code, rfl, .inl hbit⟩,
        fun hknown => h ⟨code, rfl, .inr hknown⟩⟩

end OpCode

/-! ## The word behind the identity -/

/-- The four bytes of a word, least significant byte first. -/
def Bytes.ofWord (w : UInt32) : Bytes :=
  [w.toUInt8, (w >>> 8).toUInt8, (w >>> 16).toUInt8, (w >>> 24).toUInt8]

theorem Bytes.ofWord_eq {w : UInt32} {low : UInt8} {high : Nat}
    (h : w.toNat = high % 0x1000000 * 256 + low.toNat) : ofWord w = low :: ofNat24 high := by
  have hlow := low.toNat_lt
  have hbyte : ∀ (x : UInt32) (b : UInt8), x.toNat % 256 = b.toNat → x.toUInt8 = b :=
    fun x b hx => UInt8.toNat_inj.1 (by rw [UInt32.toNat_toUInt8]; exact hx)
  have hshift : ∀ n : UInt32, (w >>> n).toNat = w.toNat / 2 ^ (n.toNat % 32) := fun n => by
    rw [UInt32.toNat_shiftRight, Nat.shiftRight_eq_div_pow]
  unfold ofWord ofNat24
  rw [hbyte w low (by omega), hbyte (w >>> 8) (UInt8.ofNat high),
    hbyte (w >>> 16) (UInt8.ofNat (high / 256)), hbyte (w >>> 24) (UInt8.ofNat (high / 65536))]
  all_goals
    rw [hshift, UInt8.toNat_ofNat', h]
    simp only [UInt32.toNat_ofNat, Nat.reduceMod, Nat.reducePow]
    omega

namespace Header

/-- The operation in the low byte, and the low 24 bits of the length above it. -/
def word (op : OpCode) (length : Nat) : UInt32 :=
  UInt32.ofNat length <<< 8 ||| op.toWire.toUInt32

theorem toNat_word (op : OpCode) (length : Nat) :
    (word op length).toNat = length % 0x1000000 * 256 + op.toWire.toNat := by
  have hop : op.toWire.toNat < 2 ^ 8 := op.toWire.toNat_lt
  have hhigh : (UInt32.ofNat length <<< 8).toNat = (length % 0x1000000) <<< 8 := by
    rw [UInt32.toNat_shiftLeft, UInt32.toNat_ofNat', Nat.shiftLeft_eq, Nat.shiftLeft_eq]
    simp only [UInt32.reduceToNat, Nat.reduceMod, Nat.reducePow]
    omega
  rw [word, UInt32.toNat_or, hhigh, UInt8.toNat_toUInt32, ← Nat.shiftLeft_add_eq_or_of_lt hop,
    Nat.shiftLeft_eq]

/-- A header is written as an identity and a word. -/
theorem bytes_eq (sender : Identity) (op : OpCode) (length : Nat) :
    bytes sender op length = sender.bytes ++ Bytes.ofWord (word op length) := by
  rw [Bytes.ofWord_eq (toNat_word op length), bytes]

/-- A header is read as an identity and a word. -/
theorem decode_word (me sender : Identity) (w : UInt32) (rest : Bytes) :
    decode me (sender.bytes ++ (Bytes.ofWord w ++ rest)) =
      .ok ⟨sender, .ofWire w.toUInt8, (w >>> 8).toNat, decide (sender = me)⟩ := by
  have hw := w.toNat_lt
  have hhigh : (w >>> 8).toNat = w.toNat / 256 := by
    rw [UInt32.toNat_shiftRight, Nat.shiftRight_eq_div_pow]
    rfl
  have hlow : w.toUInt8.toNat = w.toNat % 256 := UInt32.toNat_toUInt8 w
  have hword : Bytes.ofWord w = w.toUInt8 :: Bytes.ofNat24 (w >>> 8).toNat :=
    Bytes.ofWord_eq (by omega)
  have hdrop : (sender.bytes ++ (Bytes.ofWord w ++ rest)).drop Identity.size =
      Bytes.ofWord w ++ rest := by
    rw [Identity.size, ← sender.length_bytes, List.drop_left]
  have hlength := Bytes.toNat24_ofNat (w >>> 8).toNat (by omega)
  unfold decode
  rw [Identity.ofPrefix?_append, hdrop, hword]
  simp only [Bytes.ofNat24, List.cons_append, hlength]

/-! ## Any header that is read -/

theorem exists_of_decode {me : Identity} {bs : Bytes} {header : Header}
    (h : decode me bs = .ok header) :
    ∃ op b₀ b₁ b₂ rest, bs = header.sender.bytes ++ op :: b₀ :: b₁ :: b₂ :: rest ∧
      header.op = .ofWire op ∧ header.length = Bytes.toNat24 b₀ b₁ b₂ := by
  unfold decode at h
  split at h
  next sender op b₀ b₁ b₂ rest hsender hdrop =>
    cases h
    refine ⟨op, b₀, b₁, b₂, rest, ?_, rfl, rfl⟩
    unfold Identity.ofPrefix? at hsender
    split at hsender
    next =>
      cases hsender
      rw [← hdrop, List.take_append_drop]
    next => cases hsender
  next => cases h

theorem isPrefixOf_of_decode {me : Identity} {bs : Bytes} {header : Header}
    (h : decode me bs = .ok header) : me.isPrefixOf bs = header.sentByMe := by
  obtain ⟨op, b₀, b₁, b₂, rest, hbs, -⟩ := exists_of_decode h
  rw [sentByMe_of_decode h, Bool.eq_iff_iff, decide_eq_true_eq, Identity.isPrefixOf,
    List.isPrefixOf_iff_prefix, hbs]
  constructor
  · rintro ⟨more, hmore⟩
    -- Both identities are of one size.
    have hlen : me.bytes.length = header.sender.bytes.length := by
      rw [me.length_bytes, header.sender.length_bytes]
    exact Identity.bytes_inj (List.append_inj hmore hlen).1.symm
  · intro he
    rw [he]
    exact List.prefix_append _ _

/-- The header as another receiver sees it. -/
def seenBy (me : Identity) (h : Header) : Header :=
  { h with sentByMe := h.sender = me }

theorem decode_seenBy (me other : Identity) (bs : Bytes) :
    decode me bs = (decode other bs).map (seenBy me) := by
  unfold decode
  split <;> rfl

end Header

/-- The frame as another receiver sees it. -/
def Frame.seenBy (me : Identity) (f : Frame) : Frame :=
  { f with header := f.header.seenBy me }

theorem encodeFrame_eq {sender : Identity} {op : OpCode} {payload : Bytes}
    (hop : op.isEncodable = true) (hlen : payload.length ≤ maxPayload) :
    encodeFrame sender op payload =
      .ok (Header.bytes sender op payload.length ++ payload) := by
  rw [encodeFrame, putHeader, if_neg (not_not_intro hop), if_neg (Nat.not_lt.2 hlen)]
  rfl

namespace Codec

variable {c d : Codec} {bs : Bytes} {f : Frame}

theorem exists_of_decodeDatagram (h : c.decodeDatagram bs = .ok f) :
    Header.decode c.identity bs = .ok f.header ∧ f.payload = bs.drop headerSize ∧
      f.payload.length = f.header.length ∧ f.header.length ≤ maxPayload := by
  have hw := whole_of_decodeDatagram h
  obtain ⟨header, hd, hf⟩ := decodeDatagram_of_whole hw
  rw [h] at hf
  cases hf
  have hlen := (Header.length_of_decode hd).2
  refine ⟨hd, rfl, ?_, by rw [hlen]; exact Header.declared_le bs⟩
  show (bs.drop headerSize).length = header.length
  rw [List.length_drop, hw.length_eq, hlen, Nat.add_sub_cancel_left]

/-- What has been read is written as it was, but for the reserved bit of the operation. -/
theorem encodeFrame_of_decodeDatagram (h : c.decodeDatagram bs = .ok f) :
    encodeFrame f.header.sender f.header.op f.payload =
      .ok (bs.modify 16 OpCode.stripReserved) := by
  obtain ⟨hd, hpayload, hlen, hmax⟩ := exists_of_decodeDatagram h
  obtain ⟨op, b₀, b₁, b₂, rest, hbs, hop, hlength⟩ := Header.exists_of_decode hd
  have hsize : f.header.sender.bytes.length = 16 := f.header.sender.length_bytes
  have hrest : f.payload = rest := by
    rw [hpayload, hbs, show headerSize = 16 + 4 from rfl, ← List.drop_drop, ← hsize,
      List.drop_left]
    rfl
  -- Both sides are the identity, the operation, the length and the payload, one behind the other.
  rw [encodeFrame_eq (by rw [hop]; exact OpCode.isEncodable_ofWire op) (by omega), hlen, hlength,
    Header.bytes, Bytes.ofNat24_toNat24, hop, OpCode.toWire_ofWire, hrest, hbs,
    List.modify_eq_take_drop, ← hsize, List.take_left, List.drop_left, List.append_assoc]
  rfl

theorem decodeDatagram_seenBy (hlimit : c.limit = d.limit) (bs : Bytes) :
    c.decodeDatagram bs = (d.decodeDatagram bs).map (Frame.seenBy c.identity) := by
  unfold decodeDatagram decodeHeader
  rw [Header.decode_seenBy c.identity d.identity]
  cases Header.decode d.identity bs with
  | error e => rfl
  | ok header =>
    have hcheck : c.checkLength header.length = d.checkLength header.length := by
      rw [checkLength, checkLength, hlimit]
    change (c.checkLength header.length >>= fun _ => _) =
      Except.map _ (d.checkLength header.length >>= fun _ => _)
    rw [hcheck]
    cases d.checkLength header.length with
    | error e => rfl
    | ok _ =>
      change (if (bs.drop headerSize).length = header.length then _ else _) =
        Except.map _ (if _ then _ else _)
      by_cases hlen : (bs.drop headerSize).length = header.length
      · rw [if_pos hlen, if_pos hlen]
        rfl
      · rw [if_neg hlen, if_neg hlen]
        rfl

/-- What `encodeFrame` has written every receiver reads back, if it admits the length. -/
theorem decodeDatagram_of_encodeFrame {sender : Identity} {op : OpCode} {payload : Bytes}
    (h : encodeFrame sender op payload = .ok bs) :
    c.decodeHeader bs = .ok ⟨sender, op, payload.length, c.identity.isPrefixOf bs⟩ ∧
      (payload.length ≤ c.limit →
        c.decodeDatagram bs =
          .ok ⟨⟨sender, op, payload.length, c.identity.isPrefixOf bs⟩, payload⟩) := by
  obtain ⟨hop, hmax, hbs⟩ := encodeFrame_eq_ok h
  have hd := Header.decode_bytes c.identity sender payload hop hmax
  rw [← hbs] at hd
  rw [Header.isPrefixOf_of_decode hd]
  refine ⟨hd, fun hlimit => ?_⟩
  have hw := wholeFrame_bytes sender op hlimit hmax
  rw [← hbs] at hw
  obtain ⟨header, hd', hf⟩ := decodeDatagram_of_whole hw
  rw [hd] at hd'
  cases hd'
  rw [hf, hbs, ← Header.length_bytes sender op payload.length, List.drop_left]

end Codec

/-! ## Both ways -/

/-- A frame can be written if its length fits in 24 bits and its operation would be read as itself.
Every receiver then reads what has been written; and what has been read in any byte string is written
as that byte string, up to the top bit of its byte 16.  Receivers differ only in which frames are
their own.  Both ways the operation and the length are the two parts of one word. -/
theorem reads_what_is_written :
    (∀ (sender : Identity) (op : OpCode) (payload : Bytes),
      ((∃ bs, encodeFrame sender op payload = .ok bs) ↔
        payload.length ≤ 0xffffff ∧
          ¬ ∃ code, op = .other code ∧ (code &&& 0x80 ≠ 0 ∨ code ∈ OpCode.known)) ∧
      ∀ bs, encodeFrame sender op payload = .ok bs →
        bs = sender.bytes ++ (Bytes.ofWord (Header.word op payload.length) ++ payload) ∧
        ∀ receiver : Codec,
          receiver.decodeHeader bs =
            .ok ⟨sender, op, payload.length, receiver.identity.isPrefixOf bs⟩ ∧
          receiver.identity.isPrefixOf bs = decide (sender = receiver.identity) ∧
          (payload.length ≤ receiver.limit →
            receiver.decodeDatagram bs =
              .ok ⟨⟨sender, op, payload.length, receiver.identity.isPrefixOf bs⟩, payload⟩)) ∧
    (∀ (c : Codec) (bs : Bytes) (f : Frame), c.decodeDatagram bs = .ok f →
      encodeFrame f.header.sender f.header.op f.payload = .ok (bs.modify 16 (· &&& 0x7f))) ∧
    (∀ (c d : Codec) (bs : Bytes),
      c.decodeHeader bs = (d.decodeHeader bs).map (Header.seenBy c.identity) ∧
      (c.limit = d.limit →
        c.decodeDatagram bs = (d.decodeDatagram bs).map (Frame.seenBy c.identity))) ∧
    ∀ (c : Codec) (sender : Identity) (w : UInt32) (rest : Bytes),
      c.decodeHeader (sender.bytes ++ (Bytes.ofWord w ++ rest)) =
        .ok ⟨sender, .ofWire w.toUInt8, (w >>> 8).toNat, decide (sender = c.identity)⟩ := by
  refine ⟨fun sender op payload => ⟨?_, fun bs h => ?_⟩, ?_, fun c d bs => ?_, fun c => ?_⟩
  · rw [← OpCode.isEncodable_iff]
    constructor
    · rintro ⟨bs, h⟩
      obtain ⟨hop, hmax, -⟩ := encodeFrame_eq_ok h
      exact ⟨hmax, hop⟩
    · rintro ⟨hmax, hop⟩
      exact ⟨_, encodeFrame_eq hop hmax⟩
  · obtain ⟨hop, hmax, hbs⟩ := encodeFrame_eq_ok h
    rw [Header.bytes_eq, List.append_assoc] at hbs
    refine ⟨hbs, fun receiver => ?_⟩
    obtain ⟨hd, hdatagram⟩ := receiver.decodeDatagram_of_encodeFrame h
    exact ⟨hd, Header.sentByMe_of_decode hd, hdatagram⟩
  · exact fun c bs f h => c.encodeFrame_of_decodeDatagram h
  · exact ⟨Header.decode_seenBy c.identity d.identity bs, fun h => c.decodeDatagram_seenBy h bs⟩
  · exact Header.decode_word c.identity

/-- An operation without a meaning of its own, written with and without the reserved bit. -/
theorem reads_what_is_written_reserved :
    let sender : Identity := ⟨List.replicate 16 33, rfl⟩
    let c := (Codec.ofIdentity sender).withLimit 2
    let d := (Codec.ofIdentity ⟨List.replicate 16 34, rfl⟩).withLimit 2
    let written : Bytes := List.replicate 16 33 ++ [0x10, 2, 0, 0, 7, 8]
    let marked : Bytes := List.replicate 16 33 ++ [0x90, 2, 0, 0, 7, 8]
    let f : Frame := ⟨⟨sender, .other 0x10, 2, false⟩, [7, 8]⟩
    encodeFrame sender (.other 0x10) [7, 8] = .ok written ∧
      d.decodeDatagram written = .ok f ∧ d.decodeDatagram marked = .ok f ∧
      encodeFrame sender (.other 0x10) [7, 8] = .ok (marked.modify 16 (· &&& 0x7f)) ∧
      c.decodeDatagram marked = (d.decodeDatagram marked).map (Frame.seenBy sender) := by
  intro sender c d written marked f
  obtain ⟨hwrite, hread, hseen, -⟩ := reads_what_is_written
  have hwritten : encodeFrame sender (.other 0x10) [7, 8] = .ok written := rfl
  have hmarked : d.decodeDatagram marked = .ok f := rfl
  have hback := ((hwrite sender (.other 0x10) [7, 8]).2 written hwritten).2 d
  exact ⟨hwritten, hback.2.2 (by decide), hmarked, hread d marked f hmarked,
    (hseen c d marked).2 rfl⟩

end EvictionBus

import EvictionBus.Frame.Header

/-!
# Whole frames

A byte string is a whole frame when it is as long as its own header says.  Whole frames delimit
themselves: a stream can be cut into them in one way only, wherever its bytes have been split on the
way.  Both the relay, which keeps frames as bytes, and the clients, which take them apart, cut their
streams by this rule.
-/

namespace EvictionBus

/-! ## What a header declares -/

/-- The payload length that the header at the front of a byte string declares. -/
def Header.declared (bs : Bytes) : Nat :=
  match bs.drop 17 with
  | b₀ :: b₁ :: b₂ :: _ => Bytes.toNat24 b₀ b₁ b₂
  | _ => 0

theorem Header.exists_drop_size {bs : Bytes} (h : headerSize ≤ bs.length) :
    ∃ op b₀ b₁ b₂ rest, bs.drop Identity.size = op :: b₀ :: b₁ :: b₂ :: rest := by
  have hlen : 4 ≤ (bs.drop Identity.size).length := by
    rw [List.length_drop]
    simp only [headerSize, Identity.size] at *
    omega
  -- A list of fewer bytes would be too short.
  rcases hd : bs.drop Identity.size with _ | ⟨op, _ | ⟨b₀, _ | ⟨b₁, _ | ⟨b₂, rest⟩⟩⟩⟩
  case cons.cons.cons.cons => exact ⟨op, b₀, b₁, b₂, rest, rfl⟩
  all_goals
    rw [hd] at hlen
    simp at hlen

theorem Header.declared_of_drop {bs rest : Bytes} {op b₀ b₁ b₂ : UInt8}
    (h : bs.drop Identity.size = op :: b₀ :: b₁ :: b₂ :: rest) :
    declared bs = Bytes.toNat24 b₀ b₁ b₂ := by
  have hd : bs.drop 17 = b₀ :: b₁ :: b₂ :: rest := by
    rw [show 17 = Identity.size + 1 from rfl, ← List.drop_drop, h]
    rfl
  rw [declared, hd]

theorem Header.declared_le (bs : Bytes) : declared bs ≤ maxPayload := by
  unfold declared
  split
  next b₀ b₁ b₂ rest hd =>
    have := Bytes.toNat24_lt b₀ b₁ b₂
    unfold maxPayload
    omega
  next => exact Nat.zero_le _

theorem Header.declared_append {bs : Bytes} (more : Bytes) (h : headerSize ≤ bs.length) :
    declared (bs ++ more) = declared bs := by
  obtain ⟨op, b₀, b₁, b₂, rest, hd⟩ := exists_drop_size h
  have happ : (bs ++ more).drop Identity.size = op :: b₀ :: b₁ :: b₂ :: (rest ++ more) := by
    rw [List.drop_append_of_le_length (by simp only [headerSize, Identity.size] at *; omega), hd]
    rfl
  rw [declared_of_drop hd, declared_of_drop happ]

/-- A header is read as soon as all of it is there, and it declares its length to every reader. -/
theorem Header.exists_decode (me : Identity) {bs : Bytes} (h : headerSize ≤ bs.length) :
    ∃ header, decode me bs = .ok header ∧ header.length = declared bs ∧
      header.sentByMe = decide (header.sender = me) := by
  obtain ⟨op, b₀, b₁, b₂, rest, hd⟩ := exists_drop_size h
  have hid : Identity.size ≤ bs.length := by
    simp only [headerSize, Identity.size] at *
    omega
  have hsize : (bs.take Identity.size).length = 16 := by
    rw [List.length_take, Nat.min_eq_left hid]
    rfl
  -- Every byte is an operation for a reader, so nothing in a whole header is refused.
  let sender : Identity := ⟨bs.take Identity.size, hsize⟩
  refine ⟨⟨sender, .ofWire op, Bytes.toNat24 b₀ b₁ b₂, sender = me⟩, ?_,
    (declared_of_drop hd).symm, rfl⟩
  rw [decode, Identity.ofPrefix?, dif_pos hid, hd]

theorem Header.length_of_decode {me : Identity} {bs : Bytes} {header : Header}
    (h : decode me bs = .ok header) :
    headerSize ≤ bs.length ∧ header.length = declared bs := by
  have hlen : headerSize ≤ bs.length := by
    unfold decode at h
    split at h
    next sender op b₀ b₁ b₂ rest hid hd =>
      have := congrArg List.length hd
      rw [List.length_drop] at this
      simp only [headerSize, Identity.size, List.length_cons] at *
      omega
    next => cases h
  obtain ⟨header', h', hl, _⟩ := exists_decode me hlen
  rw [h] at h'
  cases h'
  exact ⟨hlen, hl⟩

theorem Header.sentByMe_of_decode {me : Identity} {bs : Bytes} {header : Header}
    (h : decode me bs = .ok header) : header.sentByMe = decide (header.sender = me) := by
  obtain ⟨header', h', -, hme⟩ := exists_decode me (length_of_decode h).1
  rw [h] at h'
  cases h'
  exact hme

theorem Header.decode_of_short (me : Identity) {bs : Bytes} (h : bs.length < headerSize) :
    ∃ e, decode me bs = .error e := by
  cases hd : decode me bs with
  | error e => exact ⟨e, rfl⟩
  | ok header =>
    have := (length_of_decode hd).1
    omega

theorem Header.decode_append (me : Identity) {bs : Bytes} (more : Bytes)
    (h : headerSize ≤ bs.length) : decode me (bs ++ more) = decode me bs := by
  obtain ⟨op, b₀, b₁, b₂, rest, hd⟩ := exists_drop_size h
  have hid : Identity.size ≤ bs.length := by
    simp only [headerSize, Identity.size] at *
    omega
  have happ : (bs ++ more).drop Identity.size = op :: b₀ :: b₁ :: b₂ :: (rest ++ more) := by
    rw [List.drop_append_of_le_length hid, hd]
    rfl
  have htake : (bs ++ more).take Identity.size = bs.take Identity.size :=
    List.take_append_of_le_length hid
  have hid' : Identity.size ≤ (bs ++ more).length := by
    rw [List.length_append]
    omega
  unfold decode Identity.ofPrefix?
  rw [dif_pos hid, dif_pos hid', hd, happ]
  simp only [htake]

theorem Header.same_of_decode {me other : Identity} {bs : Bytes} {h h' : Header}
    (hd : decode me bs = .ok h) (hd' : decode other bs = .ok h') :
    h.op = h'.op ∧ h.length = h'.length := by
  obtain ⟨hle, hl⟩ := length_of_decode hd
  obtain ⟨-, hl'⟩ := length_of_decode hd'
  refine ⟨?_, hl.trans hl'.symm⟩
  -- The reader counts only in whether the frame is its own.
  unfold decode at hd hd'
  split at hd
  next sender op b₀ b₁ b₂ rest hid hdrop =>
    cases hd
    simp only [hid, hdrop] at hd'
    cases hd'
    rfl
  next => cases hd

/-! ## Whole frames -/

/-- The byte string is one frame with a payload of at most `limit` bytes. -/
structure WholeFrame (limit : Nat) (bs : Bytes) : Prop where
  header_le : headerSize ≤ bs.length
  length_eq : bs.length = headerSize + Header.declared bs
  declared_le : Header.declared bs ≤ limit

namespace WholeFrame

variable {limit : Nat} {a b x y : Bytes}

theorem append_inj (ha : WholeFrame limit a) (hb : WholeFrame limit b) (h : a ++ x = b ++ y) :
    a = b ∧ x = y := by
  have hd : Header.declared a = Header.declared b := by
    rw [← Header.declared_append x ha.header_le, h, Header.declared_append y hb.header_le]
  apply List.append_inj h
  rw [ha.length_eq, hb.length_eq, hd]

theorem within_maxPayload (h : WholeFrame limit a) : WholeFrame maxPayload a :=
  ⟨h.header_le, h.length_eq, Header.declared_le a⟩

end WholeFrame

/-- No frame is complete at the front of the byte string. -/
def Unfinished (limit : Nat) (bs : Bytes) : Prop :=
  ∀ a x, bs = a ++ x → ¬ WholeFrame limit a

theorem unfinished_of_short {limit : Nat} {bs : Bytes} (h : bs.length < headerSize) :
    Unfinished limit bs := by
  rintro a x rfl hw
  have := hw.header_le
  rw [List.length_append] at h
  omega

theorem unfinished_of_partial {limit : Nat} {bs : Bytes} (hlen : headerSize ≤ bs.length)
    (h : bs.length < headerSize + Header.declared bs) : Unfinished limit bs := by
  rintro a x rfl hw
  rw [Header.declared_append x hw.header_le, List.length_append, hw.length_eq] at h
  omega

theorem unfinished_of_oversized {limit : Nat} {bs : Bytes} (h : limit < Header.declared bs) :
    Unfinished limit bs := by
  rintro a x rfl hw
  rw [Header.declared_append x hw.header_le] at h
  have := hw.declared_le
  omega

/-- No header declares more than the largest payload, so a higher limit lets nothing else pass. -/
theorem wholeFrame_min_iff {limit : Nat} {bs : Bytes} :
    WholeFrame (min limit maxPayload) bs ↔ WholeFrame limit bs := by
  have hle := Header.declared_le bs
  constructor
  · exact fun h => ⟨h.header_le, h.length_eq, Nat.le_trans h.declared_le (Nat.min_le_left _ _)⟩
  · exact fun h => ⟨h.header_le, h.length_eq, Nat.le_min.2 ⟨h.declared_le, hle⟩⟩

theorem unfinished_min_iff {limit : Nat} {bs : Bytes} :
    Unfinished (min limit maxPayload) bs ↔ Unfinished limit bs := by
  unfold Unfinished
  simp only [wholeFrame_min_iff]

/-! ## Cutting a stream -/

section Cuts

variable {limit : Nat} {as bs : List Bytes} {x y : Bytes}

/-- Frames at the front of a stream of frames are its first frames. -/
theorem prefix_of_flatten_append_eq (has : ∀ a ∈ as, WholeFrame limit a)
    (hbs : ∀ b ∈ bs, WholeFrame limit b) (hy : Unfinished limit y)
    (h : as.flatten ++ x = bs.flatten ++ y) : as <+: bs := by
  -- The first frames of both streams are the same, and so on.
  induction as generalizing bs with
  | nil => exact List.nil_prefix
  | cons a as ih =>
    rw [List.flatten_cons, List.append_assoc] at h
    have ha := has a List.mem_cons_self
    cases bs with
    | nil => exact absurd ha (hy a _ h.symm)
    | cons b bs =>
      rw [List.flatten_cons, List.append_assoc] at h
      obtain ⟨rfl, hrest⟩ := ha.append_inj (hbs b List.mem_cons_self) h
      rw [List.cons_prefix_cons]
      refine ⟨rfl, ih (fun c hc => has c (List.mem_cons_of_mem _ hc))
        (fun c hc => hbs c (List.mem_cons_of_mem _ hc)) hrest⟩

theorem unfinished_nil : Unfinished limit [] :=
  unfinished_of_short (by decide)

theorem prefix_of_flatten_eq (has : ∀ a ∈ as, WholeFrame limit a)
    (hbs : ∀ b ∈ bs, WholeFrame limit b) (h : as.flatten ++ x = bs.flatten) : as <+: bs :=
  prefix_of_flatten_append_eq has hbs unfinished_nil (by rw [h, List.append_nil])

/-- There is one way to cut a stream into frames and a rest without one. -/
theorem flatten_append_inj (has : ∀ a ∈ as, WholeFrame limit a)
    (hbs : ∀ b ∈ bs, WholeFrame limit b) (hx : Unfinished limit x) (hy : Unfinished limit y)
    (h : as.flatten ++ x = bs.flatten ++ y) : as = bs ∧ x = y := by
  have hab := prefix_of_flatten_append_eq has hbs hy h
  have hba := prefix_of_flatten_append_eq hbs has hx h.symm
  -- Each list of frames is the beginning of the other.
  have he : as = bs := hab.eq_of_length_le hba.length_le
  subst he
  exact ⟨rfl, List.append_cancel_left h⟩

/-- Where a header is complete in a stream of frames, it declares no more than they do. -/
theorem declared_le_of_flatten_eq (has : ∀ a ∈ as, WholeFrame limit a)
    (hbs : ∀ b ∈ bs, WholeFrame limit b) (hx : headerSize ≤ x.length)
    (h : as.flatten ++ (x ++ y) = bs.flatten) : Header.declared x ≤ limit := by
  obtain ⟨rest, rfl⟩ := prefix_of_flatten_eq has hbs h
  rw [List.flatten_append] at h
  have hrest := List.append_cancel_left h
  -- The header is the one of the next frame, unless the stream is over.
  cases rest with
  | nil =>
    have := congrArg List.length hrest
    rw [List.length_append, List.flatten_nil, List.length_nil] at this
    simp only [headerSize] at hx
    omega
  | cons b rest =>
    have hb := hbs b (List.mem_append_right _ List.mem_cons_self)
    rw [← Header.declared_append y hx, hrest, List.flatten_cons,
      Header.declared_append _ hb.header_le]
    exact hb.declared_le

end Cuts

/-! ## Frames that are written -/

theorem Header.drop_bytes (sender : Identity) (op : OpCode) (length : Nat) (more : Bytes) :
    (bytes sender op length ++ more).drop Identity.size =
      op.toWire :: UInt8.ofNat length :: UInt8.ofNat (length / 256) ::
        UInt8.ofNat (length / 65536) :: more := by
  unfold bytes Bytes.ofNat24 Identity.size
  rw [List.append_assoc, ← sender.length_bytes, List.drop_left]
  rfl

theorem Header.decode_bytes (me sender : Identity) {op : OpCode} {length : Nat} (more : Bytes)
    (hop : op.isEncodable = true) (hlen : length ≤ maxPayload) :
    decode me (bytes sender op length ++ more) =
      .ok ⟨sender, op, length, decide (me = sender)⟩ := by
  have hsender : Identity.ofPrefix? (bytes sender op length ++ more) = some sender := by
    rw [bytes, List.append_assoc, Identity.ofPrefix?_append]
  have hop' : OpCode.ofWire op.toWire = op := by
    simpa [OpCode.isEncodable] using hop
  have hn := Bytes.toNat24_ofNat length (by unfold maxPayload at hlen; omega)
  -- The header is written as it is read: identity, operation, and the length from its low byte on.
  unfold decode
  rw [hsender, drop_bytes]
  simp only [hop', hn, eq_comm]

theorem Header.declared_bytes (sender : Identity) (op : OpCode) {length : Nat} (more : Bytes)
    (hlen : length ≤ maxPayload) : declared (bytes sender op length ++ more) = length := by
  rw [declared_of_drop (drop_bytes sender op length more)]
  exact Bytes.toNat24_ofNat length (by unfold maxPayload at hlen; omega)

theorem wholeFrame_bytes (sender : Identity) (op : OpCode) {payload : Bytes} {limit : Nat}
    (hlimit : payload.length ≤ limit) (hmax : payload.length ≤ maxPayload) :
    WholeFrame limit (Header.bytes sender op payload.length ++ payload) := by
  have hd := Header.declared_bytes sender op payload hmax
  have hlen : (Header.bytes sender op payload.length ++ payload).length =
      headerSize + payload.length := by
    rw [List.length_append, Header.length_bytes]
  constructor
  · omega
  · rw [hd, hlen]
  · rw [hd]
    exact hlimit

theorem encodeFrame_eq_ok {sender : Identity} {op : OpCode} {payload bs : Bytes}
    (h : encodeFrame sender op payload = .ok bs) :
    op.isEncodable = true ∧ payload.length ≤ maxPayload ∧
      bs = Header.bytes sender op payload.length ++ payload := by
  unfold encodeFrame putHeader at h
  split at h
  next => cases h
  next hop =>
    split at h
    next => cases h
    next hlen =>
      cases h
      refine ⟨Decidable.not_not.1 hop, by omega, rfl⟩

end EvictionBus

import EvictionBus.Proofs.Frame.RoundTrip
import EvictionBus.Proofs.Relay.Oversized

/-!
# One limit for the length of a payload

A socket transport derives the limit that it reports, the limit of its codec and the limit that
`send` checks from its settings, each by itself.  They are one number, and whatever looks at the
length of a payload, on the way out or on the way in, accepts it exactly if it is not above that
number.
-/

namespace EvictionBus

/-- The outcome of a check that accepts the lengths up to `limit`. -/
def within {ε α : Type} (limit length : Nat) (tooLong : Nat → Nat → ε) (a : α) : Except ε α :=
  if length ≤ limit then .ok a else .error (tooLong length limit)

variable {ε α : Type} {limit length : Nat} {tooLong : Nat → Nat → ε} {a : α}

theorem within_of_le (h : length ≤ limit) : within limit length tooLong a = .ok a :=
  if_pos h

theorem within_of_lt (h : limit < length) :
    within limit length tooLong a = .error (tooLong length limit) :=
  if_neg (Nat.not_le.2 h)

/-! ## Codecs -/

namespace Codec

variable {c d : Codec} {sender : Identity} {op : OpCode} {payload bs : Bytes}

theorem encode_eq_within (c : Codec) (hop : op.isEncodable = true) (payload : Bytes) :
    c.encode op payload = within c.limit payload.length .payloadTooLarge
      (Header.bytes c.identity op payload.length ++ payload) := by
  unfold encode checkLength
  by_cases h : payload.length ≤ c.limit
  · rw [if_pos h, within_of_le h]
    exact encodeFrame_eq hop (Nat.le_trans h c.limit_le)
  · rw [if_neg h, within_of_lt (Nat.not_le.1 h)]
    rfl

theorem append_eq_within (c : Codec) (out : Bytes) (hop : op.isEncodable = true)
    (payload : Bytes) :
    c.append out op payload = within c.limit payload.length .payloadTooLarge
      (out ++ (Header.bytes c.identity op payload.length ++ payload)) := by
  rw [append_eq, encode_eq_within c hop]
  by_cases h : payload.length ≤ c.limit
  · rw [within_of_le h, within_of_le h]
    rfl
  · rw [within_of_lt (Nat.not_le.1 h), within_of_lt (Nat.not_le.1 h)]
    rfl

/-- What a receiver finds in the frame of a payload. -/
def found (d : Codec) (sender : Identity) (op : OpCode) (payload : Bytes) :
    Except FrameError Frame :=
  within d.limit payload.length .payloadTooLarge (Frame.received d.identity sender op payload)

theorem decodeDatagram_eq_found (d : Codec) (h : encodeFrame sender op payload = .ok bs) :
    d.decodeDatagram bs = d.found sender op payload := by
  obtain ⟨hop, hmax, hbs⟩ := encodeFrame_eq_ok h
  have hheader := Header.decode_bytes d.identity sender payload hop hmax
  rw [← hbs] at hheader
  by_cases hle : payload.length ≤ d.limit
  · have hw := wholeFrame_bytes sender op hle hmax
    rw [← hbs] at hw
    obtain ⟨header, hd, hf⟩ := decodeDatagram_of_whole hw
    rw [hheader] at hd
    cases hd
    rw [hf, hbs, ← Header.length_bytes sender op payload.length, List.drop_left, found,
      within_of_le hle]
    rfl
  · -- The length is judged before the payload is looked at.
    have hcheck : d.checkLength payload.length = .error (.payloadTooLarge payload.length d.limit) :=
      if_neg hle
    unfold decodeDatagram decodeHeader
    rw [hheader, found, within_of_lt (Nat.not_le.1 hle)]
    change (d.checkLength payload.length >>= _) = _
    rw [hcheck]
    rfl

theorem decode_eq_found (d : Codec) (h : encodeFrame sender op payload = .ok bs) (rest : Bytes) :
    d.decode (bs ++ rest) = (d.found sender op payload).map fun f => some (f, rest) := by
  obtain ⟨hop, hmax, hbs⟩ := encodeFrame_eq_ok h
  by_cases hle : payload.length ≤ d.limit
  · have hw := wholeFrame_bytes sender op hle hmax
    rw [← hbs] at hw
    obtain ⟨f, hf, hd⟩ := decode_whole hw rest
    rw [decodeDatagram_eq_found d h] at hf
    rw [hd, hf]
    rfl
  · have hw := wholeFrame_bytes sender op (Nat.le_refl _) hmax
    rw [← hbs] at hw
    have hdeclared := Header.declared_bytes sender op payload hmax
    rw [← hbs] at hdeclared
    have hlong : headerSize ≤ (bs ++ rest).length := by
      rw [List.length_append]
      exact Nat.le_trans hw.header_le (Nat.le_add_right _ _)
    rw [← Header.declared_append rest hw.header_le] at hdeclared
    have hover : d.limit < Header.declared (bs ++ rest) := by omega
    rw [decode_of_oversized hlong hover, hdeclared, found, within_of_lt (Nat.not_le.1 hle)]
    rfl

theorem readStream_eq_found (d : Codec) (h : encodeFrame sender op payload = .ok bs)
    {chunks : List Bytes} (hchunks : chunks.flatten = bs) :
    readStream d (chunks.map .chunk) = [d.found sender op payload] := by
  have hread := readStream_chunks d chunks []
  rw [List.append_nil, hchunks] at hread
  have hdecode := decode_eq_found d h []
  rw [List.append_nil] at hdecode
  rw [hread, FrameReader.start]
  cases hfound : d.found sender op payload with
  | error e =>
    rw [hfound] at hdecode
    have hdrain : d.drain ([] ++ bs) = ([], .error e) := drain_of_error hdecode
    rw [FrameReader.feed_of_error d (congrArg Prod.snd hdrain), hdrain]
    rfl
  | ok f =>
    rw [hfound] at hdecode
    have hnone : d.decode [] = .ok none := decode_of_short (by decide)
    have hdrain : d.drain ([] ++ bs) = ([f], .ok []) := by
      rw [List.nil_append, drain_of_some hdecode, drain_of_none hnone]
    rw [FrameReader.feed_of_ok d (congrArg Prod.snd hdrain), hdrain]
    show [.ok f] ++ ((d.drainFinal []).1.map Except.ok ++
      (d.drainFinal []).2.toList.map Except.error) = _
    rw [drainFinal_of_none hnone]
    rfl

end Codec

/-! ## Settings -/

namespace TransportConfig

variable {config : TransportConfig}

/-- The longest payload of a socket transport. -/
def payloadLimit (config : TransportConfig) : Nat :=
  min (config.maxMessageSize.getD 65000) 0xffffff

theorem effectiveMaxMessageSize_eq (h : config.kind ≠ .broker) :
    config.effectiveMaxMessageSize = some (config.maxMessageSize.getD 65000) := by
  unfold effectiveMaxMessageSize
  cases config.maxMessageSize with
  | some n => rfl
  | none =>
    cases hkind : config.kind with
    | broker => exact absurd hkind h
    | _ => rfl

theorem reportedMaxMessageSize_eq (h : config.kind ≠ .broker) :
    config.reportedMaxMessageSize = some config.payloadLimit := by
  unfold reportedMaxMessageSize
  rw [effectiveMaxMessageSize_eq h]
  cases hkind : config.kind with
  | broker => exact absurd hkind h
  | _ => rfl

theorem limit_codec (h : config.kind ≠ .broker) (me : Identity) :
    (Net.Node.ofConfig config me).codec.limit = config.payloadLimit := by
  change min (config.effectiveMaxMessageSize.getD maxPayload) maxPayload = _
  rw [effectiveMaxMessageSize_eq h]
  rfl

end TransportConfig

open Relay Relay.State

/-- The checks of the length of a payload that a node with these settings sends, and of that of its
frame wherever the frame arrives. -/
structure Checks (config : TransportConfig) (me : Identity) (payload : Bytes) (limit : Nat) :
    Prop where
  reported : config.reportedMaxMessageSize = some limit
  send : Lifecycle.checkPayload config.reportedMaxMessageSize payload.length =
    within limit payload.length .payloadTooLarge ()
  encode : (Net.Node.ofConfig config me).codec.encode .evict payload =
    within limit payload.length .payloadTooLarge (Header.bytes me .evict payload.length ++ payload)
  append : ∀ out, (Net.Node.ofConfig config me).codec.append out .evict payload =
    within limit payload.length .payloadTooLarge
      (out ++ (Header.bytes me .evict payload.length ++ payload))
  /-- Any node with the same settings may receive any frame that can be written at all. -/
  datagram : ∀ bs other, encodeFrame me .evict payload = .ok bs →
    (Net.Node.ofConfig config other).codec.decodeDatagram bs =
      within limit payload.length .payloadTooLarge (Frame.received other me .evict payload)
  buffer : ∀ bs other rest, encodeFrame me .evict payload = .ok bs →
    (Net.Node.ofConfig config other).codec.decode (bs ++ rest) =
      within limit payload.length .payloadTooLarge
        (some (Frame.received other me .evict payload, rest))
  stream : ∀ bs other (chunks : List Bytes), encodeFrame me .evict payload = .ok bs →
    chunks.flatten = bs →
    readStream (Net.Node.ofConfig config other).codec (chunks.map .chunk) =
      [within limit payload.length .payloadTooLarge (Frame.received other me .evict payload)]

/-- A relay drops nobody as oversized who writes frames of the node's codec: no peer from which it
has read a part of such frames, whatever else happens to it, and no node of a cluster. -/
structure Spared (config : TransportConfig) (me : Identity) (limit : Nat) : Prop where
  peer : ∀ (relay : Config) (identity : Identity) (key : Nat) (inputs : List (Nat × Input))
    (items : List (OpCode × Bytes)) (written : List Bytes),
    limit ≤ relay.maxMessageSize → 0 < key →
    (items.mapM fun item => (Net.Node.ofConfig config me).codec.encode item.1 item.2) =
      .ok written →
    (start relay identity).bytesReadOver key inputs <+: written.flatten →
    ∀ length bound, .oversized length bound ∉ ((start relay identity).run inputs).reasons key
  node : ∀ (ι : Type) [DecidableEq ι] (u : Setup ι) (steps : List (Step ι)) (i : ι) (w : Wire),
    limit ≤ u.config.maxMessageSize → u.member i = ⟨config, me⟩ →
    (((Cluster.initial : Cluster ι).run u steps).client i).wire = some w →
    ∀ length bound, .oversized length bound ∉
      (((Cluster.initial : Cluster ι).run u steps).relay u).reasons w.key

variable {config : TransportConfig}

theorem checks_payloadLimit (h : config.kind ≠ .broker) (me : Identity) (payload : Bytes) :
    Checks config me payload config.payloadLimit := by
  have hlimit := TransportConfig.limit_codec h
  have hfound : ∀ other, (Net.Node.ofConfig config other).codec.found me .evict payload =
      within config.payloadLimit payload.length .payloadTooLarge
        (Frame.received other me .evict payload) := by
    intro other
    rw [Codec.found, hlimit]
    rfl
  constructor
  case reported => exact TransportConfig.reportedMaxMessageSize_eq h
  case send =>
    rw [TransportConfig.reportedMaxMessageSize_eq h]
    rfl
  case encode =>
    rw [Codec.encode_eq_within _ rfl, hlimit]
    rfl
  case append =>
    intro out
    rw [Codec.append_eq_within _ out rfl, hlimit]
    rfl
  case datagram =>
    intro bs other hbs
    rw [Codec.decodeDatagram_eq_found _ hbs, hfound]
  case buffer =>
    intro bs other rest hbs
    rw [Codec.decode_eq_found _ hbs, hfound]
    unfold within
    split <;> rfl
  case stream =>
    intro bs other chunks hbs hchunks
    rw [Codec.readStream_eq_found _ hbs hchunks, hfound]

theorem whole_of_mapM_encode {c : Codec} {items : List (OpCode × Bytes)} {written : List Bytes}
    (h : (items.mapM fun item => c.encode item.1 item.2) = .ok written) :
    ∀ raw ∈ written, WholeFrame c.limit raw := by
  induction items generalizing written with
  | nil =>
    cases h
    exact fun _ hraw => absurd hraw List.not_mem_nil
  | cons item items ih =>
    rw [List.mapM_cons] at h
    cases hfirst : c.encode item.1 item.2 with
    | error e =>
      rw [hfirst] at h
      cases h
    | ok raw =>
      cases hmore : (items.mapM fun item => c.encode item.1 item.2) with
      | error e =>
        rw [hfirst, hmore] at h
        cases h
      | ok raws =>
        rw [hfirst, hmore] at h
        cases h
        obtain ⟨hle, -, rfl⟩ := Codec.encode_eq_ok hfirst
        exact List.forall_mem_cons.2
          ⟨wholeFrame_bytes c.identity item.1 hle (Nat.le_trans hle c.limit_le), ih hmore⟩

theorem spared_payloadLimit (h : config.kind ≠ .broker) (me : Identity) :
    Spared config me config.payloadLimit := by
  have hlimit := TransportConfig.limit_codec h me
  constructor
  case peer =>
    intro relay identity key inputs items written hle hkey hwritten hread
    refine not_oversized_of_written relay identity hkey (fun raw hraw => ?_) hread
    have hw := whole_of_mapM_encode hwritten raw hraw
    rw [hlimit] at hw
    exact ⟨hw.header_le, hw.length_eq, Nat.le_trans hw.declared_le hle⟩
  case node =>
    intro ι _ u steps i w hle hmember hwire
    refine Cluster.not_oversized_run u steps ?_ hwire
    rw [hmember]
    exact Nat.le_trans (Nat.le_of_eq hlimit) hle

/-- All checks of the length of a payload agree on the limit that a socket transport reports, the
configured one or 65000, but at most what a header can declare; and no relay that admits that length
drops the sender as oversized. -/
theorem size_checks_agree (config : TransportConfig) (hkind : config.kind ≠ .broker)
    (me : Identity) :
    (∀ payload, Checks config me payload (min (config.maxMessageSize.getD 65000) 0xffffff)) ∧
      Spared config me (min (config.maxMessageSize.getD 65000) 0xffffff) :=
  ⟨checks_payloadLimit hkind me, spared_payloadLimit hkind me⟩

/-- A payload of the limit's length, and one that is a byte longer; a relay with the same limit reads
the greeting and a part of the eviction. -/
theorem size_checks_agree_boundary :
    let config := TransportConfig.standard.withMaxMessageSize 2
    let me : Identity := ⟨List.replicate 16 41, rfl⟩
    let codec := (Net.Node.ofConfig config me).codec
    let sent := Header.bytes me .hello 0 ++ (Header.bytes me .evict 2 ++ [7, 8])
    config.kind ≠ .broker ∧
    Lifecycle.checkPayload config.reportedMaxMessageSize 2 = .ok () ∧
    codec.encode .evict [7, 8] = .ok (Header.bytes me .evict 2 ++ [7, 8]) ∧
    Lifecycle.checkPayload config.reportedMaxMessageSize 3 = .error (.payloadTooLarge 3 2) ∧
    codec.decodeDatagram (Header.bytes me .evict 3 ++ [7, 8, 9]) =
      .error (.payloadTooLarge 3 2) ∧
    ∀ length bound, .oversized length bound ∉
      ((start (Config.standard.withMaxMessageSize 2) ⟨List.replicate 16 42, rfl⟩).run
        [(0, .connected "peer"), (1, .arrived 1 (sent.take 41))]).reasons 1 := by
  intro config me codec sent
  have hkind : config.kind ≠ .broker := by decide
  obtain ⟨hchecks, hspared⟩ := size_checks_agree config hkind me
  have hfit := hchecks [7, 8]
  have hlong := hchecks [7, 8, 9]
  refine ⟨hkind, hfit.send, hfit.encode, hlong.send, hlong.datagram _ me (by rfl), ?_⟩
  exact hspared.peer _ _ 1 _ [(.hello, []), (.evict, [7, 8])] _ (by decide) (by decide) (by rfl)
    ⟨sent.drop 41, by decide +kernel⟩

end EvictionBus

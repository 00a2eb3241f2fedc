import EvictionBus.Proofs.Frame.Chunks
import EvictionBus.Proofs.Net.Happenings
import EvictionBus.Proofs.Relay.Clients
import Mathlib.Data.List.Infix

/-!
# What a node hears

A record of everything that a node takes in: the relay's answer to a greeting, the chunks of its
streams and the datagrams of its group, in the order in which they come. The frames of a record are
the frames that its chunks complete, each with the chunk of its last byte, and the datagrams that
are frames.
-/

namespace EvictionBus

/-! ## Traffic and frames -/

/-- The traffic of a node that has received some frames. -/
structure Traffic.Takes (t : Traffic) (fs : List Frame) : Prop where
  delivered : t.delivered = (fs.filter Frame.handed).map Frame.payload
  received : t.received = t.delivered.length
  selfEchoes : t.selfEchoes = fs.countP fun f => f.header.sentByMe

namespace Traffic.Takes

variable {t : Traffic} {fs : List Frame}

theorem start : Traffic.start.Takes [] := ⟨rfl, rfl, rfl⟩

theorem receive (h : t.Takes fs) (f : Frame) : (t.receive f).Takes (fs ++ [f]) where
  delivered := by
    rw [delivered_receive, h.delivered, List.filter_append, List.map_append]
  received := by
    have hcount := t.received_receive f
    have hbefore := h.received
    omega
  selfEchoes := by
    rw [List.countP_append, List.countP_singleton, ← h.selfEchoes]
    unfold Traffic.receive
    cases hme : f.header.sentByMe with
    | true => rfl
    | false => cases f.header.op <;> rfl

theorem receiveItems (h : t.Takes fs) (items : List FrameItem) :
    (t.receiveItems items).Takes (fs ++ items.filterMap Except.toOption) := by
  unfold Traffic.receiveItems
  induction items generalizing t fs with
  | nil => exact (List.append_nil fs).symm ▸ h
  | cons item items ih =>
    cases item with
    | error e => exact ih h
    | ok f =>
      have hnext := ih (h.receive f)
      rwa [List.append_assoc] at hnext

theorem receiveDatagram (h : t.Takes fs) (c : Codec) (bytes : Bytes) :
    (Multicast.receive c t bytes).Takes (fs ++ (c.decodeDatagram bytes).toOption.toList) := by
  unfold Multicast.receive
  cases c.decodeDatagram bytes with
  | error e => exact (List.append_nil fs).symm ▸ h
  | ok f => exact h.receive f

theorem countSent (h : t.Takes fs) : t.countSent.Takes fs := ⟨h.delivered, h.received, h.selfEchoes⟩

end Traffic.Takes

/-! ## Readers in step with a stream -/

/-- A reader that still reads has taken every whole frame of the bytes, and holds the rest. -/
def FrameReader.Holds (c : Codec) (bytes : Bytes) (r : FrameReader) : Prop :=
  ∀ pending, r = .reading pending → (c.drain bytes).2 = .ok pending

namespace FrameReader

variable {c : Codec} {bytes pending : Bytes}

theorem drain_nil (c : Codec) : c.drain [] = ([], .ok []) :=
  Codec.drain_of_none (Codec.decode_of_short (by decide))

theorem holds_start (c : Codec) : start.Holds c [] := by
  intro pending h
  cases h
  exact congrArg Prod.snd (drain_nil c)

theorem Holds.feed (h : (reading pending).Holds c bytes) (chunk : Bytes) :
    ((reading pending).feed c chunk).1.Holds c (bytes ++ chunk) ∧
      ((reading pending).feed c chunk).2.filterMap Except.toOption =
        (c.drain (bytes ++ chunk)).1.drop (c.drain bytes).1.length := by
  rw [c.drain_append_of_ok chunk (h pending rfl), List.drop_left]
  cases hout : (c.drain (pending ++ chunk)).2 with
  | ok rest =>
    rw [feed_of_ok c hout, toOption_map_ok]
    refine ⟨fun p hp => ?_, rfl⟩
    cases hp
    rw [c.drain_append_of_ok chunk (h pending rfl)]
    exact hout
  | error e =>
    rw [feed_of_error c hout, List.filterMap_append, toOption_map_ok]
    exact ⟨fun p hp => (by cases hp), List.append_nil _⟩

/-- The end of a stream brings no frame. -/
theorem Holds.finish (h : (reading pending).Holds c bytes) :
    ((reading pending).finish c).2.filterMap Except.toOption = [] := by
  obtain ⟨raws, rest, -, -, hend⟩ := c.drain_spec bytes
  have hout := h pending rfl
  rcases hend with ⟨hrest, hunfinished⟩ | ⟨herror, -⟩
  · rw [hout] at hrest
    cases hrest
    exact (finish_spec hunfinished).2
  · rw [hout] at herror
    cases herror

end FrameReader

namespace Net

/-! ## Records -/

inductive Sound where
  /-- The next bytes of the relay's answer to a greeting. -/
  | welcome (connection : Nat) (bytes : Bytes)
  /-- The next bytes of a stream of frames. -/
  | chunk (connection : Nat) (bytes : Bytes)
  | datagram (bytes : Bytes)
  deriving DecidableEq

namespace Sound

/-- Whether a sound comes over one of the connections up to a number. -/
def Within (last : Nat) : Sound → Prop
  | .welcome connection _ => connection ≤ last
  | .chunk connection _ => connection ≤ last
  | .datagram _ => True

/-- The bytes of a sound that belong to the frames of a stream. -/
def bytesOn (connection : Nat) : Sound → Bytes
  | .chunk other bytes => if other = connection then bytes else []
  | _ => []

/-- The bytes of a sound that belong to the answer to a greeting. -/
def welcomeOn (connection : Nat) : Sound → Bytes
  | .welcome other bytes => if other = connection then bytes else []
  | _ => []

def isChunkOn (connection : Nat) : Sound → Bool
  | .chunk other _ => other = connection
  | _ => false

def datagram? : Sound → Option Bytes
  | .datagram bytes => some bytes
  | _ => none

end Sound

/-- All bytes of a stream of frames in a record. -/
def streamOf (connection : Nat) (log : List Sound) : Bytes :=
  log.flatMap (Sound.bytesOn connection)

/-- All bytes of the answer to a greeting in a record. -/
def answerOn (connection : Nat) (log : List Sound) : Bytes :=
  log.flatMap (Sound.welcomeOn connection)

/-- The frames that come with a sound after others. -/
def framesIn (c : Codec) (before : List Sound) : Sound → List Frame
  | .welcome _ _ => []
  | .chunk connection bytes =>
    (c.drain (streamOf connection before ++ bytes)).1.drop
      (c.drain (streamOf connection before)).1.length
  | .datagram bytes => (c.decodeDatagram bytes).toOption.toList

/-- The frames of those sounds of a record that are wanted. -/
def framesAmong (c : Codec) (wanted : Sound → Bool) (before : List Sound) : List Sound → List Frame
  | [] => []
  | s :: log =>
    (if wanted s then framesIn c before s else []) ++ framesAmong c wanted (before ++ [s]) log

/-- All frames of a record. -/
def framesOf (c : Codec) (log : List Sound) : List Frame :=
  framesAmong c (fun _ => true) [] log

/-- The frames of a record that come over a connection. -/
def framesOn (c : Codec) (connection : Nat) (log : List Sound) : List Frame :=
  framesAmong c (Sound.isChunkOn connection) [] log

/-- The frames of a record that are datagrams. -/
def framesCast (c : Codec) (log : List Sound) : List Frame :=
  framesAmong c (fun s => s.datagram?.isSome) [] log

variable {c : Codec} {connection last : Nat} {before log more : List Sound} {s : Sound}

theorem streamOf_append (connection : Nat) (log more : List Sound) :
    streamOf connection (log ++ more) = streamOf connection log ++ streamOf connection more :=
  List.flatMap_append

theorem answerOn_append (connection : Nat) (log more : List Sound) :
    answerOn connection (log ++ more) = answerOn connection log ++ answerOn connection more :=
  List.flatMap_append

theorem framesAmong_append (c : Codec) (wanted : Sound → Bool) (before log more : List Sound) :
    framesAmong c wanted before (log ++ more) =
      framesAmong c wanted before log ++ framesAmong c wanted (before ++ log) more := by
  induction log generalizing before with
  | nil => rw [List.append_nil]; rfl
  | cons s log ih =>
    rw [List.cons_append, framesAmong, framesAmong, ih, List.append_assoc, List.append_assoc]
    rfl

theorem framesOf_concat (c : Codec) (log : List Sound) (s : Sound) :
    framesOf c (log ++ [s]) = framesOf c log ++ framesIn c log s := by
  unfold framesOf
  rw [framesAmong_append]
  simp [framesAmong]

/-- Nothing has been heard yet on a connection that is still to be made. -/
theorem streamOf_of_within (hlog : ∀ s ∈ log, s.Within last) (hnew : last < connection) :
    streamOf connection log = [] := by
  rw [streamOf, List.flatMap_eq_nil_iff]
  intro s hs
  have hwithin := hlog s hs
  cases s with
  | chunk other bytes =>
    have hle : other ≤ last := hwithin
    exact if_neg (by omega)
  | _ => rfl

theorem answerOn_of_within (hlog : ∀ s ∈ log, s.Within last) (hnew : last < connection) :
    answerOn connection log = [] := by
  rw [answerOn, List.flatMap_eq_nil_iff]
  intro s hs
  have hwithin := hlog s hs
  cases s with
  | welcome other bytes =>
    have hle : other ≤ last := hwithin
    exact if_neg (by omega)
  | _ => rfl

/-! ## The frames of one stream -/

theorem drain_append_prefix (c : Codec) (bytes chunk : Bytes) :
    (c.drain bytes).1 <+: (c.drain (bytes ++ chunk)).1 := by
  cases hout : (c.drain bytes).2 with
  | ok rest =>
    rw [c.drain_append_of_ok chunk hout]
    exact List.prefix_append _ _
  | error e =>
    rw [c.drain_append_of_error chunk hout]

/-- Whatever the chunks and whatever comes between them, the frames of a stream are those of all its
bytes. -/
theorem framesOn_eq (c : Codec) (connection : Nat) (log : List Sound) :
    framesOn c connection log = (c.drain (streamOf connection log)).1 := by
  induction log using List.reverseRecOn with
  | nil => exact (congrArg Prod.fst (FrameReader.drain_nil c)).symm
  | append_singleton log s ih =>
    unfold framesOn at ih ⊢
    rw [framesAmong_append, ih, streamOf_append, List.nil_append]
    have hother : s.bytesOn connection = [] → s.isChunkOn connection = false →
        (c.drain (streamOf connection log)).1 ++
            framesAmong c (Sound.isChunkOn connection) log [s] =
          (c.drain (streamOf connection log ++ streamOf connection [s])).1 := by
      intro hbytes hwanted
      simp [framesAmong, hwanted, streamOf, hbytes]
    cases s with
    | welcome _ _ => exact hother rfl rfl
    | datagram _ => exact hother rfl rfl
    | chunk other bytes =>
      by_cases hsame : other = connection
      · subst hsame
        have hbytes : streamOf other [.chunk other bytes] = bytes := by
          simp [streamOf, Sound.bytesOn]
        obtain ⟨new, hnew⟩ := drain_append_prefix c (streamOf other log) bytes
        rw [hbytes, ← hnew]
        simp [framesAmong, Sound.isChunkOn, framesIn, ← hnew]
      · exact hother (if_neg hsame) (decide_eq_false hsame)

/-- The frames of a stream are the whole frames at its front. -/
theorem framesOn_reads (c : Codec) (connection : Nat) (log : List Sound) :
    ∃ raws rest, streamOf connection log = raws.flatten ++ rest ∧
      c.Reads raws (framesOn c connection log) ∧ Exhausted c.limit rest := by
  obtain ⟨raws, rest, hbytes, hreads, hend⟩ := c.drain_spec (streamOf connection log)
  refine ⟨raws, rest, hbytes, framesOn_eq c connection log ▸ hreads, ?_⟩
  rcases hend with ⟨-, hunfinished⟩ | ⟨-, hlarge⟩
  · exact .inl hunfinished
  · exact .inr hlarge

/-! ## Datagrams -/

theorem streamOf_datagram (connection : Nat) (log more : List Sound) (bytes : Bytes) :
    streamOf connection (log ++ .datagram bytes :: more) = streamOf connection (log ++ more) := by
  rw [streamOf_append, streamOf_append]
  rfl

/-- A datagram has nothing to do with the frames after it. -/
theorem framesAmong_datagram (c : Codec) (wanted : Sound → Bool) (before between : List Sound)
    (bytes : Bytes) (log : List Sound) :
    framesAmong c wanted (before ++ .datagram bytes :: between) log =
      framesAmong c wanted (before ++ between) log := by
  induction log generalizing between with
  | nil => rfl
  | cons s log ih =>
    have hframes : framesIn c (before ++ .datagram bytes :: between) s =
        framesIn c (before ++ between) s := by
      cases s with
      | chunk connection chunk =>
        simp only [framesIn, streamOf_datagram]
      | _ => rfl
    have hrest := ih (between ++ [s])
    unfold framesAmong
    rw [hframes, List.append_assoc, List.append_assoc, List.cons_append, hrest]

instance decidableWholeFrame (limit : Nat) (bytes : Bytes) : Decidable (WholeFrame limit bytes) :=
  decidable_of_iff
    (headerSize ≤ bytes.length ∧ bytes.length = headerSize + Header.declared bytes ∧
      Header.declared bytes ≤ limit)
    ⟨fun h => ⟨h.1, h.2.1, h.2.2⟩, fun h => ⟨h.header_le, h.length_eq, h.declared_le⟩⟩

theorem toOption_decodeDatagram {bytes : Bytes} (h : ¬ WholeFrame c.limit bytes) :
    (c.decodeDatagram bytes).toOption = none := by
  cases hf : c.decodeDatagram bytes with
  | error e => rfl
  | ok f => exact absurd (Codec.whole_of_decodeDatagram hf) h

/-- A datagram that is no frame might as well not have come. -/
theorem framesOf_skip {bytes : Bytes} (h : ¬ WholeFrame c.limit bytes) (early late : List Sound) :
    framesOf c (early ++ .datagram bytes :: late) = framesOf c (early ++ late) := by
  have hnone : framesIn c early (.datagram bytes) = [] := by
    simp [framesIn, toOption_decodeDatagram h]
  have hlater := framesAmong_datagram c (fun _ => true) early [] bytes late
  rw [List.append_nil] at hlater
  unfold framesOf
  rw [framesAmong_append, framesAmong_append, List.nil_append, framesAmong, if_pos rfl, hnone,
    List.nil_append, hlater]

/-- The datagrams that are frames are taken in as such, each once. -/
theorem framesCast_reads (c : Codec) (log : List Sound) :
    c.Reads ((log.filterMap Sound.datagram?).filter fun bytes => WholeFrame c.limit bytes)
      (framesCast c log) := by
  induction log using List.reverseRecOn with
  | nil => exact .nil c
  | append_singleton log s ih =>
    unfold framesCast at ih ⊢
    rw [framesAmong_append, List.filterMap_append, List.filter_append]
    refine ih.append ?_
    cases s with
    | welcome _ _ => exact .nil c
    | chunk _ _ => exact .nil c
    | datagram bytes =>
      by_cases hwhole : WholeFrame c.limit bytes
      · obtain ⟨header, -, hf⟩ := Codec.decodeDatagram_of_whole hwhole
        simpa [framesAmong, framesIn, Sound.datagram?, hwhole, hf, Except.toOption] using
          Codec.Reads.cons hwhole hf (.nil c)
      · simpa [framesAmong, framesIn, Sound.datagram?, hwhole, toOption_decodeDatagram hwhole] using
          Codec.Reads.nil c

/-! ## Senders -/

/-- A codec tells by the sender whether a frame is its own. -/
theorem sentByMe_of_mem {f : Frame} (h : f ∈ framesOf c log) :
    f.header.sentByMe = decide (f.header.sender = c.identity) := by
  have hread : ∀ {raws : List Bytes} {fs : List Frame}, c.Reads raws fs → f ∈ fs →
      f.header.sentByMe = decide (f.header.sender = c.identity) := by
    intro raws fs hreads hf
    have hmem : Except.ok f ∈ raws.map c.decodeDatagram := by
      rw [hreads.frames]
      exact List.mem_map_of_mem hf
    obtain ⟨raw, hraw, hdecode⟩ := List.mem_map.mp hmem
    obtain ⟨header, hd, hok⟩ := Codec.decodeDatagram_of_whole (hreads.whole raw hraw)
    rw [hdecode] at hok
    cases hok
    exact Header.sentByMe_of_decode hd
  induction log using List.reverseRecOn with
  | nil => cases h
  | append_singleton log s ih =>
    rw [framesOf_concat] at h
    rcases List.mem_append.mp h with h | h
    · exact ih h
    · cases s with
      | welcome _ _ => cases h
      | chunk connection bytes =>
        obtain ⟨raws, rest, -, hreads, -⟩ := c.drain_spec (streamOf connection log ++ bytes)
        exact hread hreads (List.mem_of_mem_drop h)
      | datagram bytes =>
        have hsome : c.decodeDatagram bytes = .ok f := by
          cases hd : c.decodeDatagram bytes with
          | error e => simp [framesIn, hd, Except.toOption] at h
          | ok g => simpa [framesIn, hd, Except.toOption, eq_comm] using h
        exact hread (.cons (Codec.whole_of_decodeDatagram hsome) hsome (.nil c)) List.mem_cons_self

end Net

end EvictionBus

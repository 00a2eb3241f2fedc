import EvictionBus.Proofs.Relay.Agreement

/-!
# When the payload of a peer is due

A payload is due at a time that its header sets: the time at which the last byte of the header has
arrived, and the time that a payload may take.  So whether there is a deadline and when it is can be
told from the bytes that have arrived from a peer and the times of their arrival.
-/

namespace EvictionBus.Relay

/-! ## Readers -/

namespace Reader

/-- The bytes under way are those that the reader holds, each with the time of its arrival, and a
deadline is counted from the last byte of the header. -/
structure Timed (rules : ReadRules) (under : List (Nat × UInt8)) (r : Reader) : Prop where
  held_eq : under.map Prod.snd = r.held
  deadline : ∀ d, r.deadline? = some d → ∃ t b, under[headerSize - 1]? = some (t, b) ∧
    d = Clock.due t rules.timeout.ceilMillis

variable {rules : ReadRules} {r next : Reader} {under : List (Nat × UInt8)} {now d : Nat}

theorem timed_start : start.Timed rules [] :=
  ⟨rfl, nofun⟩

theorem judge_eq_reading {bytes : Bytes} (h : judge rules now bytes = .reading next) :
    ∃ header, next = .inPayload header bytes.reverse header.length
      (Clock.due now rules.timeout.ceilMillis) := by
  unfold judge at h
  split at h
  · cases h
  next header _ =>
    split at h
    · cases h
    · split at h
      · cases h
      · cases h
        exact ⟨header, rfl⟩

/-- A deadline is set by the last byte of a header, and stays. -/
theorem deadline?_push {b : UInt8} (h : r.Sound rules)
    (hp : r.push rules now b = .reading next) (hd : next.deadline? = some d) :
    r.deadline? = some d ∨
      d = Clock.due now rules.timeout.ceilMillis ∧ r.held.length = headerSize - 1 := by
  cases r with
  | inHeader read missing =>
    obtain ⟨hpos, hlen⟩ := h
    rw [push] at hp
    split at hp
    · cases hp
      cases hd
    next hlast =>
      obtain ⟨header, rfl⟩ := judge_eq_reading hp
      cases hd
      refine .inr ⟨rfl, ?_⟩
      show read.reverse.length = headerSize - 1
      rw [List.length_reverse]
      omega
  | inPayload header read missing deadline =>
    rw [push] at hp
    split at hp
    · cases hp
      exact .inl hd
    · cases hp

theorem timed_push {b : UInt8} (h : r.Sound rules) (ht : r.Timed rules under)
    (hp : r.push rules now b = .reading next) : next.Timed rules (under ++ [(now, b)]) := by
  have hpush := push_sound now b h
  rw [hp] at hpush
  refine ⟨?_, fun d hd => ?_⟩
  · rw [hpush.2, List.map_append, ht.held_eq]
    rfl
  · rcases deadline?_push h hp hd with hold | ⟨rfl, hlast⟩
    · obtain ⟨t, c, hget, rfl⟩ := ht.deadline d hold
      obtain ⟨hlt, -⟩ := List.getElem?_eq_some_iff.1 hget
      exact ⟨t, c, (List.getElem?_append_left hlt).trans hget, rfl⟩
    · -- The byte is the last one of the header.
      rw [← ht.held_eq, List.length_map] at hlast
      refine ⟨now, b, ?_, rfl⟩
      rw [← hlast, List.getElem?_concat_length]

/-- After bytes that have arrived together the last ones of all are under way. -/
theorem timed_feed (now : Nat) (bs : Bytes) (h : r.Sound rules) (ht : r.Timed rules under)
    (hok : (r.feed rules now bs).2 = .ok next) :
    ∃ older rest, under ++ bs.map (now, ·) = older ++ rest ∧ next.Timed rules rest := by
  induction bs generalizing r under with
  | nil =>
    cases hok
    exact ⟨[], under, List.append_nil _, ht⟩
  | cons b bs ih =>
    have hpush := push_sound now b h
    rw [List.map_cons, List.append_cons]
    unfold feed at hok
    cases hp : r.push rules now b with
    | reading later =>
      rw [hp] at hok hpush
      exact ih hpush.1 (timed_push h ht hp) hok
    | complete f =>
      rw [hp] at hok
      obtain ⟨older, rest, heq, hrest⟩ := ih sound_start timed_start hok
      refine ⟨(under ++ [(now, b)]) ++ older, rest, ?_, hrest⟩
      rw [List.append_assoc _ older, ← heq, List.nil_append]
    | refused reason =>
      rw [hp] at hok
      cases hok

/-- No deadline is set in the past. -/
theorem deadline?_feed {bs : Bytes} (h : r.Sound rules)
    (hok : (r.feed rules now bs).2 = .ok next) (hd : next.deadline? = some d) :
    r.deadline? = some d ∨ now ≤ d := by
  induction bs generalizing r with
  | nil =>
    cases hok
    exact .inl hd
  | cons b bs ih =>
    have hpush := push_sound now b h
    unfold feed at hok
    cases hp : r.push rules now b with
    | reading later =>
      rw [hp] at hok hpush
      rcases ih hpush.1 hok with hlater | hle
      · refine (deadline?_push h hp hlater).imp_right ?_
        rintro ⟨rfl, -⟩
        exact Nat.le_add_right ..
      · exact .inr hle
    | complete f =>
      rw [hp] at hok
      rcases ih sound_start hok with hstart | hle
      · cases hstart
      · exact .inr hle
    | refused reason =>
      rw [hp] at hok
      cases hok

end Reader

/-! ## Bytes of a peer -/

/-- The bytes that arrive from a peer, each with the time of its arrival. -/
def arrivals (key : Nat) (inputs : List (Nat × Input)) : List (Nat × UInt8) :=
  inputs.flatMap fun i => (i.2.bytesFrom key).map (i.1, ·)

theorem map_snd_arrivals (key : Nat) (inputs : List (Nat × Input)) :
    (arrivals key inputs).map Prod.snd = arrivedOver key inputs := by
  unfold arrivals arrivedOver
  rw [List.map_flatMap]
  refine List.flatMap_congr fun i _ => ?_
  rw [List.map_map]
  exact List.map_id _

/-- Behind whole frames, the last byte of a header has arrived at time `t`; the payload of `length`
bytes that it declares is within the limit, and not all of it has arrived. -/
inductive Pending (limit : Nat) (arrived : List (Nat × UInt8)) (t length : Nat) : Prop where
  | intro {raws : List Bytes} {before under : List (Nat × UInt8)} {b : UInt8}
      (split : arrived = before ++ under) (frames : before.map Prod.snd = raws.flatten)
      (whole : ∀ raw ∈ raws, WholeFrame limit raw)
      (header : under[headerSize - 1]? = some (t, b))
      (declared : Header.declared (under.map Prod.snd) = length)
      (pos : 0 < length) (le : length ≤ limit) (incomplete : under.length < headerSize + length)

/-- The bytes are whole frames and a frame that is not complete in one way only. -/
theorem Pending.unique {limit t length : Nat} {arrived : List (Nat × UInt8)} {raws : List Bytes}
    {rest : Bytes} (h : Pending limit arrived t length)
    (hwhole : ∀ raw ∈ raws, WholeFrame limit raw) (hrest : Unfinished limit rest)
    (hsplit : arrived.map Prod.snd = raws.flatten ++ rest) :
    ∃ before under b, arrived = before ++ under ∧ under.map Prod.snd = rest ∧
      under[headerSize - 1]? = some (t, b) ∧ headerSize ≤ rest.length ∧
      Header.declared rest = length ∧ length ≤ limit := by
  cases h with
  | @intro raws' before under b harrived hframes hwhole' hheader hdeclared hpos hle hlt =>
    obtain ⟨hlong, -⟩ := List.getElem?_eq_some_iff.1 hheader
    have hlength : (under.map Prod.snd).length = under.length := List.length_map _
    have hsize : 0 < headerSize := by decide
    have hlen : headerSize ≤ (under.map Prod.snd).length := by omega
    have hunder : Unfinished limit (under.map Prod.snd) :=
      unfinished_of_partial hlen (by rw [hdeclared]; omega)
    rw [harrived, List.map_append, hframes] at hsplit
    obtain ⟨-, rfl⟩ := flatten_append_inj hwhole' hwhole hunder hrest hsplit
    exact ⟨before, under, b, harrived, rfl, hheader, hlen, hdeclared, hle⟩

namespace State

/-! ## Peers -/

/-- The last ones of the bytes that have arrived from a peer that is read from are under way. -/
def Clocked (s : State) (key : Nat) (arrived : List (Nat × UInt8)) : Prop :=
  ∀ c, s.reading? key = some c →
    ∃ older under, arrived = older ++ under ∧ c.input.Timed s.readRules under

variable {s : State} {key now d t length : Nat} {arrived : List (Nat × UInt8)} {raws : List Bytes}

theorem clocked_after (h : s.Clocked key arrived) (hs : s.Sound) (hkey : key ≤ s.lastKey)
    (now : Nat) (input : Input) :
    (s.after now input).Clocked key (arrived ++ (input.bytesFrom key).map (now, ·)) := by
  intro d hd
  have hf := follows_after hs now input
  obtain ⟨c, hc, hfeed⟩ := feed_of_reading?_after hs now hkey hd
  obtain ⟨older, under, rfl, ht⟩ := h c hc
  have hsound := hs.reader_sound (hs.member_of_reading? hc).1
  obtain ⟨more, rest, hsplit, hrest⟩ := Reader.timed_feed now _ hsound ht hfeed
  refine ⟨older ++ more, rest, ?_, ?_⟩
  · rw [List.append_assoc, hsplit, List.append_assoc]
  · rw [readRules, hf.identity_eq, hf.config_eq]
    exact hrest

theorem clocked_run (h : s.Clocked key arrived) (hs : s.Sound) (hkey : key ≤ s.lastKey)
    (inputs : List (Nat × Input)) :
    (s.run inputs).Clocked key (arrived ++ arrivals key inputs) := by
  induction inputs generalizing s arrived with
  | nil =>
    rw [arrivals, List.flatMap_nil, List.append_nil]
    exact h
  | cons i inputs ih =>
    obtain ⟨now, input⟩ := i
    have hf := follows_after hs now input
    have hrest := ih (clocked_after h hs hkey now input) hf.sound
      (Nat.le_trans hkey hf.lastKey_le)
    rw [List.append_assoc] at hrest
    exact hrest

theorem deadline?_eq_some : s.deadline? key = some d ↔
    ∃ c, s.reading? key = some c ∧ c.input.deadline? = some d :=
  Option.bind_eq_some_iff

/-- The deadline after an input is an old one, or it is not in the past. -/
theorem deadline?_after (hs : s.Sound) (hkey : key ≤ s.lastKey) {input : Input}
    (hd : (s.after now input).deadline? key = some d) :
    s.deadline? key = some d ∨ now ≤ d := by
  obtain ⟨e, he, hinput⟩ := deadline?_eq_some.1 hd
  obtain ⟨c, hc, hfeed⟩ := feed_of_reading?_after hs now hkey he
  have hsound := hs.reader_sound (hs.member_of_reading? hc).1
  exact (Reader.deadline?_feed hsound hfeed hinput).imp_left fun h =>
    deadline?_eq_some.2 ⟨c, hc, h⟩

theorem not_pending_of_refused (hp : Pending s.config.maxMessageSize arrived t length)
    {rest : Bytes} (hsplit : arrived.map Prod.snd = raws.flatten ++ rest)
    (hwhole : ∀ raw ∈ raws, WholeFrame s.config.maxMessageSize raw) :
    ¬ s.config.maxMessageSize < Header.declared rest := by
  intro hover
  obtain ⟨-, -, -, -, -, -, -, hdeclared, hle⟩ :=
    hp.unique hwhole (unfinished_of_oversized hover) hsplit
  omega

/-- A peer that is read from and whose payload is pending is waited for until a time that the header
sets, and dropped for its payload from then on. -/
theorem deadline?_of_pending (hs : s.Sound) (hclock : s.Clocked key arrived)
    (hm : s.peers.contains key = true) (hsplit : arrived.map Prod.snd = raws.flatten ++ s.held key)
    (hwhole : ∀ raw ∈ raws, WholeFrame s.config.maxMessageSize raw)
    (hp : Pending s.config.maxMessageSize arrived t length) :
    s.deadline? key = some (Clock.due t s.config.payloadTimeout.ceilMillis) ∧
      ∀ now, Clock.due t s.config.payloadTimeout.ceilMillis ≤ now →
        s.late? now key = some (.payloadTimeout length
          (min s.config.payloadTimeout.wholeMillis (UInt64.size - 1))) := by
  obtain ⟨c, hc⟩ := Option.isSome_iff_exists.1 (hs.reading?_of_member hm)
  obtain ⟨hget, -⟩ := hs.member_of_reading? hc
  have hsound := hs.reader_sound hget
  have hheld : s.held key = c.input.held := by
    unfold State.held
    rw [hget]
  rw [hheld] at hsplit
  obtain ⟨before, under, b, harrived, hunder, hheader, hlen, hdeclared, -⟩ :=
    hp.unique hwhole hsound.unfinished hsplit
  obtain ⟨older, held, harrived', ht⟩ := hclock c hc
  -- What the reader holds has arrived last, so both are the same bytes.
  have hsame : under = held := by
    have hlength : under.length = held.length := by
      have := congrArg List.length (hunder.trans ht.held_eq.symm)
      rwa [List.length_map, List.length_map] at this
    exact (List.append_inj' (harrived.symm.trans harrived') hlength).2
  unfold deadline? late?
  rw [hc]
  cases hinput : c.input with
  | inHeader read missing =>
    rw [hinput] at hsound hlen
    obtain ⟨hpos, hsum⟩ := hsound
    change headerSize ≤ read.reverse.length at hlen
    rw [List.length_reverse] at hlen
    omega
  | inPayload header read missing deadline =>
    rw [hinput] at hsound hdeclared ht
    obtain ⟨-, -, -, hd⟩ := hsound
    obtain ⟨t', b', hheader', hdeadline⟩ := ht.deadline deadline rfl
    rw [← hsame, hheader] at hheader'
    cases hheader'
    have hlength : header.length = length := (Header.length_of_decode hd).2.trans hdeclared
    refine ⟨?_, fun now hle => ?_⟩
    · show c.input.deadline? = _
      rw [hinput, hdeadline]
      rfl
    · show c.input.late? s.readRules now = _
      rw [hinput, ← hlength]
      exact if_pos (hdeadline ▸ hle)

/-- Only the header of a payload that is pending sets a deadline. -/
theorem pending_of_deadline? (hs : s.Sound) (hclock : s.Clocked key arrived)
    (hsplit : arrived.map Prod.snd = raws.flatten ++ s.held key)
    (hwhole : ∀ raw ∈ raws, WholeFrame s.config.maxMessageSize raw)
    (hd : s.deadline? key = some d) :
    ∃ t length, Pending s.config.maxMessageSize arrived t length ∧
      d = Clock.due t s.config.payloadTimeout.ceilMillis := by
  obtain ⟨c, hc, hdeadline⟩ := deadline?_eq_some.1 hd
  obtain ⟨hget, -⟩ := hs.member_of_reading? hc
  have hsound := hs.reader_sound hget
  have hheld : s.held key = c.input.held := by
    unfold State.held
    rw [hget]
  obtain ⟨older, under, rfl, ht⟩ := hclock c hc
  obtain ⟨t, b, hheader, hdue⟩ := ht.deadline d hdeadline
  obtain ⟨hlong, -⟩ := List.getElem?_eq_some_iff.1 hheader
  have hunder := ht.held_eq
  rw [hheld, ← hunder, List.map_append] at hsplit
  have hframes := List.append_cancel_right hsplit
  cases hinput : c.input with
  | inHeader read missing =>
    rw [hinput] at hdeadline
    cases hdeadline
  | inPayload header read missing deadline =>
    rw [hinput] at hsound hunder
    obtain ⟨hpos, hsum, hle, hdecode⟩ := hsound
    obtain ⟨-, hdeclared⟩ := Header.length_of_decode hdecode
    have hlength : under.length = read.length := by
      have := congrArg List.length hunder
      rw [List.length_map] at this
      exact this.trans List.length_reverse
    have hsize : header.frameSize = headerSize + header.length := rfl
    have hincomplete : under.length < headerSize + header.length := by omega
    have hdeclared' : Header.declared (under.map Prod.snd) = header.length := by
      rw [hunder, hdeclared]
      rfl
    exact ⟨t, header.length, .intro rfl hframes hwhole hheader hdeclared' (by omega) hle
      hincomplete, hdue⟩

end State

end EvictionBus.Relay

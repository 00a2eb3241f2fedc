import EvictionBus.Proofs.Relay.Agreement
import EvictionBus.Proofs.Relay.Origins

/-!
# Who is dropped as oversized

A relay that drops a peer as oversized has read a header from it that declares more than the relay
admits, right behind whole frames.  Nobody is dropped so whose frames the relay admits, whatever the
other peers do and wherever the stream is cut or ends; the nodes of a cluster are such peers if their
limit is not above that of the relay.
-/

namespace EvictionBus.Relay

open State

/-- The bytes are whole frames within the limit and, behind them, a header that declares more. -/
def Exceeds (limit : Nat) (b : Bytes) : Prop :=
  ∃ (raws : List Bytes) (rest : Bytes), b = raws.flatten ++ rest ∧ (∀ raw ∈ raws, WholeFrame limit raw) ∧
    headerSize ≤ rest.length ∧ limit < Header.declared rest

/-- Frames within the limit do not begin with bytes that exceed it. -/
theorem not_exceeds_of_isPrefix {limit : Nat} {b : Bytes} {written : List Bytes}
    (hwritten : ∀ raw ∈ written, WholeFrame limit raw) (h : b <+: written.flatten) :
    ¬ Exceeds limit b := by
  rintro ⟨raws, rest, rfl, hraws, hheader, hover⟩
  obtain ⟨more, hmore⟩ := h
  rw [List.append_assoc] at hmore
  have hle := declared_le_of_flatten_eq hraws hwritten hheader hmore
  omega

/-- What a relay has to do with a key from which it has read the bytes `b`. -/
inductive Account (s : State) (key : Nat) (b : Bytes) : Prop where
  /-- The key has not been given out yet. -/
  | unused (fresh : s.lastKey < key) (silent : b = []) (blameless : s.reasons key = [])
  | reading {raws : List Bytes} (member : s.peers.contains key = true)
      (blameless : s.reasons key = []) (split : b = raws.flatten ++ s.held key)
      (whole : ∀ raw ∈ raws, WholeFrame s.config.maxMessageSize raw)
  | gone (gone : s.Gone key)
      (blamed : ∀ length limit, .oversized length limit ∈ s.reasons key →
        Exceeds s.config.maxMessageSize b)

variable {s t : State} {key : Nat} {b : Bytes} {raws : List Bytes}

theorem Account.of_fate (h : Fate s key b raws) : Account s key b := by
  cases h with
  | reading hm hfresh hsplit hwhole => exact .reading hm hfresh hsplit hwhole
  | refused rest hgone hsplit hwhole hheader hover =>
    exact .gone hgone fun _ _ _ => ⟨raws, rest, hsplit, hwhole, hheader, hover⟩
  | foreign hgone hforeign hreason =>
    refine .gone hgone fun length limit hmem => ?_
    rw [hreason, List.mem_singleton] at hmem
    rw [← hmem] at hforeign
    exact hforeign.elim

/-- The end of its side is the reason only if nothing has been wrong before. -/
theorem Account.of_ended (h : Fate s key b raws) (hs : s.Sound) (now : Nat) :
    Account (s.after now (.ended key)) key b := by
  obtain ⟨hgone, reason, hreason, hwhy⟩ := h.ended hs now
  refine .gone hgone fun length limit hmem => ?_
  rw [hreason, List.mem_singleton] at hmem
  rw [(follows_after hs now (.ended key)).config_eq]
  rcases hwhy with hforeign | ⟨rest, hsplit, hwhole, -, hdrop⟩
  · rw [← hmem] at hforeign
    exact hforeign.elim
  · unfold dropAt at hdrop
    rw [← hmem] at hdrop
    by_cases hshort : rest.length < headerSize
    · rw [if_pos hshort] at hdrop
      cases hdrop
    rw [if_neg hshort] at hdrop
    by_cases hover : s.config.maxMessageSize < Header.declared rest
    · exact ⟨raws, rest, hsplit, hwhole, Nat.not_lt.1 hshort, hover⟩
    · rw [if_neg hover] at hdrop
      cases hdrop

theorem account_connected (hkey : s.lastKey < key) (hnone : s.reasons key = [])
    (now : Nat) (address : String) : Account (s.after now (.connected address)) key [] := by
  cases hstop : s.stopping with
  | true =>
    have hafter : s.after now (.connected address) = s := if_pos hstop
    rw [hafter]
    exact .unused hkey rfl hnone
  | false =>
    rw [after_connected hstop]
    by_cases hnew : key = s.lastKey + 1
    · rw [hnew]
      rw [hnew] at hnone
      exact .of_fate (fate_accept hnone address)
    · have hlater : (s.accept address).2.lastKey < key := by
        have hlast : (s.accept address).2.lastKey = s.lastKey + 1 := rfl
        omega
      have hsame : (s.accept address).2.reasons key = s.reasons key :=
        (reasons_note _ _ key).trans (List.append_nil _)
      exact .unused hlater rfl (hsame.trans hnone)

theorem reading?_of_lt (hs : s.Sound) (h : s.lastKey < key) : s.reading? key = none := by
  cases hc : s.reading? key with
  | none => rfl
  | some c =>
    have := hs.key_le (hs.member_of_reading? hc).1
    omega

theorem account_after (h : Account s key b) (hs : s.Sound) (now : Nat) (input : Input) :
    Account (s.after now input) key (b ++ s.bytesReadAt key input) := by
  have hf := follows_after hs now input
  cases h with
  | unused hkey hsilent hnone =>
    have hread : s.bytesReadAt key input = [] :=
      (stream_of_other s now input fun _ _ => reading?_of_lt hs hkey).1
    rw [hsilent, hread, List.append_nil]
    by_cases hconnected : ∃ address, input = .connected address
    · obtain ⟨address, rfl⟩ := hconnected
      exact account_connected hkey hnone now address
    · have hlast := lastKey_after hs now fun address he => hconnected ⟨address, he⟩
      have hmember : s.peers.contains key = false := by
        cases hm : s.peers.contains key with
        | false => rfl
        | true =>
          have hreading := hs.reading?_of_member hm
          rw [reading?_of_lt hs hkey] at hreading
          cases hreading
      have hsame := (parting_after s now input
        (.inr (by rw [hlast]; exact hkey))).reasons_of_not_member hmember
      exact .unused (by rw [hlast]; exact hkey) rfl (hsame.trans hnone)
  | reading hm hnone hsplit hwhole =>
    have hfate : Fate s key b _ := .reading hm hnone hsplit hwhole
    by_cases hended : input = .ended key
    · subst hended
      exact (List.append_nil b).symm ▸ .of_ended hfate hs now
    · -- All that arrives from a peer in the table is read.
      have hread : s.bytesReadAt key input = input.bytesFrom key := by
        obtain ⟨c, hc⟩ := Option.isSome_iff_exists.1 (hs.reading?_of_member hm)
        cases input with
        | arrived sender bytes => simp only [bytesReadAt, Input.bytesFrom, hc]
        | _ => rfl
      rw [hread]
      exact .of_fate (hfate.after hs now hended)
  | gone hgone hblamed =>
    have hread : s.bytesReadAt key input = [] :=
      (stream_of_other s now input fun _ _ => hs.reading?_of_gone hgone).1
    have hsame := (parting_after s now input
      (.inl hgone.key_le)).reasons_of_not_member hgone.not_member
    rw [hread, List.append_nil]
    refine .gone (hgone.follows hf) ?_
    rw [hsame, hf.config_eq]
    exact hblamed

theorem account_run (h : Account s key b) (hs : s.Sound) (inputs : List (Nat × Input)) :
    Account (s.run inputs) key (b ++ s.bytesReadOver key inputs) := by
  induction inputs generalizing s b with
  | nil => exact (List.append_nil b).symm ▸ h
  | cons i inputs ih =>
    obtain ⟨now, input⟩ := i
    have hrest := ih (account_after h hs now input) (follows_after hs now input).sound
    rw [List.append_assoc] at hrest
    exact hrest

/-- A peer that has been dropped as oversized has sent a header that is. -/
theorem exceeds_of_oversized (config : Config) (identity : Identity) {key : Nat} (hkey : 0 < key)
    {inputs : List (Nat × Input)} {length limit : Nat}
    (h : .oversized length limit ∈ ((start config identity).run inputs).reasons key) :
    Exceeds config.maxMessageSize ((start config identity).bytesReadOver key inputs) := by
  have hs := sound_start config identity
  have hconfig := (follows_run hs inputs).config_eq
  have haccount : Account (start config identity) key [] := .unused hkey rfl rfl
  cases account_run haccount hs inputs with
  | unused _ _ hnone =>
    rw [hnone] at h
    cases h
  | reading _ hnone =>
    rw [hnone] at h
    cases h
  | gone _ hblamed =>
    have hexceeds := hblamed length limit h
    rw [hconfig] at hexceeds
    exact hexceeds

/-- Whoever writes frames that the relay admits is not dropped as oversized. -/
theorem not_oversized_of_written (config : Config) (identity : Identity) {key : Nat}
    (hkey : 0 < key) {written : List Bytes}
    (hwritten : ∀ raw ∈ written, WholeFrame config.maxMessageSize raw)
    {inputs : List (Nat × Input)}
    (hread : (start config identity).bytesReadOver key inputs <+: written.flatten)
    (length limit : Nat) :
    .oversized length limit ∉ ((start config identity).run inputs).reasons key :=
  fun h => not_exceeds_of_isPrefix hwritten hread (exceeds_of_oversized config identity hkey h)

/-! ## The nodes of a cluster -/

variable {ι : Type} [DecidableEq ι]

/-- A node of a cluster, whose greeting and payloads are within its own limit, is not dropped as
oversized if the relay's limit is not below that. -/
theorem Cluster.not_oversized_run (u : Setup ι) (steps : List (Step ι)) {i : ι}
    (hlimit : (u.member i).codec.limit ≤ u.config.maxMessageSize) {w : Wire}
    (hw : (((initial : Cluster ι).run u steps).client i).wire = some w) (length limit : Nat) :
    .oversized length limit ∉ (((initial : Cluster ι).run u steps).relay u).reasons w.key := by
  have hc := coherent_run (coherent_initial u) steps
  obtain ⟨⟨lost, hup, -⟩, -⟩ := hc.linked i w hw
  refine not_oversized_of_written u.config u.identity (hc.key_le i w hw).1 (fun raw hraw => ?_)
    ⟨_, hup⟩ length limit
  have hwhole := (hc.sound i).whole_written raw hraw
  exact ⟨hwhole.header_le, hwhole.length_eq, Nat.le_trans hwhole.declared_le hlimit⟩

end EvictionBus.Relay

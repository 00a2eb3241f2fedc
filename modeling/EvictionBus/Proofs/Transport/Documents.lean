import EvictionBus.Proofs.Json.Records
import EvictionBus.Transport.Config.Json

/-!
# Configuration documents are read back

A configuration that is written as a document is read back from it, field by field: texts with any
characters in them, numbers as far as their words go, and what is absent.  The multiplier of the
reconnection settings is what the reader of numbers makes of it, and an infinite one, or one that is
no number, makes the document unreadable.
-/

namespace EvictionBus

namespace TransportKind

theorem ofValue?_ofText_name (k : TransportKind) : ofValue? (.ofText k.name) = some k := by
  rw [Json.Value.ofText, ofValue?, Json.Text.string?_ofString, Option.bind_some, ofName?_name]

end TransportKind

namespace Backoff

/-- Every number fits into the word that holds it. -/
structure InRange (b : Backoff) : Prop where
  initialDelay : b.initialDelay < UInt64.size
  maxDelay : b.maxDelay < UInt64.size
  maxAttempts : ∀ n ∈ b.maxAttempts, n < UInt32.size

theorem plain_toValue (b : Backoff) : b.toValue.Plain := by
  refine format.plain_object fun f => ?_
  cases f with
  | initialDelay | maxDelay => exact Json.Value.plain_ofNat _
  | multiplier => exact Json.Value.plain_ofFloat _
  | maxAttempts => exact Json.Value.plain_ofOption Json.Value.plain_ofNat _

/-- Backoff settings are read back, but for the multiplier. -/
theorem ofValue?_toValue {b : Backoff} (h : b.InRange) : ofValue? b.toValue =
    (Json.readBack? b.multiplier).map fun x => { b with multiplier := x } := by
  have hattempts : (Json.Value.ofOption .ofNat b.maxAttempts).nullOr?
      (Json.Value.natBelow? UInt32.size) = some b.maxAttempts :=
    Json.Value.nullOr?_ofOption (fun n hn => Json.Value.natBelow?_ofNat (h.maxAttempts n hn))
      Json.Value.ofNat_ne_null
  rw [ofValue?, toValue, format.given_object (by decide) (by decide)]
  simp only [format, set, List.map_cons, List.map_nil, List.foldlM_cons, List.foldlM_nil,
    Option.bind_eq_bind, Option.bind_some, Option.map_some, hattempts,
    Json.Value.natBelow?_ofNat h.initialDelay, Json.Value.natBelow?_ofNat h.maxDelay]
  change (Option.map _ (Json.readBack? b.multiplier)).bind _ = _
  cases Json.readBack? b.multiplier with
  | none => rfl
  | some x => rfl

end Backoff

namespace TransportConfig

open Json

/-- Every number fits into the word that holds it. -/
structure InRange (c : TransportConfig) : Prop where
  maxMessageSize : ∀ n ∈ c.maxMessageSize, n < UInt64.size
  receiveTimeout : c.receiveTimeout < UInt64.size
  handshakeTimeout : c.handshakeTimeout < UInt64.size
  closeTimeout : c.closeTimeout < UInt64.size
  sendTimeout : c.sendTimeout < UInt64.size
  prefetch : c.prefetch < UInt16.size
  reconnect : c.reconnect.InRange

theorem plain_toValue (c : TransportConfig) : c.toValue.Plain := by
  refine format.plain_object fun f => ?_
  cases f with
  | kind => exact Value.plain_ofText _
  | address | localPath => exact Value.plain_ofOption Value.plain_ofText _
  | peers =>
    refine .array fun v hv => ?_
    obtain ⟨s, -, rfl⟩ := List.mem_map.1 hv
    exact Value.plain_ofText s
  | maxMessageSize => exact Value.plain_ofOption Value.plain_ofNat _
  | receiveTimeout | handshakeTimeout | closeTimeout | sendTimeout | prefetch =>
    exact Value.plain_ofNat _
  | reconnect => exact c.reconnect.plain_toValue

/-- A configuration with another multiplier. -/
def withMultiplier (c : TransportConfig) (x : Float) : TransportConfig :=
  { c with reconnect := { c.reconnect with multiplier := x } }

/-- A configuration is read back, but for the multiplier. -/
theorem ofValue?_toValue {c : TransportConfig} (h : c.InRange) : ofValue? c.toValue =
    (readBack? c.reconnect.multiplier).map c.withMultiplier := by
  have htext : ∀ o, Value.nullOr? Value.text? (Value.ofOption .ofText o) = some o := fun o =>
    Value.nullOr?_ofOption (fun s _ => Value.text?_ofText s) Value.ofText_ne_null
  have hword : ∀ {n}, n < UInt64.size → word? (.ofNat n) = some n := Value.natBelow?_ofNat
  have hsize : (Value.ofOption .ofNat c.maxMessageSize).nullOr? word? = some c.maxMessageSize :=
    Value.nullOr?_ofOption (fun n hn => hword (h.maxMessageSize n hn)) Value.ofNat_ne_null
  rw [ofValue?, toValue, format.given_object (by decide) (by decide)]
  simp only [format, set, get, List.map_cons, List.map_nil, List.foldlM_cons, List.foldlM_nil,
    Option.bind_eq_bind, Option.bind_some, Option.map_some, TransportKind.ofValue?_ofText_name,
    htext, Value.list?_map Value.text?_ofText, hsize, hword h.receiveTimeout,
    hword h.handshakeTimeout, hword h.closeTimeout, hword h.sendTimeout,
    Value.natBelow?_ofNat h.prefetch, Backoff.ofValue?_toValue h.reconnect]
  -- All fields but the last have been read; the last one holds the multiplier.
  cases readBack? c.reconnect.multiplier with
  | none => rfl
  | some x => rfl

/-- What becomes of a configuration that is written as a document and read. -/
theorem fromJson_toJson {c : TransportConfig} (h : c.InRange) : fromJson (toJson c) =
    (readBack? c.reconnect.multiplier).elim (.error invalidDocument) fun x =>
      .ok (c.withMultiplier x) := by
  rw [fromJson, toJson, parse_print c.plain_toValue, Option.bind_some, ofValue?_toValue h]
  cases readBack? c.reconnect.multiplier with
  | none => rfl
  | some x => rfl

/-- A finite number equals itself. -/
theorem beq_self_of_isFinite {x : Float} (h : x.isFinite = true) : (x == x) = true := by
  have h : x.toModel.unpack.isFinite = true := h
  change x.toModel.unpack.beq x.toModel.unpack = true
  cases hx : x.toModel.unpack with
  | notANumber | infinity =>
    rw [hx] at h
    cases h
  | zero => rfl
  | finite sign m e hm =>
    have hself : (compare e e).then (compare m m) = .eq := by
      rw [show compare e e = .eq from Std.ReflCmp.compare_self,
        show compare m m = .eq from Std.ReflCmp.compare_self]
      rfl
    cases sign with
    | positive =>
      change (some ((compare e e).then (compare m m)) == some .eq) = true
      rw [hself]
      rfl
    | negative =>
      change (some ((compare e e).then (compare m m)).swap == some .eq) = true
      rw [hself]
      rfl

theorem same_self {c : TransportConfig} (h : c.reconnect.multiplier.isFinite = true) :
    c.same c = true := by
  simp [same, Backoff.same, beq_self_of_isFinite h]

/-- What the document of a configuration says when it is read. -/
structure ReadsBack (c : TransportConfig) : Prop where
  /-- It is the configuration, if the number that is written for the multiplier is read as it. -/
  exact : c.reconnect.multiplier.isFinite = true →
    (∀ n, Numeral.ofFloat? c.reconnect.multiplier = some n →
      n.float? = some c.reconnect.multiplier) →
    fromJson (toJson c) = .ok c ∧ c.same c = true
  /-- A multiplier that is infinite or no number makes the document unreadable. -/
  rejected : c.reconnect.multiplier.isFinite = false →
    fromJson (toJson c) = .error invalidDocument
  /-- Nothing but the multiplier depends on how numbers are read. -/
  otherwise : ∀ d, fromJson (toJson c) = .ok d → d = c.withMultiplier d.reconnect.multiplier

theorem readsBack {c : TransportConfig} (h : c.InRange) : c.ReadsBack where
  exact hfinite hexact := by
    rw [fromJson_toJson h, readBack?_of_exact hfinite hexact]
    exact ⟨rfl, same_self hfinite⟩
  rejected hinfinite := by
    rw [fromJson_toJson h, readBack?_of_not_finite hinfinite]
    rfl
  otherwise d hd := by
    rw [fromJson_toJson h] at hd
    cases hx : readBack? c.reconnect.multiplier with
    | none =>
      rw [hx] at hd
      cases hd
    | some x =>
      rw [hx] at hd
      cases hd
      rfl

/-- Quotes, backslashes, control characters and characters beyond sixteen bits, the largest numbers,
an empty path and a multiplier that is read back. -/
theorem readsBack_crowded :
    let c : TransportConfig := { ofKind .broker with
      address := some "u\"\\:\x07\t/é😀@mq:5672", localPath := some "", peers := ["", "\n"],
      maxMessageSize := some 0xffffffffffffffff, prefetch := 0xffff,
      reconnect := ⟨0, 0xffffffffffffffff, 1.5, some 0xffffffff⟩ }
    let d := c.withMultiplier (1.0 / 0.0)
    c.InRange ∧ d.InRange ∧ fromJson (toJson c) = .ok c ∧ c.same c = true ∧
      fromJson (toJson d) = .error invalidDocument := by
  intro c d
  have hc : c.InRange := ⟨by decide, by decide, by decide, by decide, by decide, by decide,
    ⟨by decide, by decide, by decide⟩⟩
  have hd : d.InRange := { hc with reconnect := { hc.reconnect with } }
  have hexact : ∀ n, Numeral.ofFloat? 1.5 = some n → n.float? = some 1.5 := by
    intro n hn
    have hwritten : Numeral.ofFloat? 1.5 = some ⟨false, ['1'], some ['5'], none⟩ := by
      decide +kernel
    rw [hwritten] at hn
    cases hn
    decide +kernel
  obtain ⟨hread, hsame⟩ := (readsBack hc).exact (by decide +kernel) hexact
  exact ⟨hc, hd, hread, hsame, (readsBack hd).rejected (by decide +kernel)⟩

end TransportConfig

end EvictionBus

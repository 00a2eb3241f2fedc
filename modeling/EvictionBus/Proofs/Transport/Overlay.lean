import EvictionBus.Proofs.Json.Grammar
import EvictionBus.Proofs.Json.Overlay
import EvictionBus.Proofs.Json.Values
import EvictionBus.Transport.Config.Json

/-!
# Configuration documents are an overlay

A configuration document changes the standard configuration: each setting that one of its members
names holds what the member says, and every other setting, also of the reconnection, is left as it
is.  White space, the order of the members and members of other names make no difference, nor does
it matter whether the members stand in an object or their values in an array; a setting that is
named twice makes the document unreadable.
-/

namespace EvictionBus

namespace TransportKind

theorem ofName?_eq_some_iff {s : String} {k : TransportKind} : ofName? s = some k ↔ s = k.name := by
  refine ⟨fun h => ?_, fun h => h ▸ ofName?_name k⟩
  unfold ofName? at h
  have hname := List.find?_some h
  exact (of_decide_eq_true hname).symm

/-- The ways to write a kind. -/
def IsWritten (v : Json.Value) (k : TransportKind) : Prop :=
  v = .ofText k.name ∨ v = .object [(.ofString k.name, .null)]

theorem ofValue?_eq_some_iff {v : Json.Value} {k : TransportKind} :
    ofValue? v = some k ↔ k.IsWritten v := by
  have hname : ∀ {t : Json.Text}, t.string?.bind ofName? = some k ↔ t = .ofString k.name := by
    intro t
    rw [Option.bind_eq_some_iff]
    constructor
    · rintro ⟨s, hs, hk⟩
      rw [Json.Text.string?_eq_some_iff.1 hs, ofName?_eq_some_iff.1 hk]
    · rintro rfl
      exact ⟨k.name, Json.Text.string?_ofString _, ofName?_name k⟩
  constructor
  · intro h
    unfold ofValue? at h
    split at h
    next => exact .inl (congrArg Json.Value.string (hname.1 h))
    next => exact .inr (by rw [hname.1 h])
    next => cases h
  · rintro (rfl | rfl)
    · exact hname.2 rfl
    · exact hname.2 rfl

end TransportKind

/-! ## Backoff settings -/

namespace Backoff

open Json

def Field.Content : Field → Type
  | .initialDelay => Nat
  | .maxDelay => Nat
  | .multiplier => Float
  | .maxAttempts => Option Nat

def content (b : Backoff) : (f : Field) → f.Content
  | .initialDelay => b.initialDelay
  | .maxDelay => b.maxDelay
  | .multiplier => b.multiplier
  | .maxAttempts => b.maxAttempts

/-- What a value says about a setting. -/
def Field.Says : (f : Field) → Value → f.Content → Prop
  | .initialDelay, v, n => v.IsNat UInt64.size n
  | .maxDelay, v, n => v.IsNat UInt64.size n
  | .multiplier, v, x => v.IsFloat x
  | .maxAttempts, v, o => v.IsOption (Value.IsNat UInt32.size) o

def settings : Settings Field Backoff where
  format := format
  standard := standard
  Content := Field.Content
  content := content
  Says := Field.Says

theorem format_named : format.Named where
  nodup := by decide
  field?_name f := by cases f <;> rfl

theorem settings_sets : settings.Sets set where
  reads {c f v x} := by
    cases f with
    | initialDelay | maxDelay =>
      exact (Settings.map_put_eq_some_iff fun _ => rfl).trans Value.natBelow?_eq_some_iff
    | multiplier =>
      exact (Settings.map_put_eq_some_iff fun _ => rfl).trans Value.float?_eq_some_iff
    | maxAttempts =>
      exact (Settings.map_put_eq_some_iff fun _ => rfl).trans Value.nullOr?_natBelow?_eq_some_iff
  keeps {c d f v} h g hne := by
    cases f
    all_goals
      obtain ⟨x, -, rfl⟩ := Option.map_eq_some_iff.1 h
      cases g
      all_goals first | rfl | exact absurd rfl hne
  ext {c d} h := by
    obtain ⟨⟩ := c
    obtain ⟨⟩ := d
    rw [mk.injEq]
    exact ⟨h .initialDelay, h .maxDelay, h .multiplier, h .maxAttempts⟩

/-- Backoff settings are read if and only if they are the standard ones, changed as the members of
the value say. -/
theorem ofValue?_eq_some_iff {v : Value} {b : Backoff} :
    ofValue? v = some b ↔ settings.Describes v b :=
  settings_sets.read_eq_some_iff format_named

end Backoff

/-! ## Configurations -/

namespace TransportConfig

open Json

def Field.Content : Field → Type
  | .kind => TransportKind
  | .address => Option String
  | .localPath => Option String
  | .peers => List String
  | .maxMessageSize => Option Nat
  | .receiveTimeout => Nat
  | .handshakeTimeout => Nat
  | .closeTimeout => Nat
  | .sendTimeout => Nat
  | .prefetch => Nat
  | .reconnect => Backoff

def content (c : TransportConfig) : (f : Field) → f.Content
  | .kind => c.kind
  | .address => c.address
  | .localPath => c.localPath
  | .peers => c.peers
  | .maxMessageSize => c.maxMessageSize
  | .receiveTimeout => c.receiveTimeout
  | .handshakeTimeout => c.handshakeTimeout
  | .closeTimeout => c.closeTimeout
  | .sendTimeout => c.sendTimeout
  | .prefetch => c.prefetch
  | .reconnect => c.reconnect

/-- What a value says about a setting. -/
def Field.Says : (f : Field) → Value → f.Content → Prop
  | .kind, v, k => k.IsWritten v
  | .address, v, o => v.IsOption Value.IsText o
  | .localPath, v, o => v.IsOption Value.IsText o
  | .peers, v, ss => v = .array (ss.map .ofText)
  | .maxMessageSize, v, o => v.IsOption (Value.IsNat UInt64.size) o
  | .receiveTimeout, v, n => v.IsNat UInt64.size n
  | .handshakeTimeout, v, n => v.IsNat UInt64.size n
  | .closeTimeout, v, n => v.IsNat UInt64.size n
  | .sendTimeout, v, n => v.IsNat UInt64.size n
  | .prefetch, v, n => v.IsNat UInt16.size n
  | .reconnect, v, b => Backoff.settings.Describes v b

def settings : Settings Field TransportConfig where
  format := format
  standard := standard
  Content := Field.Content
  content := content
  Says := Field.Says

theorem format_named : format.Named where
  nodup := by decide
  field?_name f := by cases f <;> rfl

theorem settings_sets : settings.Sets set where
  reads {c f v x} := by
    cases f with
    | kind =>
      exact (Settings.map_put_eq_some_iff fun _ => rfl).trans TransportKind.ofValue?_eq_some_iff
    | address | localPath =>
      exact (Settings.map_put_eq_some_iff fun _ => rfl).trans Value.nullOr?_text?_eq_some_iff
    | peers => exact (Settings.map_put_eq_some_iff fun _ => rfl).trans Value.list?_text_eq_some_iff
    | maxMessageSize =>
      exact (Settings.map_put_eq_some_iff fun _ => rfl).trans Value.nullOr?_natBelow?_eq_some_iff
    | receiveTimeout | handshakeTimeout | closeTimeout | sendTimeout | prefetch =>
      exact (Settings.map_put_eq_some_iff fun _ => rfl).trans Value.natBelow?_eq_some_iff
    | reconnect =>
      exact (Settings.map_put_eq_some_iff fun _ => rfl).trans Backoff.ofValue?_eq_some_iff
  keeps {c d f v} h g hne := by
    cases f
    all_goals
      obtain ⟨x, -, rfl⟩ := Option.map_eq_some_iff.1 h
      cases g
      all_goals first | exact absurd rfl hne | rfl
  ext {c d} h := by
    obtain ⟨⟩ := c
    obtain ⟨⟩ := d
    rw [mk.injEq]
    exact ⟨h .kind, h .address, h .localPath, h .peers, h .maxMessageSize, h .receiveTimeout,
      h .handshakeTimeout, h .closeTimeout, h .sendTimeout, h .prefetch, h .reconnect⟩

theorem ofValue?_eq_some_iff {v : Value} {c : TransportConfig} :
    ofValue? v = some c ↔ settings.Describes v c :=
  settings_sets.read_eq_some_iff format_named

/-! ## Documents -/

/-- A document with the given members: a JSON text of an object, or of the array that stands for
it. -/
def Document (s : List Char) (ms : List (Text × Value)) : Prop :=
  ∃ v, Spells (.value v) (tokens s) ∧ format.Lists v ms

theorem fromJson_eq_ok_iff {s : List Char} {c : TransportConfig} :
    fromJson s = .ok c ↔ ∃ ms, Document s ms ∧ settings.Overlays ms c := by
  have hread : fromJson s = .ok c ↔ (parse s).bind ofValue? = some c := by
    unfold fromJson
    cases (parse s).bind ofValue? with
    | none => simp
    | some d => simp
  rw [hread, Option.bind_eq_some_iff]
  constructor
  · rintro ⟨v, hv, hc⟩
    obtain ⟨ms, hms, hoverlay⟩ := ofValue?_eq_some_iff.1 hc
    exact ⟨ms, ⟨v, parse_eq_some_iff.1 hv, hms⟩, hoverlay⟩
  · rintro ⟨ms, ⟨v, hv, hms⟩, hoverlay⟩
    exact ⟨v, parse_eq_some_iff.2 hv, ofValue?_eq_some_iff.2 ⟨ms, hms, hoverlay⟩⟩

theorem document_print {ms : List (Text × Value)} (h : (Value.object ms).Plain) :
    Document (print (.object ms)) ms :=
  ⟨_, parse_eq_some_iff.1 (parse_print h), .object ms⟩

/-- A document has its members only. -/
theorem Document.unique {s : List Char} {ms ns : List (Text × Value)} (h : Document s ms)
    (h' : Document s ns) : ms = ns := by
  obtain ⟨v, hv, hms⟩ := h
  obtain ⟨w, hw, hns⟩ := h'
  have hread : some v = some w := (parse_eq_some_iff.2 hv).symm.trans (parse_eq_some_iff.2 hw)
  cases hread
  exact hms.unique hns

theorem Document.fromJson_eq_ok_iff {s : List Char} {ms : List (Text × Value)}
    (h : Document s ms) {c : TransportConfig} :
    fromJson s = .ok c ↔ settings.Overlays ms c := by
  rw [TransportConfig.fromJson_eq_ok_iff]
  constructor
  · rintro ⟨ns, hns, hc⟩
    rwa [h.unique hns]
  · exact fun hc => ⟨ms, h, hc⟩

theorem fromJson_eq_error {s : List Char} (h : ∀ c, fromJson s ≠ .ok c) :
    fromJson s = .error invalidDocument := by
  unfold fromJson at h ⊢
  cases hread : (parse s).bind ofValue? with
  | none => rfl
  | some c =>
    rw [hread] at h
    exact absurd rfl (h c)

/-- Texts that give the same configurations are both unreadable if one of them is. -/
theorem fromJson_congr {s t : List Char} (h : ∀ c, fromJson s = .ok c ↔ fromJson t = .ok c) :
    fromJson s = fromJson t := by
  by_cases hs : ∃ c, fromJson s = .ok c
  · obtain ⟨c, hc⟩ := hs
    rw [hc, (h c).1 hc]
  · have hs : ∀ c, fromJson s ≠ .ok c := fun c hc => hs ⟨c, hc⟩
    rw [fromJson_eq_error hs, fromJson_eq_error fun c hc => hs c ((h c).2 hc)]

/-- Two values that say the same about a setting: the reconnection is a record itself. -/
inductive SaysTheSame : Field → Value → Value → Prop
  | reconnect {v w : Value} {ms ns : List (Text × Value)} (hv : Backoff.format.Lists v ms)
      (hw : Backoff.format.Lists w ns)
      (h : Backoff.format.Alike (fun _ v w => v = w) ms ns) : SaysTheSame .reconnect v w

theorem SaysTheSame.tells_iff {f : Field} {v w : Value} (h : SaysTheSame f v w) (x : f.Content) :
    f.Says v x ↔ f.Says w x := by
  cases h with
  | reconnect hv hw h =>
    refine (Settings.describes_iff hv).trans (Iff.trans ?_ (Settings.describes_iff hw).symm)
    exact Settings.overlays_iff_of_alike Backoff.format_named (fun heq y => by rw [heq]) h

/-- How a text is read as a configuration document. -/
structure ReadsOverlay (s : List Char) : Prop where
  /-- Only documents are read. -/
  document : ∀ c, fromJson s = .ok c → ∃ ms, Document s ms
  /-- A document gives the standard configuration, changed as its members say, and nothing else. -/
  overlay : ∀ ms, Document s ms → ∀ c, fromJson s = .ok c ↔ settings.Overlays ms c
  /-- White space between tokens makes no difference. -/
  respaced : ∀ t, tokens t = tokens s → fromJson t = fromJson s
  /-- Nor does the order of the members, nor do members of other names, also in the reconnection. -/
  rearranged : ∀ t ms ns, Document s ms → Document t ns → format.Alike SaysTheSame ms ns →
    fromJson t = fromJson s
  /-- An array of values is read as the object that has them under the names of the first
  settings. -/
  listed : ∀ t vs, vs.length ≤ format.fields.length → Spells (.value (.array vs)) (tokens s) →
    Spells (.value (.object (format.listed vs))) (tokens t) → fromJson t = fromJson s
  /-- A setting that is named twice is refused. -/
  repeated : ∀ ms f, Document s ms → 1 < format.times f ms → fromJson s = .error invalidDocument
  /-- So is a setting of the reconnection that is named twice. -/
  repeatedWithin : ∀ ms v ns f, Document s ms → (format.key .reconnect, v) ∈ ms →
    Backoff.format.Lists v ns → 1 < Backoff.format.times f ns →
    fromJson s = .error invalidDocument

theorem readsOverlay (s : List Char) : ReadsOverlay s where
  document c hc := by
    obtain ⟨ms, hms, -⟩ := fromJson_eq_ok_iff.1 hc
    exact ⟨ms, hms⟩
  overlay ms hms c := hms.fromJson_eq_ok_iff
  respaced t ht := by
    have hdocument : ∀ ms, Document t ms ↔ Document s ms := by
      intro ms
      rw [Document, Document, ht]
    refine fromJson_congr fun c => ?_
    simp only [fromJson_eq_ok_iff, hdocument]
  rearranged t ms ns hms hns h := by
    refine fromJson_congr fun c => ?_
    rw [hms.fromJson_eq_ok_iff, hns.fromJson_eq_ok_iff]
    exact (Settings.overlays_iff_of_alike format_named (fun hsame => hsame.tells_iff) h).symm
  listed t vs hlength hs ht := by
    refine fromJson_congr fun c => ?_
    have harray : Document s (format.listed vs) := ⟨_, hs, .array hlength⟩
    have hobject : Document t (format.listed vs) := ⟨_, ht, .object _⟩
    rw [harray.fromJson_eq_ok_iff, hobject.fromJson_eq_ok_iff]
  repeated ms f hms hf := by
    refine fromJson_eq_error fun c hc => ?_
    have honce := (hms.fromJson_eq_ok_iff.1 hc).once f
    exact absurd hf (Nat.not_lt.2 honce)
  repeatedWithin ms v ns f hms hv hns hf := by
    refine fromJson_eq_error fun c hc => ?_
    have htells : Backoff.settings.Describes v c.reconnect :=
      (hms.fromJson_eq_ok_iff.1 hc).given .reconnect v hv
    have honce := ((Settings.describes_iff hns).1 htells).once f
    exact absurd hf (Nat.not_lt.2 honce)

/-- A setting, one of the reconnection and a member of another name; the same in another order, with
white space and with a member of another name in the reconnection; an array; a setting that is named
twice, also in the reconnection. -/
theorem readsOverlay_crowded :
    let attempts : Text × Value := (.ofString "max_attempts", .ofNat 3)
    let other : Text × Value := (.ofString "x", .array [.null])
    let kind : Text × Value := (.ofString "kind", .ofText "broker")
    let reconnect (ms : List (Text × Value)) : Text × Value := (.ofString "reconnect", .object ms)
    let c : TransportConfig := { standard with
      kind := .broker, reconnect := { Backoff.standard with maxAttempts := some 3 } }
    fromJson (print (.object [other, kind, reconnect [attempts]])) = .ok c ∧
      settings.Overlays [other, kind, reconnect [attempts]] c ∧
      fromJson ('\n' :: ' ' :: print (.object [reconnect [other, attempts], kind])) = .ok c ∧
      fromJson (print (.array [.ofText "broker"])) = fromJson (print (.object [kind])) ∧
      fromJson (print (.object [kind, kind])) = .error invalidDocument ∧
      fromJson (print (.object [reconnect [attempts, attempts]])) = .error invalidDocument := by
  intro attempts other kind reconnect c
  -- All of these values can be written.
  have hattempts : ∀ {ms}, (Value.object ms).Plain → (Value.object (attempts :: ms)).Plain :=
    Value.plain_object_cons ⟨_, rfl⟩ (Value.plain_ofNat 3)
  have hother : ∀ {ms}, (Value.object ms).Plain → (Value.object (other :: ms)).Plain :=
    Value.plain_object_cons ⟨_, rfl⟩ (Value.plain_array_singleton .null)
  have hkind : ∀ {ms}, (Value.object ms).Plain → (Value.object (kind :: ms)).Plain :=
    Value.plain_object_cons ⟨_, rfl⟩ (Value.plain_ofText _)
  have hreconnect : ∀ {ns ms}, (Value.object ns).Plain → (Value.object ms).Plain →
      (Value.object (reconnect ns :: ms)).Plain :=
    fun h => Value.plain_object_cons ⟨_, rfl⟩ h
  have hnil := Value.plain_object_nil
  have hplain : (Value.object [other, kind, reconnect [attempts]]).Plain :=
    hother (hkind (hreconnect (hattempts hnil) hnil))
  have hread : fromJson (print (.object [other, kind, reconnect [attempts]])) = .ok c := by
    rw [fromJson, parse_print hplain]
    rfl
  have hspaced : tokens ('\n' :: ' ' :: print (.object [reconnect [other, attempts], kind])) =
      tokens (print (.object [reconnect [other, attempts], kind])) := by
    rw [tokens_space rfl, tokens_space rfl]
  have hmoved : Document (print (.object [reconnect [other, attempts], kind]))
      [reconnect [other, attempts], kind] :=
    document_print (hreconnect (hother (hattempts hnil)) (hkind hnil))
  have hx : ∀ f, format.name f ≠ "x" := fun f => by cases f <;> decide
  have hy : ∀ f, Backoff.format.name f ≠ "x" := fun f => by cases f <;> decide
  have hwithin : SaysTheSame .reconnect (.object [attempts]) (.object [other, attempts]) :=
    .reconnect (.object _) (.object _) (.symm (.foreign hy _ _))
  have halike : format.Alike SaysTheSame [other, kind, reconnect [attempts]]
      [reconnect [other, attempts], kind] :=
    .trans (.foreign hx _ _) (.trans (.reorder (.swap _ _ _)) (.value hwithin _))
  have harray : Spells (.value (.array [.ofText "broker"]))
      (tokens (print (.array [.ofText "broker"]))) :=
    parse_eq_some_iff.1 (parse_print (Value.plain_array_singleton (Value.plain_ofText _)))
  have hobject : Spells (.value (.object [kind])) (tokens (print (.object [kind]))) :=
    parse_eq_some_iff.1 (parse_print (hkind hnil))
  refine ⟨hread, ?_, ?_, ?_, ?_, ?_⟩
  · exact ((readsOverlay _).overlay _ (document_print hplain) c).1 hread
  · rw [(readsOverlay _).respaced _ hspaced,
      (readsOverlay _).rearranged _ _ _ (document_print hplain) hmoved halike, hread]
  · exact ((readsOverlay _).listed _ [.ofText "broker"] (by decide) harray hobject).symm
  · exact (readsOverlay _).repeated _ .kind (document_print (hkind (hkind hnil))) (by decide)
  · exact (readsOverlay _).repeatedWithin _ _ _ .maxAttempts
      (document_print (hreconnect (hattempts (hattempts hnil)) hnil)) (List.mem_singleton_self _)
      (.object _) (by decide)

end TransportConfig

end EvictionBus

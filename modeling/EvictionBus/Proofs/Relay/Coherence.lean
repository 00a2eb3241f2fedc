import EvictionBus.Proofs.Relay.Records

/-!
# What holds of a cluster

However the parts of a cluster move, every client agrees with its own history, every connection
carries what lies between the records of the relay and the history of its client, and the keys of
the relay are the keys of the clients.
-/

namespace EvictionBus.Relay

open State Client

variable {ι : Type} {u : Setup ι}

namespace Cluster

/-! ## The relay of a cluster -/

theorem relay_sound (u : Setup ι) (c : Cluster ι) : (c.relay u).Sound :=
  (follows_run (sound_start u.config u.identity) c.inputs).sound

theorem relay_input (c : Cluster ι) (now : Nat) (input : Input) :
    (c.input now input).relay u = (c.relay u).after now input :=
  State.run_append _ c.inputs [(now, input)]

/-- What the relay of a cluster has recorded. -/
def records (u : Setup ι) (c : Cluster ι) : Records where
  read key := (start u.config u.identity).bytesReadOver key c.inputs
  queued key := (start u.config u.identity).queuedOver key c.inputs
  waiting key := (c.relay u).waiting key

theorem read_input (c : Cluster ι) (now : Nat) (input : Input) (key : Nat) :
    ((c.input now input).records u).read key =
      (c.records u).read key ++ (c.relay u).bytesReadAt key input := by
  refine (bytesReadOver_append _ key c.inputs [(now, input)]).trans ?_
  exact congrArg _ (List.append_nil _)

theorem queued_input (c : Cluster ι) (now : Nat) (input : Input) (key : Nat) :
    ((c.input now input).records u).queued key =
      (c.records u).queued key ++ (c.relay u).queuedAt key now input := by
  refine (queuedOver_append _ key c.inputs [(now, input)]).trans ?_
  exact congrArg _ (List.append_nil _)

theorem read_input_of_other (c : Cluster ι) (now : Nat) {input : Input}
    (h : ∀ key bytes, input ≠ .arrived key bytes) (key : Nat) :
    ((c.input now input).records u).read key = (c.records u).read key := by
  rw [read_input, bytesReadAt_of_other _ h, List.append_nil]

theorem queued_input_of_other (c : Cluster ι) (now : Nat) {input : Input}
    (h : ∀ key bytes, input ≠ .arrived key bytes) (key : Nat) :
    ((c.input now input).records u).queued key = (c.records u).queued key := by
  rw [queued_input, queuedAt_of_other (c.relay_sound u) now h, List.append_nil]

theorem lastKey_input (c : Cluster ι) (now : Nat) {input : Input}
    (h : ∀ address, input ≠ .connected address) :
    ((c.input now input).relay u).lastKey = (c.relay u).lastKey := by
  rw [relay_input]
  exact lastKey_after (c.relay_sound u) now h

theorem waiting_input (c : Cluster ι) (now : Nat) (input : Input) (key : Nat) :
    ((c.input now input).records u).waiting key =
      ((c.relay u).after now input).waiting key := by
  show ((c.input now input).relay u).waiting key = _
  rw [relay_input]

end Cluster

/-! ## Connections while the relay goes on -/

variable {m : Member} {r r' : Records} {x : Client} {w : Wire}

theorem Client.Linked.down_of_queued (h : Linked m r x w) {more : List Bytes}
    (hqueued : r'.queued w.key = r.queued w.key ++ more)
    (hwaiting : r'.waiting w.key = r.waiting w.key ++ more) :
    ∃ lost, x.heard ++ (w.down ++ lost) = (r'.queued w.key).flatten ∧
      (w.downEnded = false → lost = w.writing ++ (r'.waiting w.key).flatten) := by
  obtain ⟨lost, hdown, hlost⟩ := h.down
  -- What is queued behind is written last.
  refine ⟨lost ++ more.flatten, ?_, fun he => ?_⟩
  · rw [hqueued, List.flatten_append, ← hdown, List.append_assoc, List.append_assoc]
  · rw [hlost he, hwaiting, List.flatten_append, List.append_assoc]

theorem Client.Linked.records (h : Linked m r x w) (hread : r'.read w.key = r.read w.key)
    {more : List Bytes} (hqueued : r'.queued w.key = r.queued w.key ++ more)
    (hwaiting : r'.waiting w.key = r.waiting w.key ++ more) : Linked m r' x w := by
  refine ⟨?_, h.down_of_queued hqueued hwaiting⟩
  rw [hread]
  exact h.up

theorem Client.Linked.same (h : Linked m r x w) (hread : r'.read w.key = r.read w.key)
    (hqueued : r'.queued w.key = r.queued w.key)
    (hwaiting : r'.waiting w.key = r.waiting w.key) : Linked m r' x w :=
  h.records hread (hqueued.trans (List.append_nil _).symm) (hwaiting.trans (List.append_nil _).symm)

theorem Client.Linked.arrive (h : Linked m r x w) (n : Nat) (y : Client)
    (hheard : y.heard = x.heard) (hsent : y.sent = x.sent)
    (hread : r'.read w.key = r.read w.key ++ w.up.take n) {more : List Bytes}
    (hqueued : r'.queued w.key = r.queued w.key ++ more)
    (hwaiting : r'.waiting w.key = r.waiting w.key ++ more) :
    Linked m r' y { w with up := w.up.drop n } := by
  obtain ⟨lost, hup, hlost⟩ := h.up
  -- The bytes have gone from the connection to what the relay has read.
  have harrive : Linked m r' x { w with up := w.up.drop n } := by
    refine ⟨⟨lost, ?_, hlost⟩, h.down_of_queued hqueued hwaiting⟩
    show r'.read w.key ++ (w.up.drop n ++ lost) = _
    rw [hread, List.append_assoc, ← List.append_assoc (w.up.take n), List.take_append_drop]
    exact hup
  exact harrive.congr hheard hsent

theorem Client.Linked.take (h : Linked m r x w) {bytes : Bytes} (y : Client)
    (hheard : y.heard = x.heard) (hsent : y.sent = x.sent) (hwriting : w.writing = [])
    (hread : r'.read w.key = r.read w.key) (hqueued : r'.queued w.key = r.queued w.key)
    (hwaiting : r.waiting w.key = bytes :: r'.waiting w.key) :
    Linked m r' y { w with writing := bytes } := by
  obtain ⟨lost, hdown, hlost⟩ := h.down
  have htaken : Linked m r' x { w with writing := bytes } := by
    constructor
    · show ∃ lost, r'.read w.key ++ (w.up ++ lost) = _ ∧ _
      rw [hread]
      exact h.up
    · refine ⟨lost, ?_, fun he => ?_⟩
      · show _ = (r'.queued w.key).flatten
        rw [hqueued]
        exact hdown
      · rw [hlost he, hwriting, hwaiting, List.flatten_cons, List.nil_append]
  exact htaken.congr hheard hsent

theorem Client.Linked.stopped (h : Linked m r x w) (y : Client)
    (hheard : y.heard = x.heard) (hsent : y.sent = x.sent)
    (hread : r'.read w.key = r.read w.key) (hqueued : r'.queued w.key = r.queued w.key) :
    Linked m r' y w.stop := by
  obtain ⟨lost, hdown, -⟩ := h.down
  have hstop : Linked m r' x w.stop := by
    constructor
    · show ∃ lost, r'.read w.key ++ (w.up ++ lost) = _ ∧ _
      rw [hread]
      exact h.up
    · refine ⟨lost, ?_, fun he => ?_⟩
      · show _ = (r'.queued w.key).flatten
        rw [hqueued]
        exact hdown
      · cases he
  exact hstop.congr hheard hsent

/-! ## Steps -/

namespace Cluster

/-- What holds of a cluster, however its parts have moved. -/
structure Coherent (u : Setup ι) (c : Cluster ι) : Prop where
  sound : ∀ i, (c.client i).Sound (u.member i)
  linked : ∀ i w, (c.client i).wire = some w →
    Linked (u.member i) (c.records u) (c.client i) w
  /-- A key of a client has been given out by the relay. -/
  key_le : ∀ i w, (c.client i).wire = some w → 0 < w.key ∧ w.key ≤ (c.relay u).lastKey
  /-- Two clients have two keys. -/
  key_inj : ∀ i j v w, (c.client i).wire = some v → (c.client j).wire = some w →
    v.key = w.key → i = j
  /-- A key that the relay has given out is the key of a client. -/
  key_covered : ∀ key, 0 < key → key ≤ (c.relay u).lastKey →
    ∃ i w, (c.client i).wire = some w ∧ w.key = key

theorem coherent_initial (u : Setup ι) : (initial : Cluster ι).Coherent u := by
  constructor
  case sound => exact fun i => sound_fresh (u.member i)
  case linked =>
    intro i w hw
    cases hw
  case key_le =>
    intro i w hw
    cases hw
  case key_inj =>
    intro i j v w hv
    cases hv
  case key_covered =>
    intro key hpos hle
    change key ≤ 0 at hle
    omega

variable {c : Cluster ι}

/-- Something happens to the relay that no client notices yet. -/
theorem Coherent.event (h : c.Coherent u) (now : Nat) {input : Input}
    (he : input.isEvent = true) : (c.input now input).Coherent u := by
  have hnot := Input.not_arrived_of_isEvent he
  have hlast : ((c.input now input).relay u).lastKey = (c.relay u).lastKey := by
    refine c.lastKey_input now ?_
    rintro address rfl
    cases he
  constructor
  case sound => exact h.sound
  case linked =>
    intro i w hw
    refine (h.linked i w hw).same (c.read_input_of_other now hnot _)
      (c.queued_input_of_other now hnot _) ?_
    rw [waiting_input]
    exact waiting_after_event (c.relay_sound u) now he w.key
  case key_le =>
    intro i w hw
    rw [hlast]
    exact h.key_le i w hw
  case key_inj => exact h.key_inj
  case key_covered =>
    intro key hpos hle
    rw [hlast] at hle
    exact h.key_covered key hpos hle

theorem mayStart_eq_true {i : ι} : c.mayStart i = true ↔
    (c.client i).life.mayStart = .ok () ∧ (c.client i).greeting = none := by
  unfold mayStart
  split <;> simp_all

variable [DecidableEq ι]

theorem client_setClient_self (c : Cluster ι) (i : ι) (x : Client) :
    (c.setClient i x).client i = x := by
  unfold setClient
  simp only [Function.update_self]

theorem client_setClient_of_ne (c : Cluster ι) {i j : ι} (hj : j ≠ i) (x : Client) :
    (c.setClient i x).client j = c.client j := by
  unfold setClient
  simp only [Function.update_of_ne hj]

/-- What holds of the new client and held of the other ones holds of all of them. -/
theorem forall_setClient {P : ι → Client → Prop} {i : ι} {x : Client} (hnew : P i x)
    (hother : ∀ j, j ≠ i → P j (c.client j)) (j : ι) : P j ((c.setClient i x).client j) := by
  by_cases hj : j = i
  · subst hj
    rw [client_setClient_self]
    exact hnew
  · rw [client_setClient_of_ne c hj]
    exact hother j hj

/-- One client changes and keeps its key, and the relay may have gone on. -/
theorem Coherent.setClient (h : c.Coherent u) {d : Cluster ι} (i : ι) {y : Client}
    (hclient : d.client = c.client) (hlast : (d.relay u).lastKey = (c.relay u).lastKey)
    (hsound : y.Sound (u.member i))
    (hkey : y.wire.map Wire.key = (c.client i).wire.map Wire.key)
    (hlinked : ∀ w, y.wire = some w → Linked (u.member i) (d.records u) y w)
    (hother : ∀ j w, j ≠ i → (c.client j).wire = some w →
      Linked (u.member j) (d.records u) (c.client j) w) :
    (d.setClient i y).Coherent u := by
  -- Every connection of the new cluster has the key that it has had.
  have hwire : ∀ j w, ((d.setClient i y).client j).wire = some w →
      ∃ v, (c.client j).wire = some v ∧ v.key = w.key := by
    refine forall_setClient (P := fun j x => ∀ w, x.wire = some w →
      ∃ v, (c.client j).wire = some v ∧ v.key = w.key) (fun w hw => ?_) fun j _ w hw => ?_
    · rw [hw] at hkey
      obtain ⟨v, hv, hvw⟩ := Option.map_eq_some_iff.1 hkey.symm
      exact ⟨v, hv, hvw⟩
    · rw [hclient] at hw
      exact ⟨w, hw, rfl⟩
  have hrelay : ((d.setClient i y).relay u).lastKey = (c.relay u).lastKey := hlast
  constructor
  case sound =>
    refine forall_setClient (P := fun j x => x.Sound (u.member j)) hsound fun j _ => ?_
    rw [hclient]
    exact h.sound j
  case linked =>
    refine forall_setClient (P := fun j x => ∀ w, x.wire = some w →
      Linked (u.member j) (d.records u) x w) hlinked fun j hj => ?_
    rw [hclient]
    exact fun w => hother j w hj
  case key_le =>
    intro j w hw
    obtain ⟨v, hv, hvw⟩ := hwire j w hw
    rw [hrelay, ← hvw]
    exact h.key_le j v hv
  case key_inj =>
    intro j k v w hv hw hvw
    obtain ⟨v', hv', hkey'⟩ := hwire j v hv
    obtain ⟨w', hw', hkey''⟩ := hwire k w hw
    exact h.key_inj j k v' w' hv' hw' (by rw [hkey', hkey'', hvw])
  -- The key may be the one of the client that changes, which it keeps.
  case key_covered =>
    intro key hpos hle
    rw [hrelay] at hle
    obtain ⟨j, v, hv, hvk⟩ := h.key_covered key hpos hle
    by_cases hj : j = i
    · subst hj
      rw [hv] at hkey
      obtain ⟨w, hw, hwk⟩ := Option.map_eq_some_iff.1 hkey
      refine ⟨j, w, ?_, hwk.trans hvk⟩
      rw [client_setClient_self]
      exact hw
    · refine ⟨j, v, ?_, hvk⟩
      rw [client_setClient_of_ne d hj, hclient]
      exact hv

theorem Coherent.act (h : c.Coherent u) (i : ι) {y : Client}
    (hk : Keeps (u.member i) (c.records u) (c.client i) y) : (c.setClient i y).Coherent u :=
  -- The relay has not moved, so the other connections are as they were.
  h.setClient i rfl rfl hk.sound hk.key (hk.linked (h.linked i)) fun j w _ hw => h.linked j w hw

/-- Something happens on one connection, and the relay notices it. -/
theorem Coherent.onWire (h : c.Coherent u) (i : ι) (now : Nat) {input : Input} {w w' : Wire}
    (hw : (c.client i).wire = some w) (hkey : w'.key = w.key)
    (hinput : ∀ address, input ≠ .connected address)
    (hlinked : Linked (u.member i) ((c.input now input).records u)
      { c.client i with wire := some w' } w')
    (hother : ∀ j v, v.key ≠ w.key → Linked (u.member j) (c.records u) (c.client j) v →
      Linked (u.member j) ((c.input now input).records u) (c.client j) v) :
    ((c.input now input).setClient i { c.client i with wire := some w' }).Coherent u := by
  refine h.setClient i rfl (c.lastKey_input now hinput) ?_ ?_ ?_ ?_
  · exact (h.sound i).setWire (by rw [hw]; simp) _
  · rw [hw]
    exact congrArg some hkey
  · intro v hv
    cases hv
    exact hlinked
  · intro j v hj hv
    exact hother j v (fun he => hj (h.key_inj j i v w hv hw he)) (h.linked j v hv)

theorem Coherent.arrive (h : c.Coherent u) (i : ι) (now n : Nat) {w : Wire}
    (hw : (c.client i).wire = some w) (hreading : ((c.relay u).reading? w.key).isSome = true) :
    ((c.input now (.arrived w.key (w.up.take n))).setClient i
      { c.client i with wire := some { w with up := w.up.drop n } }).Coherent u := by
  have hqueued := queued_input (u := u) c now (.arrived w.key (w.up.take n))
  -- What the relay offers for these bytes goes to the end of both records.
  have hwaiting : ∀ key, ((c.input now (.arrived w.key (w.up.take n))).records u).waiting key =
      (c.records u).waiting key ++
        (c.relay u).queuedAt key now (.arrived w.key (w.up.take n)) := by
    intro key
    rw [waiting_input]
    exact waiting_after_arrival (c.relay_sound u) now w.key _ key
  refine h.onWire i now hw rfl (fun address he => by cases he) ?_ fun j v hne hv => ?_
  · have hread : ((c.input now (.arrived w.key (w.up.take n))).records u).read w.key =
        (c.records u).read w.key ++ w.up.take n := by
      rw [read_input]
      congr 1
      obtain ⟨d, hd⟩ := Option.isSome_iff_exists.1 hreading
      simp [bytesReadAt, hd]
    exact (h.linked i w hw).arrive n _ rfl rfl hread (hqueued w.key) (hwaiting w.key)
  · refine hv.records ?_ (hqueued v.key) (hwaiting v.key)
    rw [read_input]
    simp [bytesReadAt, Ne.symm hne]

theorem Coherent.take (h : c.Coherent u) (i : ι) (now : Nat) {w : Wire} {bytes : Bytes}
    (hw : (c.client i).wire = some w) (hwriting : w.writing = [])
    (htaken : ((c.relay u).takeOutbound w.key).1 = some (.frame bytes)) :
    ((c.input now (.taken w.key)).setClient i
      { c.client i with wire := some { w with writing := bytes } }).Coherent u := by
  have hnot : ∀ key bytes, Input.taken w.key ≠ .arrived key bytes := fun key bytes he => by cases he
  have hread := c.read_input_of_other (u := u) now hnot
  have hqueued := c.queued_input_of_other (u := u) now hnot
  refine h.onWire i now hw rfl (fun address he => by cases he) ?_ fun j v hne hv => ?_
  · -- The frame goes from the queue to the writer, so nothing is missing on the way down.
    refine (h.linked i w hw).take _ rfl rfl hwriting (hread w.key) (hqueued w.key) ?_
    rw [waiting_input]
    exact waiting_after_taken htaken
  · refine hv.same (hread v.key) (hqueued v.key) ?_
    rw [waiting_input]
    exact (requeued_takeOutbound _ _).waiting_other hne

theorem Coherent.stop (h : c.Coherent u) (i : ι) (now : Nat) {w : Wire}
    (hw : (c.client i).wire = some w) :
    ((c.input now (.writerStopped w.key)).setClient i
      { c.client i with wire := some w.stop }).Coherent u := by
  have hnot : ∀ key bytes, Input.writerStopped w.key ≠ .arrived key bytes :=
    fun key bytes he => by cases he
  have hread := c.read_input_of_other (u := u) now hnot
  have hqueued := c.queued_input_of_other (u := u) now hnot
  refine h.onWire i now hw rfl (fun address he => by cases he) ?_ fun j v hne hv => ?_
  · exact (h.linked i w hw).stopped _ rfl rfl (hread w.key) (hqueued w.key)
  · refine hv.same (hread v.key) (hqueued v.key) ?_
    rw [waiting_input]
    exact (requeued_dropQueue _ _).waiting_other hne

/-- A connection with a key that no other one has. -/
theorem Coherent.key_inj_setClient (h : c.Coherent u) {i : ι} {y : Client} {w : Wire}
    (hw : y.wire = some w)
    (hnew : ∀ j v, j ≠ i → (c.client j).wire = some v → v.key ≠ w.key) {j k : ι} {v v' : Wire}
    (hv : ((c.setClient i y).client j).wire = some v)
    (hv' : ((c.setClient i y).client k).wire = some v') (he : v.key = v'.key) : j = k := by
  by_cases hj : j = i
  · by_cases hk : k = i
    · rw [hj, hk]
    · rw [hj, client_setClient_self, hw] at hv
      rw [client_setClient_of_ne c hk] at hv'
      cases hv
      exact absurd he.symm (hnew k v' hk hv')
  · rw [client_setClient_of_ne c hj] at hv
    by_cases hk : k = i
    · rw [hk, client_setClient_self, hw] at hv'
      cases hv'
      exact absurd he (hnew j v hj hv)
    · rw [client_setClient_of_ne c hk] at hv'
      exact h.key_inj j k v v' hv hv' he

theorem Coherent.start (h : c.Coherent u) (i : ι) (now : Nat) (address : String)
    (hmay : c.mayStart i = true) (hgoing : (c.relay u).stopping = false) :
    ((c.input now (.connected address)).setClient i
      ((c.client i).connect (u.member i) ((c.relay u).lastKey + 1))).Coherent u := by
  have hs := c.relay_sound u
  obtain ⟨hstart, hgreeting⟩ := mayStart_eq_true.1 hmay
  obtain ⟨hwire, -⟩ := (h.sound i).of_mayStart hstart hgreeting
  have haccept := after_connected hgoing now address
  have hlast : ((c.input now (.connected address)).relay u).lastKey =
      (c.relay u).lastKey + 1 := by
    rw [relay_input, haccept]
    rfl
  -- Nothing has been recorded for the new key, and accepting it records nothing.
  have hnot : ∀ key bytes, Input.connected address ≠ .arrived key bytes :=
    fun key bytes he => by cases he
  have hread := c.read_input_of_other (u := u) now hnot
  have hqueued := c.queued_input_of_other (u := u) now hnot
  have hwaiting : ∀ key, ((c.input now (.connected address)).records u).waiting key =
      (c.records u).waiting key := fun key => by
    rw [waiting_input, haccept]
    exact waiting_accept hs address key
  obtain ⟨hnoread, hnoqueued, hnowaiting⟩ := records_of_lt (sound_start u.config u.identity)
    c.inputs (Nat.lt_add_one (c.relay u).lastKey)
  obtain ⟨hsound, w, hw, hkey, hlinked⟩ :=
    sound_connect (h.sound i) hstart hgreeting ((hread _).trans hnoread)
      ((hqueued _).trans hnoqueued) ((hwaiting _).trans hnowaiting)
  constructor
  case sound =>
    exact forall_setClient (P := fun j x => x.Sound (u.member j)) hsound fun j _ => h.sound j
  case linked =>
    refine forall_setClient (P := fun j x => ∀ v, x.wire = some v →
      Linked (u.member j) ((c.input now (.connected address)).records u) x v)
      (fun v hv => ?_) fun j _ v hv => ?_
    · rw [hw] at hv
      cases hv
      exact hlinked
    · exact (h.linked j v hv).same (hread _) (hqueued _) (hwaiting _)
  case key_le =>
    refine forall_setClient (P := fun _ x => ∀ v, x.wire = some v →
      0 < v.key ∧ v.key ≤ ((c.input now (.connected address)).relay u).lastKey)
      (fun v hv => ?_) fun j _ v hv => ?_
    · rw [hw] at hv
      cases hv
      rw [hkey, hlast]
      exact ⟨Nat.succ_pos _, Nat.le_refl _⟩
    · have := h.key_le j v hv
      omega
  case key_inj =>
    intro j k v v' hv hv' he
    refine h.key_inj_setClient hw (fun j v _ hv he => ?_) hv hv' he
    -- The new key is above all keys that have been given out.
    have := (h.key_le j v hv).2
    omega
  case key_covered =>
    intro key hpos hle
    change key ≤ ((c.input now (.connected address)).relay u).lastKey at hle
    rw [hlast] at hle
    by_cases hk : key = (c.relay u).lastKey + 1
    · refine ⟨i, w, ?_, hkey.trans hk.symm⟩
      rw [client_setClient_self]
      exact hw
    · obtain ⟨j, v, hv, hvk⟩ := h.key_covered key hpos (by omega)
      refine ⟨j, v, ?_, hvk⟩
      have hj : j ≠ i := by
        rintro rfl
        rw [hwire] at hv
        cases hv
      rw [client_setClient_of_ne _ hj]
      exact hv

/-- Whatever happens in a cluster, what holds of it holds again. -/
theorem coherent_step (h : c.Coherent u) (s : Step ι) : (c.step u s).Coherent u := by
  -- A step that cannot be made changes nothing.
  cases s with
  | start i now address =>
    simp only [step]
    split
    next hc => exact h.start i now address hc.1 (by simpa using hc.2)
    next => exact h
  | refused i e =>
    simp only [step]
    split
    next hmay =>
      obtain ⟨hstart, hgreeting⟩ := mayStart_eq_true.1 hmay
      obtain ⟨-, houtcome⟩ := (h.sound i).of_mayStart hstart hgreeting
      exact h.act i (keeps_failStart (h.sound i) (by rw [houtcome]; simp) e)
    next => exact h
  | act i action => exact h.act i (keeps_act (h.sound i) action)
  | arrive i now n =>
    simp only [step]
    split
    next w hw =>
      split
      next hreading => exact h.arrive i now n hw hreading
      next => exact h
    next => exact h
  | take i now =>
    simp only [step]
    split
    next w hw =>
      split
      next bytes hwriting htaken => exact h.take i now hw hwriting htaken
      next => exact h
    next => exact h
  | stop i now =>
    simp only [step]
    split
    next w hw => exact h.stop i now hw
    next => exact h
  | event now input =>
    simp only [step]
    split
    next he => exact h.event now he
    next => exact h

theorem coherent_run (h : c.Coherent u) (steps : List (Step ι)) : (c.run u steps).Coherent u := by
  induction steps generalizing c with
  | nil => exact h
  | cons s steps ih => exact ih (coherent_step h s)

end Cluster

end EvictionBus.Relay

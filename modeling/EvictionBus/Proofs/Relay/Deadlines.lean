import EvictionBus.Proofs.Relay.Regrouping
import EvictionBus.Proofs.Relay.Timers

/-!
# Late payloads

A peer is dropped as late when a payload of it has been pending for the time that a payload may
take, and only then.  Until then every frame of the peer counts as if all its bytes had arrived at
once when it was complete, and the bytes of the late frame count for nothing.  The time is that of
the clock of the relay: a part of a millisecond counts as a whole one, and no timer runs longer than
thirty years.
-/

namespace EvictionBus.Relay

open State

/-! ## Peers that have just been accepted -/

/-- A peer in the table from which nothing has arrived and of which nothing has been said. -/
structure Newcomer (s : State) (key : Nat) : Prop where
  sound : s.Sound
  member : s.peers.contains key = true
  reasons_eq : s.reasons key = []
  input_eq : ∀ c, s.connections.get? key = some c → c.input = .start

theorem newcomer_connected (config : Config) (identity : Identity) (before : List (Nat × Input))
    (opened : Nat) (address : String)
    (hgoing : ((start config identity).run before).stopping = false) :
    let s := ((start config identity).run before).after opened (.connected address)
    Newcomer s s.lastKey := by
  intro s
  have hbefore := follows_run (sound_start config identity) before
  have haccept : s = (State.accept _ address).2 := after_connected hgoing opened address
  have hkey : s.lastKey = ((start config identity).run before).lastKey + 1 := by
    rw [haccept]
    rfl
  refine ⟨(follows_after hbefore.sound opened _).sound, ?_, ?_, fun c hc => ?_⟩
  · rw [hkey, haccept, accept_contains, if_pos rfl]
  · have hfresh := reasons_of_fresh (sound_start config identity) (fun _ _ => rfl) before
      (Nat.lt_succ_self _)
    rw [hkey, haccept]
    exact (reasons_note _ _ _).trans ((List.append_nil _).trans hfresh)
  · rw [hkey, haccept, accept_get?, if_pos rfl] at hc
    cases hc
    rfl

variable {s : State} {key last d t T length millis : Nat} {reason : Disconnect}
  {pre post schedule inputs : List (Nat × Input)}

namespace Newcomer

theorem key_le (h : Newcomer s key) : key ≤ s.lastKey := by
  obtain ⟨c, hc⟩ := h.sound.member_connected h.member
  exact h.sound.key_le hc

theorem held_eq_nil (h : Newcomer s key) : s.held key = [] := by
  unfold State.held
  cases hc : s.connections.get? key with
  | none => rfl
  | some c => exact congrArg Reader.held (h.input_eq c hc)

theorem fate (h : Newcomer s key) : Fate s key [] [] :=
  .reading h.member h.reasons_eq h.held_eq_nil.symm fun _ hraw => absurd hraw List.not_mem_nil

theorem fate_run (h : Newcomer s key) (hopen : ∀ now, (now, Input.ended key) ∉ inputs) :
    Fate (s.run inputs) key ((arrivals key inputs).map Prod.snd)
      (rawsOf (s.readingsOver inputs) key) := by
  rw [map_snd_arrivals]
  exact h.fate.run h.sound hopen

theorem clocked_run (h : Newcomer s key) (inputs : List (Nat × Input)) :
    (s.run inputs).Clocked key (arrivals key inputs) := by
  have hclocked : s.Clocked key [] := by
    intro c hc
    rw [h.input_eq c (h.sound.member_of_reading? hc).1]
    exact ⟨[], [], rfl, Reader.timed_start⟩
  exact State.clocked_run hclocked h.sound h.key_le inputs

theorem config_eq (h : Newcomer s key) (inputs : List (Nat × Input)) :
    (s.run inputs).config = s.config :=
  (follows_run h.sound inputs).config_eq

/-- What has arrived from a peer in the table are whole frames and what its reader holds. -/
theorem split_of_member (h : Newcomer s key) (hm : (s.run inputs).peers.contains key = true) :
    ∃ raws : List Bytes,
      (arrivals key inputs).map Prod.snd = raws.flatten ++ (s.run inputs).held key ∧
      ∀ raw ∈ raws, WholeFrame (s.run inputs).config.maxMessageSize raw := by
  cases h.fate_run (not_ended_of_member h.sound h.key_le hm) with
  | reading _ _ hsplit hwhole => exact ⟨_, hsplit, hwhole⟩
  | refused _ hgone =>
    rw [hgone.not_member] at hm
    cases hm
  | foreign hgone =>
    rw [hgone.not_member] at hm
    cases hm

/-- A payload that is pending is due at a time that its header sets, and late from then on. -/
theorem due_of_pending (h : Newcomer s key) (hm : (s.run inputs).peers.contains key = true)
    (hp : Pending s.config.maxMessageSize (arrivals key inputs) t length) :
    (s.run inputs).deadline? key = some (Clock.due t s.config.payloadTimeout.ceilMillis) ∧
      ∀ now, Clock.due t s.config.payloadTimeout.ceilMillis ≤ now →
        (s.run inputs).late? now key = some (.payloadTimeout length
          (min s.config.payloadTimeout.wholeMillis (UInt64.size - 1))) := by
  obtain ⟨raws, hsplit, hwhole⟩ := h.split_of_member hm
  rw [← h.config_eq inputs] at hp ⊢
  exact deadline?_of_pending (follows_run h.sound inputs).sound (h.clocked_run inputs) hm hsplit
    hwhole hp

/-- Something is due only from a peer whose payload is pending. -/
theorem pending_of_due (h : Newcomer s key) (hd : (s.run inputs).deadline? key = some d) :
    (s.run inputs).peers.contains key = true ∧
      ∃ t length, Pending s.config.maxMessageSize (arrivals key inputs) t length ∧
        d = Clock.due t s.config.payloadTimeout.ceilMillis := by
  have hsound := (follows_run h.sound inputs).sound
  obtain ⟨c, hc, -⟩ := deadline?_eq_some.1 hd
  obtain ⟨-, hm⟩ := hsound.member_of_reading? hc
  obtain ⟨raws, hsplit, hwhole⟩ := h.split_of_member hm
  refine ⟨hm, ?_⟩
  rw [← h.config_eq inputs]
  exact pending_of_deadline? hsound (h.clocked_run inputs) hsplit hwhole hd

/-- A peer whose payload is pending is in the table, unless something from outside has dropped it. -/
theorem member_of_pending (h : Newcomer s key) (hopen : ∀ now, (now, Input.ended key) ∉ inputs)
    (htimer : ∀ now, (now, Input.timer key) ∉ inputs)
    (houter : ∀ now reason, (now, reason) ∈ s.dropsOver key inputs → ¬ reason.Outer)
    (hp : Pending s.config.maxMessageSize (arrivals key inputs) t length) :
    (s.run inputs).peers.contains key = true := by
  cases course_run h.sound h.member inputs with
  | stays hm => exact hm
  | @dropped pre post now input reason hsplit hm hcause hgone hdrops hreasons =>
    cases hcause with
    | outer hout =>
      exact absurd hout (houter now reason (by rw [hdrops]; exact List.mem_cons_self))
    | late =>
      exact absurd (by rw [hsplit]; exact List.mem_append_right _ List.mem_cons_self) (htimer now)
    | stream _ hown =>
      -- Its bytes are the reason, but a header that declares too much does not let anything pend.
      rw [h.reasons_eq] at hreasons
      rw [← h.config_eq inputs] at hp
      cases h.fate_run hopen with
      | reading hm => exact hm
      | refused rest _ hsplit hwhole _ hover _ =>
        exact absurd hover (not_pending_of_refused hp hsplit hwhole)
      | foreign _ hforeign hreason =>
        rw [hreasons] at hreason
        cases hreason
        exact absurd hforeign hown

end Newcomer

/-! ## The time at which a payload is late -/

/-- At a time the connection of a peer has not ended yet: the peer has not ended its side by then, it
has not been dropped before, and nothing from outside drops it then. -/
structure Lasts (key T : Nat) (schedule : List (Nat × Input)) (drops : List (Nat × Disconnect)) :
    Prop where
  open_side : ∀ now, now ≤ T → (now, Input.ended key) ∉ schedule
  not_before : ∀ now reason, (now, reason) ∈ drops → T ≤ now
  not_outer : ∀ now reason, (now, reason) ∈ drops → reason.Outer → T < now

/-- The payload of a peer is late at the time `T`: its timer goes off behind `pre`. -/
structure Lapse (s : State) (key last T : Nat) (reason : Disconnect)
    (schedule pre post : List (Nat × Input)) : Prop where
  split : schedule = pre ++ post
  run_eq : s.onTime key last schedule = pre ++ (T, .timer key) :: post
  member : (s.run pre).peers.contains key = true
  late : (s.run pre).late? T key = some reason
  le : T ≤ last
  before : ∀ i ∈ pre, i.1 ≤ T
  behind : ∀ i ∈ post, T < i.1
  drops_eq : s.dropsOver key (s.onTime key last schedule) = [(T, reason)]

/-- What happens up to the time at which a payload is late comes before its timer. -/
theorem Lapse.filter_eq (h : Lapse s key last T reason schedule pre post) :
    schedule.filter (·.1 ≤ T) = pre := by
  rw [h.split, filter_append_of_lt h.behind, List.filter_eq_self]
  exact fun i hi => decide_eq_true (h.before i hi)

namespace Newcomer

/-- A timer that goes off on time finds a payload that is pending. -/
theorem lapse_of_fired (h : Newcomer s key) (horder : InOrder schedule)
    (hsplit : schedule = pre ++ post)
    (hrun : s.onTime key last schedule = pre ++ (d, .timer key) :: post)
    (htime : s.InTime key pre) (hd : (s.run pre).deadline? key = some d) (hle : d ≤ last)
    (hbehind : ∀ i ∈ post, d < i.1) :
    ∃ t length, Pending s.config.maxMessageSize (arrivals key pre) t length ∧
      d = Clock.due t s.config.payloadTimeout.ceilMillis ∧
      Lapse s key last d (.payloadTimeout length
        (min s.config.payloadTimeout.wholeMillis (UInt64.size - 1))) schedule pre post := by
  obtain ⟨hm, t, length, hp, hdue⟩ := h.pending_of_due hd
  have hlate := (h.due_of_pending hm hp).2 d (Nat.le_of_eq hdue.symm)
  rw [hsplit] at horder
  have hbefore := htime.all_le_deadline h.sound h.key_le horder.left hd
  have hdrops := dropsOver_of_late h.sound h.member hm hlate post
  rw [← hrun] at hdrops
  exact ⟨t, length, hp, hdue, hsplit, hrun, hm, hlate, hle, hbefore, hbehind, hdrops⟩

/-- Without a timer nobody is dropped as late. -/
theorem not_late_of_no_timer (h : Newcomer s key)
    (htimer : ∀ now, (now, Input.timer key) ∉ inputs) :
    (T, .payloadTimeout length millis) ∉ s.dropsOver key inputs := by
  intro hdrop
  cases course_run h.sound h.member inputs with
  | stays _ hdrops =>
    rw [hdrops] at hdrop
    cases hdrop
  | @dropped pre post now input reason hsplit _ hcause _ hdrops =>
    rw [hdrops, List.mem_singleton] at hdrop
    cases hdrop
    cases hcause with
    | outer hout => exact hout
    | stream _ hown => exact hown trivial
    | late =>
      exact htimer _ (by rw [hsplit]; exact List.mem_append_right _ List.mem_cons_self)

theorem lapse_of_late (h : Newcomer s key) (horder : InOrder schedule)
    (hlast : ∀ i ∈ schedule, i.1 ≤ last) (htimer : ∀ now, (now, Input.timer key) ∉ schedule)
    (hdrop : (T, .payloadTimeout length millis) ∈
      s.dropsOver key (s.onTime key last schedule)) :
    millis = min s.config.payloadTimeout.wholeMillis (UInt64.size - 1) ∧
      ∃ pre post t, Pending s.config.maxMessageSize (arrivals key pre) t length ∧
        T = Clock.due t s.config.payloadTimeout.ceilMillis ∧
        Lapse s key last T (.payloadTimeout length millis) schedule pre post := by
  cases timing_onTime s key horder hlast with
  | quiet hrun =>
    rw [hrun] at hdrop
    exact absurd hdrop (h.not_late_of_no_timer htimer)
  | fired pre post d hsplit hrun htime hd hle hbehind =>
    obtain ⟨t, length, hp, hdue, hlapse⟩ :=
      h.lapse_of_fired horder hsplit hrun htime hd hle hbehind
    rw [hlapse.drops_eq, List.mem_singleton] at hdrop
    cases hdrop
    exact ⟨rfl, pre, post, t, hp, hdue, hlapse⟩

theorem lasts_of_lapse (h : Newcomer s key)
    (hlapse : Lapse s key last T (.payloadTimeout length millis) schedule pre post) :
    Lasts key T schedule (s.dropsOver key (s.onTime key last schedule)) := by
  refine ⟨fun now hnow hin => ?_, fun now reason hin => ?_, fun now reason hin hout => ?_⟩
  · rw [hlapse.split] at hin
    rcases List.mem_append.1 hin with hin | hin
    · exact not_ended_of_member h.sound h.key_le hlapse.member now hin
    · exact Nat.not_lt.2 hnow (hlapse.behind _ hin)
  · rw [hlapse.drops_eq, List.mem_singleton] at hin
    cases hin
    exact Nat.le_refl T
  · rw [hlapse.drops_eq, List.mem_singleton] at hin
    cases hin
    exact hout.elim

/-- A payload that is pending for as long as it may is late, if the connection lasts so long. -/
theorem late_of_pending (h : Newcomer s key) (horder : InOrder schedule)
    (hlast : ∀ i ∈ schedule, i.1 ≤ last) (htimer : ∀ now, (now, Input.timer key) ∉ schedule)
    (hT : T = Clock.due t s.config.payloadTimeout.ceilMillis) (hle : T ≤ last)
    (hp : Pending s.config.maxMessageSize (arrivals key (schedule.filter (·.1 ≤ T))) t length)
    (hlasts : Lasts key T schedule (s.dropsOver key (s.onTime key last schedule))) :
    (T, .payloadTimeout length (min s.config.payloadTimeout.wholeMillis (UInt64.size - 1))) ∈
      s.dropsOver key (s.onTime key last schedule) := by
  cases timing_onTime s key horder hlast with
  | quiet hrun htime hlater =>
    -- The peer is in the table at the time `T`, so something is due then.
    rw [hrun] at hlasts
    have hm : (s.run (schedule.filter (·.1 ≤ T))).peers.contains key = true := by
      refine h.member_of_pending (fun now hin => ?_) (fun now hin => ?_)
        (fun now reason hdrop hout => ?_) hp
      · obtain ⟨hin, hnow⟩ := List.mem_filter.1 hin
        exact hlasts.open_side now (of_decide_eq_true hnow) hin
      · exact htimer now (List.mem_filter.1 hin).1
      · obtain ⟨hdrop, hnow⟩ := horder.mem_dropsOver_filter hdrop
        exact Nat.not_le.2 (hlasts.not_outer now reason hdrop hout) hnow
    have hd := (h.due_of_pending hm hp).1
    rw [← hT] at hd
    rw [htime.filter_eq_self horder hd] at hd
    exact absurd hle (Nat.not_le.2 (hlater T hd))
  | fired pre post d hsplit hrun htime hd hled hbehind =>
    obtain ⟨t', length', hp', hdue, hlapse⟩ :=
      h.lapse_of_fired horder hsplit hrun htime hd hled hbehind
    have hTd : T ≤ d := hlasts.not_before d _ (by
      rw [hlapse.drops_eq]
      exact List.mem_cons_self)
    have hpost : ∀ i ∈ post, T < i.1 := fun i hi => Nat.lt_of_le_of_lt hTd (hbehind i hi)
    -- The peer is still in the table when the timer goes off, so it is at the time `T`.
    rw [hsplit] at horder
    rw [hsplit, filter_append_of_lt hpost] at hp
    have hm : (s.run (pre.filter (·.1 ≤ T))).peers.contains key = true := by
      have hlater := hlapse.member
      rw [← horder.left.filter_append T, run_append] at hlater
      have hf := follows_run h.sound (pre.filter (·.1 ≤ T))
      exact (follows_run hf.sound _).member (Nat.le_trans h.key_le hf.lastKey_le) hlater
    obtain ⟨hdue', hlate⟩ := h.due_of_pending hm hp
    rw [← hT] at hdue' hlate
    have hall := htime.filter_eq_self horder.left hdue'
    rw [hall] at hdue' hlate
    obtain rfl : T = d := Option.some.inj (hdue'.symm.trans hd)
    have hreason := (hlate T (Nat.le_refl T)).symm.trans hlapse.late
    rw [hlapse.drops_eq, ← Option.some.inj hreason]
    exact List.mem_cons_self

/-! ## Frames in time and late frames -/

theorem run_regrouped_eq (h : Newcomer s key) (hopen : ∀ now, (now, Input.ended key) ∉ inputs)
    (htimer : ∀ now, (now, Input.timer key) ∉ inputs) :
    (s.run inputs).cleared key = s.run (s.regrouped key inputs) := by
  have hcleared := run_regrouped h.sound hopen htimer
  rw [cleared_eq_self h.input_eq] at hcleared
  exact hcleared.symm

theorem run_of_lapse (h : Newcomer s key) (htimer : ∀ now, (now, Input.timer key) ∉ schedule)
    (hlapse : Lapse s key last T reason schedule pre post) :
    (s.run (s.onTime key last schedule)).cleared key =
      ((s.run (s.regrouped key pre)).disconnect key reason).run (unheard key post) := by
  have hpre := (follows_run h.sound pre).sound
  have hafter : (s.run pre).after T (.timer key) = (s.run pre).disconnect key reason :=
    checkDeadline_of_late hlapse.late
  have hgone := gone_after_late hpre hlapse.member hlapse.late
  have hsound := (follows_after hpre T (.timer key)).sound
  have hregrouped := h.run_regrouped_eq (not_ended_of_member h.sound h.key_le hlapse.member)
    fun now hin => htimer now (by rw [hlapse.split]; exact List.mem_append_left _ hin)
  rw [hlapse.run_eq, run_append, ← hregrouped, disconnect_cleared, ← hafter,
    hgone.run_cleared hsound, hgone.run_unheard hsound]
  rfl

end Newcomer

/-- How a relay deals with the payloads of a peer while what a schedule tells happens and the timer
of the peer goes off on time. -/
structure Timeouts (s : State) (key last : Nat) (schedule : List (Nat × Input)) : Prop where
  /-- The peer is dropped as late when a payload within the limit has been pending as long as it may
  and the connection has lasted so long. -/
  late_iff : ∀ T length millis,
    (T, .payloadTimeout length millis) ∈ s.dropsOver key (s.onTime key last schedule) ↔
      T ≤ last ∧ millis = min s.config.payloadTimeout.wholeMillis (UInt64.size - 1) ∧
        (∃ t, T = Clock.due t s.config.payloadTimeout.ceilMillis ∧
          Pending s.config.maxMessageSize (arrivals key (schedule.filter (·.1 ≤ T))) t length) ∧
        Lasts key T schedule (s.dropsOver key (s.onTime key last schedule))
  /-- Until its side ends and its timer goes off, it is as if all bytes of each frame of the peer had
  arrived at once when the frame was complete, or refused; as long as the peer is in the table, what
  arrives at once are whole frames, and a frame that is not complete is with the reader only. -/
  at_once : ∀ pre post, s.onTime key last schedule = pre ++ post →
    (∀ now, (now, Input.ended key) ∉ pre) → (∀ now, (now, Input.timer key) ∉ pre) →
      (s.run pre).cleared key = s.run (s.regrouped key pre) ∧
        ((s.run pre).peers.contains key = true →
          arrivedOver key pre = arrivedOver key (s.regrouped key pre) ++ (s.run pre).held key ∧
            ∀ i ∈ s.regrouped key pre, WholeFrames s.config.maxMessageSize (i.2.bytesFrom key))
  /-- No byte of a late frame has an effect, and nothing that the peer sends afterwards. -/
  late_unheard : ∀ T length millis,
    (T, .payloadTimeout length millis) ∈ s.dropsOver key (s.onTime key last schedule) →
      ∃ pre post, s.onTime key last schedule = pre ++ (T, .timer key) :: post ∧
        (s.run pre).peers.contains key = true ∧
        (s.run (s.onTime key last schedule)).cleared key =
          ((s.run (s.regrouped key pre)).disconnect key (.payloadTimeout length millis)).run
            (unheard key post)

/-- A relay that accepts a peer drops it as late exactly when a payload of it is: whatever happens to
the relay before and meanwhile, and however the bytes of the peer and pauses between them follow one
another.  The timer of the peer goes off by itself, so the schedule does not tell of it. -/
theorem timeouts_run (config : Config) (identity : Identity) (before schedule : List (Nat × Input))
    (opened last : Nat) (address : String)
    (hgoing : ((start config identity).run before).stopping = false) :
    let s := ((start config identity).run before).after opened (.connected address)
    InOrder schedule → (∀ i ∈ schedule, i.1 ≤ last) →
    (∀ now, (now, Input.timer s.lastKey) ∉ schedule) →
    Timeouts s s.lastKey last schedule := by
  intro s horder hlast htimer
  have h : Newcomer s s.lastKey := newcomer_connected config identity before opened address hgoing
  refine ⟨fun T length millis => ⟨fun hdrop => ?_, ?_⟩, fun pre post _ hopen hnot => ?_,
    fun T length millis hdrop => ?_⟩
  · obtain ⟨hmillis, pre, post, t, hp, hT, hlapse⟩ := h.lapse_of_late horder hlast htimer hdrop
    rw [← hlapse.filter_eq] at hp
    exact ⟨hlapse.le, hmillis, ⟨t, hT, hp⟩, h.lasts_of_lapse hlapse⟩
  · rintro ⟨hle, rfl, ⟨t, hT, hp⟩, hlasts⟩
    exact h.late_of_pending horder hlast htimer hT hle hp hlasts
  · refine ⟨h.run_regrouped_eq hopen hnot, fun hm => ?_⟩
    have hsplit := arrivedOver_regrouped h.sound h.key_le hm
    rw [h.held_eq_nil] at hsplit
    exact hsplit
  · obtain ⟨-, pre, post, -, -, -, hlapse⟩ := h.lapse_of_late horder hlast htimer hdrop
    exact ⟨pre, post, hlapse.run_eq, hlapse.member, h.run_of_lapse htimer hlapse⟩

def dawdler : Identity :=
  ⟨List.replicate 16 51, rfl⟩

/-- A relay with a payload timeout has just accepted its first peer. -/
def patient (timeout : Duration) : State :=
  ((start { Config.standard with payloadTimeout := timeout } dawdler).run []).after 0
    (.connected "peer")

/-- It is not so that a late peer is dropped a payload timeout after its header has been read, even
if the timeout is a number of whole seconds: no timer runs for longer than thirty years.  A timeout
of one millisecond and a half lasts for two. -/
theorem not_forall_late_after_timeout :
    (¬ ∀ (timeout : Duration) (schedule : List (Nat × Input)) (last T length millis : Nat),
      timeout.nanoseconds = 0 → InOrder schedule → (∀ i ∈ schedule, i.1 ≤ last) →
      (∀ now, (now, Input.timer 1) ∉ schedule) →
      (T, .payloadTimeout length millis) ∈
          (patient timeout).dropsOver 1 ((patient timeout).onTime 1 last schedule) →
        ∃ t, T = t + timeout.wholeMillis ∧
          Pending 65000 (arrivals 1 (schedule.filter (·.1 ≤ T))) t length) ∧
    (patient ⟨0, 1500000⟩).dropsOver 1 ((patient ⟨0, 1500000⟩).onTime 1 9
      [(5, .arrived 1 (Header.bytes dawdler .evict 1))]) = [(7, .payloadTimeout 1 1)] := by
  refine ⟨fun h => ?_, by decide +kernel⟩
  have hdrops : (patient ⟨1000000000, 0⟩).dropsOver 1 ((patient ⟨1000000000, 0⟩).onTime 1
      2000000000000 [(5, .arrived 1 (Header.bytes dawdler .evict 1))]) =
        [(946080000005, .payloadTimeout 1 1000000000000)] := by
    decide +kernel
  obtain ⟨t, ht, -⟩ := h ⟨1000000000, 0⟩ [(5, .arrived 1 (Header.bytes dawdler .evict 1))]
    2000000000000 946080000005 1 1000000000000 rfl
    (by unfold InOrder; decide +kernel)
    (by decide +kernel)
    (fun now hin => by simp at hin)
    (by rw [hdrops]; exact List.mem_cons_self)
  change 946080000005 = t + 1000000000000 at ht
  omega

/-- A peer takes its time in the header of its greeting and again in the payload, which is still
complete in time; one byte of its eviction is missing for too long. -/
def dawdling : List (Nat × Input) :=
  let greeting := Header.bytes dawdler .hello 3 ++ [97, 98, 99]
  let eviction := Header.bytes dawdler .evict 2 ++ [7, 8]
  [(10, .arrived 1 (greeting.take 12)),
    (9000, .arrived 1 ((greeting.drop 12).take 10)),
    (13999, .arrived 1 (greeting.drop 22 ++ eviction.take 21)),
    (20000, .arrived 1 (eviction.drop 21))]

theorem timeouts_run_dawdling :
    let s := ((start .standard dawdler).run []).after 0 (.connected "peer")
    (((start .standard dawdler).run []).stopping = false ∧ InOrder dawdling ∧
      (∀ i ∈ dawdling, i.1 ≤ 30000) ∧ (∀ now, (now, Input.timer 1) ∉ dawdling) ∧
      s.dropsOver 1 (s.onTime 1 30000 dawdling) = [(18999, .payloadTimeout 2 5000)]) ∧
    (∃ t, 18999 = Clock.due t 5000 ∧
      Pending 65000 (arrivals 1 (dawdling.filter (·.1 ≤ 18999))) t 2) ∧
    ∃ pre post, s.onTime 1 30000 dawdling = pre ++ (18999, .timer 1) :: post ∧
      (s.run (s.onTime 1 30000 dawdling)).cleared 1 =
        ((s.run (s.regrouped 1 pre)).disconnect 1 (.payloadTimeout 2 5000)).run
          (unheard 1 post) := by
  intro s
  have horder : InOrder dawdling := by
    unfold InOrder
    decide +kernel
  have hlast : ∀ i ∈ dawdling, i.1 ≤ 30000 := by decide +kernel
  have htimer : ∀ now, (now, Input.timer 1) ∉ dawdling := by
    intro now hin
    simp [dawdling] at hin
  have hdrops : s.dropsOver 1 (s.onTime 1 30000 dawdling) = [(18999, .payloadTimeout 2 5000)] := by
    decide +kernel
  have h : Timeouts s 1 30000 dawdling :=
    timeouts_run .standard dawdler [] dawdling 0 30000 "peer" rfl horder hlast htimer
  have hdrop : (18999, .payloadTimeout 2 5000) ∈ s.dropsOver 1 (s.onTime 1 30000 dawdling) := by
    rw [hdrops]
    exact List.mem_cons_self
  have hmillis : s.config.payloadTimeout.ceilMillis = 5000 := by decide +kernel
  have hlimit : s.config.maxMessageSize = 65000 := by decide +kernel
  obtain ⟨-, -, hpending, -⟩ := (h.late_iff 18999 2 5000).1 hdrop
  rw [hmillis, hlimit] at hpending
  obtain ⟨pre, post, hrun, -, hunheard⟩ := h.late_unheard 18999 2 5000 hdrop
  exact ⟨⟨rfl, horder, hlast, htimer, hdrops⟩, hpending, pre, post, hrun, hunheard⟩

end EvictionBus.Relay

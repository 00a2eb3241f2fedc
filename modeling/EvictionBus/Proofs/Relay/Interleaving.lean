import EvictionBus.Proofs.Relay.Accounts
import EvictionBus.Proofs.Relay.Offers

/-!
# A relay that is left alone

`State.after` takes a relay through one input as if no task did anything in between.  It is the
outcome of steps of the tasks all the same: the reader or the writer of one connection takes its
steps one after another, or the task that accepts connections does.  What holds after all steps
therefore holds after all inputs.
-/

namespace EvictionBus.Relay

/-- A frame that a relay acts on, and the key of its sender. -/
def Reading.started (r : Reading) : Nat × RawFrame :=
  (r.sender, r.frame)

namespace Tasks

/-- Some steps lead from the one to the other; in these steps readers start on the frames `started`,
and none of them is missed. -/
def Reaches (t u : Tasks) (started : List (Nat × RawFrame)) : Prop :=
  ∃ steps, t.run steps = u ∧ t.startedOver steps = started ∧ t.missedOver steps = []

theorem Reaches.refl (t : Tasks) : t.Reaches t [] :=
  ⟨[], rfl, rfl, rfl⟩

theorem Reaches.trans {t u v : Tasks} {started more : List (Nat × RawFrame)}
    (h : t.Reaches u started) (h' : u.Reaches v more) : t.Reaches v (started ++ more) := by
  obtain ⟨steps, rfl, rfl, hmissed⟩ := h
  obtain ⟨steps', rfl, rfl, hmissed'⟩ := h'
  refine ⟨steps ++ steps', List.foldl_append .., along_append startedAt t steps steps', ?_⟩
  unfold missedOver at hmissed hmissed' ⊢
  rw [along_append, hmissed, hmissed']
  rfl

theorem Reaches.followed {t u v : Tasks} {started : List (Nat × RawFrame)}
    (h : t.Reaches u started) (h' : u.Reaches v []) : t.Reaches v started := by
  have := h.trans h'
  rw [List.append_nil] at this
  exact this

/-- A step at which no reader starts on a frame. -/
theorem reaches_step (t : Tasks) {x : Step} (hx : t.startedAt x = []) :
    t.Reaches (t.step x) [] := by
  refine ⟨[x], rfl, ?_, ?_⟩
  · show t.startedAt x ++ [] = []
    rw [hx]
    rfl
  · show t.missedAt x ++ [] = []
    unfold missedAt
    rw [hx]
    rfl

/-! ## Dropping a peer -/

section Dropping

variable {p : State × Option Dropping → Tasks} {key : Nat}

/-- A task that drops a peer step by step, with nobody else in between, disconnects it. -/
theorem reaches_disconnect
    (hstep : ∀ s d, (p (s, some d)).Reaches (p (d.proceed s key)) []) (s : State)
    (reason : Disconnect) :
    (p (s, some (.remove reason))).Reaches (p (s.disconnect key reason, none)) [] := by
  have hremove := hstep s (.remove reason)
  cases hp : s.peers.get? key with
  | none =>
    rw [Dropping.proceed_of_get?_eq_none hp] at hremove
    rw [State.disconnect_of_get?_eq_none hp]
    exact hremove
  | some p =>
    rw [Dropping.proceed_of_get? hp] at hremove
    rw [State.disconnect_of_get? hp, ← KeyTable.length_keys]
    -- It is taken out of the table, told to stop, and reported.
    apply hremove.followed
    apply (hstep _ (.cancel p reason)).followed
    apply (hstep _ (.count p reason)).followed
    exact hstep _ (.report p reason _)

end Dropping

/-! ## One reader at work -/

variable {t : Tasks} {key : Nat} {s : State}

theorem put_put (t : Tasks) (key : Nat) (outcome next : State × Option Work) :
    (t.put key outcome).put key next = t.put key next := by
  obtain ⟨s, _ | v⟩ := outcome <;> obtain ⟨s', _ | w⟩ := next
  · exact congrArg (fun works => { t with relay := s', works := works })
      (t.works.erase_erase key)
  · exact congrArg (fun works => { t with relay := s', works := works })
      (t.works.insert_erase key w)
  · exact congrArg (fun works => { t with relay := s', works := works })
      (t.works.erase_insert key v)
  · exact congrArg (fun works => { t with relay := s', works := works })
      (t.works.insert_insert key v w)

theorem get?_put (t : Tasks) (key : Nat) (outcome : State × Option Work) :
    (t.put key outcome).works.get? key = outcome.2 := by
  obtain ⟨s, _ | w⟩ := outcome
  · exact (KeyTable.get?_erase ..).trans (if_pos rfl)
  · exact (KeyTable.get?_insert ..).trans (if_pos rfl)

theorem relay_put (t : Tasks) (key : Nat) (outcome : State × Option Work) :
    (t.put key outcome).relay = outcome.1 := by
  obtain ⟨s, _ | w⟩ := outcome <;> rfl

theorem serving_put (t : Tasks) (key : Nat) (outcome : State × Option Work) :
    (t.put key outcome).serving = t.serving := by
  obtain ⟨s, _ | w⟩ := outcome <;> rfl

theorem reaches_proceed (t : Tasks) (s : State) (w : Work) :
    (t.put key (s, some w)).Reaches (t.put key (w.proceed s key)) [] := by
  have hstep : (t.put key (s, some w)).step (.proceed key) = t.put key (w.proceed s key) :=
    (proceed_of_get? (get?_put ..)).trans (put_put ..)
  rw [← hstep]
  exact reaches_step _ rfl

theorem waits_put (hserving : t.serving.hasStarted key = true)
    (hr : (s.reading? key).isSome = true) : (t.put key (s, none)).waits key = true := by
  obtain ⟨c, hr⟩ := Option.isSome_iff_exists.1 hr
  have hc := (Option.filter_eq_some_iff.1 hr).1
  unfold waits hasStarted
  rw [get?_put, relay_put, serving_put, hserving, KeyTable.contains, hc]
  rfl

theorem reaches_read (hserving : t.serving.hasStarted key = true) (hs : s.Sound)
    (hr : (s.reading? key).isSome = true) (f : RawFrame) :
    (t.put key (s, none)).Reaches (t.put key ((Work.take s key f).map id some)) [(key, f)] := by
  have hcan : (t.put key (s, none)).canRead key = true := by
    rw [canRead, waits_put hserving hr, relay_put]
    exact hr
  have hstep : (t.put key (s, none)).step (.read key f) =
      t.put key ((Work.take s key f).map id some) := by
    show read _ key f = _
    unfold read
    rw [if_pos hcan, put_put, relay_put]
  have hstarted : (t.put key (s, none)).startedAt (.read key f) = [(key, f)] := if_pos hcan
  obtain ⟨c, hc⟩ := Option.isSome_iff_exists.1 hr
  have hm := (hs.member_of_reading? hc).2
  refine ⟨[.read key f], hstep, ?_, ?_⟩
  · show startedAt _ _ ++ [] = _
    rw [hstarted]
    rfl
  · show missedAt _ _ ++ [] = _
    unfold missedAt
    rw [hstarted, relay_put]
    simp [hm]

theorem reaches_giveUp (hserving : t.serving.hasStarted key = true)
    (hr : (s.reading? key).isSome = true) (reason : Disconnect) :
    (t.put key (s, none)).Reaches (t.put key (s, some (.ending (.remove reason)))) [] := by
  have hstep : (t.put key (s, none)).step (.giveUp key reason) =
      t.put key (s, some (.ending (.remove reason))) := by
    show giveUp _ key reason = _
    unfold giveUp
    rw [if_pos (waits_put hserving hr), put_put, relay_put]
  rw [← hstep]
  exact reaches_step _ rfl

/-- A reader that drops its own peer returns. -/
theorem reaches_ending (t : Tasks) (s : State) (key : Nat) (reason : Disconnect) :
    (t.put key (s, some (.ending (.remove reason)))).Reaches
      (t.put key (s.disconnect key reason, some .returned)) [] :=
  reaches_disconnect
    (p := fun outcome => t.put key (outcome.1, some (Work.whileEnding outcome.2)))
    (fun s d => reaches_proceed t s (.ending d)) s reason

/-! ## One frame -/

theorem reaches_offer (t : Tasks) (s : State) (bytes : Bytes) (j : Nat) (keys : List Nat) :
    (t.put key (s, some (.offering bytes (j :: keys)))).Reaches
      (t.put key ((State.offer bytes s j).1, some (.offering bytes keys))) [] := by
  apply (reaches_proceed t s _).followed
  show (t.put key ((Work.offer s bytes j keys).map id some)).Reaches _ []
  unfold Work.offer State.offer
  cases s.enqueue j bytes with
  | ok s' => exact Reaches.refl _
  | error reason =>
    exact reaches_disconnect
      (p := fun outcome =>
        t.put key (outcome.1, some (Work.whileDropping j bytes keys outcome.2)))
      (fun s d => reaches_proceed t s (.dropping j d bytes keys)) s reason

theorem reaches_offering (t : Tasks) (s : State) (bytes : Bytes) (keys : List Nat) :
    (t.put key (s, some (.offering bytes keys))).Reaches
      (t.put key ((State.offerAll bytes s keys).1, none)) [] := by
  induction keys generalizing s with
  | nil => exact reaches_proceed t s (.offering bytes [])
  | cons j keys ih => exact (reaches_offer t s bytes j keys).trans (ih (State.offer bytes s j).1)

theorem reaches_eviction (t : Tasks) (s : State) (f : RawFrame) :
    (t.put key ({ s with peers := s.peers.recordEviction key },
        some (.counted f (((s.peers.recordEviction key).evictions? key).getD 0)))).Reaches
      (t.put key (s.handleEviction key f, none)) [] := by
  -- It is numbered, reported with the name of its sender, and offered to the others.
  apply (reaches_proceed t _ _).followed
  apply (reaches_proceed t _ _).followed
  apply (reaches_proceed t _ _).followed
  apply (reaches_proceed t _ _).followed
  apply (reaches_proceed t _ _).followed
  exact reaches_offering t _ f.bytes _

/-- What is left to do after a frame has been acted on. -/
def leftOver : State × Option Disconnect → State × Option Work :=
  Prod.map id (Option.map fun reason => .ending (.remove reason))

theorem reaches_answer (t : Tasks) (s : State) :
    (t.put key (s, some .greeted)).Reaches (t.put key (leftOver (s.answerHello key))) [] := by
  apply (reaches_proceed t s _).followed
  unfold State.answerHello
  cases hm : s.peers.contains key with
  | false =>
    simp only [Work.proceed, hm]
    exact Reaches.refl _
  | true =>
    simp only [Work.proceed, hm, if_true]
    apply (reaches_proceed t s _).followed
    show (t.put key (Work.answer s key)).Reaches _ []
    unfold Work.answer
    cases s.enqueue key s.welcome <;> exact Reaches.refl _

theorem reaches_hello (t : Tasks) (s : State) (f : RawFrame) :
    let name := String.ofList (Text.Utf8.decodeLossy f.payload)
    (t.put key ({ s with peers := s.peers.setNickname key name },
        some (.named (((s.peers.setNickname key name).nickname? key).getD "")))).Reaches
      (t.put key (leftOver (s.handleHello key f))) [] := by
  intro name
  apply (reaches_proceed t _ _).followed
  rw [State.handleHello_eq]
  exact reaches_answer t (s.greeted key f)

theorem reaches_handle (hserving : t.serving.hasStarted key = true) (hs : s.Sound)
    (hr : (s.reading? key).isSome = true) (f : RawFrame) :
    (t.put key (s, none)).Reaches (t.put key (leftOver (s.handle key f))) [(key, f)] := by
  apply (reaches_read hserving hs hr f).followed
  cases hop : f.header.op with
  | evict =>
    simp only [Work.take, State.handle, hop]
    split
    · exact reaches_eviction t s f
    · exact reaches_proceed t s _
  | hello =>
    simp only [Work.take, State.handle, hop]
    exact reaches_hello t s f
  | welcome =>
    simp only [Work.take, State.handle, hop]
    exact reaches_proceed t s _
  | other code =>
    simp only [Work.take, State.handle, hop]
    exact reaches_proceed t s _

/-- A reader acts on one frame after another, as long as its peer is not to be dropped. -/
theorem reaches_handleAll (hserving : t.serving.hasStarted key = true) (hs : s.Sound)
    (hr : (s.reading? key).isSome = true) (fs : List RawFrame) :
    (t.put key (s, none)).Reaches (t.put key (leftOver (s.handleAll key fs)))
      ((s.readings key fs).map Reading.started) := by
  induction fs generalizing s with
  | nil => exact Reaches.refl _
  | cons f fs ih =>
    have hfirst : (t.put key (s, none)).Reaches (t.put key (leftOver (s.handle key f)))
        [(key, f)] := reaches_handle hserving hs hr f
    obtain ⟨c, hc⟩ := Option.isSome_iff_exists.1 hr
    have hm := (hs.member_of_reading? hc).2
    cases h : s.handle key f with
    | mk s' outcome =>
      rw [h] at hfirst
      cases outcome with
      | some reason =>
        rw [State.handleAll_cons_some fs h, State.readings, h]
        exact hfirst
      | none =>
        rw [State.handleAll_cons_none fs h, State.readings, h]
        have honward := State.onward_handle s key f
        have hm' := State.handle_keeps_sender hm (congrArg Prod.snd h)
        rw [h] at honward hm'
        exact hfirst.trans (ih (honward.sound hs) ((honward.sound hs).reading?_of_member hm'))

theorem reaches_keep (t : Tasks) (s : State) (key : Nat) (input : Reader) :
    (t.put key (s, none)).Reaches (t.put key ({ s with
      connections := s.connections.modify key fun c => { c with input := input } }, none)) [] :=
  reaches_step _ (x := .keep key input) rfl

/-! ## Tasks at rest -/

/-- Nothing is under way in a relay: readers wait for a frame, or have returned and their peers are
gone, and the task that accepts connections waits for one unless the relay has stopped. -/
structure Rests (t : Tasks) (s : State) : Prop where
  relay_eq : t.relay = s
  returned : ∀ {key w}, t.works.get? key = some w → w = .returned ∧ s.Gone key
  settled : ∀ {key d}, t.failures.get? key = some d → d = none ∧ s.Gone key
  serving_eq : t.serving = if s.stopping then .returned else .accepting
  asked_eq : t.asked = s.stopping

theorem rests_start (config : Config) (identity : Identity) :
    (start config identity).Rests (.start config identity) where
  relay_eq := rfl
  returned h := by cases h
  settled h := by cases h
  serving_eq := rfl
  asked_eq := rfl

namespace Rests

variable {s' : State}

theorem hasStarted (h : t.Rests s) (key : Nat) : t.serving.hasStarted key = true := by
  rw [h.serving_eq]
  split <;> rfl

/-- The reader of a peer that is read from waits. -/
theorem put_none (h : t.Rests s) (hs : s.Sound) (hr : (s.reading? key).isSome = true) :
    t.put key (s, none) = t := by
  obtain ⟨c, hc⟩ := Option.isSome_iff_exists.1 hr
  have hm := (hs.member_of_reading? hc).2
  have hnone : t.works.get? key = none := by
    cases hw : t.works.get? key with
    | none => rfl
    | some w =>
      rw [(h.returned hw).2.not_member] at hm
      cases hm
  have herase := KeyTable.erase_of_get?_eq_none hnone
  rw [← h.relay_eq]
  exact congrArg (fun works => { t with works := works }) herase

theorem follows (h : t.Rests s) (hf : s.Follows s') (hstop : s'.stopping = s.stopping) :
    Rests { t with relay := s' } s' where
  relay_eq := rfl
  returned hw := ⟨(h.returned hw).1, (h.returned hw).2.follows hf⟩
  settled hd := ⟨(h.settled hd).1, (h.settled hd).2.follows hf⟩
  serving_eq := by rw [hstop]; exact h.serving_eq
  asked_eq := h.asked_eq.trans hstop.symm

theorem put (h : t.Rests s) (hf : s.Follows s') (hstop : s'.stopping = s.stopping) :
    (t.put key (s', none)).Rests s' := by
  have hnext := h.follows hf hstop
  refine { hnext with returned := fun {j w} hw => hnext.returned (w := w) ?_ }
  change (t.works.erase key).get? j = some w at hw
  rw [KeyTable.get?_erase] at hw
  split at hw
  · cases hw
  · exact hw

theorem put_returned (h : t.Rests s) (hf : s.Follows s') (hstop : s'.stopping = s.stopping)
    (hgone : s'.Gone key) : (t.put key (s', some .returned)).Rests s' := by
  have hnext := h.follows hf hstop
  refine { hnext with returned := fun {j w} hw => ?_ }
  change (t.works.insert key .returned).get? j = some w at hw
  rw [KeyTable.get?_insert] at hw
  split at hw
  next hj =>
    cases hw
    exact ⟨rfl, hj ▸ hgone⟩
  next => exact hnext.returned hw

end Rests

/-- Some steps lead from tasks at rest to tasks at rest. -/
def Settles (t : Tasks) (s : State) (started : List (Nat × RawFrame)) : Prop :=
  ∃ u, u.Rests s ∧ t.Reaches u started

/-! ## One input -/

theorem gone_disconnect (hs : s.Sound) (hm : s.peers.contains key = true) (reason : Disconnect) :
    (s.disconnect key reason).Gone key where
  key_le := by
    obtain ⟨c, hc⟩ := hs.member_connected hm
    rw [(State.disconnect_settings s key reason).2.2]
    exact hs.key_le hc
  not_member := State.disconnect_not_member s key reason

/-- A reader gives up. -/
theorem settles_giveUp (h : t.Rests s) (hs : s.Sound) (hr : (s.reading? key).isSome = true)
    (reason : Disconnect) : t.Settles (s.disconnect key reason) [] := by
  obtain ⟨c, hc⟩ := Option.isSome_iff_exists.1 hr
  have hgone := gone_disconnect hs (hs.member_of_reading? hc).2 reason
  have honward := State.onward_disconnect s key reason
  refine ⟨_, h.put_returned (honward.follows hs) honward.stopping_eq hgone, ?_⟩
  have hsteps := (reaches_giveUp (h.hasStarted key) hr reason).trans (reaches_ending t s key reason)
  rwa [h.put_none hs hr] at hsteps

theorem settles_receive (h : t.Rests s) (hs : s.Sound) (now key : Nat) (bytes : Bytes) :
    t.Settles (s.receive now key bytes)
      ((s.readingsAt now (.arrived key bytes)).map Reading.started) := by
  cases hc : s.reading? key with
  | none =>
    rw [State.receive_of_not_reading hc, readingsAt_of_not_reading hc]
    exact ⟨t, h, Reaches.refl t⟩
  | some c =>
    rw [readingsAt_of_reading hc]
    have hr : (s.reading? key).isSome = true := by
      rw [hc]
      rfl
    have hserving := h.hasStarted key
    have hfollows := State.follows_receive hs now key bytes
    have hstop := (State.receive_tables_eq hs now key bytes).2
    have honward := State.onward_handleAll s key (c.input.feed s.readRules now bytes).1
    have hframes := reaches_handleAll hserving hs hr (c.input.feed s.readRules now bytes).1
    rw [h.put_none hs hr] at hframes
    cases hh : s.handleAll key (c.input.feed s.readRules now bytes).1 with
    | mk s' outcome =>
      rw [hh] at honward hframes
      have hle : key ≤ s'.lastKey := by
        rw [honward.lastKey_eq]
        exact hs.key_le (hs.member_of_reading? hc).1
      have hgone : ∀ reason, (s'.disconnect key reason).Gone key := fun reason =>
        ⟨by rwa [(State.disconnect_settings s' key reason).2.2],
          State.disconnect_not_member s' key reason⟩
      cases outcome with
      | some reason =>
        rw [State.receive_of_unanswered hc hh] at hfollows hstop ⊢
        exact ⟨_, h.put_returned hfollows hstop (hgone reason),
          hframes.followed (reaches_ending t s' key reason)⟩
      | none =>
        have hm : s'.peers.contains key = true := by
          have := State.handleAll_keeps_sender (hs.member_of_reading? hc).2 (congrArg Prod.snd hh)
          rwa [hh] at this
        have hr' := (honward.sound hs).reading?_of_member hm
        cases hrest : (c.input.feed s.readRules now bytes).2 with
        | error reason =>
          rw [State.receive_of_refused hc hh hrest] at hfollows hstop ⊢
          exact ⟨_, h.put_returned hfollows hstop (hgone reason),
            (hframes.followed (reaches_giveUp hserving hr' reason)).followed
              (reaches_ending t s' key reason)⟩
        | ok input =>
          rw [State.receive_of_read hc hh hrest] at hfollows hstop ⊢
          exact ⟨_, h.put hfollows hstop, hframes.followed (reaches_keep t s' key input)⟩

/-- The tasks when a writer that has failed has come to a point in what it does. -/
def putFailure (t : Tasks) (key : Nat) (outcome : State × Option Dropping) : Tasks :=
  { t with relay := outcome.1, failures := t.failures.insert key outcome.2 }

theorem reaches_settle (t : Tasks) (s : State) (d : Dropping) :
    (t.putFailure key (s, some d)).Reaches (t.putFailure key (d.proceed s key)) [] := by
  have hget : (t.putFailure key (s, some d)).failures.get? key = some (some d) :=
    (KeyTable.get?_insert ..).trans (if_pos rfl)
  have hstep : (t.putFailure key (s, some d)).step (.settle key) =
      t.putFailure key (d.proceed s key) := by
    show settle _ key = _
    unfold settle
    rw [hget]
    exact congrArg (fun failures => { t with relay := (d.proceed s key).1, failures := failures })
      (t.failures.insert_insert key _ _)
  rw [← hstep]
  exact reaches_step _ rfl

theorem settles_outputFailed (h : t.Rests s) (hs : s.Sound) (key : Nat) (e : IoError) :
    t.Settles (s.outputFailed key e) [] := by
  show t.Settles (s.disconnect key (.io e)) []
  cases hp : s.peers.get? key with
  | none =>
    rw [State.disconnect_of_get?_eq_none hp]
    exact ⟨t, h, Reaches.refl t⟩
  | some p =>
    have hm : s.peers.contains key = true := by
      rw [KeyTable.contains, hp]
      rfl
    obtain ⟨c, hc⟩ := hs.member_connected hm
    have hfresh : t.failures.get? key = none := by
      cases hd : t.failures.get? key with
      | none => rfl
      | some d =>
        rw [(h.settled hd).2.not_member] at hm
        cases hm
    have hfails : t.step (.failWriting key e) = t.putFailure key (s, some (.remove (.io e))) := by
      have hcontains : t.relay.connections.contains key = true := by
        rw [h.relay_eq, KeyTable.contains, hc]
        rfl
      have hstarted : t.hasStarted key = true := by
        unfold Tasks.hasStarted
        rw [hcontains, h.hasStarted key]
        rfl
      show t.failWriting key e = _
      unfold failWriting
      rw [hstarted, hfresh, ← h.relay_eq]
      rfl
    have honward := State.onward_disconnect s key (.io e)
    have hnext := h.follows (honward.follows hs) honward.stopping_eq
    refine ⟨t.putFailure key (s.disconnect key (.io e), none), { hnext with
      settled := fun {j d} hd => ?_ }, ?_⟩
    · change (t.failures.insert key none).get? j = some d at hd
      rw [KeyTable.get?_insert] at hd
      split at hd
      next hj =>
        cases hd
        exact ⟨rfl, hj ▸ gone_disconnect hs hm (.io e)⟩
      next => exact hnext.settled hd
    · have hfirst := reaches_step t (x := .failWriting key e) rfl
      rw [hfails] at hfirst
      exact hfirst.trans (reaches_disconnect (p := t.putFailure key)
        (fun s d => reaches_settle t s d) s (.io e))

theorem accept_eq (s : State) (address : String) :
    let added := s.nextKey.2.insertPeer s.nextKey.1 address
    (s.accept address).2 = added.note (.accepted s.nextKey.1 address added.peers.keys.length) := by
  intro added
  rw [KeyTable.length_keys]
  rfl

theorem settles_connected (h : t.Rests s) (hs : s.Sound) (hgoing : s.stopping = false)
    (address : String) : t.Settles (s.accept address).2 [] := by
  have hserving : t.serving = .accepting := by
    rw [h.serving_eq, hgoing]
    rfl
  obtain ⟨relay, works, failures, serving, asked⟩ := t
  cases hserving
  cases h.relay_eq
  refine ⟨_, h.follows (State.follows_accept hs hgoing address) rfl, ?_⟩
  -- The connection gets its key, its place in the table, and its entry in the journal.
  apply (reaches_step _ (x := .accept address) rfl).followed
  apply (reaches_step _ (x := .serve) rfl).followed
  apply (reaches_step _ (x := .serve) rfl).followed
  rw [accept_eq]
  exact reaches_step _ (x := .serve) rfl

/-- The task that accepts connections drops those that are left, and stops. -/
theorem reaches_leaving (s : State) (works : KeyTable Work)
    (failures : KeyTable (Option Dropping)) (asked : Bool) (keys : List Nat) :
    (Tasks.mk s works failures (.leaving keys) asked).Reaches
      ⟨(s.disconnectAll keys).note (.stopped (s.disconnectAll keys).broadcasts), works, failures,
        .returned, asked⟩ [] := by
  induction keys generalizing s with
  | nil => exact (reaches_step _ (x := .serve) rfl).trans (reaches_step _ (x := .serve) rfl)
  | cons key keys ih =>
    apply (reaches_step _ (x := .serve) rfl).followed
    refine Reaches.followed ?_ (ih (s.disconnect key .shutdown))
    exact reaches_disconnect
      (p := fun outcome =>
        ⟨outcome.1, works, failures, Serving.whileDropping key keys outcome.2, asked⟩)
      (fun s d => reaches_step _ (x := .serve) rfl) s .shutdown

theorem settles_shutDown (h : t.Rests s) (hs : s.Sound) : t.Settles s.shutDown [] := by
  have hfollows := State.follows_shutDown hs
  unfold State.shutDown at hfollows ⊢
  cases hstop : s.stopping with
  | true => exact ⟨t, h, Reaches.refl t⟩
  | false =>
    rw [hstop, if_neg (by decide)] at hfollows
    rw [if_neg (by decide)]
    have hserving : t.serving = .accepting := by
      rw [h.serving_eq, hstop]
      rfl
    have hasked : t.asked = false := h.asked_eq.trans hstop
    obtain ⟨relay, works, failures, serving, asked⟩ := t
    cases hserving
    cases hasked
    cases h.relay_eq
    have hstopped := (State.onward_disconnectAll (relay.cancelAll.note .shutdownRequested)
      relay.peers.keys).stopping_eq
    refine ⟨⟨_, works, failures, .returned, true⟩, ⟨rfl, fun hw => ?_, fun hd => ?_, ?_, ?_⟩, ?_⟩
    · exact ⟨(h.returned hw).1, (h.returned hw).2.follows hfollows⟩
    · exact ⟨(h.settled hd).1, (h.settled hd).2.follows hfollows⟩
    · exact (if_pos hstopped).symm
    · exact hstopped.symm
    · apply (reaches_step _ (x := .ask) rfl).followed
      apply (reaches_step _ (x := .request) rfl).followed
      apply (reaches_step _ (x := .leave) rfl).followed
      apply (reaches_step _ (x := .serve) rfl).followed
      exact reaches_leaving ..

/-- A queue is changed by its writer. -/
theorem settles_requeued {s' : State} (h : t.Rests s) (hs : s.Sound) (hq : s.Requeued key s')
    {x : Step} (hx : t.step x = { t with relay := s' }) (hstarted : t.startedAt x = []) :
    t.Settles s' [] := by
  refine ⟨_, h.follows (hq.follows hs) hq.tables_eq.2.2, ?_⟩
  rw [← hx]
  exact reaches_step t hstarted

/-- What a relay does at one input it can do step by step. -/
theorem settles_after (h : t.Rests s) (hs : s.Sound) (now : Nat) (input : Input) :
    t.Settles (s.after now input) ((s.readingsAt now input).map Reading.started) := by
  cases input with
  | connected address =>
    cases hstop : s.stopping with
    | true =>
      have hafter : s.after now (.connected address) = s := if_pos hstop
      rw [hafter]
      exact ⟨t, h, Reaches.refl t⟩
    | false =>
      rw [State.after_connected hstop]
      exact settles_connected h hs hstop address
  | arrived key bytes => exact settles_receive h hs now key bytes
  | ended key =>
    show t.Settles (s.inputEnded key) []
    unfold State.inputEnded
    cases hr : s.reading? key with
    | none => exact ⟨t, h, Reaches.refl t⟩
    | some c => exact settles_giveUp h hs (by rw [hr]; rfl) _
  | readFailed key e =>
    show t.Settles (s.inputFailed key e) []
    unfold State.inputFailed
    cases hr : s.reading? key with
    | none => exact ⟨t, h, Reaches.refl t⟩
    | some c => exact settles_giveUp h hs (by rw [hr]; rfl) _
  | timer key =>
    show t.Settles (s.checkDeadline now key) []
    unfold State.checkDeadline
    cases hr : s.reading? key with
    | none => exact ⟨t, h, Reaches.refl t⟩
    | some c =>
      simp only [Option.bind_some]
      cases c.input.late? s.readRules now with
      | none => exact ⟨t, h, Reaches.refl t⟩
      | some reason => exact settles_giveUp h hs (by rw [hr]; rfl) reason
  | taken key =>
    refine settles_requeued h hs (State.requeued_takeOutbound s key) (x := .take key) ?_ rfl
    rw [← h.relay_eq]
    rfl
  | writeFailed key e => exact settles_outputFailed h hs key e
  | writerStopped key =>
    refine settles_requeued h hs (State.requeued_dropQueue s key) (x := .stopWriting key) ?_ rfl
    rw [← h.relay_eq]
    rfl
  | shutDown => exact settles_shutDown h hs

theorem settles_run (h : t.Rests s) (hs : s.Sound) (inputs : List (Nat × Input)) :
    t.Settles (s.run inputs) ((s.readingsOver inputs).map Reading.started) := by
  induction inputs generalizing t s with
  | nil => exact ⟨t, h, Reaches.refl t⟩
  | cons i inputs ih =>
    obtain ⟨now, input⟩ := i
    obtain ⟨u, hu, hfirst⟩ := settles_after h hs now input
    obtain ⟨v, hv, hrest⟩ := ih hu (State.follows_after hs now input).sound
    refine ⟨v, hv, ?_⟩
    rw [State.readingsOver, List.map_append]
    exact hfirst.trans hrest

end Tasks

end EvictionBus.Relay

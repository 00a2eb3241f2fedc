import Mathlib.Data.List.Nodup
import EvictionBus.Proofs.Broker.Service

/-!
# What a broker in memory answers

The replies of a broker in memory follow from the record of those it has given: it is a fanout
broker, which an outage makes forget its sessions.  Tags belong to one delivery for good.
-/

namespace EvictionBus.Broker

open Record

namespace Memory

/-! ## Requests one after another -/

/-- An entry that leaves the broker as it is. -/
structure Idle (e : Entry) : Prop extends Quiet e where
  outage_eq : e.isOutage = false
  drops_eq : ∀ n, e.drops n = false
  reachable_eq : e.reachable? = none
  acknowledgement_eq : e.isAcknowledgement = false

/-- Everything that a broker can do on a request. -/
inductive Served (b : Memory) : Request → Reply → Memory → Prop where
  | opened {n : Nat} {b' : Memory} {binding : Binding} (h : b.connect binding = .ok (n, b')) :
      Served b (.connect binding) (.opened n) b'
  | published {n : Nat} {b' : Memory} {payload : Bytes} (h : b.publish n payload = some (.ok b')) :
      Served b (.publish n payload) .done b'
  | read {n : Nat} {b' : Memory} {d : Delivery} (h : b.next n = some (.delivery d, b')) :
      Served b (.next n) (.found (.delivery d)) b'
  | acknowledged {n : Nat} {b' : Memory} (h : b.acknowledge n = some (.ok b')) :
    Served b (.acknowledge n) .done b'
  | dropped (n : Nat) : Served b (.dropReader n) .done (b.dropReader n)
  | told (value : Bool) : Served b (.setReachable value) .done (b.setReachable value)
  | idle {r : Request} {reply : Reply} (h : Idle ⟨r, reply⟩) : Served b r reply b

variable {h : Record} {b b' : Memory} {n m : Nat} {s : Session}

theorem served (b : Memory) (r : Request) : Served b r (b.serve r).1 (b.serve r).2 := by
  have hidle : ∀ reply, b.serve r = (reply, b) → Idle ⟨r, reply⟩ →
      Served b r (b.serve r).1 (b.serve r).2 := by
    intro reply heq h
    rw [heq]
    exact .idle h
  cases r with
  | connect binding =>
    cases hc : b.connect binding with
    | ok x =>
      have heq : b.serve (.connect binding) = (.opened x.1, x.2) := by simp only [serve, hc]
      rw [heq]
      exact .opened hc
    | error e =>
      exact hidle (.refused e) (by simp only [serve, hc])
        ⟨⟨rfl, rfl, rfl⟩, rfl, fun _ => rfl, rfl, rfl⟩
  | publish n payload =>
    cases hp : b.publish n payload with
    | none =>
      exact hidle .nobody (by simp only [serve, hp, grant])
        ⟨⟨rfl, rfl, rfl⟩, rfl, fun _ => rfl, rfl, rfl⟩
    | some x =>
      cases x with
      | ok b' =>
        have heq : b.serve (.publish n payload) = (.done, b') := by simp only [serve, hp, grant]
        rw [heq]
        exact .published hp
      | error e =>
        exact hidle (.refused e) (by simp only [serve, hp, grant])
          ⟨⟨rfl, rfl, rfl⟩, rfl, fun _ => rfl, rfl, rfl⟩
  | next n =>
    cases hn : b.next n with
    | none =>
      exact hidle .nobody (by simp only [serve, hn])
        ⟨⟨rfl, rfl, rfl⟩, rfl, fun _ => rfl, rfl, rfl⟩
    | some x =>
      obtain ⟨found, b'⟩ := x
      have heq : b.serve (.next n) = (.found found, b') := by simp only [serve, hn]
      have hsame := next_eq_other hn
      cases found with
      | delivery d =>
        rw [heq]
        exact .read hn
      | pending =>
        rw [hsame fun d hd => by cases hd] at heq
        exact hidle _ heq ⟨⟨rfl, rfl, rfl⟩, rfl, fun _ => rfl, rfl, rfl⟩
      | ended =>
        rw [hsame fun d hd => by cases hd] at heq
        exact hidle _ heq ⟨⟨rfl, rfl, rfl⟩, rfl, fun _ => rfl, rfl, rfl⟩
      | failed e =>
        rw [hsame fun d hd => by cases hd] at heq
        exact hidle _ heq ⟨⟨rfl, rfl, rfl⟩, rfl, fun _ => rfl, rfl, rfl⟩
  | acknowledge n =>
    cases hk : b.acknowledge n with
    | none =>
      exact hidle .nobody (by simp only [serve, hk, grant])
        ⟨⟨rfl, rfl, rfl⟩, rfl, fun _ => rfl, rfl, rfl⟩
    | some x =>
      cases x with
      | ok b' =>
        have heq : b.serve (.acknowledge n) = (.done, b') := by simp only [serve, hk, grant]
        rw [heq]
        exact .acknowledged hk
      | error e =>
        exact hidle (.refused e) (by simp only [serve, hk, grant])
          ⟨⟨rfl, rfl, rfl⟩, rfl, fun _ => rfl, rfl, rfl⟩
  | dropReader n => exact .dropped n
  | setReachable value => exact .told value

theorem Served.agrees {r : Request} {reply : Reply} (hr : Served b r reply b') (ha : b.Agrees h) :
    b'.Agrees (h ++ [⟨r, reply⟩]) := by
  cases hr with
  | opened hc => exact (ha.connect hc).2
  | published hp => exact ha.publish hp
  | read hd => exact ha.next hd
  | acknowledged hk =>
    rw [acknowledge_eq_ok hk]
    exact ha.still ⟨rfl, rfl, rfl⟩ rfl (fun _ => rfl) rfl rfl
  | dropped n => exact ha.dropReader n
  | told value => exact ha.setReachable value
  | idle hidle =>
    exact ha.still hidle.toQuiet hidle.outage_eq hidle.drops_eq hidle.reachable_eq
      (by simp [hidle.acknowledgement_eq])

theorem agrees_record (ha : b.Agrees h) (requests : List Request) :
    (b.run requests).Agrees (h ++ b.record requests) := by
  induction requests generalizing b h with
  | nil =>
    rw [record, List.append_nil]
    exact ha
  | cons r requests ih =>
    rw [record, ← List.singleton_append, ← List.append_assoc]
    exact ih ((served b r).agrees ha)

/-! ## Replies -/

/-- What a broker that has answered the requests of a record is going to answer. -/
structure Serves (h : Record) (b : Memory) : Prop where
  read : ∀ n, (h.taken n).map Delivery.message <+: h.due n
  next_due : ∀ n message, h.dropped n = false → (h.due n)[(h.taken n).length]? = some message →
    ∃ d, (b.serve (.next n)).1 = .found (.delivery d) ∧ d.message = message
  /-- When everything has been read, the stream is over once there has been an outage. -/
  next_over : ∀ n, n < h.bindings.length → h.dropped n = false →
    (h.due n).length ≤ (h.taken n).length →
    b.serve (.next n) = (.found (if h.lost n then .ended else .pending), b)
  next_nobody : ∀ n, h.bindings.length ≤ n ∨ h.dropped n = true → b.serve (.next n) = (.nobody, b)
  increase : ∀ n, ((h.taken n).map Delivery.tag).Pairwise (· < ·)
  connect_reply : ∀ binding, (b.serve (.connect binding)).1 =
    if h.reachable then .opened h.bindings.length
    else .refused (.brokerUnreachable "connection refused")
  publish_reply : ∀ n payload, n < h.bindings.length →
    (b.serve (.publish n payload)).1 = if h.lost n then .refused h.obstacle else .done
  acknowledge_reply : ∀ n, n < h.bindings.length → h.dropped n = false →
    (b.serve (.acknowledge n)).1 = if h.lost n then .refused h.obstacle else .done
  refused_same : ∀ r e, (b.serve r).1 = .refused e → (b.serve r).2 = b
  published_eq : b.published = h.countP (·.published?.isSome)
  acknowledged_eq : b.acknowledged = h.countP Entry.isAcknowledgement
  consumers_eq : ∀ exchange, b.consumerCount exchange = (h.consumers exchange).length

theorem Served.same_of_refused {r : Request} {e : TransportError}
    (hr : Served b r (.refused e) b') : b' = b := by
  cases hr
  rfl

theorem Agrees.check_eq (ha : b.Agrees h) (hs : b.sessions[n]? = some s) :
    b.check s = if h.lost n then .error h.obstacle else .ok () := by
  have hlost := (ha.tracks n s hs).lost_iff
  unfold check Record.obstacle
  rw [← ha.reachable_eq]
  by_cases hreachable : b.reachable = true
  · by_cases hgeneration : s.generation = b.generation
    · have : h.lost n ≠ true := fun h => hlost.1 h hgeneration
      simp [hreachable, hgeneration, this]
    · simp [hreachable, hgeneration, hlost.2 hgeneration]
  · rw [Bool.not_eq_true] at hreachable
    -- While the broker is offline, an outage has ended every session.
    have := hlost.2 (ha.offline hreachable s (List.mem_of_getElem? hs))
    simp [hreachable, this]

theorem Agrees.reading_iff (ha : b.Agrees h) (hs : b.sessions[n]? = some s) :
    s.reading = true ↔ h.dropped n = false := by
  have := (ha.tracks n s hs).dropped_iff
  rw [← Bool.not_eq_true, this]
  simp

theorem Agrees.bound_eq (ha : b.Agrees h) (hs : b.sessions[n]? = some s)
    (hreading : s.reading = true) : s.bound = !h.lost n := by
  have hold := ha.tracks n s hs
  by_cases hlost : h.lost n = true
  · have : s.bound ≠ true := fun hbound => hold.lost_iff.1 hlost (hold.bound_current hbound)
    simpa [hlost] using this
  · have hgeneration : s.generation = b.generation := by
      by_contra hgeneration
      exact hlost (hold.lost_iff.2 hgeneration)
    rw [ha.sound.bound s (List.mem_of_getElem? hs) hreading hgeneration]
    simpa using hlost

theorem length_filter_eq {α : Type} (p : α → Bool) (l : List α) :
    (l.filter p).length = ((List.range l.length).filter fun n => (l[n]?).any p).length := by
  have hget : (List.range l.length).map (fun n => l[n]?) = l.map some := by
    apply List.ext_getElem
    · simp
    · intro n hn hn'
      rw [List.length_map] at hn'
      simp [hn']
  have hcount := congrArg (List.countP fun x => x.any p) hget
  rw [List.countP_map, List.countP_map] at hcount
  rw [← List.countP_eq_length_filter, ← List.countP_eq_length_filter]
  exact hcount.symm

theorem Agrees.consumers_eq (ha : b.Agrees h) (exchange : String) :
    b.consumerCount exchange = (h.consumers exchange).length := by
  unfold consumerCount Record.consumers
  rw [length_filter_eq, ha.length_eq]
  congr 1
  apply List.filter_congr
  intro n hn
  obtain ⟨s, hs, hold⟩ := ha.exists_session (List.mem_range.1 hn)
  rw [hs, hold.binding_eq]
  show (s.bound && s.reading && decide (s.binding.exchange = exchange)) =
    (decide (s.binding.exchange = exchange) && !h.lost n && !h.dropped n)
  cases hreading : s.reading with
  | false => simp [hold.dropped_iff.2 hreading]
  | true =>
    rw [ha.bound_eq hs hreading, (ha.reading_iff hs).1 hreading]
    simp [Bool.and_comm]

/-! ### One field after another -/

theorem Agrees.taken_prefix (ha : b.Agrees h) (n : Nat) :
    (h.taken n).map Delivery.message <+: h.due n := by
  by_cases hn : n < h.bindings.length
  · obtain ⟨s, hs, hold⟩ := ha.exists_session hn
    exact hold.taken_prefix
  · rw [ha.grounded.taken_of_le (by omega)]
    exact List.nil_prefix

/-- A session that is still read from has in its queue what is due and has not been read. -/
theorem Agrees.exists_reading (ha : b.Agrees h) (hdropped : h.dropped n = false)
    (hn : n < h.bindings.length) :
    ∃ s, b.sessions[n]? = some s ∧ s.reading = true ∧
      h.due n = (h.taken n ++ s.queue).map Delivery.message := by
  obtain ⟨s, hs, hold⟩ := ha.exists_session hn
  have hreading := (ha.reading_iff hs).2 hdropped
  exact ⟨s, hs, hreading, hold.queue_eq hreading⟩

theorem Agrees.next_due (ha : b.Agrees h) (hdropped : h.dropped n = false)
    {message : String × Bytes} (hmessage : (h.due n)[(h.taken n).length]? = some message) :
    ∃ d, (b.serve (.next n)).1 = .found (.delivery d) ∧ d.message = message := by
  have hn : n < h.bindings.length := by
    by_contra hn
    have hunopened : h.bindings[n]? = none := List.getElem?_eq_none_iff.2 (by omega)
    unfold Record.due at hmessage
    rw [hunopened] at hmessage
    cases hmessage
  obtain ⟨s, hs, hreading, hdue⟩ := ha.exists_reading hdropped hn
  rw [hdue, List.map_append, List.getElem?_append_right (by simp), List.length_map,
    Nat.sub_self] at hmessage
  cases hqueue : s.queue with
  | nil =>
    rw [hqueue] at hmessage
    cases hmessage
  | cons d rest =>
    rw [hqueue] at hmessage
    cases hmessage
    have := next_of_waiting (hasReader_eq_true_iff.2 ⟨s, hs, hreading⟩)
      ((waiting_eq hs).trans hqueue)
    exact ⟨d, by simp only [serve, this], rfl⟩

theorem Agrees.next_over (ha : b.Agrees h) (hn : n < h.bindings.length)
    (hdropped : h.dropped n = false) (hle : (h.due n).length ≤ (h.taken n).length) :
    b.serve (.next n) = (.found (if h.lost n then .ended else .pending), b) := by
  obtain ⟨s, hs, hreading, hdue⟩ := ha.exists_reading hdropped hn
  have hqueue : s.queue = [] := by
    rw [hdue, List.length_map, List.length_append] at hle
    exact List.length_eq_zero_iff.1 (by omega)
  have hbound := ha.bound_eq hs hreading
  have hnext : b.next n = some (if h.lost n then .ended else .pending, b) := by
    unfold Memory.next
    cases hlost : h.lost n <;> simp [hs, hreading, hqueue, hbound, hlost]
  simp only [serve, hnext]

theorem Agrees.next_nobody (ha : b.Agrees h)
    (hn : h.bindings.length ≤ n ∨ h.dropped n = true) : b.serve (.next n) = (.nobody, b) := by
  have hnext : b.next n = none := by
    unfold Memory.next
    by_cases hopen : n < h.bindings.length
    · obtain ⟨s, hs, hold⟩ := ha.exists_session hopen
      have hreading := hold.dropped_iff.1 (hn.resolve_left (by omega))
      simp [hs, hreading]
    · have hnone : b.sessions[n]? = none :=
        List.getElem?_eq_none_iff.2 (ha.length_eq ▸ Nat.le_of_not_lt hopen)
      rw [hnone]
      rfl
  simp only [serve, hnext]

theorem Agrees.increase (ha : b.Agrees h) (n : Nat) :
    ((h.taken n).map Delivery.tag).Pairwise (· < ·) := by
  by_cases hn : n < h.bindings.length
  · obtain ⟨s, hs, -⟩ := ha.exists_session hn
    have := ha.tagged.increase n s hs
    rw [List.map_append] at this
    exact (List.pairwise_append.1 this).1
  · rw [ha.grounded.taken_of_le (by omega)]
    exact List.Pairwise.nil

theorem Agrees.connect_reply (ha : b.Agrees h) (binding : Binding) :
    (b.serve (.connect binding)).1 = if h.reachable then .opened h.bindings.length
      else .refused (.brokerUnreachable "connection refused") := by
  simp only [serve, Memory.connect, ha.reachable_eq, ← ha.length_eq]
  by_cases hreachable : h.reachable = true
  · rw [if_pos hreachable, if_pos hreachable]
  · rw [if_neg hreachable, if_neg hreachable]

theorem Agrees.publish_reply (ha : b.Agrees h) (payload : Bytes) (hn : n < h.bindings.length) :
    (b.serve (.publish n payload)).1 = if h.lost n then .refused h.obstacle else .done := by
  obtain ⟨s, hs, -⟩ := ha.exists_session hn
  simp only [serve, Memory.publish, hs, Option.map_some, ha.check_eq hs]
  by_cases hlost : h.lost n = true
  · rw [if_pos hlost, if_pos hlost]
    rfl
  · rw [if_neg hlost, if_neg hlost]
    rfl

theorem Agrees.acknowledge_reply (ha : b.Agrees h) (hn : n < h.bindings.length)
    (hdropped : h.dropped n = false) :
    (b.serve (.acknowledge n)).1 = if h.lost n then .refused h.obstacle else .done := by
  obtain ⟨s, hs, hreading, -⟩ := ha.exists_reading hdropped hn
  simp only [serve, Memory.acknowledge, hs, Option.bind_eq_bind, Option.bind_some,
    if_pos hreading, ha.check_eq hs]
  by_cases hlost : h.lost n = true
  · rw [if_pos hlost, if_pos hlost]
    rfl
  · rw [if_neg hlost, if_neg hlost]
    rfl

theorem Agrees.serves (ha : b.Agrees h) : Serves h b where
  read := ha.taken_prefix
  next_due _ _ hdropped hmessage := ha.next_due hdropped hmessage
  next_over _ hn hdropped hle := ha.next_over hn hdropped hle
  next_nobody _ hn := ha.next_nobody hn
  increase := ha.increase
  connect_reply := ha.connect_reply
  publish_reply _ payload hn := ha.publish_reply payload hn
  acknowledge_reply _ hn hdropped := ha.acknowledge_reply hn hdropped
  refused_same r e hr := by
    have := served b r
    rw [hr] at this
    exact this.same_of_refused
  published_eq := ha.published_eq
  acknowledged_eq := ha.acknowledged_eq
  consumers_eq := ha.consumers_eq

/-! ## Tags over a broker's life -/

theorem mem_waiting_iff {d : Delivery} :
    d ∈ b.waiting n ↔ ∃ s, b.sessions[n]? = some s ∧ d ∈ s.queue := by
  unfold Memory.waiting
  cases b.sessions[n]? <;> simp

theorem waiting_modify_sublist {f : Session → Session}
    (hf : ∀ s, b.sessions[m]? = some s → (f s).queue.Sublist s.queue) (n : Nat) :
    ((b.modify m f).waiting n).Sublist (b.waiting n) := by
  by_cases hm : m = n
  · subst hm
    unfold modify waiting
    rw [List.getElem?_modify_eq]
    cases hs : b.sessions[m]? with
    | none => exact List.Sublist.refl _
    | some s => exact hf s hs
  · rw [(observed_modify hm).2.1]

/-- What waits in a queue has waited there before, or it comes under a tag that is new. -/
theorem Served.waiting {r : Request} {reply : Reply} (hr : Served b r reply b') :
    b.lastTag ≤ b'.lastTag ∧ ∀ n, ∀ d ∈ b'.waiting n, d ∈ b.waiting n ∨ b.lastTag < d.tag := by
  cases hr with
  | opened hc =>
    refine ⟨Nat.le_of_eq ?_, fun n d hd => .inl ?_⟩
    · obtain ⟨-, -, rfl⟩ := connect_eq_ok hc
      rfl
    · by_cases hn : n < b.sessions.length
      · rw [← (observed_connect hc hn).2.1]
        exact hd
      · -- Nothing waits in the queue of the new session, nor where there is no session.
        exfalso
        obtain ⟨-, -, rfl⟩ := connect_eq_ok hc
        unfold Memory.waiting at hd
        rw [List.getElem?_append_right (by rw [List.length_map]; omega)] at hd
        cases hnew : n - (b.sessions.map _).length with
        | zero =>
          rw [hnew] at hd
          cases hd
        | succ k =>
          rw [hnew] at hd
          cases hd
  | published hp =>
    obtain ⟨sender, -, hle, -, hqueues⟩ := observed_publish hp
    refine ⟨hle, fun n d hd => ?_⟩
    obtain ⟨-, -, heq | ⟨tag, hfirst, -, heq⟩⟩ := hqueues n
    · exact .inl (heq ▸ hd)
    · rw [heq] at hd
      refine (List.mem_append.1 hd).imp id fun hd => ?_
      rw [List.mem_singleton.1 hd]
      exact hfirst
  | read hd =>
    obtain ⟨rest, hw, rfl⟩ := next_eq_delivery hd
    refine ⟨Nat.le_refl _, fun n d hd => .inl ((waiting_modify_sublist ?_ n).subset hd)⟩
    intro s hs
    rw [waiting_eq hs] at hw
    rw [hw]
    exact List.sublist_cons_self _ _
  | acknowledged hk =>
    rw [acknowledge_eq_ok hk]
    exact ⟨Nat.le_refl _, fun n d hd => .inl hd⟩
  | dropped n =>
    exact ⟨Nat.le_refl _, fun m d hd => .inl
      ((waiting_modify_sublist (fun s _ => List.nil_sublist _) m).subset hd)⟩
  | told value =>
    refine ⟨Nat.le_of_eq ?_, fun n d hd => .inl ?_⟩
    · unfold Memory.setReachable
      split <;> rfl
    · rw [← (observed_setReachable b value n).2.1]
      exact hd
  | idle => exact ⟨Nat.le_refl _, fun n d hd => .inl hd⟩

theorem waiting_run (b : Memory) (requests : List Request) :
    b.lastTag ≤ (b.run requests).lastTag ∧
      ∀ n, ∀ d ∈ (b.run requests).waiting n, d ∈ b.waiting n ∨ b.lastTag < d.tag := by
  induction requests generalizing b with
  | nil => exact ⟨Nat.le_refl _, fun n d hd => .inl hd⟩
  | cons r requests ih =>
    obtain ⟨hle, hstep⟩ := (served b r).waiting
    obtain ⟨hle', hrest⟩ := ih (b.serve r).2
    refine ⟨Nat.le_trans hle hle', fun n d hd => ?_⟩
    rcases hrest n d hd with hd | hd
    · exact hstep n d hd
    · exact .inr (Nat.lt_of_le_of_lt hle hd)

/-- In the queues at one time no tag is there twice. -/
theorem Agrees.waiting_inj (ha : b.Agrees h) {d d' : Delivery} (hd : d ∈ b.waiting n)
    (hd' : d' ∈ b.waiting m) (htag : d.tag = d'.tag) : n = m ∧ d = d' := by
  obtain ⟨s, hs, hd⟩ := mem_waiting_iff.1 hd
  obtain ⟨s', hs', hd'⟩ := mem_waiting_iff.1 hd'
  have hnodup := (List.nodup_append.1 ha.tagged.nodup).2.1
  unfold queuedTags at hnodup
  obtain ⟨hown, hothers⟩ := List.nodup_flatMap.1 hnodup
  obtain ⟨hn, rfl⟩ := List.getElem?_eq_some_iff.1 hs
  obtain ⟨hm, rfl⟩ := List.getElem?_eq_some_iff.1 hs'
  have hdisjoint := List.pairwise_iff_getElem.1 hothers
  have hmem := List.mem_map_of_mem (f := Delivery.tag) hd
  have hmem' := List.mem_map_of_mem (f := Delivery.tag) hd'
  rcases Nat.lt_trichotomy n m with hlt | rfl | hlt
  · exact absurd (htag ▸ hmem') (hdisjoint n m hn hm hlt hmem)
  · exact ⟨rfl, List.inj_on_of_nodup_map (hown _ (List.getElem_mem hn)) hd hd' htag⟩
  · exact absurd (htag ▸ hmem) (hdisjoint m n hm hn hlt hmem')

/-! ## Every run -/

theorem run_append (b : Memory) (first more : List Request) :
    b.run (first ++ more) = (b.run first).run more :=
  List.foldl_append

theorem agrees_of_run (requests : List Request) :
    (start.run requests).Agrees (start.record requests) :=
  agrees_record agrees_start requests

/-- After any requests a broker in memory serves its record.  A session that an outage has ended is
refused from then on, whatever comes, and the tag of a delivery that has got into a queue is never
given to another one. -/
theorem serves_run (requests : List Request) :
    Serves (start.record requests) (start.run requests) ∧
      ∀ more : List Request,
        (∀ n payload, (start.record requests).lost n = true →
          ((start.run (requests ++ more)).serve (.publish n payload)).1 =
              .refused (start.record (requests ++ more)).obstacle ∧
            ((start.record (requests ++ more)).dropped n = false →
              ((start.run (requests ++ more)).serve (.acknowledge n)).1 =
                .refused (start.record (requests ++ more)).obstacle)) ∧
        ∀ n m d d', d ∈ (start.run requests).waiting n →
          d' ∈ (start.run (requests ++ more)).waiting m → d.tag = d'.tag → n = m ∧ d = d' := by
  have ha := agrees_of_run requests
  refine ⟨ha.serves, fun more => ⟨fun n payload hlost => ?_, fun n m d d' hd hd' htag => ?_⟩⟩
  · have hserves := (agrees_of_run (requests ++ more)).serves
    have hlost' : (start.record (requests ++ more)).lost n = true := by
      rw [record_append]
      exact lost_append hlost _
    have hn := lt_of_lost hlost'
    refine ⟨?_, fun hdropped => ?_⟩
    · rw [hserves.publish_reply n payload hn, if_pos hlost']
    · rw [hserves.acknowledge_reply n hn hdropped, if_pos hlost']
  · rw [run_append] at hd'
    -- It has waited in that queue already, because all tags of later are greater.
    have hle : d.tag ≤ (start.run requests).lastTag := by
      obtain ⟨s, hs, hd⟩ := mem_waiting_iff.1 hd
      exact ha.tagged.le _ (mem_tags hs (List.mem_append_right _ hd))
    rcases (waiting_run (start.run requests) more).2 m d' hd' with hd' | hnew
    · exact ha.waiting_inj hd hd' htag
    · omega

/-- Two nodes share an exchange and one message is published.  Then there is an outage. -/
def shortOutage : List Request :=
  [.connect ⟨"evictions", "first", 10⟩, .connect ⟨"evictions", "second", 10⟩, .publish 0 [7],
    .setReachable false]

/-- The message is read after the outage.  The publisher stays refused when the broker is back. -/
theorem serves_run_shortOutage :
    (start.record shortOutage).due 1 = [("first", [7])] ∧
      (start.record shortOutage).lost 0 = true ∧
      ((start.run (shortOutage ++ [.setReachable true])).serve (.publish 0 [8])).1 =
        .refused (.brokerUnreachable "connection was reset") ∧
      ∃ d, ((start.run shortOutage).serve (.next 1)).1 = .found (.delivery d) ∧
        d.message = ("first", [7]) := by
  have hlost : (start.record shortOutage).lost 0 = true := by decide +kernel
  have h := serves_run shortOutage
  refine ⟨by decide +kernel, hlost, ?_, ?_⟩
  · exact ((h.2 [.setReachable true]).1 0 [8] hlost).1
  · exact h.1.next_due 1 _ (by decide +kernel) (by decide +kernel)

end Memory

end EvictionBus.Broker

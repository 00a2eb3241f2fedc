import EvictionBus.Proofs.Frame.Stream
import EvictionBus.Proofs.Mesh.Apart

/-!
# What a member of a mesh can be relied on for

A call to send begins if it may, it can always come to an end, and its result follows from what has
become of the frame at each peer. `Linked` puts this together with what the connections carry.
-/

namespace EvictionBus.Mesh

variable {m : Member} {peers : List Address} {s s' : State}

/-! ## Beginning -/

theorem exists_encode {c : Codec} {payload : Bytes} (h : payload.length ≤ c.limit) :
    ∃ frame, c.encode .evict payload = .ok frame := by
  have hmax : ¬ maxPayload < payload.length := Nat.not_lt.mpr (Nat.le_trans h c.limit_le)
  refine ⟨Header.bytes c.identity .evict payload.length ++ payload, ?_⟩
  rw [Codec.encode, Codec.checkLength_eq_ok_iff.mpr h]
  change encodeFrame c.identity .evict payload = _
  rw [encodeFrame, putHeader, if_neg (by decide), if_neg hmax]
  rfl

theorem Coherent.step_send (h : Coherent peers s) {payload : Bytes}
    (hlength : payload.length ≤ m.codec.limit) (hopen : s.life.closed = false)
    (hround : s.round = none) :
    ∃ links frame, s.life.link = some links ∧ m.codec.encode .evict payload = .ok frame ∧
      s.step m (.send payload) = some (s.begun links payload frame) := by
  obtain ⟨frame, hframe⟩ := exists_encode hlength
  cases hlink : s.life.link with
  | none =>
    -- A transport without connections has been closed.
    have hclosed := h.closed (h.link hlink).1
    rw [hopen] at hclosed
    cases hclosed
  | some links =>
    have hactive : s.life.active = .ok links := by
      simp only [Lifecycle.active, hopen, hlink, Bool.false_eq_true, if_false]
    have hcheck : Lifecycle.checkPayload (some m.codec.limit) payload.length = .ok () := by
      simp only [Lifecycle.checkPayload, if_pos hlength]
    refine ⟨links, frame, rfl, hframe, ?_⟩
    simp only [State.step, State.send, hcheck, hround, hactive, hframe]
    rfl

/-! ## Results -/

/-- The result of a call to send, by what has become of its frame at each peer. -/
inductive Verdict (outcomes : List (String × MeshLinks.Outcome)) : Except TransportError Unit → Prop
  | closed (target : String) (h : (target, .stopped) ∈ outcomes) : Verdict outcomes (.error .closed)
  | taken (hnot : ∀ o ∈ outcomes, o.2 ≠ .stopped) (target : String) (c : Nat)
      (h : (target, .written c) ∈ outcomes) : Verdict outcomes (.ok ())
  | nobody (h : outcomes = []) : Verdict outcomes (.ok ())
  | broken (hsome : outcomes ≠ []) (h : ∀ o ∈ outcomes, ∃ reason, o.2 = .broken reason) :
    Verdict outcomes (.error (.communicationBroken
      (String.intercalate "; " (outcomes.filterMap MeshLinks.complaint?))))

theorem verdict_sent (links : MeshLinks) (outcomes : List (String × MeshLinks.Outcome)) :
    Verdict outcomes (links.sent outcomes).2 := by
  by_cases hstopped : ∃ target, (target, MeshLinks.Outcome.stopped) ∈ outcomes
  · obtain ⟨target, hmem⟩ := hstopped
    rw [MeshLinks.sent, MeshLinks.settle_stopped hmem]
    exact .closed target hmem
  have hnot : ∀ o ∈ outcomes, o.2 ≠ .stopped :=
    fun o ho heq => hstopped ⟨o.1, by rw [← heq]; exact ho⟩
  by_cases hnone : outcomes = []
  · rw [MeshLinks.sent_eq_ok hnot (.inr hnone)]
    exact .nobody hnone
  by_cases htaken : ∃ target c, (target, MeshLinks.Outcome.written c) ∈ outcomes
  · rw [MeshLinks.sent_eq_ok hnot (.inl htaken)]
    obtain ⟨target, c, hmem⟩ := htaken
    exact .taken hnot target c hmem
  have hbroken : ∀ o ∈ outcomes, ∃ reason, o.2 = .broken reason := by
    intro o ho
    obtain ⟨target, outcome⟩ := o
    cases outcome with
    | written c => exact absurd ⟨target, c, ho⟩ htaken
    | broken reason => exact ⟨reason, rfl⟩
    | stopped => exact absurd rfl (hnot _ ho)
  rw [MeshLinks.sent_eq_broken hnone hbroken]
  exact .broken hnone hbroken

/-! ## Coming to an end -/

def PeerEvent.isTimeout : PeerEvent → Bool
  | .dialTimedOut => true
  | .stalled => true
  | _ => false

/-- A write that has not come to an end does so by a time limit. -/
theorem exists_timeout (m : Member) (closing : Bool) (target : String) (frame : Bytes)
    (wires : KeyTable Wire) (stage : Stage) :
    (∃ outcome, stage = .done outcome) ∨
      ∃ e outcome, e.isTimeout = true ∧
        stage.next m closing target frame wires e = some (wires, .done outcome) := by
  cases stage with
  | dialing => exact .inr ⟨.dialTimedOut, _, rfl, rfl⟩
  | writing c rest => exact .inr ⟨.stalled, _, rfl, rfl⟩
  | done outcome => exact .inl ⟨outcome, rfl⟩

def Event.isTimeout : Event → Bool
  | .peer _ e => e.isTimeout
  | _ => false

theorem exists_done (m : Member) (s : State) {r : Round} (hround : s.round = some r)
    (outcomes : List (String × MeshLinks.Outcome)) (rest : List (String × Stage))
    (hwrites : r.writes = (outcomes.map fun o => (o.1, .done o.2)) ++ rest) :
    ∃ es s' r' outcomes', (∀ e ∈ es, e.isTimeout = true) ∧ s.run m es = some s' ∧
      s'.round = some r' ∧ outcomes? r'.writes = some outcomes' ∧ r'.payload = r.payload ∧
      s'.life = s.life ∧ s'.answers = s.answers := by
  induction rest generalizing s r outcomes with
  | nil =>
    rw [List.append_nil] at hwrites
    exact ⟨[], s, r, outcomes, by simp, rfl, hround, outcomes?_eq_some.mpr hwrites, rfl, rfl, rfl⟩
  | cons w rest ih =>
    obtain ⟨target, stage⟩ := w
    rcases exists_timeout m s.closing target r.frame s.wires stage with
      ⟨outcome, rfl⟩ | ⟨e, outcome, htimeout, hnext⟩
    · apply ih s hround (outcomes ++ [(target, outcome)])
      rw [hwrites, List.map_append, List.append_assoc]
      rfl
    · let r₁ : Round := { r with
        writes := (outcomes.map fun o => (o.1, .done o.2)) ++ (target, .done outcome) :: rest }
      have hstep := State.step_peer hround hwrites hnext
      have hwrites₁ : r₁.writes =
          ((outcomes ++ [(target, outcome)]).map fun o => (o.1, .done o.2)) ++ rest := by
        rw [List.map_append, List.append_assoc]
        rfl
      obtain ⟨es, s', r', outcomes', hes, hrun, hend⟩ :=
        ih { s with round := some r₁ } rfl (outcomes ++ [(target, outcome)]) hwrites₁
      refine ⟨.peer (outcomes.map fun o => (o.1, Stage.done o.2)).length e :: es, s', r', outcomes',
        ?_, ?_, hend⟩
      · intro e' he'
        rcases List.mem_cons.mp he' with rfl | he'
        · exact htimeout
        · exact hes e' he'
      · rw [State.run, hstep]
        exact hrun

/-- A call to send comes to an end by time limits, if nothing else happens. -/
theorem Coherent.exists_return (h : Coherent peers s) {r : Round} (hround : s.round = some r) :
    ∃ es s' result, (∀ e ∈ es, e.isTimeout = true) ∧ s.run m (es ++ [.settle]) = some s' ∧
      s'.round = none ∧ s'.answers = s.answers ++ [(r.payload, result)] := by
  obtain ⟨es, s₁, r₁, outcomes, hes, hrun, hround₁, houtcomes, hpayload, hlife, hanswers⟩ :=
    exists_done m s hround [] r.writes rfl
  cases hlink : s.life.link with
  | none =>
    have hnone := (h.link hlink).2
    rw [hround] at hnone
    cases hnone
  | some links =>
    have hstep : s₁.step m .settle = some (s₁.settled r₁ links outcomes) := by
      simp only [State.step, State.settle, hround₁, hlife, hlink, houtcomes, Option.map_some]
    refine ⟨es, s₁.settled r₁ links outcomes, (links.sent outcomes).2, hes, ?_, rfl, ?_⟩
    · rw [State.run_append, hrun, Option.bind_some, State.run, hstep]
      rfl
    · rw [State.settled, hpayload, hanswers]

/-! ## Accounts -/

def State.successes (s : State) : Nat :=
  s.answers.countP fun a => a.2.isOk

theorem sent_stepped {e : Event} (hs : s.Stepped m e s')
    (h : s.life.traffic.sent = s.successes) : s'.life.traffic.sent = s'.successes := by
  cases hs with
  | refused payload e =>
    rw [State.successes, State.answer, List.countP_append, List.countP_singleton]
    exact h
  | settled r links outcomes hround hlink houtcomes =>
    rw [State.successes, State.settled, List.countP_append, List.countP_singleton]
    cases (links.sent outcomes).2 with
    | ok u => exact congrArg (· + 1) h
    | error e => exact h
  | _ => exact h

theorem sent_run {es : List Event} (hrun : s.run m es = some s')
    (h : s.life.traffic.sent = s.successes) : s'.life.traffic.sent = s'.successes := by
  induction es generalizing s with
  | nil =>
    cases hrun
    exact h
  | cons e es ih =>
    obtain ⟨s₁, hstep, hrest⟩ := Option.bind_eq_some_iff.mp hrun
    exact ih hrest (sent_stepped (State.stepped_of_step hstep) h)

/-! ## A member at any time -/

def PeerEvent.breaks : PeerEvent → Bool
  | .failed _ => true
  | .stalled => true
  | .stopped => true
  | _ => false

/-- A write that fails, stalls or is stopped leaves its connection in nobody's use. -/
theorem Coherent.unused_of_breaks (h : Coherent peers s) {r : Round} (hround : s.round = some r)
    {place : Nat} {target : String} {c : Nat} {rest : Bytes}
    (hplace : r.writes[place]? = some (target, .writing c rest)) {e : PeerEvent}
    (hbreaks : e.breaks = true) (hstep : s.step m (.peer place e) = some s') :
    ¬ s'.Uses c ∧ s'.wires = s.wires ∧ s.wires.get? c ≠ none := by
  obtain ⟨r', target', stage, wires, stage', hround', hplace', hnext, rfl⟩ :=
    State.proceed_eq_some hstep
  rw [hround] at hround'
  cases hround'
  rw [hplace] at hplace'
  cases hplace'
  have hunder := h.underway r hround
  have hended : wires = s.wires ∧ stage'.line? = none := by
    cases e with
    | failed | stalled =>
      cases hnext
      exact ⟨rfl, rfl⟩
    | stopped =>
      simp only [Stage.next] at hnext
      split at hnext
      · cases hnext
        exact ⟨rfl, rfl⟩
      · cases hnext
    | _ => cases hbreaks
  refine ⟨?_, hended.1, ?_⟩
  · rintro (⟨r', hr', hc⟩ | ⟨hr', -⟩)
    · cases hr'
      exact not_mem_lines_set hunder.nodup_lines hplace rfl target hended.2 hc
    · cases hr'
  · obtain ⟨before, -, hcarried⟩ := hunder.carried
    obtain ⟨carried, hwire, -⟩ :=
      hcarried target _ c rest (List.mem_of_getElem? hplace) rfl
    rw [hwire]
    exact Option.some_ne_none _

/-- What holds of a member of a mesh at any time of a run. -/
structure Linked (m : Member) (peers : List Address) (s : State) : Prop where
  /-- Between two calls to send, each connection kept is for a peer of its own and has carried the
  frames from some call to send up to the latest one. -/
  kept : ∀ links, s.life.link = some links → s.round = none →
    (links.kept.map Prod.fst).Nodup ∧ (links.kept.map Prod.snd).Nodup ∧
      ∀ target c, (target, c) ∈ links.kept → target ∈ targets peers ∧
        ∃ carried, s.wires.get? c = some ⟨target, carried⟩ ∧ Whole s.frames carried
  given_up : ∀ r place target c rest e s', s.round = some r →
    r.writes[place]? = some (target, .writing c rest) → e.breaks = true →
    s.step m (.peer place e) = some s' →
    ∀ es t, s'.run m es = some t → t.wires.get? c = s.wires.get? c
  apart : ∀ p es es' t t', s.closing = false → .close ∉ es →
    es.filter (fun e => !e.isAt peers p) = es'.filter (fun e => !e.isAt peers p) →
    s.run m es = some t → s.run m es' = some t' → Beside p t t'
  begins : ∀ payload, payload.length ≤ m.codec.limit → s.life.closed = false → s.round = none →
    ∃ links frame, s.life.link = some links ∧ m.codec.encode .evict payload = .ok frame ∧
      s.step m (.send payload) = some (s.begun links payload frame)
  returns : ∀ r, s.round = some r →
    ∃ es t result, (∀ e ∈ es, e.isTimeout = true) ∧ s.run m (es ++ [.settle]) = some t ∧
      t.round = none ∧ t.answers = s.answers ++ [(r.payload, result)]
  result : ∀ t, s.step m .settle = some t →
    ∃ r outcomes result, s.round = some r ∧
      r.writes = outcomes.map (fun o => (o.1, .done o.2)) ∧
      outcomes.map Prod.fst = targets peers ∧ Verdict outcomes result ∧
      t.answers = s.answers ++ [(r.payload, result)]
  /-- The calls counted are those that have returned without an error. -/
  counted : s.life.traffic.sent = s.answers.countP fun a => a.2.isOk

/-- Whatever becomes of the frames at the peers, and whenever the transport is closed. -/
theorem linked_run (m : Member) (peers : List Address) {es : List Event}
    (hrun : (State.initial peers).run m es = some s) : Linked m peers s := by
  have h : Coherent peers s := (coherent_initial peers).run hrun
  constructor
  case kept =>
    intro links hlink hround
    refine ⟨h.nodup_kept links hlink, h.nodup_connections hlink hround, ?_⟩
    intro target c hkept
    exact ⟨h.known links hlink (target, c) hkept, h.whole links hlink hround target c hkept⟩
  case given_up =>
    intro r place target c rest e s' hround hplace hbreaks hstep es t hrest
    obtain ⟨hnot, hwires, hknown⟩ := h.unused_of_breaks hround hplace hbreaks hstep
    have hs' : Coherent peers s' := h.stepped (State.stepped_of_step hstep)
    rw [← hwires] at hknown ⊢
    exact hs'.unused_run hrest hnot hknown
  case apart =>
    intro p es es' t t' hopen hclose hfilter hrun hrun'
    cases hlink : s.life.link with
    | none =>
      have hclosing := (h.link hlink).1
      rw [hopen] at hclosing
      cases hclosing
    | some links => exact (beside_refl p hopen hlink).run h h hclose hfilter hrun hrun'
  case begins =>
    intro payload hlength hopen hround
    exact h.step_send hlength hopen hround
  case returns =>
    intro r hround
    exact h.exists_return hround
  case result =>
    intro t hstep
    obtain ⟨r, links, outcomes, hround, hlink, houtcomes, rfl⟩ := State.settle_eq_some hstep
    have hwrites := outcomes?_eq_some.mp houtcomes
    refine ⟨r, outcomes, _, hround, hwrites, ?_, verdict_sent links outcomes, rfl⟩
    rw [← (h.underway r hround).targets_eq, hwrites, List.map_map]
    rfl
  case counted => exact sent_run hrun rfl

def pair : List Address :=
  [⟨none, none, "10.0.0.1", 7000⟩, ⟨none, none, "10.0.0.2", 7000⟩]

def someone : Member :=
  ⟨.ofIdentity ⟨List.replicate 16 23, List.length_replicate⟩, 5000⟩

/-- Two calls to send: the second peer refuses at first, and then the write to the first one stalls
half-way. -/
def twoSends : List Event :=
  [.send [1], .peer 0 (.connected 1), .peer 1 (.refused .connectionRefused), .peer 0 (.took 100),
    .settle, .send [2, 3], .peer 0 (.took 7), .peer 1 (.connected 2), .peer 1 (.took 100),
    .peer 0 .stalled, .settle]

theorem linked_run_twoSends : ∃ s, (State.initial pair).run someone twoSends = some s ∧
    s.life.link = some ⟨pair, [("10.0.0.2:7000", 2)]⟩ ∧ Linked someone pair s := by
  have hlink : ((State.initial pair).run someone twoSends).map (fun s => s.life.link) =
      some (some ⟨pair, [("10.0.0.2:7000", 2)]⟩) := by
    decide +kernel
  obtain ⟨s, hrun, hkept⟩ := Option.map_eq_some_iff.mp hlink
  exact ⟨s, hrun, hkept, linked_run someone pair hrun⟩

end EvictionBus.Mesh

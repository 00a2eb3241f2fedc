import EvictionBus.Proofs.Mesh.Carried

/-!
# Connections given up, and peers beside each other

A connection that is neither kept nor lent is never written to again. What happens at one peer makes
no difference to the connections of the others, as long as the transport is not being closed.
-/

namespace EvictionBus.Mesh

variable {m : Member} {peers : List Address} {s s' t t' : State}

/-! ## Connections given up -/

/-- Whether a connection is lent to the frame that is on its way, or kept for the next one. -/
def State.Uses (s : State) (c : Nat) : Prop :=
  (∃ r, s.round = some r ∧ c ∈ lines r.writes) ∨
    (s.round = none ∧ ∃ links, s.life.link = some links ∧ c ∈ links.kept.map Prod.snd)

theorem Coherent.unused_stepped (h : Coherent peers s) {e : Event} (hs : s.Stepped m e s') {c : Nat}
    (hnot : ¬ s.Uses c) (hknown : s.wires.get? c ≠ none) :
    ¬ s'.Uses c ∧ s'.wires.get? c = s.wires.get? c := by
  cases hs with
  | refused payload e => exact ⟨hnot, rfl⟩
  | begun payload frame links hlength hround hactive hframe =>
    refine ⟨?_, rfl⟩
    rintro (⟨r, hr, hc⟩ | ⟨hr, -⟩)
    · cases hr
      obtain ⟨w, hw, rest, hline⟩ := mem_lines.mp hc
      have hkept : (w.1, c) ∈ links.kept := (mem_start hw hline).1
      exact hnot (.inr ⟨hround, links, Lifecycle.link_of_active hactive,
        List.mem_map_of_mem (f := Prod.snd) hkept⟩)
    · cases hr
  | peer place e r target stage stage' wires hround hplace hnext =>
    have hmem : (target, stage) ∈ r.writes := List.mem_of_getElem? hplace
    -- A write gets no connection that is already known.
    have hother : ∀ rest, stage'.line? ≠ some (c, rest) := by
      intro rest hline
      rcases hnext.line? hline with ⟨rest', hline'⟩ | hnew
      · exact hnot (.inl ⟨r, hround, mem_lines.mpr ⟨_, hmem, rest', hline'⟩⟩)
      · exact hknown hnew
    refine ⟨?_, hnext.get?_eq hother⟩
    rintro (⟨r', hr, hc⟩ | ⟨hr, -⟩)
    · cases hr
      obtain ⟨w, hw, rest, hline⟩ := mem_lines.mp hc
      rcases List.mem_or_eq_of_mem_set hw with hw | rfl
      · exact hnot (.inl ⟨r, hround, mem_lines.mpr ⟨w, hw, rest, hline⟩⟩)
      · exact hother rest hline
    · cases hr
  | settled r links outcomes hround hlink houtcomes =>
    refine ⟨?_, rfl⟩
    rintro (⟨r', hr, -⟩ | ⟨-, links', hlink', hc⟩)
    · cases hr
    · rw [State.link_settled hlink] at hlink'
      cases hlink'
      obtain ⟨⟨target, c⟩, hkept, rfl⟩ := List.mem_map.mp hc
      have hwritten := h.written_of_kept hlink houtcomes hkept
      exact hnot (.inl ⟨r, hround, mem_lines.mpr ⟨_, hwritten, [], rfl⟩⟩)
  | close => exact ⟨hnot, rfl⟩
  | acceptFailed => exact ⟨hnot, rfl⟩
  | release hclosing hround =>
    refine ⟨?_, rfl⟩
    rintro (⟨r, hr, -⟩ | ⟨-, links, hlink, -⟩)
    · rw [hround] at hr
      cases hr
    · cases hlink

/-- A connection that is not in use is left as it is for ever. -/
theorem Coherent.unused_run (h : Coherent peers s) {es : List Event} (hrun : s.run m es = some s')
    {c : Nat} (hnot : ¬ s.Uses c) (hknown : s.wires.get? c ≠ none) :
    s'.wires.get? c = s.wires.get? c := by
  induction es generalizing s with
  | nil =>
    cases hrun
    rfl
  | cons e es ih =>
    obtain ⟨s₁, hstep, hrest⟩ := Option.bind_eq_some_iff.mp hrun
    have hs := State.stepped_of_step hstep
    obtain ⟨hnot₁, hwire⟩ := h.unused_stepped hs hnot hknown
    rw [← hwire] at hknown
    rw [ih (h.stepped hs) hrest hnot₁ hknown, hwire]

/-- A write that ends otherwise than with the whole frame gives its connection up. -/
theorem not_mem_lines_set {writes : List (String × Stage)} (h : (lines writes).Nodup)
    {place : Nat} {w : String × Stage} (hplace : writes[place]? = some w) {c : Nat} {rest : Bytes}
    (hline : w.2.line? = some (c, rest)) (target : String) {stage : Stage}
    (hnone : stage.line? = none) : c ∉ lines (writes.set place (target, stage)) := by
  have hlt : place < writes.length := (List.getElem?_eq_some_iff.mp hplace).1
  have hold := (perm_lines hplace).nodup_iff.mp h
  have hset := perm_lines (List.getElem?_set_self (a := (target, stage)) hlt)
  rw [List.eraseIdx_set_eq, hnone] at hset
  rw [hset.mem_iff]
  intro hc
  rw [hline] at hold
  exact (List.nodup_cons.mp hold).1 hc

/-! ## Peers beside each other -/

open MeshLinks (AlikeBut)

/-- Two members that are the same but for what concerns one address. Neither is being closed. -/
structure Beside (p : String) (s t : State) : Prop where
  closed : s.life.closed = t.life.closed
  closing : s.closing = false ∧ t.closing = false
  link : ∃ links links', s.life.link = some links ∧ t.life.link = some links' ∧
    links.peers = links'.peers ∧ ∀ q, q ≠ p → links.kept.lookup q = links'.kept.lookup q
  round : (s.round = none ∧ t.round = none) ∨
    ∃ r r', s.round = some r ∧ t.round = some r' ∧ r.payload = r'.payload ∧ r.frame = r'.frame ∧
      List.Forall₂ (AlikeBut p) r.writes r'.writes
  wires : ∀ c wire, wire.target ≠ p → (s.wires.get? c = some wire ↔ t.wires.get? c = some wire)
  frames : s.frames = t.frames

variable {p : String}

theorem Beside.symm (h : Beside p s t) : Beside p t s where
  closed := h.closed.symm
  closing := h.closing.symm
  link := by
    obtain ⟨links, links', hlink, hlink', hpeers, hkept⟩ := h.link
    exact ⟨links', links, hlink', hlink, hpeers.symm, fun q hq => (hkept q hq).symm⟩
  round := by
    rcases h.round with ⟨hr, hr'⟩ | ⟨r, r', hr, hr', hpayload, hframe, hwrites⟩
    · exact .inl ⟨hr', hr⟩
    · exact .inr ⟨r', r, hr', hr, hpayload.symm, hframe.symm,
        MeshLinks.alikeBut_symm hwrites⟩
  wires c wire hwire := (h.wires c wire hwire).symm
  frames := h.frames.symm

theorem beside_refl (p : String) (hclosing : s.closing = false) {links : MeshLinks}
    (hlink : s.life.link = some links) : Beside p s s where
  closed := rfl
  closing := ⟨hclosing, hclosing⟩
  link := ⟨links, links, hlink, hlink, rfl, fun _ _ => rfl⟩
  round := by
    cases hr : s.round with
    | none => exact .inl ⟨rfl, rfl⟩
    | some r =>
      exact .inr ⟨r, r, rfl, rfl, rfl, rfl, List.forall₂_same.mpr fun _ _ => ⟨rfl, fun _ => rfl⟩⟩
  wires _ _ _ := Iff.rfl
  frames := rfl

/-! ### An event at the address itself -/

/-- The connections for other addresses stay as they are. -/
theorem Stage.Next.get?_of_ne {closing : Bool} {target : String} {frame : Bytes}
    {wires wires' : KeyTable Wire} {stage stage' : Stage} {e : PeerEvent}
    (h : stage.Next closing target frame wires e wires' stage')
    (hbefore : ∀ c rest, stage.line? = some (c, rest) →
      ∃ carried, wires.get? c = some ⟨target, carried⟩)
    (c : Nat) {wire : Wire} (hne : wire.target ≠ target) :
    wires'.get? c = some wire ↔ wires.get? c = some wire := by
  cases h with
  | connected d hnew =>
    rw [KeyTable.get?_insert]
    by_cases hc : c = d
    · rw [if_pos hc, hc, hnew]
      constructor
      · intro heq
        cases heq
        exact absurd rfl hne
      · intro heq
        cases heq
    · rw [if_neg hc]
  | took d rest count =>
    rw [KeyTable.get?_modify]
    by_cases hc : c = d
    · obtain ⟨carried, hwire⟩ := hbefore d rest rfl
      rw [if_pos hc, hc, hwire, Option.map_some]
      constructor
      · intro heq
        cases heq
        exact absurd rfl hne
      · intro heq
        cases heq
        exact absurd rfl hne
    · rw [if_neg hc]
  | broken => exact Iff.rfl
  | stopped => exact Iff.rfl

theorem Beside.put_left (h : Beside p s t) (hs : Coherent peers s) {place : Nat} {e : PeerEvent}
    (hplace : (targets peers)[place]? = some p) (hstep : s.proceed m place e = some s') :
    Beside p s' t := by
  obtain ⟨r, target, stage, wires, stage', hround, hwrite, hnext, rfl⟩ :=
    State.proceed_eq_some hstep
  have hunder := hs.underway r hround
  -- The place is one of the address itself.
  have htarget : target = p := by
    rw [← hunder.targets_eq, List.getElem?_map, hwrite] at hplace
    exact Option.some.inj hplace
  subst htarget
  constructor
  case closed => exact h.closed
  case closing => exact h.closing
  case link => exact h.link
  case frames => exact h.frames
  case round =>
    rcases h.round with ⟨hr, -⟩ | ⟨r₁, r', hr, hr', hpayload, hframe, hwrites⟩
    · rw [hround] at hr
      cases hr
    · rw [hround] at hr
      cases hr
      exact .inr ⟨_, r', rfl, hr', hpayload, hframe,
        MeshLinks.alikeBut_set_left hwrites hwrite stage'⟩
  case wires =>
    intro c wire hwire
    obtain ⟨before, -, hcarried⟩ := hunder.carried
    rw [← h.wires c wire hwire]
    apply (Stage.next_of_eq_some hnext).get?_of_ne _ c hwire
    intro d rest hline
    obtain ⟨carried, hget, -⟩ :=
      hcarried target stage d rest (List.mem_of_getElem? hwrite) hline
    exact ⟨carried, hget⟩

/-! ### The same event on both sides -/

variable {closing : Bool} {target : String} {frame : Bytes} {wires wires' ws ws' : KeyTable Wire}
  {stage stage₁ stage₂ : Stage} {e : PeerEvent}

/-- An event has the same effect on the write to one peer, whatever the other connections are. -/
theorem Stage.next_beside
    (hsame : ∀ c wire, wire.target ≠ p → (wires.get? c = some wire ↔ wires'.get? c = some wire))
    (h : stage.next m closing target frame wires e = some (ws, stage₁))
    (h' : stage.next m closing target frame wires' e = some (ws', stage₂)) :
    stage₁ = stage₂ ∧
      ∀ c wire, wire.target ≠ p → (ws.get? c = some wire ↔ ws'.get? c = some wire) := by
  -- A write that comes to an end leaves the connections as they are.
  have hdone : ∀ outcome, some (wires, Stage.done outcome) = some (ws, stage₁) →
      some (wires', Stage.done outcome) = some (ws', stage₂) → stage₁ = stage₂ ∧
        ∀ c wire, wire.target ≠ p → (ws.get? c = some wire ↔ ws'.get? c = some wire) := by
    intro outcome heq heq'
    cases heq
    cases heq'
    exact ⟨rfl, hsame⟩
  cases stage with
  | dialing =>
    cases e with
    | connected d =>
      simp only [next] at h h'
      split at h
      · cases h
      split at h'
      · cases h'
      cases h
      cases h'
      refine ⟨rfl, fun c wire hwire => ?_⟩
      rw [KeyTable.get?_insert, KeyTable.get?_insert]
      split
      · exact Iff.rfl
      · exact hsame c wire hwire
    | stopped =>
      simp only [next] at h h'
      split at h
      case _ hclosing =>
        rw [if_pos hclosing] at h'
        exact hdone _ h h'
      case _ => cases h
    | took => cases h
    | failed => cases h
    | stalled => cases h
    | refused | dialTimedOut | unusable => exact hdone _ h h'
  | writing d rest =>
    cases e with
    | took count =>
      cases h
      cases h'
      refine ⟨rfl, fun c wire hwire => ?_⟩
      rw [KeyTable.get?_modify, KeyTable.get?_modify]
      split
      · rw [Option.map_eq_some_iff, Option.map_eq_some_iff]
        constructor
        · rintro ⟨w, hw, rfl⟩
          exact ⟨w, (hsame c w hwire).mp hw, rfl⟩
        · rintro ⟨w, hw, rfl⟩
          exact ⟨w, (hsame c w hwire).mpr hw, rfl⟩
      · exact hsame c wire hwire
    | stopped =>
      simp only [next] at h h'
      split at h
      case _ hclosing =>
        rw [if_pos hclosing] at h'
        exact hdone _ h h'
      case _ => cases h
    | failed | stalled => exact hdone _ h h'
    | connected => cases h
    | refused => cases h
    | dialTimedOut => cases h
    | unusable => cases h
  | done outcome => cases e <;> cases h

theorem Beside.put (h : Beside p s t) (hs : Coherent peers s) {place : Nat}
    (hplace : (targets peers)[place]? ≠ some p) (hstep : s.proceed m place e = some s')
    (hstep' : t.proceed m place e = some t') : Beside p s' t' := by
  obtain ⟨r, target, stage, wires, stage', hround, hwrite, hnext, rfl⟩ :=
    State.proceed_eq_some hstep
  obtain ⟨r', target', stage₁, wires', stage₁', hround', hwrite', hnext', rfl⟩ :=
    State.proceed_eq_some hstep'
  rcases h.round with ⟨hr, -⟩ | ⟨r₁, r₁', hr, hr', hpayload, hframe, hwrites⟩
  · rw [hround] at hr
    cases hr
  rw [hround] at hr
  rw [hround'] at hr'
  cases hr
  cases hr'
  have htarget : target ≠ p := by
    rintro rfl
    rw [← (hs.underway r hround).targets_eq, List.getElem?_map, hwrite] at hplace
    exact hplace rfl
  obtain ⟨hfst, hsnd⟩ := MeshLinks.alikeBut_getElem? hwrites hwrite hwrite'
  obtain rfl : target = target' := hfst
  obtain rfl : stage = stage₁ := hsnd htarget
  rw [h.closing.1] at hnext
  rw [h.closing.2, ← hframe] at hnext'
  obtain ⟨rfl, hwires⟩ := Stage.next_beside h.wires hnext hnext'
  constructor
  case closed => exact h.closed
  case closing => exact h.closing
  case link => exact h.link
  case frames => exact h.frames
  case round =>
    exact .inr ⟨_, _, rfl, rfl, hpayload, hframe,
      MeshLinks.alikeBut_set hwrites ⟨rfl, fun _ => rfl⟩ place⟩
  case wires => exact hwires

theorem Beside.send (h : Beside p s t) {payload : Bytes} (hstep : s.send m payload = some s')
    (hstep' : t.send m payload = some t') : Beside p s' t' := by
  obtain ⟨links, links', hlink, hlink', hpeers, hkept⟩ := h.link
  -- A call that is refused leaves an answer and nothing else.
  have hanswer : ∀ e, Beside p (s.answer payload (.error e)) (t.answer payload (.error e)) :=
    fun e => ⟨h.closed, h.closing, h.link, h.round, h.wires, h.frames⟩
  unfold State.send at hstep hstep'
  cases hcheck : Lifecycle.checkPayload (some m.codec.limit) payload.length with
  | error e =>
    simp only [hcheck] at hstep hstep'
    cases hstep
    cases hstep'
    exact hanswer e
  | ok u =>
    simp only [hcheck] at hstep hstep'
    rcases h.round with ⟨hr, hr'⟩ | ⟨r, r', hr, -⟩
    · cases hc : s.life.closed with
      | true =>
        have hactive : s.life.active = .error .closed := by rw [Lifecycle.active, if_pos hc]
        have hactive' : t.life.active = .error .closed := by
          rw [Lifecycle.active, if_pos (h.closed ▸ hc)]
        simp only [hr, hr', hactive, hactive'] at hstep hstep'
        cases hstep
        cases hstep'
        exact hanswer .closed
      | false =>
        have hactive : s.life.active = .ok links := by
          simp only [Lifecycle.active, hc, hlink, Bool.false_eq_true, if_false]
        have hactive' : t.life.active = .ok links' := by
          simp only [Lifecycle.active, ← h.closed, hc, hlink', Bool.false_eq_true, if_false]
        simp only [hr, hr', hactive, hactive'] at hstep hstep'
        cases hframe : (m.codec.encode .evict payload).mapError TransportError.ofFrame with
        | error e =>
          simp only [hframe] at hstep hstep'
          cases hstep
          cases hstep'
          exact hanswer e
        | ok frame =>
          simp only [hframe] at hstep hstep'
          cases hstep
          cases hstep'
          refine ⟨h.closed, h.closing, h.link, .inr ⟨_, _, rfl, rfl, rfl, rfl, ?_⟩, h.wires, ?_⟩
          · rw [List.forall₂_map_left_iff, List.forall₂_map_right_iff]
            have hplan := MeshLinks.alikeBut_takeOut hkept (links.peers.map Address.socketTarget)
            rw [MeshLinks.plan, MeshLinks.plan, ← hpeers]
            exact hplan.imp fun _ _ hab =>
              ⟨hab.1, fun hne => congrArg (Stage.start frame) (hab.2 hne)⟩
          · exact congrArg (· ++ [frame]) h.frames
    · simp only [hr] at hstep
      cases hstep

theorem Beside.settle (h : Beside p s t) (hs : Coherent peers s) (ht : Coherent peers t)
    (hstep : s.settle = some s') (hstep' : t.settle = some t') : Beside p s' t' := by
  obtain ⟨r, links, outcomes, hround, hlink, houtcomes, rfl⟩ := State.settle_eq_some hstep
  obtain ⟨r', links', outcomes', hround', hlink', houtcomes', rfl⟩ := State.settle_eq_some hstep'
  rcases h.round with ⟨hr, -⟩ | ⟨r₁, r₁', hr, hr', hpayload, hframe, hwrites⟩
  · rw [hround] at hr
    cases hr
  rw [hround] at hr
  rw [hround'] at hr'
  cases hr
  cases hr'
  have hpairs : List.Forall₂ (AlikeBut p) outcomes outcomes' := by
    rw [outcomes?_eq_some.mp houtcomes, outcomes?_eq_some.mp houtcomes',
      List.forall₂_map_left_iff, List.forall₂_map_right_iff] at hwrites
    exact hwrites.imp fun _ _ hab => ⟨hab.1, fun hne => by injection hab.2 hne⟩
  -- Nothing is stopped as long as neither is being closed.
  have hnot : ∀ {u : State} {v : Round} {os}, Coherent peers u → u.round = some v →
      u.closing = false → outcomes? v.writes = some os → ∀ o ∈ os, o.2 ≠ .stopped := by
    intro u v os hu hv hclosing hos o ho hstopped
    apply (hu.underway v hv).stopped hclosing _ (mem_of_outcomes? hos ho)
    rw [hstopped]
  constructor
  case closed =>
    rw [State.settled, State.settled, closed_accounted, closed_accounted]
    exact h.closed
  case closing => exact h.closing
  case link =>
    refine ⟨_, _, State.link_settled hlink r outcomes, State.link_settled hlink' r' outcomes', ?_,
      ?_⟩
    · rw [MeshLinks.peers_sent, MeshLinks.peers_sent, hs.peers_eq links hlink,
        ht.peers_eq links' hlink']
    · refine MeshLinks.lookup_settle_congr hpairs (hnot hs hround h.closing.1 houtcomes)
        (hnot ht hround' h.closing.2 houtcomes') ?_ 0 0 [] []
      rw [hs.lent_eq hlink, ht.lent_eq hlink']
      exact fun _ _ => rfl
  case round => exact .inl ⟨rfl, rfl⟩
  case wires => exact h.wires
  case frames => exact h.frames

/-! ### Runs -/

/-- Whether an event happens to the write to an address. -/
def Event.isAt (peers : List Address) (p : String) : Event → Bool
  | .peer place _ => (targets peers)[place]? == some p
  | _ => false

theorem Beside.step_left (h : Beside p s t) (hs : Coherent peers s) {e : Event}
    (hat : e.isAt peers p = true) (hstep : s.step m e = some s') : Beside p s' t := by
  cases e with
  | peer place e => exact h.put_left hs (beq_iff_eq.mp hat) hstep
  | _ => cases hat

theorem Beside.step (h : Beside p s t) (hs : Coherent peers s) (ht : Coherent peers t) {e : Event}
    (hat : e.isAt peers p = false) (hclose : e ≠ .close) (hstep : s.step m e = some s')
    (hstep' : t.step m e = some t') : Beside p s' t' := by
  cases e with
  | send payload => exact h.send hstep hstep'
  | peer place e => exact h.put hs (beq_eq_false_iff_ne.mp hat) hstep hstep'
  | settle => exact h.settle hs ht hstep hstep'
  | close => exact absurd rfl hclose
  | acceptFailed =>
    cases hstep
    cases hstep'
    exact ⟨rfl, h.closing, h.link, h.round, h.wires, h.frames⟩
  | release =>
    simp only [State.step, h.closing.1, Bool.false_eq_true, false_and, if_false] at hstep
    cases hstep

theorem State.run_append (m : Member) (s : State) (es es' : List Event) :
    s.run m (es ++ es') = (s.run m es).bind fun u => u.run m es' := by
  induction es generalizing s with
  | nil => rfl
  | cons e es ih =>
    rw [List.cons_append, run, run, Option.bind_assoc]
    congr 1
    funext u
    exact ih u

theorem Beside.run_left (h : Beside p s t) (hs : Coherent peers s) {es : List Event}
    (hat : ∀ e ∈ es, e.isAt peers p = true) (hrun : s.run m es = some s') : Beside p s' t := by
  induction es generalizing s with
  | nil =>
    cases hrun
    exact h
  | cons e es ih =>
    obtain ⟨s₁, hstep, hrest⟩ := Option.bind_eq_some_iff.mp hrun
    exact ih (h.step_left hs (hat e List.mem_cons_self) hstep)
      (hs.stepped (State.stepped_of_step hstep)) (fun e' he' => hat e' (List.mem_cons_of_mem e he'))
      hrest

/-- Two runs that are the same but for what happens at one address. -/
theorem Beside.run (h : Beside p s t) (hs : Coherent peers s) (ht : Coherent peers t)
    {es es' : List Event} (hclose : .close ∉ es)
    (hfilter : es.filter (fun e => !e.isAt peers p) = es'.filter fun e => !e.isAt peers p)
    (hrun : s.run m es = some s') (hrun' : t.run m es' = some t') : Beside p s' t' := by
  induction es generalizing s t es' with
  | nil =>
    cases hrun
    rw [List.filter_nil, eq_comm, List.filter_eq_nil_iff] at hfilter
    have hat : ∀ e ∈ es', e.isAt peers p = true := fun e he => by simpa using hfilter e he
    exact (h.symm.run_left ht hat hrun').symm
  | cons e es ih =>
    obtain ⟨s₁, hstep, hrest⟩ := Option.bind_eq_some_iff.mp hrun
    have hs₁ : Coherent peers s₁ := hs.stepped (State.stepped_of_step hstep)
    have hclose' : .close ∉ es := fun hmem => hclose (List.mem_cons_of_mem e hmem)
    cases hat : e.isAt peers p with
    | true =>
      rw [List.filter_cons_of_neg (by simp [hat])] at hfilter
      exact ih (h.step_left hs hat hstep) hs₁ ht hclose' hfilter hrest hrun'
    | false =>
      -- On the other side the event comes after some at the address.
      rw [List.filter_cons_of_pos (by simp [hat]), eq_comm, List.filter_eq_cons_iff] at hfilter
      obtain ⟨before, rest, rfl, hbefore, -, hrest'⟩ := hfilter
      rw [State.run_append] at hrun'
      obtain ⟨t₁, hrun₁, hrun₂⟩ := Option.bind_eq_some_iff.mp hrun'
      obtain ⟨t₂, hstep', hrun₃⟩ := Option.bind_eq_some_iff.mp hrun₂
      have hbefore' : ∀ e' ∈ before, e'.isAt peers p = true := fun e' he' => by
        simpa using hbefore e' he'
      have hside : Beside p s t₁ := (h.symm.run_left ht hbefore' hrun₁).symm
      have ht₁ : Coherent peers t₁ := ht.run hrun₁
      have hne : e ≠ .close := fun heq => hclose (heq ▸ List.mem_cons_self)
      exact ih (hside.step hs ht₁ hat hne hstep hstep') hs₁
        (ht₁.stepped (State.stepped_of_step hstep')) hclose' hrest'.symm hrest hrun₃

end EvictionBus.Mesh

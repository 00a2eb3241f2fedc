import EvictionBus.Broker.Memory

/-!
# What a broker in memory keeps

A session of a broker in memory has an owner, a reader and a queue, and is live while it can be
used.  For every operation it is said here what it does to these.  Two facts hold of a broker at any
time: a live session with a reader is bound to its exchange, and a session of an earlier time is
never live again.
-/

namespace EvictionBus.Broker

namespace Memory

variable {b b' : Memory} {n m : Nat}

/-- Whose session it is. -/
def binding? (b : Memory) (n : Nat) : Option Binding :=
  (b.sessions[n]?).map Session.binding

/-- What waits in the queue of a session. -/
def waiting (b : Memory) (n : Nat) : List Delivery :=
  ((b.sessions[n]?).map Session.queue).getD []

/-- A session that can be used. -/
def Live (b : Memory) (n : Nat) : Prop :=
  ∃ s, b.sessions[n]? = some s ∧ b.check s = .ok ()

theorem check_eq_ok_iff {s : Session} :
    b.check s = .ok () ↔ b.reachable = true ∧ s.generation = b.generation := by
  unfold check
  by_cases hreachable : b.reachable = true
  · by_cases hgeneration : s.generation = b.generation
    · simp [hreachable, hgeneration]
    · simp [hreachable, hgeneration]
  · simp [hreachable]

theorem live_iff :
    b.Live n ↔
      b.reachable = true ∧ (b.sessions[n]?).map Session.generation = some b.generation := by
  unfold Live
  simp only [check_eq_ok_iff, Option.map_eq_some_iff]
  constructor
  · rintro ⟨s, hs, hreachable, hgeneration⟩
    exact ⟨hreachable, s, hs, hgeneration⟩
  · rintro ⟨hreachable, s, hs, hgeneration⟩
    exact ⟨s, hs, hreachable, hgeneration⟩

theorem observed_congr {f : Session → Session} (hsessions : b'.sessions = b.sessions.map f)
    (hbinding : ∀ s, (f s).binding = s.binding) (hqueue : ∀ s, (f s).queue = s.queue)
    (hreading : ∀ s, (f s).reading = s.reading) (n : Nat) :
    b'.binding? n = b.binding? n ∧ b'.waiting n = b.waiting n ∧
      b'.hasReader n = b.hasReader n := by
  unfold binding? waiting hasReader
  rw [hsessions, List.getElem?_map]
  cases b.sessions[n]? with
  | none => exact ⟨rfl, rfl, rfl⟩
  | some s => simp [hbinding, hqueue, hreading]

/-! ## Going offline -/

theorem observed_setReachable (b : Memory) (value : Bool) (n : Nat) :
    (b.setReachable value).binding? n = b.binding? n ∧
      (b.setReachable value).waiting n = b.waiting n ∧
      (b.setReachable value).hasReader n = b.hasReader n := by
  unfold setReachable
  split
  · exact observed_congr (f := fun s => { s with bound := false }) rfl (fun _ => rfl)
      (fun _ => rfl) (fun _ => rfl) n
  · exact ⟨rfl, rfl, rfl⟩

theorem setReachable_of_live (h : b.Live n) : b.setReachable true = b := by
  have hreachable := (live_iff.1 h).1
  cases b
  simp_all [setReachable]

/-! ## Connecting -/

theorem connect_eq_ok {binding : Binding} (h : b.connect binding = .ok (n, b')) :
    b.reachable = true ∧ n = b.sessions.length ∧
      b' = { b with
        sessions := b.sessions.map (prune binding.exchange) ++
          [⟨binding, b.generation, [], true, true⟩] } := by
  unfold connect at h
  split at h
  case isTrue hreachable =>
    cases h
    exact ⟨hreachable, rfl, rfl⟩
  case isFalse => cases h

theorem prune_eq (exchange : String) (s : Session) :
    (prune exchange s).binding = s.binding ∧ (prune exchange s).generation = s.generation ∧
      (prune exchange s).queue = s.queue ∧ (prune exchange s).reading = s.reading := by
  unfold prune
  split <;> exact ⟨rfl, rfl, rfl, rfl⟩

theorem observed_connect {binding : Binding} (h : b.connect binding = .ok (m, b'))
    (hn : n < b.sessions.length) :
    b'.binding? n = b.binding? n ∧ b'.waiting n = b.waiting n ∧
      b'.hasReader n = b.hasReader n := by
  obtain ⟨-, -, rfl⟩ := connect_eq_ok h
  -- What is there already is pruned first, and then the new session is put at the end.
  let old : Memory := { b with sessions := b.sessions.map (prune binding.exchange) }
  have hold := observed_congr (show old.sessions = _ from rfl) (fun s => (prune_eq _ s).1)
    (fun s => (prune_eq _ s).2.2.1) (fun s => (prune_eq _ s).2.2.2) n
  have hlength : n < (b.sessions.map (prune binding.exchange)).length := by
    rw [List.length_map]
    exact hn
  unfold binding? waiting hasReader at hold ⊢
  rw [List.getElem?_append_left hlength]
  exact hold

theorem observed_connect_new {binding : Binding} (h : b.connect binding = .ok (n, b')) :
    b'.binding? n = some binding ∧ b'.waiting n = [] ∧ b'.hasReader n = true ∧ b'.Live n := by
  obtain ⟨hreachable, rfl, rfl⟩ := connect_eq_ok h
  have hnew : (b.sessions.map (prune binding.exchange) ++
      [(⟨binding, b.generation, [], true, true⟩ : Session)])[b.sessions.length]? =
      some ⟨binding, b.generation, [], true, true⟩ := by
    rw [List.getElem?_append_right (Nat.le_of_eq (List.length_map _)), List.length_map,
      Nat.sub_self]
    rfl
  unfold binding? waiting hasReader
  rw [live_iff, hnew]
  exact ⟨rfl, rfl, rfl, hreachable, rfl⟩

theorem live_connect {binding : Binding} (h : b.connect binding = .ok (m, b')) (hlive : b.Live n) :
    b'.Live n := by
  obtain ⟨hreachable, hs⟩ := live_iff.1 hlive
  obtain ⟨-, -, rfl⟩ := connect_eq_ok h
  refine live_iff.2 ⟨hreachable, ?_⟩
  obtain ⟨s, hs, hgeneration⟩ := Option.map_eq_some_iff.1 hs
  have hlength := (List.getElem?_eq_some_iff.1 hs).1
  rw [List.getElem?_append_left (by rw [List.length_map]; exact hlength), List.getElem?_map, hs,
    Option.map_some, Option.map_some, (prune_eq _ s).2.1, hgeneration]

/-! ## Publishing -/

/-- What becomes of a session when a message is handed out under the tags after `first` up to
`last`. -/
inductive Passed (sender : Binding) (payload : Bytes) (first last : Nat) (s : Session) :
    Session → Prop where
  | queued (tag : Nat) (hfirst : first < tag) (hlast : tag ≤ last)
      (hs : s.bound = true ∧ s.binding.exchange = sender.exchange) (hreading : s.reading = true) :
      Passed sender payload first last s
        { s with queue := s.queue ++ [⟨tag, sender.routingKey, payload⟩] }
  /-- Nobody reads from it. -/
  | unbound (hreading : s.reading = false) :
      Passed sender payload first last s { s with bound := false }
  | elsewhere (hs : ¬ (s.bound = true ∧ s.binding.exchange = sender.exchange)) :
      Passed sender payload first last s s

variable {sender : Binding} {payload : Bytes}

theorem Passed.mono {first first' last last' : Nat} {s t : Session}
    (h : Passed sender payload first last s t) (hfirst : first' ≤ first) (hlast : last ≤ last') :
    Passed sender payload first' last' s t := by
  cases h with
  | queued tag htag htag' hs hreading => exact .queued tag (by omega) (by omega) hs hreading
  | unbound hreading => exact .unbound hreading
  | elsewhere hs => exact .elsewhere hs

/-- A message is handed out session by session. -/
theorem distribute_spec (sender : Binding) (payload : Bytes) (ss : List Session) (tag : Nat) :
    tag ≤ (distribute sender payload tag ss).1 ∧
      (distribute sender payload tag ss).2.length = ss.length ∧
      ∀ (n : Nat) s, ss[n]? = some s → ∃ t, (distribute sender payload tag ss).2[n]? = some t ∧
        Passed sender payload tag (distribute sender payload tag ss).1 s t := by
  -- Each session bound to the exchange takes a tag of its own, so the tag is kept general.
  induction ss generalizing tag with
  | nil => exact ⟨Nat.le_refl _, rfl, fun n s hs => by cases hs⟩
  | cons head rest ih =>
    by_cases hhead : head.bound = true ∧ head.binding.exchange = sender.exchange
    · obtain ⟨hle, hlength, hrest⟩ := ih (tag + 1)
      simp only [distribute, if_pos hhead]
      refine ⟨by omega, by rw [List.length_cons, hlength, List.length_cons], fun n s hs => ?_⟩
      cases n with
      | zero =>
        cases hs
        refine ⟨_, rfl, ?_⟩
        -- Without a reader it gets nothing and is no longer bound.
        split
        case isTrue hreading => exact .queued (tag + 1) (by omega) hle hhead hreading
        case isFalse hreading => exact .unbound (by simpa using hreading)
      | succ n =>
        obtain ⟨t, ht, hpassed⟩ := hrest n s hs
        exact ⟨t, ht, hpassed.mono (by omega) (Nat.le_refl _)⟩
    · obtain ⟨hle, hlength, hrest⟩ := ih tag
      simp only [distribute, if_neg hhead]
      refine ⟨hle, by rw [List.length_cons, hlength, List.length_cons], fun n s hs => ?_⟩
      cases n with
      | zero =>
        cases hs
        exact ⟨_, rfl, .elsewhere hhead⟩
      | succ n => exact hrest n s hs

theorem publish_eq_ok (h : b.publish n payload = some (.ok b')) :
    ∃ s, b.sessions[n]? = some s ∧ b.check s = .ok () ∧
      b' = { b with
        sessions := (distribute s.binding payload b.lastTag b.sessions).2
        lastTag := (distribute s.binding payload b.lastTag b.sessions).1
        published := b.published + 1 } := by
  unfold publish at h
  obtain ⟨s, hs, heq⟩ := Option.map_eq_some_iff.1 h
  refine ⟨s, hs, ?_⟩
  cases hcheck : b.check s with
  | error e =>
    rw [hcheck] at heq
    cases heq
  | ok _ =>
    rw [hcheck] at heq
    cases heq
    exact ⟨rfl, rfl⟩

/-- A published message changes nothing but queues, and is put into a queue once. -/
theorem observed_publish (h : b.publish m payload = some (.ok b')) :
    ∃ sender, b.binding? m = some sender ∧ b.lastTag ≤ b'.lastTag ∧
      b'.published = b.published + 1 ∧
      ∀ n, b'.binding? n = b.binding? n ∧ b'.hasReader n = b.hasReader n ∧
        (b'.waiting n = b.waiting n ∨ ∃ tag, b.lastTag < tag ∧ tag ≤ b'.lastTag ∧
          b'.waiting n = b.waiting n ++ [⟨tag, sender.routingKey, payload⟩]) := by
  obtain ⟨sender, hsender, -, rfl⟩ := publish_eq_ok h
  obtain ⟨hle, hlength, hpassed⟩ := distribute_spec sender.binding payload b.sessions b.lastTag
  refine ⟨sender.binding, by rw [binding?, hsender]; rfl, hle, rfl, fun n => ?_⟩
  unfold binding? waiting hasReader
  cases hs : b.sessions[n]? with
  | none =>
    -- The sessions keep their places.
    have hnone := List.getElem?_eq_none_iff.1 hs
    rw [← hlength] at hnone
    rw [List.getElem?_eq_none_iff.2 hnone]
    exact ⟨rfl, rfl, .inl rfl⟩
  | some s =>
    obtain ⟨t, ht, hst⟩ := hpassed n s hs
    rw [ht]
    cases hst with
    | queued tag hfirst hlast hs hreading => exact ⟨rfl, rfl, .inr ⟨tag, hfirst, hlast, rfl⟩⟩
    | unbound hreading => exact ⟨rfl, rfl, .inl rfl⟩
    | elsewhere hs => exact ⟨rfl, rfl, .inl rfl⟩

theorem live_publish (h : b.publish m payload = some (.ok b')) (hlive : b.Live n) : b'.Live n := by
  obtain ⟨sender, -, -, rfl⟩ := publish_eq_ok h
  obtain ⟨hreachable, hs⟩ := live_iff.1 hlive
  obtain ⟨s, hs, hgeneration⟩ := Option.map_eq_some_iff.1 hs
  obtain ⟨-, -, hpassed⟩ := distribute_spec sender.binding payload b.sessions b.lastTag
  obtain ⟨t, ht, hst⟩ := hpassed n s hs
  refine live_iff.2 ⟨hreachable, ?_⟩
  rw [ht, Option.map_some, ← hgeneration]
  cases hst <;> rfl

/-! ## Reading -/

theorem observed_modify {f : Session → Session} (hn : m ≠ n) :
    (b.modify m f).binding? n = b.binding? n ∧ (b.modify m f).waiting n = b.waiting n ∧
      (b.modify m f).hasReader n = b.hasReader n := by
  unfold modify binding? waiting hasReader
  rw [List.getElem?_modify_ne _ _ hn]
  exact ⟨rfl, rfl, rfl⟩

theorem binding?_modify {f : Session → Session} (hbinding : ∀ s, (f s).binding = s.binding) :
    (b.modify m f).binding? n = b.binding? n := by
  unfold modify binding?
  rw [List.getElem?_modify]
  cases b.sessions[n]? with
  | none => rfl
  | some s =>
    show some (if m = n then f s else s).binding = some s.binding
    split
    · rw [hbinding]
    · rfl

theorem live_modify {f : Session → Session} (hgeneration : ∀ s, (f s).generation = s.generation) :
    (b.modify m f).Live n ↔ b.Live n := by
  rw [live_iff, live_iff]
  unfold modify
  rw [List.getElem?_modify]
  cases b.sessions[n]? with
  | none => exact Iff.rfl
  | some s =>
    show _ ∧ some (if m = n then f s else s).generation = _ ↔ _
    split
    · rw [hgeneration]
      exact Iff.rfl
    · exact Iff.rfl

theorem waiting_dropReader (b : Memory) (n : Nat) : (b.dropReader n).waiting n = [] := by
  unfold dropReader modify waiting
  rw [List.getElem?_modify_eq]
  cases b.sessions[n]? <;> rfl

theorem hasReader_eq_true_iff :
    b.hasReader n = true ↔ ∃ s, b.sessions[n]? = some s ∧ s.reading = true := by
  unfold hasReader
  cases b.sessions[n]? <;> simp

theorem waiting_eq {s : Session} (h : b.sessions[n]? = some s) : b.waiting n = s.queue := by
  rw [waiting, h]
  rfl

theorem next_eq_delivery {d : Delivery} (h : b.next n = some (.delivery d, b')) :
    ∃ rest, b.waiting n = d :: rest ∧ b' = b.modify n fun s => { s with queue := rest } := by
  unfold next at h
  obtain ⟨s, hs, h⟩ := Option.bind_eq_some_iff.1 h
  rw [waiting_eq hs]
  split at h
  case isTrue =>
    cases hqueue : s.queue with
    | nil =>
      -- An empty queue has no delivery, bound or not.
      rw [hqueue] at h
      cases hbound : s.bound <;> simp [hbound] at h
    | cons d rest =>
      rw [hqueue] at h
      cases h
      exact ⟨rest, rfl, rfl⟩
  case isFalse => cases h

theorem next_eq_other {found : Next} (h : b.next n = some (found, b'))
    (hfound : ∀ d, found ≠ .delivery d) : b' = b := by
  unfold next at h
  obtain ⟨s, hs, h⟩ := Option.bind_eq_some_iff.1 h
  split at h
  case isTrue =>
    cases hqueue : s.queue with
    | nil =>
      rw [hqueue] at h
      cases h
      rfl
    | cons d rest =>
      rw [hqueue] at h
      cases h
      exact absurd rfl (hfound d)
  case isFalse => cases h

theorem reading_of_next {found : Next} (h : b.next n = some (found, b')) :
    ∃ s, b.sessions[n]? = some s ∧ s.reading = true := by
  unfold next at h
  obtain ⟨s, hs, h⟩ := Option.bind_eq_some_iff.1 h
  split at h
  case isTrue hreading => exact ⟨s, hs, hreading⟩
  case isFalse => cases h

theorem next_of_waiting {d : Delivery} {rest : List Delivery} (hreader : b.hasReader n = true)
    (h : b.waiting n = d :: rest) :
    b.next n = some (.delivery d, b.modify n fun s => { s with queue := rest }) := by
  obtain ⟨s, hs, hreading⟩ := hasReader_eq_true_iff.1 hreader
  rw [waiting_eq hs] at h
  unfold next
  simp [hs, hreading, h]

theorem waiting_modify_queue {s : Session} (hs : b.sessions[n]? = some s) (rest : List Delivery) :
    (b.modify n fun s => { s with queue := rest }).waiting n = rest := by
  unfold modify waiting
  rw [List.getElem?_modify_eq, hs]
  rfl

theorem hasReader_modify_queue (rest : List Delivery) :
    (b.modify n fun s => { s with queue := rest }).hasReader m = b.hasReader m := by
  unfold modify hasReader
  rw [List.getElem?_modify]
  cases b.sessions[m]? with
  | none => rfl
  | some s =>
    show (if n = m then { s with queue := rest } else s).reading = s.reading
    split <;> rfl

theorem acknowledge_eq_ok (h : b.acknowledge n = some (.ok b')) :
    b' = { b with acknowledged := b.acknowledged + 1 } := by
  unfold acknowledge at h
  obtain ⟨s, -, h⟩ := Option.bind_eq_some_iff.1 h
  split at h
  case isTrue =>
    cases hcheck : b.check s with
    | error e =>
      rw [hcheck] at h
      cases h
    | ok _ =>
      rw [hcheck] at h
      cases h
      rfl
  case isFalse => cases h

theorem acknowledge_of_live (hreader : b.hasReader n = true) (hlive : b.Live n) :
    b.acknowledge n = some (.ok { b with acknowledged := b.acknowledged + 1 }) := by
  obtain ⟨s, hs, hcheck⟩ := hlive
  obtain ⟨t, ht, hreading⟩ := hasReader_eq_true_iff.1 hreader
  rw [hs] at ht
  cases ht
  unfold acknowledge
  simp [hs, hreading, hcheck, Except.map]

/-! ## Live sessions -/

/-- What holds of a broker at any time. -/
structure Sound (b : Memory) : Prop where
  generation_le : ∀ s ∈ b.sessions, s.generation ≤ b.generation
  bound : ∀ s ∈ b.sessions, s.reading = true → s.generation = b.generation → s.bound = true

theorem sound_start : start.Sound where
  generation_le s hs := by cases hs
  bound s hs := by cases hs

/-- As long as the broker does not go offline, a session loses its queue only with its reader. -/
theorem Sound.of_sessions (h : b.Sound) (hgeneration : b'.generation = b.generation)
    (hsessions : ∀ t ∈ b'.sessions, ∃ s ∈ b.sessions, t.generation = s.generation ∧
      (t.reading = true → s.reading = true ∧ t.bound = s.bound)) : b'.Sound where
  generation_le t ht := by
    obtain ⟨s, hs, heq, -⟩ := hsessions t ht
    rw [heq, hgeneration]
    exact h.generation_le s hs
  bound t ht hreading hnow := by
    obtain ⟨s, hs, heq, hkeeps⟩ := hsessions t ht
    obtain ⟨hreading, hbound⟩ := hkeeps hreading
    rw [hbound]
    exact h.bound s hs hreading (by rw [← heq, hnow, hgeneration])

theorem Sound.setReachable (h : b.Sound) (value : Bool) : (b.setReachable value).Sound := by
  unfold Memory.setReachable
  split
  · constructor
    · intro t ht
      obtain ⟨s, hs, rfl⟩ := List.mem_map.1 ht
      exact Nat.le_succ_of_le (h.generation_le s hs)
    · intro t ht _ hnow
      -- No session is of the new time.
      obtain ⟨s, hs, rfl⟩ := List.mem_map.1 ht
      have := h.generation_le s hs
      change s.generation = b.generation + 1 at hnow
      omega
  · exact ⟨h.generation_le, h.bound⟩

theorem Sound.connect (h : b.Sound) {binding : Binding} (hc : b.connect binding = .ok (n, b')) :
    b'.Sound := by
  obtain ⟨-, -, rfl⟩ := connect_eq_ok hc
  have hold : { b with sessions := b.sessions.map (prune binding.exchange) }.Sound := by
    refine h.of_sessions rfl fun t ht => ?_
    obtain ⟨s, hs, rfl⟩ := List.mem_map.1 ht
    refine ⟨s, hs, (prune_eq _ s).2.1, fun hreading => ?_⟩
    rw [(prune_eq _ s).2.2.2] at hreading
    exact ⟨hreading, by simp [prune, hreading]⟩
  constructor
  · intro t ht
    rcases List.mem_append.1 ht with ht | ht
    · exact hold.generation_le t ht
    · exact Nat.le_of_eq (congrArg Session.generation (List.mem_singleton.1 ht))
  · intro t ht hreading hnow
    rcases List.mem_append.1 ht with ht | ht
    · exact hold.bound t ht hreading hnow
    · rw [List.mem_singleton.1 ht]

theorem Sound.publish (h : b.Sound) (hp : b.publish n payload = some (.ok b')) : b'.Sound := by
  obtain ⟨sender, -, -, rfl⟩ := publish_eq_ok hp
  obtain ⟨-, hlength, hpassed⟩ := distribute_spec sender.binding payload b.sessions b.lastTag
  refine h.of_sessions rfl fun t ht => ?_
  -- A session afterwards stands where the session stood that it comes from.
  obtain ⟨m, hm⟩ := List.mem_iff_getElem?.1 ht
  have hlt := (List.getElem?_eq_some_iff.1 hm).1
  rw [hlength] at hlt
  have hs := List.getElem?_eq_getElem hlt
  obtain ⟨t', ht', hst⟩ := hpassed m _ hs
  rw [hm] at ht'
  cases ht'
  refine ⟨_, List.mem_of_getElem? hs, ?_⟩
  cases hst with
  | queued tag hfirst hlast hs hreading => exact ⟨rfl, fun hreading => ⟨hreading, rfl⟩⟩
  | unbound hnone =>
    refine ⟨rfl, fun hreading => ?_⟩
    rw [hnone] at hreading
    cases hreading
  | elsewhere hs => exact ⟨rfl, fun hreading => ⟨hreading, rfl⟩⟩

theorem Sound.modify (h : b.Sound) {f : Session → Session}
    (hf : ∀ s, (f s).generation = s.generation ∧
      ((f s).reading = true → s.reading = true ∧ (f s).bound = s.bound)) :
    (b.modify n f).Sound := by
  refine h.of_sessions rfl fun t ht => ?_
  obtain ⟨m, hm⟩ := List.mem_iff_getElem?.1 ht
  unfold Memory.modify at hm
  rw [List.getElem?_modify] at hm
  obtain ⟨s, hs, rfl⟩ := Option.map_eq_some_iff.1 hm
  refine ⟨s, List.mem_of_getElem? hs, ?_⟩
  show (if n = m then f s else s).generation = _ ∧ _
  split
  · exact hf s
  · exact ⟨rfl, fun hreading => ⟨hreading, rfl⟩⟩

theorem Sound.bound_of_live (h : b.Sound) (hreader : b.hasReader n = true) (hlive : b.Live n) :
    ∃ s, b.sessions[n]? = some s ∧ s.reading = true ∧ s.bound = true := by
  obtain ⟨s, hs, hcheck⟩ := hlive
  obtain ⟨t, ht, hreading⟩ := hasReader_eq_true_iff.1 hreader
  rw [hs] at ht
  cases ht
  exact ⟨s, hs, hreading, h.bound s (List.mem_of_getElem? hs) hreading (check_eq_ok_iff.1 hcheck).2⟩

theorem Sound.next_of_empty (h : b.Sound) (hreader : b.hasReader n = true) (hlive : b.Live n)
    (hw : b.waiting n = []) : b.next n = some (.pending, b) := by
  obtain ⟨s, hs, hreading, hbound⟩ := h.bound_of_live hreader hlive
  rw [waiting_eq hs] at hw
  unfold next
  simp [hs, hreading, hbound, hw]

/-- A message gets into the queue of every live session on its exchange that has a reader. -/
theorem Sound.waiting_publish (h : b.Sound) {sender receiver : Binding}
    (hp : b.publish m payload = some (.ok b')) (hsender : b.binding? m = some sender)
    (hreceiver : b.binding? n = some receiver) (hexchange : receiver.exchange = sender.exchange)
    (hreader : b.hasReader n = true) (hlive : b.Live n) :
    ∃ tag, b.lastTag < tag ∧ tag ≤ b'.lastTag ∧
      b'.waiting n = b.waiting n ++ [⟨tag, sender.routingKey, payload⟩] := by
  obtain ⟨s, hs, hreading, hbound⟩ := h.bound_of_live hreader hlive
  obtain ⟨own, hfrom, -, rfl⟩ := publish_eq_ok hp
  rw [binding?, hfrom] at hsender
  cases hsender
  rw [binding?, hs] at hreceiver
  cases hreceiver
  obtain ⟨-, -, hpassed⟩ := distribute_spec own.binding payload b.sessions b.lastTag
  obtain ⟨t, ht, hst⟩ := hpassed n s hs
  rw [waiting_eq hs, waiting_eq (b := { b with sessions := _, lastTag := _, published := _ }) ht]
  -- It has a reader and is bound, so only the first way is left.
  cases hst with
  | queued tag hfirst hlast hs hreading => exact ⟨tag, hfirst, hlast, rfl⟩
  | unbound hnone =>
    rw [hreading] at hnone
    cases hnone
  | elsewhere hs => exact absurd ⟨hbound, hexchange⟩ hs

end Memory

end EvictionBus.Broker
